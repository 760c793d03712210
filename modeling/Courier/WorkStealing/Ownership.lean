import Courier.WorkStealing

/-!
# Who owns the tasks

Every registered task is in one place, the ready list or the running tasks of its owner (`Owned`).  Stealing takes a
task that is ready, gives it to its new owner and counts its token up, so that who held it is refused
(`owned_of_reached`).
-/

namespace Courier.WorkStealing

open Cluster

/-! ### Places -/

def placesOf (id : Str) (worker : WorkerNodeDescriptor) : List (Str × Nat) :=
  (worker.readyTasks ++ worker.runningTasks.values).map (id, ·)

def places (workers : Dict Str WorkerNodeDescriptor) : List (Str × Nat) :=
  workers.entries.flatMap fun node => placesOf node.1 node.2

def owned (s : Cluster) : List (Str × Nat) :=
  s.taskRegistry.values.map fun r => ((s.tasks r).owner, r)

structure Owned (s : Cluster) : Prop where
  placed : (places s.workers).Perm (owned s)
  ids : ∀ id r, s.taskRegistry.get? id = some r → (s.tasks r).taskId = id ∧ r < s.next
  running : ∀ id worker, s.workers.get? id = some worker → ∀ task r, worker.runningTasks.get? task = some r →
    (s.tasks r).taskId = task

section Places

variable {s s' : Cluster} {workers : Dict Str WorkerNodeDescriptor} {worker worker' : WorkerNodeDescriptor} {id : Str}
  {r : Nat}

theorem places_erase (hworker : workers.get? id = some worker) :
  (places workers).Perm (placesOf id worker ++ places (workers.erase id))
  := (Dict.perm_entries_erase hworker).flatMap_right _

theorem places_set (workers : Dict Str WorkerNodeDescriptor) (id : Str) (worker : WorkerNodeDescriptor) :
  (places (workers.set id worker)).Perm (placesOf id worker ++ places (workers.erase id))
  := (Dict.perm_entries_set workers id worker).flatMap_right _

theorem places_push (hworker : workers.get? id = some worker)
    (hmore : (placesOf id worker').Perm ((id, r) :: placesOf id worker)) :
  (places (workers.set id worker')).Perm ((id, r) :: places workers)
  := by
  apply (places_set workers id worker').trans
  apply (hmore.append_right _).trans
  apply ((places_erase hworker).symm.cons _)

theorem places_pop (hworker : workers.get? id = some worker)
    (hless : (placesOf id worker).Perm ((id, r) :: placesOf id worker')) :
  (places workers).Perm ((id, r) :: places (workers.set id worker'))
  := by
  apply (places_erase hworker).trans
  apply (hless.append_right _).trans
  apply ((places_set workers id worker').symm.cons _)

theorem mem_places (hworker : workers.get? id = some worker)
    (hr : r ∈ worker.readyTasks ∨ r ∈ worker.runningTasks.values) :
  (id, r) ∈ places workers
  := by
  apply List.mem_flatMap.mpr
  use (id, worker), Dict.get?_eq_some.mp hworker
  simpa [placesOf] using hr

theorem Owned.nodup (h : Owned s) :
  s.taskRegistry.values.Nodup ∧ (places s.workers).Nodup
  := by
  have hkeys : s.taskRegistry.values.map (fun r => (s.tasks r).taskId) = s.taskRegistry.keys := by
    rw [Dict.values, Dict.keys, List.map_map]
    apply List.map_congr_left
    intro p hp
    apply (h.ids p.1 p.2 (Dict.get?_eq_some.mpr hp)).1
  have hvalues : s.taskRegistry.values.Nodup := .of_map _ (by rw [hkeys]; apply s.taskRegistry.nodup)
  use hvalues
  rw [h.placed.nodup_iff]
  apply hvalues.map
  intro a b hab
  apply (Prod.mk.inj hab).2

theorem Owned.registered (h : Owned s) (hr : (id, r) ∈ places s.workers) :
  (s.tasks r).owner = id ∧ s.taskRegistry.get? (s.tasks r).taskId = some r
  := by
  obtain ⟨r', hmem, heq⟩ := List.mem_map.mp (h.placed.subset hr)
  obtain ⟨rfl, rfl⟩ := Prod.mk.inj heq
  obtain ⟨task, hget⟩ := Dict.mem_values.mp hmem
  rw [(h.ids task r' hget).1]
  use rfl, hget

end Places

/-! ### What is taken out of a list -/

theorem takeFirst_perm {p : Nat → Bool} {l rest : List Nat} {a : Nat} (h : takeFirst p l = some (a, rest)) :
  l.Perm (a :: rest) ∧ p a = true
  := by
  induction l generalizing rest with
  | nil => cases h
  | cons b l ih =>
    rw [takeFirst] at h
    split_ifs at h with hb
    · cases h
      use .refl _, hb
    · obtain ⟨⟨c, left⟩, hfound, heq⟩ := Option.map_eq_some_iff.mp h
      obtain ⟨rfl, rfl⟩ := Prod.mk.inj heq
      obtain ⟨hperm, hc⟩ := ih hfound
      use (hperm.cons b).trans (.swap _ _ _), hc

theorem takeLast_perm {p : Nat → Bool} {l rest : List Nat} {a : Nat} (h : takeLast p l = some (a, rest)) :
  l.Perm (a :: rest) ∧ p a = true
  := by
  obtain ⟨⟨b, left⟩, hfound, heq⟩ := Option.map_eq_some_iff.mp h
  obtain ⟨rfl, rfl⟩ := Prod.mk.inj heq
  obtain ⟨hperm, hb⟩ := takeFirst_perm hfound
  use (List.reverse_perm l).symm.trans (hperm.trans ((List.reverse_perm left).symm.cons _)), hb

/-! ### What the calls keep -/

section Calls

variable {s s' : Cluster} {worker worker' : WorkerNodeDescriptor} {id task : Str} {r : Nat}

theorem getWorker_eq_ok :
  s.getWorker id = .ok worker ↔ s.workers.get? id = some worker
  := by
  unfold getWorker
  cases s.workers.get? id <;> simp

theorem Owned.setWorker (h : Owned s) (hplaces : (places (s.workers.set id worker')).Perm (places s.workers))
    (hrunning : ∀ task r, worker'.runningTasks.get? task = some r → (s.tasks r).taskId = task) :
  Owned (s.setWorker id worker')
  := by
  refine ⟨hplaces.trans h.placed, h.ids, fun other found hfound => ?_⟩
  rw [Cluster.setWorker, Dict.get?_set] at hfound
  split_ifs at hfound
  · cases hfound
    apply hrunning
  · apply h.running other found hfound

theorem Owned.registerWorker (h : Owned s) (id : Str) (capacity : Int) (capabilities : List Str) :
  Owned (s.registerWorker id capacity capabilities)
  := by
  unfold Cluster.registerWorker
  split
  · next worker hworker =>
    apply h.setWorker
    · exact (places_set _ _ _).trans (places_erase hworker).symm
    · apply h.running id worker hworker
  · next hworker =>
    apply h.setWorker
    · have hset := places_set s.workers id ⟨max 1 capacity, capabilities, [], ∅⟩
      rw [Dict.erase_of_notMem hworker] at hset
      apply hset
    · rintro _ _ ⟨⟩

theorem Owned.enqueueTask {task : StealableTask} (h : Owned s) (henqueue : s.enqueueTask id task = .ok s') :
  Owned s'
  := by
  unfold Cluster.enqueueTask at henqueue
  split_ifs at henqueue with hnew
  obtain ⟨worker, hworker, henqueue⟩ := Except.bind_eq_ok.mp henqueue
  rw [getWorker_eq_ok] at hworker
  cases henqueue
  have hnone := Dict.get?_eq_none.mpr hnew
  have hold : ∀ r ∈ s.taskRegistry.values, r ≠ s.next := by
    intro r hr
    obtain ⟨other, hother⟩ := Dict.mem_values.mp hr
    apply (h.ids other r hother).2.ne
  have hrunning : ∀ other found, s.workers.get? other = some found → ∀ task r,
      found.runningTasks.get? task = some r → r ≠ s.next := by
    intro other found hfound task r hr
    apply hold
    apply Dict.mem_values.mpr ⟨_, (h.registered (mem_places hfound (.inr (Dict.mem_values.mpr ⟨task, hr⟩)))).2⟩
  constructor
  case placed =>
    apply (places_push hworker (r := s.next) _).trans
    · have howned : (s.taskRegistry.values.map fun r =>
          ((Function.update s.tasks s.next { task with owner := id } r).owner, r)) = owned s := by
        apply List.map_congr_left
        intro r hr
        rw [Function.update_of_ne (hold r hr)]
      rw [owned, Dict.values_set_new hnone, List.map_append, howned, List.map_singleton]
      dsimp only
      rw [Function.update_self]
      apply ((h.placed.cons _).trans (List.perm_append_singleton _ _).symm)
    · unfold placesOf
      rw [List.append_assoc]
      exact List.perm_middle.map _
  case ids =>
    intro other r hr
    dsimp only at hr ⊢
    rw [Dict.get?_set] at hr
    split_ifs at hr with hother
    · cases hr
      rw [Function.update_self, hother]
      use rfl, Nat.lt_succ_self _
    · obtain ⟨hid, hlt⟩ := h.ids other r hr
      rw [Function.update_of_ne hlt.ne]
      use hid, Nat.lt_succ_of_lt hlt
  case running =>
    intro other found hfound task' r hr
    dsimp only at hfound ⊢
    rw [Dict.get?_set] at hfound
    split_ifs at hfound with hother
    · cases hfound
      rw [Function.update_of_ne (hrunning id worker hworker task' r hr)]
      apply h.running id worker hworker task' r hr
    · rw [Function.update_of_ne (hrunning other found hfound task' r hr)]
      apply h.running other found hfound task' r hr

theorem Owned.startTask (h : Owned s) (hstart : s.startTask id task = .ok s') :
  Owned s'
  := by
  obtain ⟨worker, hworker, hstart⟩ := Except.bind_eq_ok.mp hstart
  rw [getWorker_eq_ok] at hworker
  split at hstart
  · cases hstart
  · next r rest hfound =>
    cases hstart
    obtain ⟨hready, htask⟩ := takeFirst_perm hfound
    rw [decide_eq_true_eq] at htask
    have hplace := h.registered (mem_places hworker (.inl (hready.symm.subset List.mem_cons_self)))
    -- A task that is ready does not run as well.
    have hnone : worker.runningTasks.get? task = none := by
      cases hrunning : worker.runningTasks.get? task with
      | none => rfl
      | some r' =>
        have hvalue : r' ∈ worker.runningTasks.values := Dict.mem_values.mpr ⟨task, hrunning⟩
        have hother := h.registered (mem_places hworker (.inr hvalue))
        rw [h.running id worker hworker task r' hrunning, ← htask, hplace.2] at hother
        obtain rfl := Option.some.inj hother.2
        have hnodup := (places_erase hworker).nodup_iff.mp h.nodup.2
        have hboth := (List.nodup_append.mp hnodup).1.of_map
        have hready := hready.symm.subset List.mem_cons_self
        exact absurd rfl ((List.nodup_append.mp hboth).2.2 r hready r hvalue)
    apply h.setWorker
    · apply (places_set _ _ _).trans
      apply List.Perm.trans _ (places_erase hworker).symm
      apply List.Perm.append_right
      unfold placesOf
      apply List.Perm.map
      rw [Dict.values_set_new hnone, ← List.append_assoc]
      apply (List.perm_append_singleton r _).trans
      apply (hready.append_right _).symm
    · intro other r' hr'
      rw [Dict.get?_set] at hr'
      split_ifs at hr' with hother
      · cases hr'
        rw [htask, hother]
      · apply h.running id worker hworker other r' hr'

theorem Owned.completeTask {done : Bool} (h : Owned s) (hcomplete : s.completeTask id task = .ok (done, s')) :
  Owned s'
  := by
  obtain ⟨worker, hworker, hcomplete⟩ := Except.bind_eq_ok.mp hcomplete
  rw [getWorker_eq_ok] at hworker
  split_ifs at hcomplete with hmem
  · cases hcomplete
    obtain ⟨r, hr⟩ := Option.isSome_iff_exists.mp (Dict.get?_isSome.mpr hmem)
    have hplace := h.registered (mem_places hworker (.inr (Dict.mem_values.mpr ⟨task, hr⟩)))
    rw [h.running id worker hworker task r hr] at hplace
    constructor
    case placed =>
      have hpop : (places s.workers).Perm ((id, r) :: places (s.workers.set id
          { worker with runningTasks := worker.runningTasks.erase task })) := by
        apply places_pop hworker
        unfold placesOf
        rw [← List.map_cons (f := (id, ·))]
        apply List.Perm.map
        apply ((Dict.perm_values_erase hr).append_left _).trans List.perm_middle
      have howned : (owned s).Perm ((id, r) :: (s.taskRegistry.erase task).values.map fun r =>
          ((s.tasks r).owner, r)) := by
        rw [← hplace.1]
        apply (Dict.perm_values_erase hplace.2).map
      apply (hpop.symm.trans (h.placed.trans howned)).cons_inv
    case ids =>
      intro other r' hr'
      rw [Dict.get?_erase] at hr'
      split_ifs at hr'
      apply h.ids other r' hr'
    case running =>
      intro other found hfound task' r' hr'
      rw [Dict.get?_set] at hfound
      split_ifs at hfound
      · cases hfound
        rw [Dict.get?_erase] at hr'
        split_ifs at hr'
        apply h.running id worker hworker task' r' hr'
      · apply h.running other found hfound task' r' hr'
  · cases hcomplete
    apply h

theorem stealTask_eq_ok {stealerId victimId : Str} (hsteal : s.stealTask stealerId victimId = .ok (r, s')) :
  ∃ stealer victim rest stealer', s.workers.get? stealerId = some stealer ∧ s.workers.get? victimId = some victim ∧
    (stealer.totalLoad : Int) < stealer.capacity ∧ s.eligible stealer.capabilities r = true ∧
    victim.readyTasks.Perm (r :: rest) ∧
    (s.workers.set victimId { victim with readyTasks := rest }).get? stealerId = some stealer' ∧
    s' = { s with
      workers := (s.workers.set victimId { victim with readyTasks := rest }).set stealerId
        { stealer' with readyTasks := stealer'.readyTasks ++ [r] }
      tasks := Function.update s.tasks r ((s.tasks r).stolenBy stealerId) }
  := by
  obtain ⟨stealer, hstealer, hsteal⟩ := Except.bind_eq_ok.mp hsteal
  obtain ⟨victim, hvictim, hsteal⟩ := Except.bind_eq_ok.mp hsteal
  rw [getWorker_eq_ok] at hstealer hvictim
  split_ifs at hsteal with hfull hnone
  split at hsteal
  · cases hsteal
  · next r rest hfound =>
    obtain ⟨stealer', hstealer', hsteal⟩ := Except.bind_eq_ok.mp hsteal
    rw [getWorker_eq_ok] at hstealer'
    cases hsteal
    obtain ⟨hready, heligible⟩ := takeLast_perm hfound
    exact ⟨stealer, victim, rest, stealer', hstealer, hvictim, by omega, heligible, hready, hstealer', rfl⟩

theorem Owned.stealTask {stealerId victimId : Str} (h : Owned s)
    (hsteal : s.stealTask stealerId victimId = .ok (r, s')) :
  Owned s'
  := by
  obtain ⟨stealer, victim, rest, stealer', -, hvictim, -, -, hready, hstealer', rfl⟩ := stealTask_eq_ok hsteal
  have hmem : r ∈ victim.readyTasks := hready.symm.subset List.mem_cons_self
  obtain ⟨howner, hget⟩ := h.registered (mem_places hvictim (.inl hmem))
  have htask : ∀ r', (Function.update s.tasks r ((s.tasks r).stolenBy stealerId) r').taskId = (s.tasks r').taskId := by
    intro r'
    by_cases hr : r' = r
    · rw [hr, Function.update_self]
      rfl
    · rw [Function.update_of_ne hr]
  constructor
  case placed =>
    have hpop : (places s.workers).Perm ((victimId, r) :: places (s.workers.set victimId
        { victim with readyTasks := rest })) := by
      apply places_pop hvictim
      unfold placesOf
      exact (hready.append_right _).map (victimId, ·)
    have hpush : (places ((s.workers.set victimId { victim with readyTasks := rest }).set stealerId
        { stealer' with readyTasks := stealer'.readyTasks ++ [r] })).Perm
          ((stealerId, r) :: places (s.workers.set victimId { victim with readyTasks := rest })) := by
      apply places_push hstealer'
      unfold placesOf
      rw [List.append_assoc]
      exact List.perm_middle.map _
    have hvalues := Dict.perm_values_erase hget
    have hnodup := hvalues.nodup_iff.mp h.nodup.1
    have hbefore : (owned s).Perm ((victimId, r) :: (s.taskRegistry.erase (s.tasks r).taskId).values.map fun r' =>
        ((s.tasks r').owner, r')) := by
      rw [← howner]
      exact hvalues.map _
    have hrest := (hpop.symm.trans (h.placed.trans hbefore)).cons_inv
    apply hpush.trans
    apply List.Perm.trans _ (hvalues.map _).symm
    rw [List.map_cons]
    dsimp only
    rw [Function.update_self]
    apply List.Perm.cons
    have hothers : ((s.taskRegistry.erase (s.tasks r).taskId).values.map fun r' => ((Function.update s.tasks r
        ((s.tasks r).stolenBy stealerId) r').owner, r')) =
          (s.taskRegistry.erase (s.tasks r).taskId).values.map fun r' => ((s.tasks r').owner, r') := by
      apply List.map_congr_left
      intro r' hr'
      rw [Function.update_of_ne (by rintro rfl; exact (List.nodup_cons.mp hnodup).1 hr')]
    rw [hothers]
    apply hrest
  case ids =>
    intro other r' hr'
    dsimp only
    rw [htask]
    apply h.ids other r' hr'
  case running =>
    have hpopped : ∀ other found, (s.workers.set victimId { victim with readyTasks := rest }).get? other = some found →
        ∀ task r', found.runningTasks.get? task = some r' → (s.tasks r').taskId = task := by
      intro other found hfound
      rw [Dict.get?_set] at hfound
      split_ifs at hfound
      · cases hfound
        apply h.running victimId victim hvictim
      · apply h.running other found hfound
    intro other found hfound task r' hr'
    dsimp only at hfound ⊢
    rw [htask]
    rw [Dict.get?_set] at hfound
    split_ifs at hfound
    · cases hfound
      apply hpopped stealerId stealer' hstealer' task r' hr'
    · apply hpopped other found hfound task r' hr'

theorem mem_activeNodes {node : Str × WorkerNodeDescriptor} (hnode : node ∈ s.activeNodes) :
  s.workers.get? node.1 = some node.2
  := by
  rw [activeNodes, List.mem_insertionSort, List.mem_filter] at hnode
  apply Dict.get?_eq_some.mpr hnode.1

theorem rebalanceTurn_spec (hturn : s.rebalanceTurn = some s') :
  ∃ (most least : Str × WorkerNodeDescriptor) (r : Nat), s.workers.get? most.1 = some most.2 ∧ s.workers.get? least.1 = some least.2 ∧
    least.2.totalLoad + 1 < most.2.totalLoad ∧ s.stealTask least.1 most.1 = .ok (r, s')
  := by
  unfold Cluster.rebalanceTurn at hturn
  dsimp only at hturn
  split_ifs at hturn
  split at hturn
  · next most least hmost hleast =>
    split_ifs at hturn with hcan
    obtain ⟨⟨r, after⟩, hsteal, rfl⟩ := Option.map_eq_some_iff.mp hturn
    have hresult : s.stealTask least.1 most.1 = .ok (r, after) := by
      cases hresult : s.stealTask least.1 most.1 with
      | error => simp [hresult, Except.toOption] at hsteal
      | ok found =>
        rw [hresult] at hsteal
        rw [Option.some.inj hsteal]
    exact ⟨most, least, r, mem_activeNodes (List.mem_of_head? hmost), mem_activeNodes (List.mem_of_getLast? hleast),
      hcan.1, hresult⟩
  · cases hturn

theorem Owned.rebalance {fuel moved : Nat} (h : Owned s) (hrebalance : s.rebalance fuel = some (moved, s')) :
  Owned s'
  := by
  refine (Loop.run_invariant (I := fun t : Nat × Cluster => Owned t.2) ?_ h hrebalance).1
  intro t ht hturn
  cases hnext : t.2.rebalanceTurn with
  | none => simp [hnext] at hturn
  | some next =>
    obtain ⟨_, _, _, -, -, -, hsteal⟩ := rebalanceTurn_spec hnext
    exact ht.stealTask hsteal

end Calls

/-! ### Runs -/

/-- The clusters that calls lead to. -/
inductive Reached : Cluster → Prop
  | start {tasks : Nat → StealableTask} : Reached ⟨∅, ∅, tasks, 0⟩
  | registerWorker {s : Cluster} {id : Str} {capacity : Int} {capabilities : List Str} :
      Reached s → Reached (s.registerWorker id capacity capabilities)
  | enqueueTask {s s' : Cluster} {id : Str} {task : StealableTask} :
      Reached s → s.enqueueTask id task = .ok s' → Reached s'
  | startTask {s s' : Cluster} {id task : Str} : Reached s → s.startTask id task = .ok s' → Reached s'
  | completeTask {s s' : Cluster} {id task : Str} {done : Bool} :
      Reached s → s.completeTask id task = .ok (done, s') → Reached s'
  | stealTask {s s' : Cluster} {stealerId victimId : Str} {r : Nat} :
      Reached s → s.stealTask stealerId victimId = .ok (r, s') → Reached s'
  | rebalance {s s' : Cluster} {fuel moved : Nat} : Reached s → s.rebalance fuel = some (moved, s') → Reached s'

theorem Reached.owned {s : Cluster} (h : Reached s) :
  Owned s
  := by
  induction h with
  | start =>
    refine ⟨.refl _, ?_, ?_⟩
    · rintro _ _ ⟨⟩
    · rintro _ _ ⟨⟩
  | registerWorker _ ih => exact ih.registerWorker _ _ _
  | enqueueTask _ henqueue ih => exact ih.enqueueTask henqueue
  | startTask _ hstart ih => exact ih.startTask hstart
  | completeTask _ hcomplete ih => exact ih.completeTask hcomplete
  | stealTask _ hsteal ih => exact ih.stealTask hsteal
  | rebalance _ hrebalance ih => exact ih.rebalance hrebalance

theorem verifyExecutionToken_iff {s : Cluster} {task worker : Str} {token : Int} :
  s.verifyExecutionToken task worker token = .ok true ↔
    ∃ r, s.taskRegistry.get? task = some r ∧ (s.tasks r).owner = worker ∧ (s.tasks r).fencingToken = token
  := by
  unfold Cluster.verifyExecutionToken
  cases s.taskRegistry.get? task with
  | none => simp
  | some r =>
    dsimp only
    split_ifs with hstale
    · simp only [Option.some.injEq, exists_eq_left', false_iff, not_and]
      tauto
    · simp only [Option.some.injEq, exists_eq_left', true_iff]
      tauto

/-- What a steal does: it takes a task that does not run, gives it to the stealer and counts it up, and who held it is
refused. -/
structure Stolen (s s' : Cluster) (stealerId : Str) (r : Nat) : Prop where
  ready : ∀ id worker, s.workers.get? id = some worker → r ∉ worker.runningTasks.values
  registry : s'.taskRegistry = s.taskRegistry ∧ s.taskRegistry.get? (s.tasks r).taskId = some r
  owner : (s'.tasks r).owner = stealerId
  token : (s'.tasks r).fencingToken = (s.tasks r).fencingToken + 1
  others : ∀ r', r' ≠ r → s'.tasks r' = s.tasks r'
  refused : ∀ worker token, s.verifyExecutionToken (s.tasks r).taskId worker token = .ok true →
    s'.verifyExecutionToken (s.tasks r).taskId worker token ≠ .ok true

theorem Owned.stolen {s s' : Cluster} {stealerId victimId : Str} {r : Nat} (h : Owned s)
    (hsteal : s.stealTask stealerId victimId = .ok (r, s')) :
  Stolen s s' stealerId r
  := by
  obtain ⟨stealer, victim, rest, stealer', -, hvictim, -, -, hready, -, rfl⟩ := stealTask_eq_ok hsteal
  have hmem : r ∈ victim.readyTasks := hready.symm.subset List.mem_cons_self
  obtain ⟨howner, hget⟩ := h.registered (mem_places hvictim (.inl hmem))
  have hself := Function.update_self r ((s.tasks r).stolenBy stealerId) s.tasks
  constructor
  case ready =>
    intro id worker hworker hrunning
    obtain ⟨hother, -⟩ := h.registered (mem_places hworker (.inr hrunning))
    obtain rfl := howner.symm.trans hother
    obtain rfl := Option.some.inj (hvictim.symm.trans hworker)
    have hnodup := (places_erase hvictim).nodup_iff.mp h.nodup.2
    have hboth := (List.nodup_append.mp hnodup).1.of_map
    exact absurd rfl ((List.nodup_append.mp hboth).2.2 r hmem r hrunning)
  case registry => exact ⟨rfl, hget⟩
  case owner => exact congrArg StealableTask.owner hself
  case token => exact congrArg StealableTask.fencingToken hself
  case others => exact fun r' hr' => Function.update_of_ne hr' _ _
  case refused =>
    intro worker token hbefore hafter
    obtain ⟨r₁, hget₁, -, htoken₁⟩ := verifyExecutionToken_iff.mp hbefore
    obtain ⟨r₂, hget₂, -, htoken₂⟩ := verifyExecutionToken_iff.mp hafter
    obtain rfl := Option.some.inj (hget.symm.trans hget₁)
    obtain rfl := Option.some.inj (hget.symm.trans hget₂)
    have hcounted := congrArg StealableTask.fencingToken hself
    dsimp only [StealableTask.stolenBy] at hcounted htoken₂
    omega

theorem owned_of_reached {s : Cluster} (h : Reached s) :
  (places s.workers).Perm (owned s) ∧ (places s.workers).Nodup ∧
    (∀ stealerId victimId r s', s.stealTask stealerId victimId = .ok (r, s') → Stolen s s' stealerId r) ∧
    ∀ task worker token, s.verifyExecutionToken task worker token = .ok true ↔
      ∃ r, s.taskRegistry.get? task = some r ∧ (s.tasks r).owner = worker ∧ (s.tasks r).fencingToken = token
  := by
  refine ⟨h.owned.placed, h.owned.nodup.2, fun _ _ _ _ hsteal => ?_, fun _ _ _ => ?_⟩
  · apply h.owned.stolen hsteal
  · apply verifyExecutionToken_iff

def twoWorkers : Cluster :=
  (registerWorker ⟨∅, ∅, fun _ => ⟨[], [], [], 0⟩, 0⟩ [97] 4 []).registerWorker [98] 4 []

theorem owned_of_steal :
  ∃ s r s', twoWorkers.enqueueTask [97] ⟨[116], [], [], 0⟩ = .ok s ∧ s.stealTask [98] [97] = .ok (r, s') ∧
    Stolen s s' [98] r
  := by
  have hworkers : Reached twoWorkers := Reached.start.registerWorker.registerWorker
  have hcalls : ∃ s r s', twoWorkers.enqueueTask [97] ⟨[116], [], [], 0⟩ = .ok s ∧
      s.stealTask [98] [97] = .ok (r, s') := ⟨_, _, _, rfl, rfl⟩
  obtain ⟨s, r, s', henqueue, hsteal⟩ := hcalls
  exact ⟨s, r, s', henqueue, hsteal, (owned_of_reached (hworkers.enqueueTask henqueue)).2.2.1 [98] [97] r s' hsteal⟩

end Courier.WorkStealing
