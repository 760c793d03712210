import Courier.Scheduler

/-!
# What the scheduler keeps

The ids of the tasks stay distinct, no more tasks run than there are slots, and a task stays until it is completed or
cancelled.  A tick ends (`tick_ends`), and then no waiting task is more urgent than a preemptible one that it left
running (`Served`).
-/

namespace Courier.Scheduler.PriorityPreemptionScheduler

variable {s s' s₀ : PriorityPreemptionScheduler} {now : ℚ} {task : ScheduledTask}
  {dispatched : List ScheduledTask}

def ids (s : PriorityPreemptionScheduler) : List Str :=
  s.readyQueue.map (·.taskId) ++ s.runningTasks.keys

structure Sound (s : PriorityPreemptionScheduler) : Prop where
  unique : s.ids.Nodup
  keyed : ∀ k t, s.runningTasks.get? k = some t → t.taskId = k
  slots : s.activeSlotsCount ≤ s.maxSlots

theorem activeSlotsCount_eq (s : PriorityPreemptionScheduler) :
  s.activeSlotsCount = s.runningTasks.keys.length
  := by
  rw [activeSlotsCount, Dict.length_values]

theorem Sound.get?_of_mem (h : Sound s) (ht : task ∈ s.runningTasks.values) :
  s.runningTasks.get? task.taskId = some task
  := by
  obtain ⟨k, hk⟩ := Dict.mem_values.mp ht
  rw [h.keyed k task hk]
  exact hk

theorem Sound.notMem_queue (h : Sound s) {k : Str} (hk : k ∈ s.runningTasks.keys) :
  k ∉ s.readyQueue.map (·.taskId)
  := by
  intro hmem
  exact (List.nodup_append.mp h.unique).2.2 k hmem k hk rfl

/-! ### Passes -/

/-- What a pass does.  `highest` is the most urgent of the waiting tasks and `rest` are the others. -/
inductive Passed (s : PriorityPreemptionScheduler) (dispatched : List ScheduledTask) (now : ℚ) :
    Pass → Prop where
  | empty (queue : s.readyQueue = []) : Passed s dispatched now (.over s)
  | granted {highest : ScheduledTask} {rest : List ScheduledTask}
      (queue : s.readyQueue.Perm (highest :: rest))
      (free : s.activeSlotsCount < s.maxSlots) :
      Passed s dispatched now (.again
        { s with
          readyQueue := rest
          runningTasks := s.runningTasks.set highest.taskId (started highest now) }
        (dispatched ++ [started highest now]))
  | preempting {highest lowest : ScheduledTask} {rest : List ScheduledTask}
      (queue : s.readyQueue.Perm (highest :: rest))
      (full : s.maxSlots ≤ s.activeSlotsCount)
      (running : lowest ∈ s.runningTasks.values)
      (preemptible : lowest.preemptible = true)
      (new : lowest ∉ dispatched)
      (least : ∀ t ∈ s.runningTasks.values, t.preemptible = true → t ∉ dispatched →
        s.effectivePriority lowest now ≤ s.effectivePriority t now)
      (urgent : s.effectivePriority lowest now < s.effectivePriority highest now) :
      Passed s dispatched now (.again
        { s with
          readyQueue := rest ++ [preempted lowest]
          runningTasks := (s.runningTasks.erase lowest.taskId).set highest.taskId
            (started highest now) }
        (dispatched ++ [started highest now]))
  | waiting {queue : List ScheduledTask}
      (perm : s.readyQueue.Perm queue)
      (full : s.maxSlots ≤ s.activeSlotsCount)
      (served : ∀ r ∈ queue, ∀ t ∈ s.runningTasks.values, t.preemptible = true → t ∉ dispatched →
        s.effectivePriority r now ≤ s.effectivePriority t now) :
      Passed s dispatched now (.over { s with readyQueue := queue })

theorem mem_candidates :
  task ∈ s.candidates dispatched now ↔
    task ∈ s.runningTasks.values ∧ task.preemptible = true ∧ task ∉ dispatched
  := by
  rw [candidates, List.mem_insertionSort, List.mem_filter]
  simp

variable {highest : ScheduledTask} {rest : List ScheduledTask}

theorem le_of_sortedQueue
    (h : s.sortedQueue now = highest :: rest) :
  ∀ r ∈ highest :: rest, s.effectivePriority r now ≤ s.effectivePriority highest now
  := by
  have hsorted := List.pairwise_insertionSort (fun a b => s.sortKey now b ≤ s.sortKey now a)
    s.readyQueue
  rw [← sortedQueue, h, List.pairwise_cons] at hsorted
  intro r hr
  rcases List.mem_cons.mp hr with rfl | hrest
  · exact le_rfl
  · exact Prod.Lex.monotone_fst _ _ (hsorted.1 r hrest)

variable {lowest : ScheduledTask}

theorem le_of_candidates
    (h : s.candidates dispatched now = lowest :: rest) :
  ∀ t ∈ lowest :: rest, s.effectivePriority lowest now ≤ s.effectivePriority t now
  := by
  have hsorted := List.pairwise_insertionSort
    (fun a b => s.effectivePriority a now ≤ s.effectivePriority b now)
    (s.runningTasks.values.filter fun t => t.preemptible && !(dispatched.contains t))
  rw [← candidates, h, List.pairwise_cons] at hsorted
  intro t ht
  rcases List.mem_cons.mp ht with rfl | hrest
  · exact le_rfl
  · exact hsorted.1 t hrest

theorem passed_pass (s : PriorityPreemptionScheduler) (dispatched : List ScheduledTask) (now : ℚ) :
  Passed s dispatched now (s.pass dispatched now)
  := by
  have hperm : (s.sortedQueue now).Perm s.readyQueue := List.perm_insertionSort _ _
  unfold pass
  split
  · next hnil =>
    rw [hnil] at hperm
    exact .empty hperm.symm.eq_nil
  · next highest rest hqueue =>
    have htop := le_of_sortedQueue hqueue
    rw [hqueue] at hperm
    split_ifs with hfree
    · exact .granted hperm.symm hfree
    · have hfull := not_lt.mp hfree
      split
      · next hnone =>
        apply Passed.waiting hperm.symm hfull
        intro r hr t ht hpreemptible hnew
        have hmem : t ∈ s.candidates dispatched now := mem_candidates.mpr ⟨ht, hpreemptible, hnew⟩
        rw [hnone] at hmem
        cases hmem
      · next lowest others hcandidates =>
        have hleast := le_of_candidates hcandidates
        have hlowest : lowest ∈ s.candidates dispatched now := by simp [hcandidates]
        split_ifs with hurgent
        · obtain ⟨hrunning, hcan, hnew⟩ := mem_candidates.mp hlowest
          apply Passed.preempting hperm.symm hfull hrunning hcan hnew _ hurgent
          intro t ht hpreemptible hnew
          have hmem : t ∈ s.candidates dispatched now := mem_candidates.mpr ⟨ht, hpreemptible, hnew⟩
          rw [hcandidates] at hmem
          exact hleast t hmem
        · apply Passed.waiting hperm.symm hfull
          intro r hr t ht hpreemptible hnew
          have hmem : t ∈ s.candidates dispatched now := mem_candidates.mpr ⟨ht, hpreemptible, hnew⟩
          rw [hcandidates] at hmem
          exact (htop r hr).trans ((not_lt.mp hurgent).trans (hleast t hmem))

/-- The scheduler in the course of a tick that started from `s₀`.  A task that was given a slot in the
tick was waiting when the tick started. -/
structure Ticking (s₀ s : PriorityPreemptionScheduler) (dispatched : List ScheduledTask) : Prop where
  sound : Sound s
  ids_perm : s.ids.Perm s₀.ids
  maxSlots : s.maxSlots = s₀.maxSlots
  threshold : s.starvationThreshold = s₀.starvationThreshold
  running : ∀ t ∈ dispatched, s.runningTasks.get? t.taskId = some t
  distinct : (dispatched.map (·.taskId)).Nodup
  waited : ∀ t ∈ dispatched, t.taskId ∉ s₀.runningTasks.keys
  kept : ∀ t ∈ s.runningTasks.values, t ∉ dispatched → t ∈ s₀.runningTasks.values

theorem Ticking.start (h : Sound s) :
  Ticking s s []
  where
  sound := h
  ids_perm := .refl _
  maxSlots := rfl
  threshold := rfl
  running := by simp
  distinct := List.nodup_nil
  waited := by simp
  kept := fun t ht _ => ht

theorem Ticking.length_eq (h : Ticking s₀ s dispatched) :
  s.readyQueue.length + s.runningTasks.keys.length
    = s₀.readyQueue.length + s₀.runningTasks.keys.length
  := by
  have hlength := h.ids_perm.length_eq
  simpa only [ids, List.length_append, List.length_map] using hlength

theorem Ticking.length_le (h : Ticking s₀ s dispatched) :
  dispatched.length ≤ s₀.readyQueue.length + s₀.runningTasks.values.length
  := by
  have hsub : dispatched.map (·.taskId) ⊆ s.runningTasks.keys := by
    intro id hid
    obtain ⟨t, ht, rfl⟩ := List.mem_map.mp hid
    exact Dict.get?_isSome.mp (by rw [h.running t ht]; rfl)
  have hle := (h.distinct.subperm hsub).length_le
  have htotal := h.length_eq
  rw [List.length_map] at hle
  rw [Dict.length_values]
  omega

variable {queue : List ScheduledTask}

theorem Ticking.reordered (h : Ticking s₀ s dispatched)
    (hqueue : s.readyQueue.Perm queue) :
  Ticking s₀ { s with readyQueue := queue } dispatched
  := by
  have hids : (queue.map (·.taskId) ++ s.runningTasks.keys).Perm s.ids :=
    ((hqueue.map _).append_right _).symm
  exact ⟨⟨hids.nodup_iff.mpr h.sound.unique, h.sound.keyed, h.sound.slots⟩, hids.trans h.ids_perm,
    h.maxSlots, h.threshold, h.running, h.distinct, h.waited, h.kept⟩

/-- A slot is given to the first waiting task. -/
theorem Ticking.granted {highest : ScheduledTask} {rest : List ScheduledTask}
    (h : Ticking s₀ { s with readyQueue := highest :: rest } dispatched)
    (hfree : s.activeSlotsCount < s.maxSlots) (hwaited : highest.taskId ∉ s₀.runningTasks.keys)
    (now : ℚ) :
  Ticking s₀
    { s with
      readyQueue := rest
      runningTasks := s.runningTasks.set highest.taskId (started highest now) }
    (dispatched ++ [started highest now])
  := by
  have hnew : highest.taskId ∉ s.runningTasks.keys := fun hkey =>
    h.sound.notMem_queue hkey (by simp)
  have hother : ∀ t ∈ dispatched, t.taskId ≠ highest.taskId := by
    intro t ht heq
    have hget := h.running t ht
    rw [heq] at hget
    exact hnew (Dict.get?_isSome.mp (by rw [hget]; rfl))
  have hkeys := Dict.keys_set s.runningTasks highest.taskId (started highest now)
  rw [if_neg hnew] at hkeys
  have hids : (rest.map (·.taskId) ++ (s.runningTasks.keys ++ [highest.taskId])).Perm
      ((highest :: rest).map (·.taskId) ++ s.runningTasks.keys) := by
    rw [← List.append_assoc]
    exact List.perm_append_singleton _ _
  constructor
  · constructor
    · rw [ids, hkeys]
      exact hids.nodup_iff.mpr h.sound.unique
    · intro k t ht
      rw [Dict.get?_set] at ht
      split_ifs at ht with hk
      · cases ht
        exact hk.symm
      · exact h.sound.keyed k t ht
    · rw [activeSlotsCount_eq] at hfree ⊢
      dsimp only
      rw [hkeys, List.length_append, List.length_singleton]
      push_cast
      omega
  · rw [ids, hkeys]
    exact hids.trans h.ids_perm
  · exact h.maxSlots
  · exact h.threshold
  · intro t ht
    dsimp only
    rw [Dict.get?_set]
    rcases List.mem_append.mp ht with ht | ht
    · rw [if_neg (hother t ht)]
      exact h.running t ht
    · obtain rfl := List.mem_singleton.mp ht
      exact if_pos rfl
  · rw [List.map_append, List.nodup_append]
    refine ⟨h.distinct, by simp, ?_⟩
    intro id hid id' hid'
    obtain ⟨t, ht, rfl⟩ := List.mem_map.mp hid
    obtain rfl : id' = highest.taskId := List.mem_singleton.mp hid'
    exact hother t ht
  · intro t ht
    rcases List.mem_append.mp ht with ht | ht
    · exact h.waited t ht
    · obtain rfl := List.mem_singleton.mp ht
      exact hwaited
  · intro t ht hnot
    obtain ⟨k, hk⟩ := Dict.mem_values.mp ht
    rw [Dict.get?_set] at hk
    split_ifs at hk with hkey
    · cases hk
      exact absurd (by simp) hnot
    · exact h.kept t (Dict.mem_values.mpr ⟨k, hk⟩) fun hmem => hnot (List.mem_append_left _ hmem)

theorem Ticking.putBack (h : Ticking s₀ s dispatched)
    (hrunning : lowest ∈ s.runningTasks.values) (hnew : lowest ∉ dispatched) :
  Ticking s₀
    { s with
      readyQueue := s.readyQueue ++ [preempted lowest]
      runningTasks := s.runningTasks.erase lowest.taskId }
    dispatched
  := by
  have hget := h.sound.get?_of_mem hrunning
  have hkey : lowest.taskId ∈ s.runningTasks.keys := Dict.get?_isSome.mp (by rw [hget]; rfl)
  have hkeys := Dict.perm_keys_erase hkey
  have hids : ((s.readyQueue ++ [preempted lowest]).map (·.taskId)
      ++ (s.runningTasks.erase lowest.taskId).keys).Perm s.ids := by
    rw [List.map_append, List.append_assoc]
    exact hkeys.symm.append_left _
  have hother : ∀ t ∈ dispatched, t.taskId ≠ lowest.taskId := by
    intro t ht heq
    have hrun := h.running t ht
    rw [heq, hget] at hrun
    cases hrun
    exact hnew ht
  constructor
  · constructor
    · exact hids.nodup_iff.mpr h.sound.unique
    · intro k t ht
      rw [Dict.get?_erase] at ht
      split_ifs at ht
      exact h.sound.keyed k t ht
    · have hslots := h.sound.slots
      have hlength := hkeys.length_eq
      rw [activeSlotsCount_eq] at hslots ⊢
      rw [List.length_cons] at hlength
      dsimp only
      omega
  · exact hids.trans h.ids_perm
  · exact h.maxSlots
  · exact h.threshold
  · intro t ht
    dsimp only
    rw [Dict.get?_erase, if_neg (hother t ht)]
    exact h.running t ht
  · exact h.distinct
  · exact h.waited
  · intro t ht hnot
    obtain ⟨k, hk⟩ := Dict.mem_values.mp ht
    rw [Dict.get?_erase] at hk
    split_ifs at hk
    exact h.kept t (Dict.mem_values.mpr ⟨k, hk⟩) hnot

/-- A task that was put back in the tick is no more urgent than any task that still could be preempted,
and all slots are taken. -/
def Settled (s₀ : PriorityPreemptionScheduler) (now : ℚ) (s : PriorityPreemptionScheduler)
    (dispatched : List ScheduledTask) : Prop :=
  ∀ r ∈ s.readyQueue, r.taskId ∈ s₀.runningTasks.keys →
    s.maxSlots ≤ s.activeSlotsCount ∧
      ∀ t ∈ s.runningTasks.values, t.preemptible = true → t ∉ dispatched →
        s.effectivePriority r now ≤ s.effectivePriority t now

/-- At the end of the loop no task waits, or all slots are taken and no waiting task is more urgent than
any task that still could be preempted. -/
def Over (now : ℚ) (s : PriorityPreemptionScheduler) (dispatched : List ScheduledTask) : Prop :=
  s.readyQueue = [] ∨ s.maxSlots ≤ s.activeSlotsCount ∧
    ∀ r ∈ s.readyQueue, ∀ t ∈ s.runningTasks.values, t.preemptible = true → t ∉ dispatched →
      s.effectivePriority r now ≤ s.effectivePriority t now

def Leaves (s₀ : PriorityPreemptionScheduler) (now : ℚ) (dispatched : List ScheduledTask) :
    Pass → Prop
  | .again s dispatched' => Ticking s₀ s dispatched' ∧ Settled s₀ now s dispatched' ∧
      dispatched'.length = dispatched.length + 1
  | .over s => Ticking s₀ s dispatched ∧ Over now s dispatched

theorem leaves_granted
    (h : Ticking s₀ s dispatched) (hsettled : Settled s₀ now s dispatched)
    (hqueue : s.readyQueue.Perm (highest :: rest)) (hfree : s.activeSlotsCount < s.maxSlots) :
  Leaves s₀ now dispatched (.again
    { s with
      readyQueue := rest
      runningTasks := s.runningTasks.set highest.taskId (started highest now) }
    (dispatched ++ [started highest now]))
  := by
  have hnone : ∀ r ∈ highest :: rest, r.taskId ∉ s₀.runningTasks.keys := by
    intro r hr hkey
    obtain ⟨hfull, -⟩ := hsettled r (hqueue.symm.mem_iff.mp hr) hkey
    omega
  refine ⟨(h.reordered hqueue).granted hfree (hnone highest (by simp)) now, ?_, by simp⟩
  intro r hr hkey
  exact absurd hkey (hnone r (List.mem_cons_of_mem _ hr))

theorem leaves_preempting
    (h : Ticking s₀ s dispatched) (hsettled : Settled s₀ now s dispatched)
    (hqueue : s.readyQueue.Perm (highest :: rest)) (hfull : s.maxSlots ≤ s.activeSlotsCount)
    (hrunning : lowest ∈ s.runningTasks.values) (hpreemptible : lowest.preemptible = true)
    (hnew : lowest ∉ dispatched)
    (hleast : ∀ t ∈ s.runningTasks.values, t.preemptible = true → t ∉ dispatched →
      s.effectivePriority lowest now ≤ s.effectivePriority t now)
    (hurgent : s.effectivePriority lowest now < s.effectivePriority highest now) :
  Leaves s₀ now dispatched (.again
    { s with
      readyQueue := rest ++ [preempted lowest]
      runningTasks := (s.runningTasks.erase lowest.taskId).set highest.taskId (started highest now) }
    (dispatched ++ [started highest now]))
  := by
  have hwaited : highest.taskId ∉ s₀.runningTasks.keys := by
    intro hkey
    obtain ⟨-, hall⟩ := hsettled highest (hqueue.symm.mem_iff.mp (by simp)) hkey
    exact absurd (hall lowest hrunning hpreemptible hnew) (not_le.mpr hurgent)
  have hback := (h.reordered hqueue).putBack hrunning hnew
  have hfree : ((s.runningTasks.erase lowest.taskId).values.length : Int) < s.maxSlots := by
    have hlength := hback.length_eq.trans h.length_eq.symm
    have hsize := hqueue.length_eq
    have hslots := h.sound.slots
    rw [activeSlotsCount_eq] at hslots
    simp only [List.length_append, List.length_cons, List.length_nil] at hlength hsize
    rw [Dict.length_values]
    omega
  have hgranted := Ticking.granted (s := { s with
    readyQueue := rest ++ [preempted lowest]
    runningTasks := s.runningTasks.erase lowest.taskId }) hback hfree hwaited now
  refine ⟨hgranted, ?_, by simp⟩
  intro r hr hkey
  constructor
  · have hlength := hgranted.length_eq.trans h.length_eq.symm
    have hsize := hqueue.length_eq
    rw [activeSlotsCount_eq] at hfull ⊢
    simp only [List.append_eq, List.length_append, List.length_cons, List.length_nil] at hlength hsize
    dsimp only
    omega
  · intro t ht hcan hnot
    have hold : t ∈ s.runningTasks.values := by
      obtain ⟨k, hk⟩ := Dict.mem_values.mp ht
      rw [Dict.get?_set, Dict.get?_erase] at hk
      split_ifs at hk
      · cases hk
        exact absurd (by simp) hnot
      · exact Dict.mem_values.mpr ⟨k, hk⟩
    have hnot' : t ∉ dispatched := fun hmem => hnot (List.mem_append_left _ hmem)
    rcases List.mem_append.mp hr with hr | hr
    · obtain ⟨-, hall⟩ := hsettled r (hqueue.symm.mem_iff.mp (List.mem_cons_of_mem _ hr)) hkey
      exact hall t hold hcan hnot'
    · obtain rfl := List.mem_singleton.mp hr
      exact hleast t hold hcan hnot'

theorem leaves_of_passed {p : Pass} (h : Ticking s₀ s dispatched)
    (hsettled : Settled s₀ now s dispatched) (hpass : Passed s dispatched now p) :
  Leaves s₀ now dispatched p
  := by
  cases hpass with
  | empty queue => exact ⟨h, .inl queue⟩
  | granted queue free => exact leaves_granted h hsettled queue free
  | preempting queue full running preemptible new least urgent =>
    exact leaves_preempting h hsettled queue full running preemptible new least urgent
  | waiting perm full served => exact ⟨h.reordered perm, .inr ⟨full, served⟩⟩

theorem loop_ends {fuel : Nat} (h : Ticking s₀ s dispatched) (hsettled : Settled s₀ now s dispatched)
    (hfuel : s₀.readyQueue.length + s₀.runningTasks.values.length < fuel + dispatched.length) :
  ∃ s' dispatched', loop now fuel s dispatched = some (s', dispatched') ∧
    Ticking s₀ s' dispatched' ∧ Over now s' dispatched'
  := by
  induction fuel generalizing s dispatched with
  | zero =>
    have hle := h.length_le
    omega
  | succ fuel ih =>
    have hleaves := leaves_of_passed h hsettled (passed_pass s dispatched now)
    rw [loop]
    split
    · next s' hover =>
      rw [hover] at hleaves
      exact ⟨s', dispatched, rfl, hleaves⟩
    · next s' dispatched' hagain =>
      rw [hagain] at hleaves
      obtain ⟨hticking, hsettled', hlength⟩ := hleaves
      exact ih hticking hsettled' (by omega)

/-! ### Calls -/

/-- No task waits or all slots are taken, and no waiting task is more urgent than a preemptible one that runs on. -/
structure Served (s : PriorityPreemptionScheduler) (now : ℚ) (s' : PriorityPreemptionScheduler) :
    Prop where
  busy : s'.readyQueue = [] ∨ s'.activeSlotsCount = s'.maxSlots
  fair : ∀ t ∈ s.runningTasks.values, t.preemptible = true → t.taskId ∈ s'.runningTasks.keys →
    ∀ r ∈ s'.readyQueue, s'.effectivePriority r now ≤ s'.effectivePriority t now

def Finishes (id : Str) (call : Call × Answer) : Prop :=
  (call.1 = .completeTask id ∨ call.1 = .cancelTask id) ∧ call.2 = .finished true

theorem tick_ends (h : Sound s) (now : ℚ) :
  ∃ s' dispatched, s.tick now = some (s', dispatched) ∧ Ticking s s' dispatched ∧ Served s now s'
  := by
  have hsettled : Settled s now s [] := by
    intro r hr hkey
    exact absurd (List.mem_map_of_mem hr) (h.notMem_queue hkey)
  obtain ⟨s', dispatched, hloop, hticking, hover⟩ :=
    loop_ends (.start h) hsettled (show s.readyQueue.length + s.runningTasks.values.length
      < s.readyQueue.length + s.runningTasks.values.length + 1 + ([] : List ScheduledTask).length by simp)
  refine ⟨s', dispatched, hloop, hticking, ?_⟩
  rcases hover with hnil | ⟨hfull, hserved⟩
  · exact ⟨.inl hnil, by simp [hnil]⟩
  · constructor
    · right
      exact le_antisymm hticking.sound.slots hfull
    · intro t ht hpreemptible hkey r hr
      obtain ⟨t', ht'⟩ := Option.isSome_iff_exists.mp (Dict.get?_isSome.mpr hkey)
      have hid := hticking.sound.keyed _ _ ht'
      have hmem : t' ∈ s'.runningTasks.values := Dict.mem_values.mpr ⟨_, ht'⟩
      have hnot : t' ∉ dispatched := by
        intro hdispatched
        apply hticking.waited t' hdispatched
        rw [hid]
        exact Dict.get?_isSome.mp (by rw [h.get?_of_mem ht]; rfl)
      have hold := h.get?_of_mem (hticking.kept t' hmem hnot)
      rw [hid, h.get?_of_mem ht] at hold
      cases hold
      exact hserved r hr t hmem hpreemptible hnot

theorem promote_eq_none :
  promote task queue = none ↔ task.taskId ∉ queue.map (·.taskId)
  := by
  induction queue with
  | nil => simp [promote]
  | cons existing rest ih =>
    rw [promote, List.map_cons, List.mem_cons, not_or]
    split_ifs with hid
    · simp [hid]
    · rw [Option.map_eq_none_iff, ih]
      exact ⟨fun hrest => ⟨Ne.symm hid, hrest⟩, And.right⟩

theorem map_taskId_of_promote {queue' : List ScheduledTask} (h : promote task queue = some queue') :
  queue'.map (·.taskId) = queue.map (·.taskId)
  := by
  induction queue generalizing queue' with
  | nil => cases h
  | cons existing rest ih =>
    rw [promote] at h
    split_ifs at h with hid hraise
    · cases h
      rfl
    · cases h
      rfl
    · obtain ⟨rest', hrest, rfl⟩ := Option.map_eq_some_iff.mp h
      rw [List.map_cons, List.map_cons, ih hrest]

/-- After a call the ids are the same, but for one that the call brings or takes away. -/
structure Stepped (s : PriorityPreemptionScheduler) (call : Call) (s' : PriorityPreemptionScheduler)
    (answer : Answer) : Prop where
  sound : Sound s'
  maxSlots : s'.maxSlots = s.maxSlots
  stays : ∀ id ∈ s.ids, ¬ Finishes id (call, answer) → id ∈ s'.ids
  enters : ∀ task now, call = .enqueue task now → task.taskId ∈ s'.ids

theorem stepped_enqueue (h : Sound s) (task : ScheduledTask) (now : ℚ) :
  Stepped s (.enqueue task now) (s.enqueue task now) .nothing
  := by
  unfold enqueue
  split_ifs with hrunning
  · refine ⟨h, rfl, fun _ hid _ => hid, ?_⟩
    rintro t n ⟨⟩
    exact List.mem_append_right _ hrunning
  · split
    · next queue hpromote =>
      have hmap := map_taskId_of_promote hpromote
      have hwaiting : task.taskId ∈ s.readyQueue.map (·.taskId) := by
        by_contra hnot
        rw [promote_eq_none.mpr hnot] at hpromote
        cases hpromote
      have hids : ({ s with readyQueue := queue } : PriorityPreemptionScheduler).ids = s.ids := by
        rw [ids, ids, hmap]
      refine ⟨⟨by rw [hids]; exact h.unique, h.keyed, h.slots⟩, rfl, ?_, ?_⟩
      · intro id hid _
        rw [hids]
        exact hid
      · rintro t n ⟨⟩
        rw [hids]
        exact List.mem_append_left _ hwaiting
    · next hnone =>
      have hnew := promote_eq_none.mp hnone
      have hids : ({ s with readyQueue := s.readyQueue ++ [admitted task now] } :
          PriorityPreemptionScheduler).ids.Perm (task.taskId :: s.ids) := by
        rw [ids, ids, List.map_append, ← List.cons_append]
        exact (List.perm_append_singleton _ _).append_right _
      refine ⟨⟨?_, h.keyed, h.slots⟩, rfl, ?_, ?_⟩
      · rw [hids.nodup_iff, List.nodup_cons]
        exact ⟨fun hmem => (List.mem_append.mp hmem).elim hnew hrunning, h.unique⟩
      · intro id hid _
        exact hids.mem_iff.mpr (List.mem_cons_of_mem _ hid)
      · rintro t n ⟨⟩
        exact hids.mem_iff.mpr (List.mem_cons_self ..)

theorem stepped_erase (h : Sound s) {taskId : Str} (hkey : taskId ∈ s.runningTasks.keys) {call : Call}
    (hcall : call = .completeTask taskId ∨ call = .cancelTask taskId) :
  Stepped s call { s with runningTasks := s.runningTasks.erase taskId } (.finished true)
  := by
  have hkeys := Dict.perm_keys_erase hkey
  have hids : s.ids.Perm (taskId ::
      ({ s with runningTasks := s.runningTasks.erase taskId } : PriorityPreemptionScheduler).ids) := by
    rw [ids, ids]
    exact (hkeys.append_left _).trans List.perm_middle
  constructor
  · constructor
    · exact (List.nodup_cons.mp (hids.nodup_iff.mp h.unique)).2
    · intro k t ht
      rw [Dict.get?_erase] at ht
      split_ifs at ht
      exact h.keyed k t ht
    · have hslots := h.slots
      have hlength := hkeys.length_eq
      rw [activeSlotsCount_eq] at hslots ⊢
      rw [List.length_cons] at hlength
      dsimp only
      omega
  · rfl
  · intro id hid hnot
    rcases List.mem_cons.mp (hids.mem_iff.mp hid) with rfl | hmem
    · exact absurd ⟨hcall, rfl⟩ hnot
    · exact hmem
  · rintro t n rfl
    rcases hcall with hcall | hcall <;> cases hcall

theorem stepped_completeTask (h : Sound s) (taskId : Str) :
  Stepped s (.completeTask taskId) (s.completeTask taskId).1 (.finished (s.completeTask taskId).2)
  := by
  unfold completeTask
  split_ifs with hkey
  · exact stepped_erase h hkey (.inl rfl)
  · exact ⟨h, rfl, fun _ hid _ => hid, by rintro t n ⟨⟩⟩

theorem stepped_cancelTask (h : Sound s) (taskId : Str) :
  Stepped s (.cancelTask taskId) (s.cancelTask taskId).1 (.finished (s.cancelTask taskId).2)
  := by
  unfold cancelTask
  split_ifs with hkey hwaiting
  · exact stepped_erase h hkey (.inr rfl)
  · obtain ⟨t, ht, hid⟩ := List.any_eq_true.mp hwaiting
    obtain ⟨u, before, after, -, hu, hqueue, herase⟩ := List.exists_of_eraseP (p := fun x : ScheduledTask => decide (x.taskId = taskId)) ht hid
    have hids : s.ids.Perm (taskId ::
        ({ s with readyQueue := before ++ after } : PriorityPreemptionScheduler).ids) := by
      rw [ids, ids, hqueue, List.map_append, List.map_append, List.map_cons,
        of_decide_eq_true hu, ← List.cons_append]
      exact List.perm_middle.append_right _
    dsimp only
    rw [herase]
    refine ⟨⟨(List.nodup_cons.mp (hids.nodup_iff.mp h.unique)).2, h.keyed, h.slots⟩, rfl, ?_, ?_⟩
    · intro id hmem hnot
      rcases List.mem_cons.mp (hids.mem_iff.mp hmem) with rfl | hmem
      · exact absurd ⟨.inr rfl, rfl⟩ hnot
      · exact hmem
    · rintro t n ⟨⟩
  · exact ⟨h, rfl, fun _ hid _ => hid, by rintro t n ⟨⟩⟩

theorem stepped_step (h : Sound s) (call : Call) :
  ∃ s' answer, s.step call = some (s', answer) ∧ Stepped s call s' answer
  := by
  cases call with
  | enqueue task now => exact ⟨_, _, rfl, stepped_enqueue h task now⟩
  | tick now =>
    obtain ⟨s', dispatched, htick, hticking, -⟩ := tick_ends h now
    refine ⟨s', .dispatched dispatched, by rw [step, htick]; rfl, hticking.sound, hticking.maxSlots,
      fun _ hid _ => hticking.ids_perm.mem_iff.mpr hid, by rintro t n ⟨⟩⟩
  | completeTask taskId => exact ⟨_, _, rfl, stepped_completeTask h taskId⟩
  | cancelTask taskId => exact ⟨_, _, rfl, stepped_cancelTask h taskId⟩

theorem sound_run (h : Sound s) (calls : List Call) :
  ∃ log s', s.run calls = some (log, s') ∧ Sound s' ∧ s'.maxSlots = s.maxSlots ∧
    (∀ id ∈ s.ids, (∀ p ∈ log, ¬ Finishes id p) → id ∈ s'.ids) ∧
    ∀ before task now answer after, log = before ++ (.enqueue task now, answer) :: after →
      (∀ p ∈ after, ¬ Finishes task.taskId p) → task.taskId ∈ s'.ids
  := by
  induction calls generalizing s with
  | nil => exact ⟨[], s, rfl, h, rfl, fun _ hid _ => hid, by simp⟩
  | cons call calls ih =>
    obtain ⟨s₁, answer, hstep, hstepped⟩ := stepped_step h call
    obtain ⟨log, s', hrun, hsound, hslots, hstays, henters⟩ := ih hstepped.sound
    refine ⟨(call, answer) :: log, s', by rw [run, hstep]; simp [hrun], hsound,
      hslots.trans hstepped.maxSlots, ?_, ?_⟩
    · intro id hid hnone
      apply hstays id (hstepped.stays id hid (hnone _ (List.mem_cons_self ..)))
      exact fun p hp => hnone p (List.mem_cons_of_mem _ hp)
    · intro before task now answer' after heq hnone
      cases before with
      | nil =>
        obtain ⟨hcall, rfl⟩ := List.cons.inj heq
        obtain ⟨rfl, rfl⟩ := Prod.mk.inj hcall
        exact hstays task.taskId (hstepped.enters task now rfl) hnone
      | cons p before =>
        obtain ⟨-, rfl⟩ := List.cons.inj heq
        exact henters before task now answer' after rfl hnone

theorem served_of_run (maxSlots : Int) (starvationThreshold : ℚ) (calls : List Call) :
  ∃ log s, (fresh maxSlots starvationThreshold).run calls = some (log, s) ∧
    s.ids.Nodup ∧ s.maxSlots = max 1 maxSlots ∧ s.activeSlotsCount ≤ s.maxSlots ∧
    (∀ before task now answer after, log = before ++ (.enqueue task now, answer) :: after →
      (∀ p ∈ after, ¬ Finishes task.taskId p) → task.taskId ∈ s.ids) ∧
    ∀ now, ∃ s' dispatched, s.tick now = some (s', dispatched) ∧ Served s now s'
  := by
  have hfresh : Sound (fresh maxSlots starvationThreshold) := by
    refine ⟨List.nodup_nil, ?_, ?_⟩
    · rintro k t ⟨⟩
    · exact le_trans zero_le_one (le_max_left 1 maxSlots)
  obtain ⟨log, s, hrun, hsound, hslots, -, henters⟩ := sound_run hfresh calls
  refine ⟨log, s, hrun, hsound.unique, hslots, hsound.slots, henters, ?_⟩
  intro now
  obtain ⟨s', dispatched, htick, -, hserved⟩ := tick_ends hsound now
  exact ⟨s', dispatched, htick, hserved⟩

end Courier.Scheduler.PriorityPreemptionScheduler
