import Courier.WorkStealing.Ownership
import Mathlib.Tactic.Ring

/-!
# Where rebalancing ends

A turn of `rebalance` moves a task from the most loaded worker to the least loaded one, so that the squares of the loads
add up to less and the loop ends.  It ends when it can do no more for those two (`balanced_of_rebalance`); another
worker may still be able to take a task (`unbalanced`).
-/

namespace Courier.WorkStealing

open Cluster

section Measure

variable {s s' : Cluster} {workers : Dict Str WorkerNodeDescriptor} {worker : WorkerNodeDescriptor} {id : Str}

def squares (workers : Dict Str WorkerNodeDescriptor) : Nat :=
  (workers.values.map fun worker => worker.totalLoad * worker.totalLoad).sum

theorem squares_set (hworker : workers.get? id = some worker) (worker' : WorkerNodeDescriptor) :
  squares (workers.set id worker') + worker.totalLoad * worker.totalLoad =
    squares workers + worker'.totalLoad * worker'.totalLoad
  := by
  have hset := ((Dict.perm_values_set workers id worker').map fun w => w.totalLoad * w.totalLoad).sum_eq
  have herase := ((Dict.perm_values_erase hworker).map fun w => w.totalLoad * w.totalLoad).sum_eq
  rw [List.map_cons, List.sum_cons] at hset herase
  unfold squares
  omega

/-- A turn makes the squares of the loads less. -/
theorem squares_turn (hturn : s.rebalanceTurn = some s') :
  squares s'.workers < squares s.workers
  := by
  obtain ⟨most, least, r, hmost, hleast, hload, hsteal⟩ := rebalanceTurn_spec hturn
  obtain ⟨stealer, victim, rest, stealer', hstealer, hvictim, -, -, hready, hstealer', rfl⟩ := stealTask_eq_ok hsteal
  obtain rfl := Option.some.inj (hleast.symm.trans hstealer)
  obtain rfl := Option.some.inj (hmost.symm.trans hvictim)
  have hne : least.1 ≠ most.1 := by
    intro hsame
    rw [hsame, hmost] at hleast
    rw [Option.some.inj hleast] at hload
    omega
  rw [Dict.get?_set, if_neg hne, hleast] at hstealer'
  obtain rfl := Option.some.inj hstealer'
  have hlength := hready.length_eq
  rw [List.length_cons] at hlength
  obtain ⟨load, hrest⟩ : ∃ load, load = rest.length + most.2.runningTasks.values.length := ⟨_, rfl⟩
  have hbefore : most.2.totalLoad = load + 1 := by
    rw [WorkerNodeDescriptor.totalLoad]
    omega
  have hpop : squares (s.workers.set most.1 { most.2 with readyTasks := rest }) + (load + 1) * (load + 1) =
      squares s.workers + load * load := by
    rw [← hbefore, hrest]
    exact squares_set hmost _
  have hstealer : (s.workers.set most.1 { most.2 with readyTasks := rest }).get? least.1 = some least.2 := by
    rw [Dict.get?_set, if_neg hne, hleast]
  have hafter : least.2.totalLoad + 1 = (least.2.readyTasks ++ [r]).length + least.2.runningTasks.values.length := by
    rw [List.length_append, List.length_singleton, WorkerNodeDescriptor.totalLoad]
    omega
  have hpush : squares ((s.workers.set most.1 { most.2 with readyTasks := rest }).set least.1
      { least.2 with readyTasks := least.2.readyTasks ++ [r] }) + least.2.totalLoad * least.2.totalLoad =
        squares (s.workers.set most.1 { most.2 with readyTasks := rest }) +
          (least.2.totalLoad + 1) * (least.2.totalLoad + 1) := by
    rw [hafter]
    exact squares_set hstealer _
  have hsquare : ∀ n : Nat, (n + 1) * (n + 1) = n * n + 2 * n + 1 := by
    intro n
    ring
  rw [hsquare] at hpop hpush
  dsimp only at hpop hpush ⊢
  omega

end Measure

section Ends

variable {s : Cluster}

theorem takeFirst_of_mem {p : Nat → Bool} {l : List Nat} {a : Nat} (ha : a ∈ l) (hp : p a = true) :
  ∃ found, takeFirst p l = some found
  := by
  induction l with
  | nil => cases ha
  | cons b l ih =>
    rw [takeFirst]
    split_ifs with hb
    · exact ⟨_, rfl⟩
    · obtain rfl | ha := List.mem_cons.mp ha
      · exact absurd hp hb
      · obtain ⟨found, hfound⟩ := ih ha
        rw [hfound]
        exact ⟨_, rfl⟩

theorem stealTask_of_eligible {stealerId victimId : Str} {stealer victim : WorkerNodeDescriptor} {r : Nat}
    (hstealer : s.workers.get? stealerId = some stealer) (hvictim : s.workers.get? victimId = some victim)
    (hroom : (stealer.totalLoad : Int) < stealer.capacity) (hr : r ∈ victim.readyTasks)
    (heligible : s.eligible stealer.capabilities r = true) :
  ∃ result, s.stealTask stealerId victimId = .ok result
  := by
  obtain ⟨found, hfound⟩ := takeFirst_of_mem (List.mem_reverse.mpr hr) heligible
  have hlast : takeLast (s.eligible stealer.capabilities) victim.readyTasks = some (found.1, found.2.reverse) := by
    rw [takeLast, hfound]
    rfl
  unfold Cluster.stealTask
  rw [getWorker_eq_ok.mpr hstealer, getWorker_eq_ok.mpr hvictim]
  simp only [Except.ok_bind]
  rw [if_neg (not_le.mpr hroom), if_neg (List.ne_nil_of_mem hr), hlast]
  dsimp only
  have hpopped : ∃ worker, (s.setWorker victimId { victim with readyTasks := found.2.reverse }).getWorker stealerId =
      .ok worker := by
    by_cases hsame : stealerId = victimId
    · exact ⟨_, getWorker_eq_ok.mpr (by rw [Cluster.setWorker, Dict.get?_set, if_pos hsame])⟩
    · exact ⟨stealer, getWorker_eq_ok.mpr (by rw [Cluster.setWorker, Dict.get?_set, if_neg hsame, hstealer])⟩
  obtain ⟨worker, hworker⟩ := hpopped
  rw [hworker]
  exact ⟨_, rfl⟩

theorem activeNodes_sorted {most least node : Str × WorkerNodeDescriptor} (hmost : s.activeNodes.head? = some most)
    (hleast : s.activeNodes.getLast? = some least) (hnode : node ∈ s.activeNodes) :
  least.2.totalLoad ≤ node.2.totalLoad ∧ node.2.totalLoad ≤ most.2.totalLoad
  := by
  have htotal : Std.Total fun a b : Str × WorkerNodeDescriptor => b.2.totalLoad ≤ a.2.totalLoad :=
    ⟨fun a b => Nat.le_total _ _⟩
  have htrans : IsTrans _ fun a b : Str × WorkerNodeDescriptor => b.2.totalLoad ≤ a.2.totalLoad :=
    ⟨fun a b c hab hbc => Nat.le_trans hbc hab⟩
  have hsorted := List.pairwise_insertionSort (fun a b : Str × WorkerNodeDescriptor => b.2.totalLoad ≤ a.2.totalLoad)
    (s.workers.entries.filter fun node => 0 < node.2.capacity)
  rw [← activeNodes] at hsorted
  constructor
  · obtain ⟨front, hfront⟩ := List.getLast?_eq_some_iff.mp hleast
    rw [hfront, List.pairwise_append] at hsorted
    rw [hfront, List.mem_append, List.mem_singleton] at hnode
    obtain hnode | rfl := hnode
    · apply hsorted.2.2 node hnode least (by simp)
    · apply Nat.le_refl
  · obtain ⟨tail, htail⟩ := List.head?_eq_some_iff.mp hmost
    rw [htail, List.pairwise_cons] at hsorted
    rw [htail, List.mem_cons] at hnode
    obtain rfl | hnode := hnode
    · apply Nat.le_refl
    · apply hsorted.1 node hnode

theorem balanced_of_rebalance (s : Cluster) :
  ∃ fuel moved s', s.rebalance fuel = some (moved, s') ∧
    ∀ most least, s'.activeNodes.head? = some most → s'.activeNodes.getLast? = some least →
      (∀ node ∈ s'.activeNodes, least.2.totalLoad ≤ node.2.totalLoad ∧ node.2.totalLoad ≤ most.2.totalLoad) ∧
      ¬(least.2.totalLoad + 1 < most.2.totalLoad ∧ (least.2.totalLoad : Int) < least.2.capacity ∧
        ∃ r ∈ most.2.readyTasks, s'.eligible least.2.capabilities r = true)
  := by
  have hless : ∀ t : Nat × Cluster, True → t.2.rebalanceTurn.isNone = false →
      squares (t.2.rebalanceTurn.getD t.2).workers < squares t.2.workers := by
    intro t _ hturn
    obtain ⟨next, hnext⟩ := Option.isSome_iff_exists.mp (by simpa using hturn)
    rw [hnext]
    apply squares_turn hnext
  have hends : ∃ t, s.rebalance (squares s.workers) = some t := by
    unfold Cluster.rebalance
    exact Loop.run_of_measure (I := fun _ => True) (fun _ _ _ => trivial)
      (fun t : Nat × Cluster => squares t.2.workers) hless trivial (Nat.le_refl _)
  obtain ⟨⟨moved, s'⟩, hrun⟩ := hends
  refine ⟨_, moved, s', hrun, fun most least hmost hleast => ⟨fun node hnode => ?_, ?_⟩⟩
  · apply activeNodes_sorted hmost hleast hnode
  · rintro ⟨hload, hroom, r, hr, heligible⟩
    have hdone := (Loop.run_invariant (I := fun _ => True) (fun _ _ _ => trivial) trivial hrun).2
    have hmostIn := List.mem_of_head? hmost
    have hleastIn := List.mem_of_getLast? hleast
    obtain ⟨result, hsteal⟩ := stealTask_of_eligible (mem_activeNodes hleastIn) (mem_activeNodes hmostIn) hroom hr
      heligible
    have htwo : ¬s'.activeNodes.length < 2 := by
      intro hshort
      obtain ⟨tail, htail⟩ := List.head?_eq_some_iff.mp hmost
      rw [htail] at hshort hleast
      rw [List.length_cons] at hshort
      have hnil : tail = [] := List.eq_nil_of_length_eq_zero (by omega)
      rw [hnil, List.getLast?_singleton] at hleast
      obtain rfl := Option.some.inj hleast
      omega
    have hcan : least.2.totalLoad + 1 < most.2.totalLoad ∧ (least.2.totalLoad : Int) < least.2.capacity ∧
        most.2.readyTasks ≠ [] := ⟨hload, hroom, List.ne_nil_of_mem hr⟩
    simp only [Cluster.rebalanceTurn, if_neg htwo, hmost, hleast, if_pos hcan, hsteal, Except.toOption,
      Option.map_some, Option.isNone_some, Bool.false_eq_true] at hdone

end Ends

theorem unbalanced :
  ∃ s, [([97], [48]), ([97], [49]), ([97], [50]), ([97], [51]), ([97], [52]), ([99], [53]), ([99], [54]),
      ([98], [55])].foldlM (fun s p => s.enqueueTask p.1 ⟨p.2, [], [], 0⟩)
        (((registerWorker ⟨∅, ∅, fun _ => ⟨[], [], [], 0⟩, 0⟩ [97] 10 []).registerWorker [99] 10 []).registerWorker [98] 1
          []) = .ok s ∧ s.rebalance 0 = some (0, s) ∧
    ∃ a b, s.workers.get? [97] = some a ∧ s.workers.get? [99] = some b ∧ b.totalLoad + 1 < a.totalLoad ∧
      (b.totalLoad : Int) < b.capacity ∧ ∃ r ∈ a.readyTasks, s.eligible b.capabilities r = true
  := ⟨_, rfl, rfl, _, _, rfl, rfl, by decide, by decide, 0, by decide, by decide⟩

end Courier.WorkStealing
