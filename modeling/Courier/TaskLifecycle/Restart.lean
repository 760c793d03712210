import Courier.TaskLifecycle

/-!
# The reconciliation after a restart

After a restart every active task is finished, recovered, handed to the user, or left alone; the code drops the last
two kinds with the tasks whose executor is unknown.  So none is lost exactly if every task with a known executor may
be recovered (`noGhosts_iff`).
-/

namespace Courier.TaskLifecycle

open Text

variable {F : Type}

def recovered (before after : Manager F) : List (Str × TaskRecord F) :=
  before.tasks.entries.filter fun e =>
    e.2.recoveryState = none ∧ (after.tasks.get? e.1).any fun task => task.currentState = .recovering

def Listed (after : Manager F) (k : Str) (task : TaskRecord F) : Prop :=
  ∃ task', after.tasks.get? k = some task' ∧
    (task.recoveryState = none ∧ task'.currentState = .recovering ∨
      3 ≤ task.recoveryCount ∧ task'.currentState = .waitingUser ∨
      task.recoveryState ≠ none ∧ task' = task)

/-- The finished tasks are gone, every other one is listed or its executor unknown, and each recovered one has a
receipt. -/
structure NoGhosts (before after : Manager F) : Prop where
  archived : ∀ k task, before.tasks.get? k = some task → task.currentState ∈ final →
    after.tasks.get? k = none
  kept : ∀ k task, before.tasks.get? k = some task → task.currentState ∉ final →
    Listed after k task ∨ after.tasks.get? k = none ∧ verifyOwnership task none = false
  receipts : ∃ new, after.healer.receipts = before.healer.receipts ++ new ∧
    new.map RecoveryReceipt.taskId = (recovered before after).map fun e => e.2.taskId

/-! ### One task -/

variable [Surroundings F] {m : Manager F} {k : Str}

def restarted (healer : Healer) (task : TaskRecord F) : Option (TaskRecord F) :=
  if task.currentState ∈ final ∨ ¬ Recoverable task then none
  else some (recoverTask healer { task with currentState := .ownerLost }).task

omit [Surroundings F] in
theorem recoverable_ownerLost (task : TaskRecord F) :
  Recoverable { task with currentState := .ownerLost } ↔ Recoverable task
  := by
  simp only [recoverable_iff]
  rfl

theorem get?_restartTask (l : Str) :
  (restartTask m k).tasks.get? l =
    if l = k then (m.tasks.get? k).bind (restarted m.healer) else m.tasks.get? l
  := by
  unfold restartTask
  cases htask : m.tasks.get? k with
  | none =>
    by_cases hl : l = k
    · subst hl
      simp [htask]
    · simp [hl]
  | some task =>
    dsimp only
    split
    next hfinal => simp [Dict.get?_erase, restarted, hfinal]
    next hfinal =>
      by_cases hrecoverable : Recoverable task
      · obtain ⟨receipt, hreceipt, -⟩ := @recoverTask_of_recoverable _ _ m.healer _
          (by simp [stalled]) ((recoverable_ownerLost task).mpr hrecoverable)
        simp [Manager.recover, hreceipt, Dict.get?_set, restarted, hfinal, hrecoverable]
      · obtain ⟨hreceipt, -⟩ := @recoverTask_of_not_recoverable _ _ m.healer _
          (by simp [stalled]) (mt (recoverable_ownerLost task).mp hrecoverable)
        simp only [Manager.recover, hreceipt, Option.isNone_none, if_true, Dict.get?_erase,
          Dict.get?_set, restarted, hrecoverable, not_false_eq_true, or_true, Option.bind_some]
        split <;> rfl

def Taken (task : TaskRecord F) : Prop :=
  task.currentState ∉ final ∧ Recoverable task

instance (task : TaskRecord F) : Decidable (Taken task) :=
  inferInstanceAs (Decidable (_ ∧ _))

def takenIds (m : Manager F) (keys : List Str) : List Str :=
  keys.filterMap fun k => ((m.tasks.get? k).filter fun task => Taken task).map TaskRecord.taskId

theorem receipts_restartTask :
  ∃ new, (restartTask m k).healer.receipts = m.healer.receipts ++ new ∧
    new.map RecoveryReceipt.taskId = takenIds m [k]
  := by
  unfold restartTask takenIds
  cases htask : m.tasks.get? k with
  | none => exact ⟨[], by simp, by simp [htask]⟩
  | some task =>
    dsimp only
    split
    next hfinal => exact ⟨[], by simp, by simp [htask, Taken, hfinal]⟩
    next hfinal =>
      by_cases hrecoverable : Recoverable task
      · obtain ⟨receipt, hreceipt, hreceipts, hid, -⟩ := @recoverTask_of_recoverable _ _
          m.healer _ (by simp [stalled]) ((recoverable_ownerLost task).mpr hrecoverable)
        refine ⟨[receipt], ?_, ?_⟩
        · simp [Manager.recover, hreceipt, hreceipts]
        · simp [htask, Taken, hfinal, hrecoverable, hid]
      · obtain ⟨hreceipt, hhealer⟩ := @recoverTask_of_not_recoverable _ _ m.healer _
          (by simp [stalled]) (mt (recoverable_ownerLost task).mp hrecoverable)
        refine ⟨[], ?_, ?_⟩
        · simp [Manager.recover, hreceipt, hhealer]
        · simp [htask, Taken, hrecoverable]

/-! ### All tasks -/

theorem takenIds_restartTask {keys : List Str} (hk : k ∉ keys) :
  takenIds (restartTask m k) keys = takenIds m keys
  := by
  apply List.filterMap_congr
  intro l hl
  rw [get?_restartTask, if_neg (by rintro rfl; exact hk hl)]

theorem get?_foldl_restartTask {keys : List Str} (hnodup : keys.Nodup) (l : Str) :
  ∃ healer, (keys.foldl restartTask m).tasks.get? l =
    if l ∈ keys then (m.tasks.get? l).bind (restarted healer) else m.tasks.get? l
  := by
  induction keys generalizing m with
  | nil => exact ⟨m.healer, by simp⟩
  | cons k keys ih =>
    obtain ⟨hk, hkeys⟩ := List.nodup_cons.mp hnodup
    obtain ⟨healer, hget⟩ := ih (m := restartTask m k) hkeys
    by_cases hl : l = k
    · subst hl
      refine ⟨m.healer, ?_⟩
      rw [List.foldl_cons, hget, if_neg hk, get?_restartTask, if_pos rfl, if_pos List.mem_cons_self]
    · refine ⟨healer, ?_⟩
      simp only [List.foldl_cons, hget, get?_restartTask, List.mem_cons, hl, false_or, if_false]

theorem receipts_foldl_restartTask {keys : List Str} (hnodup : keys.Nodup) :
  ∃ new, (keys.foldl restartTask m).healer.receipts = m.healer.receipts ++ new ∧
    new.map RecoveryReceipt.taskId = takenIds m keys
  := by
  induction keys generalizing m with
  | nil => exact ⟨[], by simp, rfl⟩
  | cons k keys ih =>
    obtain ⟨hk, hkeys⟩ := List.nodup_cons.mp hnodup
    obtain ⟨first, hfirst, hid⟩ := receipts_restartTask (m := m) (k := k)
    obtain ⟨rest, hrest, hids⟩ := ih (m := restartTask m k) hkeys
    refine ⟨first ++ rest, ?_, ?_⟩
    · rw [List.foldl_cons, hrest, hfirst, List.append_assoc]
    · rw [List.map_append, hid, hids, takenIds_restartTask hk]
      simp only [takenIds, List.filterMap_cons, List.filterMap_nil]
      split <;> rfl

theorem get?_reconcileAfterRestart {task : TaskRecord F} (h : m.tasks.get? k = some task) :
  ∃ healer, (reconcileAfterRestart m).tasks.get? k = restarted healer task
  := by
  have hnodup : m.tasks.keys.Nodup := m.tasks.nodup
  obtain ⟨healer, hget⟩ := get?_foldl_restartTask (m := m) hnodup k
  refine ⟨healer, ?_⟩
  rw [reconcileAfterRestart, hget, if_pos (Dict.get?_isSome.mp (by rw [h]; rfl)), h, Option.bind_some]

theorem restarted_of_not_taken (healer : Healer) {task : TaskRecord F} (h : ¬ Taken task) :
  restarted healer task = none
  := by
  rw [Taken, not_and_or, not_not] at h
  exact if_pos h

theorem restarted_of_taken (healer : Healer) {task : TaskRecord F} (h : Taken task) :
  ∃ task', restarted healer task = some task' ∧ task'.currentState = .recovering
  := by
  refine ⟨_, if_neg (by simp [h.1, h.2]), ?_⟩
  obtain ⟨receipt, -, -, -, -, hstate, -⟩ := @recoverTask_of_recoverable _ _ healer
    { task with currentState := .ownerLost } (by simp [stalled]) ((recoverable_ownerLost task).mpr h.2)
  exact hstate

theorem map_recovered :
  (recovered m (reconcileAfterRestart m)).map (fun e => e.2.taskId) = takenIds m m.tasks.keys
  := by
  have htaken : takenIds m m.tasks.keys =
      (m.tasks.entries.filter fun e => Taken e.2).map fun e => e.2.taskId := by
    rw [takenIds, Dict.keys, List.filterMap_map, ← List.filterMap_eq_filter, List.map_filterMap]
    apply List.filterMap_congr
    rintro ⟨k, task⟩ hmem
    have hget : m.tasks.get? k = some task := Dict.get?_eq_some.mpr hmem
    by_cases h : Taken task <;> simp [hget, h, Option.guard]
  rw [htaken, recovered]
  congr 1
  apply List.filter_congr
  rintro ⟨k, task⟩ hmem
  obtain ⟨healer, hget⟩ := get?_reconcileAfterRestart (Dict.get?_eq_some.mpr hmem)
  dsimp only
  rw [hget, decide_eq_decide]
  by_cases h : Taken task
  · obtain ⟨task', htask', hstate⟩ := restarted_of_taken healer h
    simp [htask', hstate, h, h.2.idle]
  · simp [restarted_of_not_taken healer h, h]

/-- No unfinished task is lost exactly if every one with a known executor may be recovered. -/
theorem noGhosts_iff (m : Manager F) :
  NoGhosts m (reconcileAfterRestart m) ↔
    ∀ k task, m.tasks.get? k = some task → task.currentState ∉ final →
      verifyOwnership task none = true → task.recoveryState = none ∧ task.recoveryCount < 3
  := by
  constructor
  · intro h k task htask hfinal howned
    by_contra hnot
    have hgone : ¬ Taken task := fun htaken => hnot ⟨htaken.2.idle, htaken.2.few⟩
    obtain ⟨healer, hget⟩ := get?_reconcileAfterRestart htask
    rw [restarted_of_not_taken healer hgone] at hget
    rcases h.kept k task htask hfinal with ⟨task', htask', -⟩ | ⟨-, hforeign⟩
    · rw [hget] at htask'
      cases htask'
    · rw [howned] at hforeign
      cases hforeign
  · intro h
    refine ⟨?_, ?_, ?_⟩
    · intro k task htask hfinal
      obtain ⟨healer, hget⟩ := get?_reconcileAfterRestart htask
      rw [hget, restarted_of_not_taken healer fun htaken => htaken.1 hfinal]
    · intro k task htask hfinal
      obtain ⟨healer, hget⟩ := get?_reconcileAfterRestart htask
      by_cases howned : verifyOwnership task none = true
      · obtain ⟨hidle, hfew⟩ := h k task htask hfinal howned
        obtain ⟨task', htask', hstate⟩ := restarted_of_taken healer
          ⟨hfinal, hidle, hfew, howned⟩
        exact .inl ⟨task', hget.trans htask', .inl ⟨hidle, hstate⟩⟩
      · refine .inr ⟨?_, by simpa using howned⟩
        rw [hget, restarted_of_not_taken healer fun htaken => howned htaken.2.owned]
    · obtain ⟨new, hnew, hids⟩ := receipts_foldl_restartTask (m := m) m.tasks.nodup
      exact ⟨new, hnew, hids.trans map_recovered.symm⟩

section Example

local instance surroundingsRestart : Surroundings Nat where
  gt a b := b < a
  atLeast a n := n ≤ a
  time _ := text "0.0"

def recoveringTask : TaskRecord Nat where
  taskId := text "t-1"
  workkey := text "w-1"
  ownerSession := text "s-1"
  ownerHost := text "h-1"
  pidOrExecutionId := text "17"
  processStartIdentity := text "pid_17_ct_1.0"
  expectedActivityClass := .compute
  recoveryState := some (text "SPAWNING_SUCCESSOR")
  currentState := .recovering
  recoveryCount := 1
  cpuUsage := 0

/-- A task whose recovery is going on is dropped after a restart, though its executor is known. -/
theorem ghost_recovering :
  ¬ NoGhosts ⟨Dict.set ∅ (text "t-1") recoveringTask, ⟨[], ∅⟩⟩
    (reconcileAfterRestart ⟨Dict.set ∅ (text "t-1") recoveringTask, ⟨[], ∅⟩⟩)
  := by
  intro h
  have hgone : (reconcileAfterRestart ⟨Dict.set ∅ (text "t-1") recoveringTask, ⟨[], ∅⟩⟩).tasks.get?
      (text "t-1") = none := rfl
  rcases h.kept (text "t-1") recoveringTask rfl (by decide) with ⟨task', htask', -⟩ | ⟨-, hforeign⟩
  · rw [hgone] at htask'
    cases htask'
  · exact absurd hforeign (by decide)

end Example

end Courier.TaskLifecycle
