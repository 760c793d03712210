import Courier.Library.Run
import Courier.TaskLifecycle

/-!
# Receipts and recoveries

A task that is being recovered has one receipt since it was registered or resumed, and its state
says so. The five calls that change the state of a task keep this exactly if they leave alone the
tasks that are being recovered, and ask for a recovery only of a task with a known executor
(`tidy_run_iff`). -/

namespace Courier.TaskLifecycle

open Run (Along Tracks)
open Text

variable {F : Type}

/-! ### The property -/

def span (marks : Str → Nat) (m : Manager F) (k : Str) : Nat :=
  (m.healer.receipts.drop (marks k)).countP fun r => r.taskId = k

/-- A task with some receipts: it is being recovered if it has one, it has at most one, and while
it is being recovered its state says so. -/
def Fits (task : TaskRecord F) (n : Nat) : Prop :=
  (task.recoveryState ≠ none ↔ n = 1) ∧ n ≤ 1 ∧
    (task.recoveryState ≠ none → task.currentState = .recovering)

def Misfits (task : TaskRecord F) (n : Nat) : Prop :=
  task.recoveryState ≠ none ∧ (task.currentState ≠ .recovering ∨ n ≠ 1)

def Tidy (marks : Str → Nat) (m : Manager F) : Prop :=
  ∀ k task, m.tasks.get? k = some task → Fits task (span marks m k)

def Torn (marks : Str → Nat) (m : Manager F) : Prop :=
  ∃ k task, m.tasks.get? k = some task ∧ Misfits task (span marks m k)

/-- The tasks are kept under their ids, and the marks lie in the past. -/
structure Filed (marks : Str → Nat) (m : Manager F) : Prop where
  own : ∀ k task, m.tasks.get? k = some task → task.taskId = k
  past : ∀ k, marks k ≤ m.healer.receipts.length

theorem not_tidy_of_torn {marks : Str → Nat} {m : Manager F} (h : Torn marks m) :
  ¬ Tidy marks m
  := by
  obtain ⟨k, task, htask, hstate, hmisfit⟩ := h
  intro htidy
  obtain ⟨hone, -, hrecovering⟩ := htidy k task htask
  rcases hmisfit with hmisfit | hmisfit
  · exact hmisfit (hrecovering hstate)
  · exact hmisfit (hone.mp hstate)

/-! ### Changes of one task -/

structure Changes (m m' : Manager F) (k : Str) (task task' : TaskRecord F)
    (new : List RecoveryReceipt) : Prop where
  before : m.tasks.get? k = some task
  tasks : m'.tasks = m.tasks.set k task'
  receipts : m'.healer.receipts = m.healer.receipts ++ new
  id : task'.taskId = task.taskId
  own : ∀ r ∈ new, r.taskId = task.taskId

namespace Changes

variable {marks : Str → Nat} {m m' : Manager F} {k l : Str} {task task' : TaskRecord F}
  {new : List RecoveryReceipt}

theorem get? (h : Changes m m' k task task' new) :
  m'.tasks.get? l = if l = k then some task' else m.tasks.get? l
  := by
  rw [h.tasks, Dict.get?_set]

theorem filed (h : Changes m m' k task task' new) (hfiled : Filed marks m) :
  Filed marks m'
  where
  own l task'' htask := by
    rw [h.get?] at htask
    split at htask
    next heq =>
      cases htask
      rw [h.id, hfiled.own k task h.before, heq]
    next => exact hfiled.own l task'' htask
  past l := by
    rw [h.receipts, List.length_append]
    exact (hfiled.past l).trans (Nat.le_add_right _ _)

theorem span_eq (h : Changes m m' k task task' new) (hfiled : Filed marks m) :
  span marks m' l = span marks m l + new.countP fun r => r.taskId = l
  := by
  rw [span, h.receipts, List.drop_append_of_le_length (hfiled.past l), List.countP_append, span]

theorem span_self (h : Changes m m' k task task' new) (hfiled : Filed marks m) :
  span marks m' k = span marks m k + new.length
  := by
  rw [h.span_eq hfiled, List.countP_eq_length.mpr]
  intro r hr
  simpa [hfiled.own k task h.before] using h.own r hr

theorem span_other (h : Changes m m' k task task' new) (hfiled : Filed marks m) (hl : l ≠ k) :
  span marks m' l = span marks m l
  := by
  rw [h.span_eq hfiled, List.countP_eq_zero.mpr, Nat.add_zero]
  intro r hr
  simpa [h.own r hr, hfiled.own k task h.before] using Ne.symm hl

theorem tracks (h : Changes m m' k task task' new) (hfiled : Filed marks m) {safe : Prop}
    (hkeeps : ∀ n, Fits task n → safe → Fits task' (n + new.length))
    (hbreaks : ∀ n, Fits task n → ¬ safe → Misfits task' (n + new.length))
    (hstays : ∀ n, Misfits task n → Misfits task' (n + new.length)) :
  Tracks (Tidy marks) (Torn marks) m m' safe
  where
  keeps htidy hsafe l task'' htask := by
    rw [h.get?] at htask
    split at htask
    next heq =>
      cases htask
      rw [heq, h.span_self hfiled]
      exact hkeeps _ (htidy k task h.before) hsafe
    next hne =>
      rw [h.span_other hfiled hne]
      exact htidy l task'' htask
  breaks htidy hnot := by
    refine ⟨k, task', by rw [h.get?, if_pos rfl], ?_⟩
    rw [h.span_self hfiled]
    exact hbreaks _ (htidy k task h.before) hnot
  stays := by
    rintro ⟨l, task'', htask, hmisfit⟩
    by_cases hl : l = k
    · subst hl
      rw [h.before] at htask
      cases htask
      refine ⟨l, task', by rw [h.get?, if_pos rfl], ?_⟩
      rw [h.span_self hfiled]
      exact hstays _ hmisfit
    · refine ⟨l, task'', by rw [h.get?, if_neg hl, htask], ?_⟩
      rw [h.span_other hfiled hl]
      exact hmisfit

end Changes

/-! ### The calls -/

section Calls

variable {marks : Str → Nat} {m : Manager F} {k : Str} {task task' : TaskRecord F}

theorem changes_put (htask : m.tasks.get? k = some task) (state : TaskState) :
  Changes m (m.put k { task with currentState := state }) k task { task with currentState := state } []
  where
  before := htask
  tasks := rfl
  receipts := (List.append_nil _).symm
  id := rfl
  own _ hr := absurd hr List.not_mem_nil

theorem fits_put {state : TaskState} {n : Nat} (h : Fits task n)
    (hsafe : task.recoveryState ≠ none → state = .recovering) :
  Fits { task with currentState := state } n
  := ⟨h.1, h.2.1, hsafe⟩

theorem misfits_put {state : TaskState} {n : Nat}
    (hnot : ¬ (task.recoveryState ≠ none → state = .recovering)) :
  Misfits { task with currentState := state } n
  := by
  rw [Classical.not_imp] at hnot
  exact ⟨hnot.1, .inl hnot.2⟩

variable [Surroundings F]

def Sound (task : TaskRecord F) : Prop :=
  task.recoveryState = none ∧ (task.recoveryCount < 3 → verifyOwnership task none = true)

theorem changes_recover (htask : m.tasks.get? k = some task) (hid : task'.taskId = task.taskId)
    (hstalled : task'.currentState ∈ stalled) :
  ∃ new, Changes m (m.recover k task').1 k task (recoverTask m.healer task').task new ∧
    (recoverTask m.healer task').receipt.toList = new
  := by
  by_cases hrecoverable : Recoverable task'
  · obtain ⟨receipt, hreceipt, hreceipts, hid', hid'', -⟩ :=
      @recoverTask_of_recoverable _ _ m.healer _ hstalled hrecoverable
    refine ⟨[receipt], ⟨htask, rfl, hreceipts, hid''.trans hid, ?_⟩, by rw [hreceipt]; rfl⟩
    intro r hr
    obtain rfl := List.mem_singleton.mp hr
    exact hid'.trans hid
  · obtain ⟨hreceipt, hhealer⟩ := @recoverTask_of_not_recoverable _ _ m.healer _ hstalled hrecoverable
    refine ⟨[], ⟨htask, rfl, ?_, ?_, fun r hr => absurd hr List.not_mem_nil⟩, by rw [hreceipt]; rfl⟩
    · rw [List.append_nil]
      exact congrArg Healer.receipts hhealer
    · exact (taskId_recoverTask m.healer task').trans hid

theorem ne_recovering_of_stalled {state : TaskState} (h : state ∈ stalled) :
  state ≠ .recovering
  := by
  rintro rfl
  exact absurd h (by decide)

omit [Surroundings F] in
theorem Fits.none {n : Nat} (h : Fits task n) (hidle : task.recoveryState = none) :
  n = 0
  := by
  obtain ⟨hone, hle, -⟩ := h
  have hne : n ≠ 1 := fun heq => hone.mpr heq hidle
  omega

theorem fits_recover {healer : Healer} {n : Nat} (hstalled : task'.currentState ∈ stalled)
    (hstate : task'.recoveryState = task.recoveryState) :
  (Fits task n → Sound task' →
      Fits (recoverTask healer task').task (n + (recoverTask healer task').receipt.toList.length)) ∧
    (Fits task n → ¬ Sound task' →
      Misfits (recoverTask healer task').task (n + (recoverTask healer task').receipt.toList.length)) ∧
    (Misfits task n →
      Misfits (recoverTask healer task').task (n + (recoverTask healer task').receipt.toList.length))
  := by
  have hne := ne_recovering_of_stalled hstalled
  by_cases hidle : task'.recoveryState = none
  · have hidle' : task.recoveryState = none := hstate.symm.trans hidle
    refine ⟨?_, ?_, fun hmisfit => absurd hidle' hmisfit.1⟩
    · intro hfits hsound
      obtain rfl := hfits.none hidle'
      by_cases hfew : task'.recoveryCount < 3
      · obtain ⟨receipt, hreceipt, -, -, -, hrecovering, hsome⟩ := @recoverTask_of_recoverable _ _ healer
          _ hstalled ⟨hidle, hfew, hsound.2 hfew⟩
        rw [hreceipt]
        exact ⟨⟨fun _ => rfl, fun _ => hsome⟩, le_rfl, fun _ => hrecovering⟩
      · rw [recoverTask_of_limit hstalled hidle (by omega)]
        exact ⟨⟨fun h => absurd hidle h, fun h => absurd h (by simp)⟩, by simp,
          fun h => absurd hidle h⟩
    · intro hfits hnot
      obtain rfl := hfits.none hidle'
      simp only [Sound, hidle, true_and, Classical.not_imp, Bool.not_eq_true] at hnot
      rw [recoverTask_of_foreign hstalled hidle hnot.1 hnot.2]
      exact ⟨Option.some_ne_none _, .inr (by simp)⟩
  · rw [recoverTask_of_progress hidle]
    refine ⟨fun _ hsound => absurd hsound.1 hidle, fun _ _ => ⟨hidle, .inl hne⟩,
      fun _ => ⟨hidle, .inl hne⟩⟩

theorem tracks_recover (hfiled : Filed marks m) (htask : m.tasks.get? k = some task)
    (hid : task'.taskId = task.taskId) (hstalled : task'.currentState ∈ stalled)
    (hstate : task'.recoveryState = task.recoveryState) :
  Tracks (Tidy marks) (Torn marks) m (m.recover k task').1 (Sound task')
  := by
  obtain ⟨new, hchanges, rfl⟩ := changes_recover htask hid hstalled
  exact hchanges.tracks hfiled (fun n => (fits_recover hstalled hstate).1)
    (fun n => (fits_recover hstalled hstate).2.1) (fun n => (fits_recover hstalled hstate).2.2)

theorem filed_recover (hfiled : Filed marks m) (htask : m.tasks.get? k = some task)
    (hid : task'.taskId = task.taskId) (hstalled : task'.currentState ∈ stalled) :
  Filed marks (m.recover k task').1
  := by
  obtain ⟨new, hchanges, -⟩ := changes_recover htask hid hstalled
  exact hchanges.filed hfiled

/-! ### A provider outage -/

omit [Surroundings F] in
theorem filed_suspend (hfiled : Filed marks m) (d : Str) :
  Filed marks (suspend k m d)
  := by
  unfold suspend
  split
  next task htask =>
    split
    · exact (changes_put htask _).filed hfiled
    · exact hfiled
  next => exact hfiled

def SuspendSafe (k : Str) (m : Manager F) (d : Str) : Prop :=
  ∀ task, m.tasks.get? d = some task → task.waitingOnTaskId = some k → task.recoveryState = none

omit [Surroundings F] in
theorem tracks_suspend (hfiled : Filed marks m) (d : Str) :
  Tracks (Tidy marks) (Torn marks) m (suspend k m d) (SuspendSafe k m d)
  := by
  unfold suspend SuspendSafe
  split
  next task htask =>
    split
    next hwaits =>
      have htracks : Tracks (Tidy marks) (Torn marks) m
          (m.put d { task with currentState := .suspectedStall }) (task.recoveryState = none) :=
        (changes_put htask _).tracks hfiled
          (fun n hfits hidle => fits_put hfits fun h => absurd hidle h)
          (fun n hfits hnot => misfits_put fun h => absurd (h hnot) (by decide))
          (fun n hmisfit => misfits_put fun h => absurd (h hmisfit.1) (by decide))
      exact htracks.congr (by simp [htask, hwaits])
    next hfree =>
      refine Tracks.refl.congr ⟨fun _ task' htask' hwaits => ?_, fun _ => trivial⟩
      rw [htask] at htask'
      cases htask'
      exact absurd hwaits hfree
  next hnone =>
    refine Tracks.refl.congr ⟨fun _ task' htask' => ?_, fun _ => trivial⟩
    rw [hnone] at htask'
    cases htask'

def SwitchSafe (m : Manager F) (k : Str) : Prop :=
  ∀ task, m.tasks.get? k = some task → task.providerDegraded → given task.fallbackProvider →
    Sound task ∧ Along (suspend k) (SuspendSafe k) (m.recover k task.switched).1
      (m.recover k task.switched).1.tasks.keys

theorem filed_switchProvider (hfiled : Filed marks m) (k : Str) :
  Filed marks (switchProvider m k)
  := by
  unfold switchProvider
  split
  next task htask =>
    split
    · dsimp only
      refine Run.foldl_invariant (I := Filed marks) (fun m d hm => filed_suspend hm d) ?_ _
      exact filed_recover hfiled htask rfl (by simp [TaskRecord.switched, stalled])
    · exact hfiled
  next => exact hfiled

theorem tracks_switchProvider (hfiled : Filed marks m) (k : Str) :
  Tracks (Tidy marks) (Torn marks) m (switchProvider m k) (SwitchSafe m k)
  := by
  unfold switchProvider SwitchSafe
  split
  next task htask =>
    split
    next hswitch =>
      have hstalled : task.switched.currentState ∈ stalled := by simp [TaskRecord.switched, stalled]
      have hrecover : Tracks (Tidy marks) (Torn marks) m (m.recover k task.switched).1 (Sound task) :=
        tracks_recover hfiled htask rfl hstalled rfl
      have hfiled' : Filed marks (m.recover k task.switched).1 := filed_recover hfiled htask rfl hstalled
      have hsuspend := Tracks.foldl (P := Tidy marks) (B := Torn marks)
        (fun m d hm => filed_suspend (k := k) hm d) (fun m d hm => tracks_suspend hm d) hfiled'
        (m.recover k task.switched).1.tasks.keys
      refine (hrecover.trans hsuspend).congr ⟨?_, fun h => h task htask hswitch.1 hswitch.2⟩
      intro h task' htask' _ _
      rw [htask] at htask'
      cases htask'
      exact h
    next hnot =>
      refine Tracks.refl.congr ⟨fun _ task' htask' hdegraded hgiven => ?_, fun _ => trivial⟩
      rw [htask] at htask'
      cases htask'
      exact absurd ⟨hdegraded, hgiven⟩ hnot
  next hnone =>
    refine Tracks.refl.congr ⟨fun _ task' htask' => ?_, fun _ => trivial⟩
    rw [hnone] at htask'
    cases htask'

/-! ### A search for deadlocks -/

/-- The recovery of the task at which a cycle is broken may be asked for. -/
def SearchSafe (s : Search F) (k : Str) : Prop :=
  k ∉ s.visited → ∀ c task, (walk s.manager.tasks [] (some k)).2 = some c →
    s.manager.tasks.get? c = some task → Sound task

theorem searchFrom_cases (s : Search F) (k : Str) :
  ((searchFrom s k).manager = s.manager ∧ SearchSafe s k) ∨
    ∃ c task, k ∉ s.visited ∧ (walk s.manager.tasks [] (some k)).2 = some c ∧
      s.manager.tasks.get? c = some task ∧
      (searchFrom s k).manager = (s.manager.recover c { task with currentState := .confirmedStall }).1
  := by
  unfold searchFrom
  split
  next hvisited => exact .inl ⟨rfl, fun hnot => absurd hvisited hnot⟩
  next hnew =>
    dsimp only
    split
    next hnone =>
      refine .inl ⟨rfl, fun _ c task hfound htask => ?_⟩
      rw [hfound, Option.bind_some, htask] at hnone
      cases hnone
    next c task hsome =>
      obtain ⟨c', hfound, hmap⟩ := Option.bind_eq_some_iff.mp hsome
      obtain ⟨task', htask, heq⟩ := Option.map_eq_some_iff.mp hmap
      cases heq
      exact .inr ⟨c, task, hnew, hfound, htask, rfl⟩

theorem filed_searchFrom {s : Search F} (hfiled : Filed marks s.manager) (k : Str) :
  Filed marks (searchFrom s k).manager
  := by
  rcases searchFrom_cases s k with ⟨hsame, -⟩ | ⟨c, task, -, -, htask, hrecover⟩
  · rw [hsame]
    exact hfiled
  · rw [hrecover]
    exact filed_recover hfiled htask rfl (by simp [stalled])

theorem tracks_searchFrom {s : Search F} (hfiled : Filed marks s.manager) (k : Str) :
  Tracks (fun s => Tidy marks s.manager) (fun s => Torn marks s.manager) s (searchFrom s k)
    (SearchSafe s k)
  := by
  rcases searchFrom_cases s k with ⟨hsame, hsafe⟩ | ⟨c, task, hnew, hfound, htask, hrecover⟩
  · exact {
      keeps := fun htidy _ => by rwa [hsame]
      breaks := fun _ hnot => absurd hsafe hnot
      stays := fun htorn => by rwa [hsame] }
  · have htracks : Tracks (Tidy marks) (Torn marks) s.manager
        (s.manager.recover c { task with currentState := .confirmedStall }).1 (Sound task) :=
      tracks_recover hfiled htask rfl (by simp [stalled]) rfl
    have hiff : Sound task ↔ SearchSafe s k := by
      constructor
      · intro hsound _ c' task' hfound' htask'
        rw [hfound] at hfound'
        cases hfound'
        rw [htask] at htask'
        cases htask'
        exact hsound
      · exact fun h => h hnew c task hfound htask
    exact {
      keeps := fun htidy hsafe => by
        rw [hrecover]
        exact htracks.keeps htidy (hiff.mpr hsafe)
      breaks := fun htidy hnot => by
        rw [hrecover]
        exact htracks.breaks htidy fun hsound => hnot (hiff.mp hsound)
      stays := fun htorn => by
        rw [hrecover]
        exact htracks.stays htorn }

/-! ### Runs -/

structure Registration (F : Type) where
  task : TaskRecord F
  idle : task.recoveryState = none

inductive Call (F : Type) where
  | register (r : Registration F)
  | reconcileLease (k : Str) (verdict : TaskState)
  | detectDeadlocks
  | handleProviderOutage
  | stealLeaseForFailedHost (k newHost newSession : Str)
  | markTaskResumed (k : Str)
  | completeTask (k : Str)

/-- The manager, and for every task how many receipts there were when it was registered or last
resumed. -/
structure World (F : Type) where
  manager : Manager F
  marks : Str → Nat

def World.step (w : World F) : Call F → World F
  | .register r => {
      manager := w.manager.put r.task.taskId r.task
      marks := Function.update w.marks r.task.taskId w.manager.healer.receipts.length }
  | .reconcileLease k verdict => { w with manager := TaskLifecycle.reconcileLease w.manager k verdict }
  | .detectDeadlocks => { w with manager := (TaskLifecycle.detectDeadlocks w.manager).1 }
  | .handleProviderOutage => { w with manager := TaskLifecycle.handleProviderOutage w.manager }
  | .stealLeaseForFailedHost k newHost newSession =>
      { w with manager := TaskLifecycle.stealLeaseForFailedHost w.manager k newHost newSession }
  | .markTaskResumed k => {
      manager := TaskLifecycle.markTaskResumed w.manager k
      marks := Function.update w.marks k w.manager.healer.receipts.length }
  | .completeTask k => { w with manager := TaskLifecycle.completeTask w.manager k }

/-- Nothing is registered. -/
def World.start : World F where
  manager := ⟨∅, ⟨[], ∅⟩⟩
  marks _ := 0

def Safe (m : Manager F) : Call F → Prop
  | .register _ => True
  | .reconcileLease k verdict => ∀ task, m.tasks.get? k = some task →
      if verdict ∈ stalled then Sound task else task.recoveryState ≠ none → verdict = .recovering
  | .detectDeadlocks => Along searchFrom SearchSafe ⟨m, [], []⟩ m.tasks.keys
  | .handleProviderOutage => Along switchProvider SwitchSafe m m.tasks.keys
  | .stealLeaseForFailedHost k newHost _ => ∀ task, m.tasks.get? k = some task →
      task.ownerHost ≠ newHost → Sound task
  | .markTaskResumed _ => True
  | .completeTask _ => True

/-! ### One call -/

def TaskRecord.taken (task : TaskRecord F) (newHost newSession : Str) : TaskRecord F :=
  { task with
    currentState := .ownerLost
    ownerHost := newHost
    ownerSession := newSession }

theorem changes_steal {newHost newSession : Str} (htask : m.tasks.get? k = some task)
    (hhost : task.ownerHost ≠ newHost) :
  Changes m (stealLeaseForFailedHost m k newHost newSession) k task
    (recoverTask m.healer (task.taken newHost newSession)).task
    ((recoverTask m.healer (task.taken newHost newSession)).receipt.toList.map fun r =>
      { r with oldOwner := task.ownerSession })
  := by
  have hstalled : (task.taken newHost newSession).currentState ∈ stalled := by
    simp [TaskRecord.taken, stalled]
  obtain ⟨new, hchanges, rfl⟩ : ∃ new, Changes m (m.recover k (task.taken newHost newSession)).1 k task
      (recoverTask m.healer (task.taken newHost newSession)).task new ∧
      (recoverTask m.healer (task.taken newHost newSession)).receipt.toList = new :=
    changes_recover htask rfl hstalled
  have heq : stealLeaseForFailedHost m k newHost newSession =
      (m.recover k (task.taken newHost newSession)).2.elim (m.recover k (task.taken newHost newSession)).1 fun receipt =>
        { (m.recover k (task.taken newHost newSession)).1 with
          healer := { (m.recover k (task.taken newHost newSession)).1.healer with
            receipts := m.healer.receipts ++ [{ receipt with oldOwner := task.ownerSession }] } } := by
    unfold stealLeaseForFailedHost
    rw [htask]
    dsimp only
    rw [if_pos hhost, ← TaskRecord.taken]
    rcases m.recover k (task.taken newHost newSession) with ⟨m', _ | receipt⟩ <;> rfl
  have hown := hchanges.own
  rw [heq]
  cases hreceipt : (recoverTask m.healer (task.taken newHost newSession)).receipt with
  | none =>
    have hsnd : (m.recover k (task.taken newHost newSession)).2 = none := hreceipt
    rw [hsnd]
    rw [hreceipt] at hchanges
    exact hchanges
  | some receipt =>
    have hsnd : (m.recover k (task.taken newHost newSession)).2 = some receipt := hreceipt
    rw [hsnd]
    rw [hreceipt] at hown
    refine ⟨htask, rfl, rfl, hchanges.id, ?_⟩
    intro r hr
    simp only [Option.toList_some, List.map_cons, List.map_nil, List.mem_singleton] at hr
    rw [hr]
    exact hown receipt (by simp)

theorem filed_step {w : World F} (hfiled : Filed w.marks w.manager) (call : Call F) :
  Filed (w.step call).marks (w.step call).manager
  := by
  cases call with
  | register r =>
    refine ⟨?_, ?_⟩
    · intro k task htask
      simp only [World.step, Manager.put, Dict.get?_set] at htask
      split at htask
      next heq =>
        cases htask
        exact heq.symm
      next => exact hfiled.own k task htask
    · intro k
      simp only [World.step, Manager.put, Function.update_apply]
      split
      · exact le_rfl
      · exact hfiled.past k
  | reconcileLease k verdict =>
    simp only [World.step, TaskLifecycle.reconcileLease]
    split
    next => exact hfiled
    next task htask =>
      split
      next hstalled => exact filed_recover hfiled htask rfl hstalled
      next => exact (changes_put htask _).filed hfiled
  | detectDeadlocks =>
    exact Run.foldl_invariant (I := fun s : Search F => Filed w.marks s.manager)
      (fun s k hs => filed_searchFrom hs k) hfiled _
  | handleProviderOutage =>
    exact Run.foldl_invariant (I := Filed w.marks) (fun m k hm => filed_switchProvider hm k) hfiled _
  | stealLeaseForFailedHost k newHost newSession =>
    simp only [World.step]
    cases htask : w.manager.tasks.get? k with
    | none =>
      rw [TaskLifecycle.stealLeaseForFailedHost, htask]
      exact hfiled
    | some task =>
      by_cases hhost : task.ownerHost = newHost
      · rw [TaskLifecycle.stealLeaseForFailedHost, htask]
        dsimp only
        rw [if_neg (not_not.mpr hhost)]
        exact hfiled
      · exact (changes_steal htask hhost).filed hfiled
  | markTaskResumed k =>
    refine ⟨?_, ?_⟩
    · intro l task htask
      simp only [World.step, TaskLifecycle.markTaskResumed] at htask
      split at htask
      next => exact hfiled.own l task htask
      next task' htask' =>
        rw [Dict.get?_set] at htask
        split at htask
        next heq =>
          cases htask
          rw [heq]
          exact hfiled.own k task' htask'
        next => exact hfiled.own l task htask
    · intro l
      have hreceipts : (w.step (.markTaskResumed k)).manager.healer.receipts =
          w.manager.healer.receipts := by
        simp only [World.step, TaskLifecycle.markTaskResumed]
        split <;> rfl
      rw [hreceipts]
      simp only [World.step, Function.update_apply]
      split
      · exact le_rfl
      · exact hfiled.past l
  | completeTask k =>
    refine ⟨?_, hfiled.past⟩
    intro l task htask
    simp only [World.step, TaskLifecycle.completeTask, Dict.get?_erase] at htask
    split at htask
    · cases htask
    · exact hfiled.own l task htask

section

omit [Surroundings F]

theorem span_update_self (m : Manager F) (k : Str) :
  span (Function.update marks k m.healer.receipts.length) m k = 0
  := by
  rw [span, Function.update_self, List.drop_length, List.countP_nil]

theorem span_update_other {m m' : Manager F} {l : Str} (hl : l ≠ k) (n : Nat)
    (hreceipts : m'.healer.receipts = m.healer.receipts) :
  span (Function.update marks k n) m' l = span marks m l
  := by
  rw [span, Function.update_of_ne hl, hreceipts, span]

theorem fits_zero (hidle : task.recoveryState = none) :
  Fits task 0
  := ⟨⟨fun h => absurd hidle h, fun h => absurd h (by decide)⟩, Nat.zero_le 1, fun h => absurd hidle h⟩

end

/-- A call keeps every task fit exactly if it is safe. -/
theorem tidy_step_iff {w : World F} (hfiled : Filed w.marks w.manager) (htidy : Tidy w.marks w.manager)
    (call : Call F) :
  Tidy (w.step call).marks (w.step call).manager ↔ Safe w.manager call
  := by
  cases call with
  | register r =>
    refine iff_of_true ?_ trivial
    intro k task htask
    simp only [World.step, Manager.put, Dict.get?_set] at htask ⊢
    split at htask
    next heq =>
      cases htask
      rw [heq]
      have hspan : span (Function.update w.marks r.task.taskId w.manager.healer.receipts.length)
          w.manager r.task.taskId = 0 := span_update_self w.manager r.task.taskId
      rw [span] at hspan ⊢
      rw [hspan]
      exact fits_zero r.idle
    next hne =>
      rw [span_update_other hne _ rfl]
      exact htidy k task htask
  | reconcileLease k verdict =>
    simp only [World.step, TaskLifecycle.reconcileLease, Safe]
    cases htask : w.manager.tasks.get? k with
    | none => simpa using htidy
    | some task =>
      simp only [Option.some.injEq, forall_eq']
      split
      next hstalled =>
        have htracks : Tracks (Tidy w.marks) (Torn w.marks) w.manager
            (w.manager.recover k { task with currentState := verdict }).1 (Sound task) :=
          tracks_recover hfiled htask rfl hstalled rfl
        exact htracks.iff htidy not_tidy_of_torn
      next =>
        have hchanges := changes_put htask verdict
        constructor
        · intro htidy' hstate
          exact (htidy' k { task with currentState := verdict } (by rw [hchanges.get?, if_pos rfl])).2.2
            hstate
        · intro hsafe l task' htask'
          rw [hchanges.get?] at htask'
          split at htask'
          next heq =>
            cases htask'
            rw [heq, hchanges.span_self hfiled]
            exact fits_put (htidy k task htask) hsafe
          next hne =>
            rw [hchanges.span_other hfiled hne]
            exact htidy l task' htask'
  | detectDeadlocks =>
    have htracks := Tracks.foldl (P := fun s : Search F => Tidy w.marks s.manager)
      (B := fun s => Torn w.marks s.manager) (fun s k hs => filed_searchFrom hs k)
      (fun s k hs => tracks_searchFrom hs k) (s := ⟨w.manager, [], []⟩) hfiled w.manager.tasks.keys
    exact htracks.iff htidy not_tidy_of_torn
  | handleProviderOutage =>
    have htracks := Tracks.foldl (P := Tidy w.marks) (B := Torn w.marks)
      (fun m k hm => filed_switchProvider hm k) (fun m k hm => tracks_switchProvider hm k) hfiled
      w.manager.tasks.keys
    exact htracks.iff htidy not_tidy_of_torn
  | stealLeaseForFailedHost k newHost newSession =>
    simp only [World.step, Safe]
    cases htask : w.manager.tasks.get? k with
    | none =>
      rw [TaskLifecycle.stealLeaseForFailedHost, htask]
      simpa using htidy
    | some task =>
      simp only [Option.some.injEq, forall_eq']
      by_cases hhost : task.ownerHost = newHost
      · rw [TaskLifecycle.stealLeaseForFailedHost, htask]
        dsimp only
        rw [if_neg (not_not.mpr hhost)]
        simpa [hhost] using htidy
      · simp only [ne_eq, hhost, not_false_eq_true, true_imp_iff]
        have hstalled : (task.taken newHost newSession).currentState ∈ stalled := by
          simp [TaskRecord.taken, stalled]
        have hstate : (task.taken newHost newSession).recoveryState = task.recoveryState := rfl
        have htracks : Tracks (Tidy w.marks) (Torn w.marks) w.manager
            (TaskLifecycle.stealLeaseForFailedHost w.manager k newHost newSession)
            (Sound (task.taken newHost newSession)) := by
          refine (changes_steal htask hhost).tracks hfiled ?_ ?_ ?_ <;> intro n
          · rw [List.length_map]
            exact (fits_recover hstalled hstate).1
          · rw [List.length_map]
            exact (fits_recover hstalled hstate).2.1
          · rw [List.length_map]
            exact (fits_recover hstalled hstate).2.2
        exact htracks.iff htidy not_tidy_of_torn
  | markTaskResumed k =>
    refine iff_of_true ?_ trivial
    intro l task htask
    simp only [World.step, TaskLifecycle.markTaskResumed] at htask ⊢
    split at htask
    next hnone =>
      have hl : l ≠ k := by
        rintro rfl
        rw [hnone] at htask
        cases htask
      rw [span_update_other hl _ rfl]
      exact htidy l task htask
    next resumed hresumed =>
      rw [Dict.get?_set] at htask
      split at htask
      next heq =>
        cases htask
        rw [heq]
        have hspan : span (Function.update w.marks k w.manager.healer.receipts.length) w.manager k = 0 :=
          span_update_self w.manager k
        rw [span] at hspan ⊢
        rw [hspan]
        exact fits_zero rfl
      next hl =>
        rw [span_update_other hl _ rfl]
        exact htidy l task htask
  | completeTask k =>
    refine iff_of_true ?_ trivial
    intro l task htask
    simp only [World.step, TaskLifecycle.completeTask, Dict.get?_erase] at htask
    split at htask
    · cases htask
    · exact htidy l task htask

omit [Surroundings F] in
theorem tidy_start :
  Tidy (World.start : World F).marks (World.start : World F).manager
  := fun _ _ htask => nomatch htask

/-- Along a run every task fits its receipts exactly if every call is safe. -/
theorem tidy_run_iff (calls : List (Call F)) :
  (∀ first, first <+: calls → Tidy (first.foldl World.step World.start).marks
      (first.foldl World.step World.start).manager) ↔
    ∀ first call, first ++ [call] <+: calls → Safe (first.foldl World.step World.start).manager call
  := by
  have hfiled : Filed (World.start : World F).marks (World.start : World F).manager :=
    ⟨fun _ _ htask => (nomatch htask), fun _ => le_rfl⟩
  rw [Run.along_iff (I := fun w : World F => Filed w.marks w.manager)
    (P := fun w => Tidy w.marks w.manager) (fun w call hw => filed_step hw call)
    (fun w call hw htidy => (tidy_step_iff hw htidy call).trans not_not.symm) hfiled tidy_start calls]
  simp only [not_not]

end Calls

section Example

local instance surroundingsSpans : Surroundings Nat where
  gt a b := b < a
  atLeast a n := n ≤ a
  time _ := text "0.0"

def unknownTask : TaskRecord Nat where
  taskId := text "t-1"
  workkey := text "w-1"
  ownerSession := text "s-1"
  ownerHost := text "h-1"
  pidOrExecutionId := []
  processStartIdentity := []
  expectedActivityClass := .compute
  cpuUsage := 0

/-- A recovery that is refused because the executor is not known leaves the task with a recovery
state and without a receipt. -/
theorem torn_unknown :
  ¬ Tidy (([.register ⟨unknownTask, rfl⟩, .reconcileLease (text "t-1") .ownerLost] : List (Call Nat)).foldl
      World.step World.start).marks
    (([.register ⟨unknownTask, rfl⟩, .reconcileLease (text "t-1") .ownerLost] : List (Call Nat)).foldl
      World.step World.start).manager
  := by
  intro h
  have hfits := h (text "t-1") { unknownTask with
    currentState := .ownerLost
    recoveryState := some (text "VERIFYING_OWNERSHIP") } rfl
  exact absurd (hfits.1.mp (by simp)) (by decide)

end Example

end Courier.TaskLifecycle
