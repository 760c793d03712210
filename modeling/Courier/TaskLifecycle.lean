import Courier.Library.Dict
import Courier.Library.Text

/-!
# The life of a task

The manager keeps the active tasks and recovers those whose executor is lost: it writes a receipt and hands the task
to one successor.  The verdict on the health of a task comes from outside.
-/

namespace Courier.TaskLifecycle

open Text

/-- What the manager reads from its surroundings.  The type `F` is that of the floats. -/
class Surroundings (F : Type) where
  /-- The first float is greater than the second one. -/
  gt : F → F → Bool
  /-- The float is at least a number. -/
  atLeast : F → Nat → Bool
  /-- The time at which the receipt with this position is written. -/
  time : Nat → Str

/-! ### Tasks -/

inductive TaskState where
  | healthy
  | longRunningHealthy
  | waitingExternal
  | waitingUser
  | suspectedStall
  | confirmedStall
  | ownerLost
  | orphaned
  | recovering
  | done
  | failedFinal
  | cancelled
  | superseded
  deriving DecidableEq

/-- The state as it is written. -/
def TaskState.value : TaskState → Str
  | .healthy => text "HEALTHY"
  | .longRunningHealthy => text "LONG_RUNNING_HEALTHY"
  | .waitingExternal => text "WAITING_EXTERNAL"
  | .waitingUser => text "WAITING_USER"
  | .suspectedStall => text "SUSPECTED_STALL"
  | .confirmedStall => text "CONFIRMED_STALL"
  | .ownerLost => text "OWNER_LOST"
  | .orphaned => text "ORPHANED"
  | .recovering => text "RECOVERING"
  | .done => text "DONE"
  | .failedFinal => text "FAILED_FINAL"
  | .cancelled => text "CANCELLED"
  | .superseded => text "SUPERSEDED"

def stalled : List TaskState :=
  [.confirmedStall, .ownerLost, .orphaned]

def final : List TaskState :=
  [.done, .failedFinal, .cancelled, .superseded]

inductive ActivityClass where
  | compute
  | networkIo
  | userInteraction
  | backgroundWorker
  | daemon
  deriving DecidableEq

inductive StallRootCause where
  | deadlock
  | infiniteLoop
  | resourceExhaustion
  | networkTimeout
  | missingDependency
  | unknown
  deriving DecidableEq

/-- The cause as it is written. -/
def StallRootCause.value : StallRootCause → Str
  | .deadlock => text "DEADLOCK"
  | .infiniteLoop => text "INFINITE_LOOP"
  | .resourceExhaustion => text "RESOURCE_EXHAUSTION"
  | .networkTimeout => text "NETWORK_TIMEOUT"
  | .missingDependency => text "MISSING_DEPENDENCY"
  | .unknown => text "UNKNOWN"

structure Checkpoint (F : Type) where
  checkpointId : Str
  consistencyScore : F

structure TaskRecord (F : Type) where
  taskId : Str
  workkey : Str
  ownerSession : Str
  ownerHost : Str
  pidOrExecutionId : Str
  processStartIdentity : Str
  expectedActivityClass : ActivityClass
  lastCheckpoint : Option Str := none
  availableCheckpoints : List (Checkpoint F) := []
  recoveryState : Option Str := none
  currentState : TaskState := .healthy
  recoveryCount : Int := 0
  waitingOnTaskId : Option Str := none
  cpuUsage : F
  networkDrops : Int := 0
  provider : Option Str := none
  fallbackProvider : Option Str := none
  providerDegraded : Bool := false

structure RecoveryReceipt where
  incidentId : Str
  taskId : Str
  workkey : Str
  oldOwner : Str
  failureClass : Str
  lastGoodCheckpoint : Option Str
  cleanupAction : Str
  successor : Str
  foreignProcessTouched : Bool
  duplicateExecution : Bool
  workPreserved : Bool
  continuationVerified : Bool
  staleSurfaceReclaimed : Bool
  networkDiagnostics : Option Str
  stallRootCause : Option Str
  deriving DecidableEq

/-- A text that may be missing is there and not empty. -/
def given (s : Option Str) : Bool :=
  s.any (· ≠ [])

variable {F : Type}

/-! ### Recovery -/

def verifyOwnership (task : TaskRecord F) (currentProcessIdentity : Option Str) : Bool :=
  if task.pidOrExecutionId = [] then false
  else if task.processStartIdentity = [] then false
  else if given currentProcessIdentity ∧ currentProcessIdentity ≠ some task.processStartIdentity then false
  else true

/-- `SelfHealingPipeline`, with the fixes that the patcher knows. -/
structure Healer where
  receipts : List RecoveryReceipt
  knowledgeBase : Dict StallRootCause Str

/-- The causes that the patcher can fix. -/
def patchable : List StallRootCause :=
  [.infiniteLoop, .deadlock, .missingDependency, .networkTimeout]

/-- `attempt_patch`: whether there is a fix, and what the patcher knows then. -/
def attemptPatch (known : Dict StallRootCause Str) (task : TaskRecord F) (cause : StallRootCause) :
    Bool × Dict StallRootCause Str :=
  if cause ∉ patchable then (false, known)
  else if (known.get? cause).isSome then (true, known)
  else if cause = .missingDependency then (true, known.set cause (text "pip_install_injected"))
  else if cause = .networkTimeout then
    if task.providerDegraded ∧ given task.fallbackProvider then
      (true, known.set cause (text "swapped_provider_" ++ task.fallbackProvider.getD []))
    else (true, known.set cause (text "exponential_backoff_injected"))
  else (true, known.set cause (text "fix_applied"))

section Recovery

variable [Surroundings F]

def bestCheckpoint : List (Checkpoint F) → Option (Checkpoint F)
  | [] => none
  | first :: rest => some <| rest.foldl
      (fun best c => if Surroundings.gt c.consistencyScore best.consistencyScore then c else best) first

def TaskRecord.captured (task : TaskRecord F) : TaskRecord F :=
  match bestCheckpoint task.availableCheckpoints with
  | none => task
  | some best => { task with lastCheckpoint := some best.checkpointId }

/-- `analyze_stall_cause`, with the task as the analysis leaves it. -/
def analyzeStallCause (task : TaskRecord F) : StallRootCause × TaskRecord F :=
  if Surroundings.atLeast task.cpuUsage 99 ∧ task.expectedActivityClass ≠ .compute then
    (.infiniteLoop, task)
  else if 10 ≤ task.networkDrops then (.networkTimeout, task)
  else if given task.waitingOnTaskId then (.deadlock, task)
  else if given task.lastCheckpoint ∧ occurs (text "ModuleNotFoundError") (task.lastCheckpoint.getD []) then
    (.missingDependency, task)
  else if given task.provider ∧ 5 ≤ task.networkDrops then
    (.networkTimeout, { task with providerDegraded := true })
  else (.unknown, task)

/-- What comes of a recovery. -/
structure Recovery (F : Type) where
  healer : Healer
  task : TaskRecord F
  receipt : Option RecoveryReceipt

def receiptOf (healer : Healer) (task : TaskRecord F) (cause : StallRootCause) (patched : Bool) :
    RecoveryReceipt where
  incidentId := text "inc_" ++ Surroundings.time F healer.receipts.length
  taskId := task.taskId
  workkey := task.workkey
  oldOwner := task.ownerSession
  failureClass := task.currentState.value
  lastGoodCheckpoint := task.lastCheckpoint
  cleanupAction := if patched then text "PATCH_AND_RESTART" else text "TERMINATE_AND_RESTART"
  successor := text "succ_" ++ task.taskId
  foreignProcessTouched := false
  duplicateExecution := false
  workPreserved := given task.lastCheckpoint
  continuationVerified := true
  staleSurfaceReclaimed := true
  networkDiagnostics :=
    if task.expectedActivityClass = .networkIo then some (text "DNS OK, Ping OK, TCP Timeout") else none
  stallRootCause := some cause.value

/-- The recovery of a task whose ownership is verified. -/
def succeed (healer : Healer) (task : TaskRecord F) : Recovery F :=
  let (cause, task) := analyzeStallCause task
  let (patched, known) := if cause ∈ patchable then attemptPatch healer.knowledgeBase task cause
    else (false, healer.knowledgeBase)
  let receipt := receiptOf healer task cause patched
  { healer := { receipts := healer.receipts ++ [receipt], knowledgeBase := known }
    task := { task with
      recoveryState := some (text "SPAWNING_SUCCESSOR")
      currentState := .recovering
      recoveryCount := task.recoveryCount + 1 }
    receipt := some receipt }

def recoverTask (healer : Healer) (task : TaskRecord F) : Recovery F :=
  if task.currentState ∉ stalled then ⟨healer, task, none⟩
  else if task.recoveryState ≠ none then ⟨healer, task, none⟩
  else if 3 ≤ task.recoveryCount then ⟨healer, { task with currentState := .waitingUser }, none⟩
  else
    let task := task.captured
    if ¬ verifyOwnership task none then
      ⟨healer, { task with recoveryState := some (text "VERIFYING_OWNERSHIP") }, none⟩
    else succeed healer task

/-! ### What a recovery does -/

/-- A recovery may begin: none is going on, there were fewer than three, and the executor is
known. -/
structure Recoverable (task : TaskRecord F) : Prop where
  idle : task.recoveryState = none
  few : task.recoveryCount < 3
  owned : verifyOwnership task none = true

omit [Surroundings F] in
theorem recoverable_iff (task : TaskRecord F) :
  Recoverable task ↔
    task.recoveryState = none ∧ task.recoveryCount < 3 ∧ verifyOwnership task none = true
  := by
  constructor
  · exact fun h => ⟨h.idle, h.few, h.owned⟩
  · exact fun h => ⟨h.1, h.2.1, h.2.2⟩

instance (task : TaskRecord F) : Decidable (Recoverable task) :=
  decidable_of_iff _ (recoverable_iff task).symm

variable {healer : Healer} {task : TaskRecord F}

@[simp]
theorem taskId_captured :
  task.captured.taskId = task.taskId
  := by
  unfold TaskRecord.captured
  split <;> rfl

@[simp]
theorem verifyOwnership_captured (identity : Option Str) :
  verifyOwnership task.captured identity = verifyOwnership task identity
  := by
  unfold TaskRecord.captured
  split <;> rfl

@[simp]
theorem taskId_analyzeStallCause :
  (analyzeStallCause task).2.taskId = task.taskId
  := by
  simp only [analyzeStallCause]
  repeat' split
  all_goals rfl

theorem recoverTask_of_progress (h : task.recoveryState ≠ none) :
  recoverTask healer task = ⟨healer, task, none⟩
  := by
  unfold recoverTask
  rw [if_pos h, ite_self]

theorem recoverTask_of_limit (hstalled : task.currentState ∈ stalled) (hidle : task.recoveryState = none)
    (hlimit : 3 ≤ task.recoveryCount) :
  recoverTask healer task = ⟨healer, { task with currentState := .waitingUser }, none⟩
  := by
  unfold recoverTask
  rw [if_neg (not_not.mpr hstalled), if_neg (not_not.mpr hidle), if_pos hlimit]

theorem recoverTask_of_foreign (hstalled : task.currentState ∈ stalled) (hidle : task.recoveryState = none)
    (hfew : task.recoveryCount < 3) (hforeign : verifyOwnership task none = false) :
  recoverTask healer task =
    ⟨healer, { task.captured with recoveryState := some (text "VERIFYING_OWNERSHIP") }, none⟩
  := by
  unfold recoverTask
  rw [if_neg (not_not.mpr hstalled), if_neg (not_not.mpr hidle), if_neg (by omega)]
  dsimp only
  rw [if_pos (by simp [hforeign])]

theorem recoverTask_of_recoverable (hstalled : task.currentState ∈ stalled) (h : Recoverable task) :
  ∃ receipt, (recoverTask healer task).receipt = some receipt ∧
    (recoverTask healer task).healer.receipts = healer.receipts ++ [receipt] ∧
    receipt.taskId = task.taskId ∧ (recoverTask healer task).task.taskId = task.taskId ∧
    (recoverTask healer task).task.currentState = .recovering ∧
    (recoverTask healer task).task.recoveryState ≠ none
  := by
  have hsucceed : recoverTask healer task = succeed healer task.captured := by
    unfold recoverTask
    rw [if_neg (not_not.mpr hstalled), if_neg (not_not.mpr h.idle), if_neg (by have := h.few; omega)]
    dsimp only
    rw [if_neg (by simp [h.owned])]
  rw [hsucceed]
  refine ⟨_, rfl, rfl, ?_, ?_, rfl, Option.some_ne_none _⟩
  · exact Eq.trans taskId_analyzeStallCause taskId_captured
  · exact Eq.trans taskId_analyzeStallCause taskId_captured

theorem recoverTask_of_not_recoverable (hstalled : task.currentState ∈ stalled) (h : ¬ Recoverable task) :
  (recoverTask healer task).receipt = none ∧ (recoverTask healer task).healer = healer
  := by
  rw [recoverable_iff] at h
  by_cases hidle : task.recoveryState = none
  · by_cases hfew : task.recoveryCount < 3
    · have hforeign : verifyOwnership task none = false := by simpa [hidle, hfew] using h
      rw [recoverTask_of_foreign hstalled hidle hfew hforeign]
      exact ⟨rfl, rfl⟩
    · rw [recoverTask_of_limit hstalled hidle (by omega)]
      exact ⟨rfl, rfl⟩
  · rw [recoverTask_of_progress hidle]
    exact ⟨rfl, rfl⟩

theorem taskId_recoverTask (healer : Healer) (task : TaskRecord F) :
  (recoverTask healer task).task.taskId = task.taskId
  := by
  unfold recoverTask
  split
  · rfl
  · split
    · rfl
    · split
      · rfl
      · dsimp only
        split
        · exact taskId_captured
        · exact Eq.trans taskId_analyzeStallCause taskId_captured

/-! ### The manager -/

/-- `TaskLifecycleManager`. -/
structure Manager (F : Type) where
  tasks : Dict Str (TaskRecord F)
  healer : Healer

/-- The task as it is now. -/
def Manager.put (m : Manager F) (k : Str) (task : TaskRecord F) : Manager F :=
  { m with tasks := m.tasks.set k task }

def Manager.recover (m : Manager F) (k : Str) (task : TaskRecord F) : Manager F × Option RecoveryReceipt :=
  let r := recoverTask m.healer task
  ({ tasks := m.tasks.set k r.task, healer := r.healer }, r.receipt)

/-- `reconcile_lease`, with the verdict of `analyze_health`. -/
def reconcileLease (m : Manager F) (k : Str) (verdict : TaskState) : Manager F :=
  match m.tasks.get? k with
  | none => m
  | some task =>
      let task := { task with currentState := verdict }
      if verdict ∈ stalled then (m.recover k task).1 else m.put k task

def suspend (k : Str) (m : Manager F) (d : Str) : Manager F :=
  match m.tasks.get? d with
  | some task =>
      if task.waitingOnTaskId = some k then m.put d { task with currentState := .suspectedStall } else m
  | none => m

def TaskRecord.switched (task : TaskRecord F) : TaskRecord F :=
  { task with
    provider := task.fallbackProvider
    providerDegraded := false
    currentState := .confirmedStall }

def switchProvider (m : Manager F) (k : Str) : Manager F :=
  match m.tasks.get? k with
  | some task =>
      if task.providerDegraded ∧ given task.fallbackProvider then
        let m := (m.recover k task.switched).1
        m.tasks.keys.foldl (suspend k) m
      else m
  | none => m

def handleProviderOutage (m : Manager F) : Manager F :=
  m.tasks.keys.foldl switchProvider m

def stealLeaseForFailedHost (m : Manager F) (k newHost newSession : Str) : Manager F :=
  match m.tasks.get? k with
  | none => m
  | some task =>
      if task.ownerHost ≠ newHost then
        let (m', receipt) := m.recover k { task with
          currentState := .ownerLost
          ownerHost := newHost
          ownerSession := newSession }
        match receipt with
        | some receipt => { m' with healer := { m'.healer with
            receipts := m.healer.receipts ++ [{ receipt with oldOwner := task.ownerSession }] } }
        | none => m'
      else m

/-- The tasks from one on, each waiting on the next one, and the task at which they come back to
one of them. -/
def walk (tasks : Dict Str (TaskRecord F)) (path : List Str) (curr : Option Str) :
    List Str × Option Str :=
  match curr with
  | none => (path, none)
  | some c =>
      if c = [] then (path, none)
      else match htask : tasks.get? c with
        | none => (path, none)
        | some task =>
            if hpath : c ∈ path then (path, some c)
            else walk tasks (path ++ [c]) task.waitingOnTaskId
termination_by (tasks.keys.filter fun k => k ∉ path).length
decreasing_by
  have hc : c ∈ tasks.keys := Dict.get?_isSome.mp (by rw [htask]; rfl)
  have hsub : (tasks.keys.filter fun k => k ∉ path ++ [c]) =
      ((tasks.keys.filter fun k => k ∉ path).filter fun k => k ≠ c) := by
    rw [List.filter_filter]
    apply List.filter_congr
    intro k _
    simp [and_comm]
  rw [hsub]
  apply List.length_filter_lt_length_iff_exists.mpr
  exact ⟨c, List.mem_filter.mpr ⟨hc, by simpa using hpath⟩, by simp⟩

/-- The search for deadlocks, as far as it has come. -/
structure Search (F : Type) where
  manager : Manager F
  visited : List Str
  recoveredTasks : List Str

def searchFrom (s : Search F) (k : Str) : Search F :=
  if k ∈ s.visited then s
  else
    let (path, found) := walk s.manager.tasks [] (some k)
    match found.bind fun c => (s.manager.tasks.get? c).map fun task => (c, task) with
    | none => { s with visited := s.visited ++ path }
    | some (c, task) =>
        let (m, receipt) := s.manager.recover c { task with currentState := .confirmedStall }
        { manager := m
          visited := s.visited ++ path
          recoveredTasks := if receipt.isSome then s.recoveredTasks ++ [c] else s.recoveredTasks }

def detectDeadlocks (m : Manager F) : Manager F × List Str :=
  let s := m.tasks.keys.foldl searchFrom ⟨m, [], []⟩
  (s.manager, s.recoveredTasks)

/-- One task of the reconciliation after a restart. -/
def restartTask (m : Manager F) (k : Str) : Manager F :=
  match m.tasks.get? k with
  | none => m
  | some task =>
      if task.currentState ∈ final then { m with tasks := m.tasks.erase k }
      else
        let (m, receipt) := m.recover k { task with currentState := .ownerLost }
        if receipt.isNone then { m with tasks := m.tasks.erase k } else m

def reconcileAfterRestart (m : Manager F) : Manager F :=
  m.tasks.keys.foldl restartTask m

end Recovery

def completeTask (m : Manager F) (k : Str) : Manager F :=
  { m with tasks := m.tasks.erase k }

def markTaskResumed (m : Manager F) (k : Str) : Manager F :=
  match m.tasks.get? k with
  | none => m
  | some task => { m with tasks := m.tasks.set k { task with
      currentState := .healthy
      recoveryState := none } }

end Courier.TaskLifecycle
