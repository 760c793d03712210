import Courier.Continuation
import Courier.Library.Checks
import Courier.Platform

/-!
# Sequential chains

The units of a chain are claimed, executed, verified, checkpointed and released one after the other, and one that
fails stops the chain.  What these steps come to is given, and which operations on the claim files fail.  `hashable`
says which task ids can be put into a set.
-/

namespace Courier.Continuation.Chain

open Except

/-! ### Calls -/

/-- At most `fuel` steps of a call. -/
def drive {P : Type} (step : Files → P → Files × Progress P) : Nat → Files → P → Files × Bool
  | 0, fs, _ => (fs, false)
  | fuel + 1, fs, phase =>
      match step fs phase with
      | (fs', .next phase') => drive step fuel fs' phase'
      | (fs', .returned answer) => (fs', answer)

/-- `claim`, by the owner and for the lifetime that are its defaults.  It takes six steps at most. -/
def claim (now : ℚ) (fails : ClaimPhase → Bool) (fs : Files) : Files × Bool :=
  drive (fun fs phase => claimStep (text "google-antigravity") 3600 now fs (fails phase) phase) 6 fs
    .exists

def release (fails : Bool) (fs : Files) : Files × Bool :=
  drive (fun fs phase => releaseStep [] false fs fails phase) 2 fs .exists

/-! ### Units -/

inductive ExecutionMode where
  | localDeterministic
  | googleBuilder
  | autonomousSchedule
  | recoveryResume
  deriving DecidableEq

def ExecutionMode.value : ExecutionMode → Str
  | localDeterministic => text "MODE_A_LOCAL_DETERMINISTIC"
  | googleBuilder => text "MODE_B_GOOGLE_BUILDER"
  | autonomousSchedule => text "MODE_C_AUTONOMOUS_SCHEDULE"
  | recoveryResume => text "MODE_D_RECOVERY_RESUME"

/-- What is raised. -/
inductive ChainError (T : Type) where
  | noUnits
  | missingWorkkey
  | invalidWorkkey (workkey : Json)
  | duplicateWorkkeys (keys : List Str)
  | unhashableTaskId
  | duplicateTaskIds (ids : List T)
  | invalidMode (mode : Json)
  | verification (message : Str)
  | checkpoint (message : Str)
  | missingResultHash
  deriving DecidableEq

/-- A unit; a member that is missing is `none`, and so is a task id that is `None`. -/
structure ChainUnit (T : Type) where
  workkey : Option Json
  taskId : Option T
  mode : Option Json

def ChainUnit.executionMode {T : Type} (unit : ChainUnit T) : Option ExecutionMode :=
  match unit.mode with
  | none => some .localDeterministic
  | some mode =>
      [ExecutionMode.localDeterministic, .googleBuilder, .autonomousSchedule, .recoveryResume].find?
        fun m => Json.str m.value = mode

/-- What executing a unit comes to: a result, with what `verify_result` says of it, or an error. -/
inductive Executed where
  | result (status : Str) (resultHash : Option Str) (verified : Except Str Bool)
  | error (message : Str)

/-- What happens around a unit. -/
structure Surroundings where
  now : ℚ
  claimFails : ClaimPhase → Bool
  execute : ExecutionMode → Executed
  /-- The name of the checkpoint for the next workkey, or the message of an error. -/
  checkpoint : Option Str → Except Str Str
  releaseFails : Bool

structure Job (T : Type) where
  key : Str
  next : Option Str
  unit : ChainUnit T
  around : Surroundings

/-! ### Chains -/

/-- What a chain has done, by the workkeys: it called `claim`, executed the unit, found its result
verified, and could not release it. -/
inductive Event where
  | claiming (key : Str)
  | executed (key : Str)
  | verified (key : Str)
  | releaseFailed (key : Str)
  deriving DecidableEq

structure ChainReport where
  status : Str
  chain : List Str
  unitsCompleted : List Str
  checkpoints : List Str
  resultHashes : List Str
  failedAt : Option Str
  reason : Option Str
  notStarted : List Str
  manualPromptsRequired : Nat := 0
  deriving DecidableEq

/-- The claim files by their workkeys, what was done, and what the report is made of. -/
structure State where
  claims : Str → Files
  log : List Event
  completed : List Str
  checkpoints : List Str
  resultHashes : List Str

def chainReport (status : Str) (s : State) (failedAt reason : Option Str) (keys : List Str) :
    ChainReport where
  status := status
  chain := keys
  unitsCompleted := s.completed
  checkpoints := s.checkpoints
  resultHashes := s.resultHashes
  failedAt := failedAt
  reason := reason
  notStarted := keys.drop (s.completed.length + if failedAt.any (· ≠ []) then 1 else 0)

abbrev Ending (T : Type) := Except (ChainError T) ChainReport

def State.put (s : State) (key : Str) (fs : Files) : State :=
  { s with claims := Function.update s.claims key fs }

def State.note (s : State) (event : Event) : State :=
  { s with log := s.log ++ [event] }

/-- The workkey is released, unless this fails. -/
def State.release (s : State) (key : Str) (fails : Bool) : State × Bool :=
  let (fs, released) := Chain.release fails (s.claims key)
  if released then (s.put key fs, true) else ((s.put key fs).note (.releaseFailed key), false)

variable {T : Type}

def finish (keys : List Str) (s : State) (job : Job T) (resultHash : Option Str) :
    State × Option (Ending T) :=
  match job.around.checkpoint job.next with
  | .error message => (s, some (.error (.checkpoint message)))
  | .ok name =>
      let released := s.release job.key job.around.releaseFails
      let s := released.1
      if released.2 = false then
        (s, some (.ok (chainReport (text "BLOCKED") s (some job.key) (some (text "release_failed"))
          keys)))
      else
        let s := { s with
          completed := s.completed ++ [job.key]
          checkpoints := s.checkpoints ++ [name] }
        match resultHash with
        | none => (s, some (.error .missingResultHash))
        | some hash => ({ s with resultHashes := s.resultHashes ++ [hash] }, none)

def abandon (keys : List Str) (s : State) (job : Job T) (reason : Str) : State × Option (Ending T) :=
  let s := (s.release job.key job.around.releaseFails).1
  (s, some (.ok (chainReport (text "FAIL") s (some job.key) (some reason) keys)))

/-- A pass of the loop from the verification on. -/
def judge (keys : List Str) (s : State) (job : Job T) : Executed → State × Option (Ending T)
  | .error message => abandon keys s job (text "execute_error: " ++ message)
  | .result status resultHash verified =>
      match verified with
      | .error message => (s, some (.error (.verification message)))
      | .ok false => abandon keys s job (text "verify_failed: " ++ status)
      | .ok true => finish keys (s.note (.verified job.key)) job resultHash

/-- A pass of the loop over the units: the state, and how the chain ends if it goes no further. -/
def runUnit (keys : List Str) (s : State) (job : Job T) : State × Option (Ending T) :=
  let claimed := claim job.around.now job.around.claimFails (s.claims job.key)
  let s := (s.put job.key claimed.1).note (.claiming job.key)
  if claimed.2 = false then
    (s, some (.ok (chainReport (text "BLOCKED") s (some job.key) (some (text "claim_failed")) keys)))
  else
    match job.unit.executionMode with
    | none => (s, some (.error (.invalidMode (job.unit.mode.getD .null))))
    | some mode => judge keys (s.note (.executed job.key)) job (job.around.execute mode)

/-- The loop over the units. -/
def runUnits (keys : List Str) (s : State) : List (Job T) → State × Ending T
  | [] => (s, .ok (chainReport (text "PASS") s none none keys))
  | job :: jobs =>
      match runUnit keys s job with
      | (s', some ending) => (s', ending)
      | (s', none) => runUnits keys s' jobs

def isKeyCharacter (c : Nat) : Bool :=
  (65 ≤ c && c ≤ 90) || (97 ≤ c && c ≤ 122) || (48 ≤ c && c ≤ 57) || c = 95 || c = 45

/-- `validate_workkey`.  The end of the pattern is also found before a line feed at the end. -/
def validWorkkey (s : Str) : Bool :=
  let word := if s.getLast? = some 10 then s.dropLast else s
  word ≠ [] && word.all isKeyCharacter

def workkeys (units : List (ChainUnit T)) : Except (ChainError T) (List Str) := do
  let keys ← units.mapM fun unit =>
    match unit.workkey with
    | none => .error .missingWorkkey
    | some key => .ok key
  keys.mapM fun key =>
    match key with
    | .str s => if validWorkkey s then .ok s else .error (.invalidWorkkey key)
    | _ => .error (.invalidWorkkey key)

def prepare [DecidableEq T] (hashable : T → Bool) (units : List (ChainUnit T)) : Except (ChainError T) (List Str) := do
  check (units ≠ []) .noUnits
  let keys ← workkeys units
  check keys.Nodup (.duplicateWorkkeys keys)
  let taskIds := units.filterMap (·.taskId)
  check (taskIds.all hashable = true) .unhashableTaskId
  check taskIds.Nodup (.duplicateTaskIds taskIds)
  return keys

def jobs (keys : List Str) (around : Nat → Surroundings) (units : List (ChainUnit T)) : List (Job T) :=
  ((keys.zip units).zipIdx).map fun p => ⟨p.1.1, keys[p.2 + 1]?, p.1.2, around p.2⟩

/-- Before the first unit. -/
def State.start (claims : Str → Files) : State where
  claims := claims
  log := []
  completed := []
  checkpoints := []
  resultHashes := []

/-- `run_sequential_chain`, with the claim files as they are before. -/
def runSequentialChain [DecidableEq T] (hashable : T → Bool) (claims : Str → Files) (around : Nat → Surroundings)
    (units : List (ChainUnit T)) : State × Ending T :=
  match prepare hashable units with
  | .error e => (.start claims, .error e)
  | .ok keys => runUnits keys (.start claims) (jobs keys around units)

end Courier.Continuation.Chain
