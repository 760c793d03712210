import Courier.Library.Dict
import Courier.Library.Lines
import Courier.Verification
import Courier.Worker

/-!
# The synthetic adapter

The adapter writes one file into the directory of its dispatch: the content that the task declares, or a transform of
a file of another task.  Its verifier compares the files that were reported with what the task declares, and refuses
every name that is not safe.
-/

namespace Courier.Synthetic

open Except (check)
open Flavour (components joined asPosix)
open Text
open Worker (ArtifactRef)

/-- What the adapter is given by its surroundings. -/
class Surroundings where
  /-- The operating system's paths. -/
  flavour : Flavour
  /-- The hexadecimal digest of some bytes. -/
  sha256 : Bytes → Str
  /-- The float of a literal is at least zero. -/
  nonNegative : Str → Bool
  /-- The operating system lets the file with this path be written among these files. -/
  accepts : Dict (List Str) Bytes → List Str → Bool

/-- The files, by the parts of their paths. -/
abbrev Files := Dict (List Str) Bytes

/-! ### Names -/

/-- The name is absolute, has a drive or a root, or leads upwards, in a flavour. -/
def Escapes (flavour : Flavour) (name : Str) : Prop :=
  (∃ c ∈ name.head?, flavour.isSeparator c) ∨ flavour = .windows ∧ name[1]? = some 58 ∨
    text ".." ∈ components flavour name

instance (flavour : Flavour) (name : Str) : Decidable (Escapes flavour name) :=
  inferInstanceAs (Decidable (_ ∨ _ ∨ _))

/-- `is_safe_name`, for a text. -/
def SafeName (name : Str) : Prop :=
  name ≠ [] ∧ name.length ≤ 255 ∧ 0 ∉ name ∧ ¬ Escapes .windows name ∧ ¬ Escapes .posix name

instance (name : Str) : Decidable (SafeName name) :=
  inferInstanceAs (Decidable (_ ∧ _ ∧ _ ∧ _ ∧ _))

def isSafeName (name : Json) : Bool :=
  name.str?.any fun name => SafeName name

/-! ### Parameters -/

/-- `INPUT_TRANSFORMS`. -/
inductive Transform where
  | copy
  | reverse
  deriving DecidableEq

def Transform.ofName (name : Str) : Option Transform :=
  if name = text "copy" then some .copy
  else if name = text "reverse" then some .reverse
  else none

/-- Why an execution does not come to an end. -/
inductive SyntheticError where
  | synthetic (message : Str)
  | crash
  | hang
  | typeError
  | unicodeEncodeError
  | osError
  deriving DecidableEq

/-- The parameters, checked and with their defaults. -/
structure Config where
  sleepS : Json
  write : Str
  content : Str
  crashAfterS : Json
  hang : Bool
  failTransientN : Int
  faultAttempts : List Int
  fromInput : Option Transform
  deriving DecidableEq

/-- The integer that a value counts as; a Boolean is one. -/
def countedInt? : Json → Option Int
  | .int i => some i
  | .bool b => some (if b then 1 else 0)
  | _ => none

/-- The transform of a value that is not null. -/
def transform? : Json → Except SyntheticError Transform
  | .str name =>
      match Transform.ofName name with
      | some kind => .ok kind
      | none => .error (.synthetic (text "from_input must be one of ['copy', 'reverse']"))
  | .arr _ => .error .typeError
  | .obj _ => .error .typeError
  | _ => .error (.synthetic (text "from_input must be one of ['copy', 'reverse']"))

section Calls

variable [Surroundings]

/-- The value is a number that is at least zero. -/
def nonNegative (value : Json) : Bool :=
  match value with
  | .int i => 0 ≤ i
  | .bool _ => true
  | .float literal => Surroundings.nonNegative literal
  | _ => false

/-- The transform that is asked for, if one is. -/
def inputParam (fromInput content : Json) : Except SyntheticError (Option Transform) :=
  if fromInput = .null then .ok none
  else do
    let kind ← transform? fromInput
    check (content = .str []) (.synthetic (text "content and from_input are exclusive"))
    return some kind

def nameParam (value : Json) : Except SyntheticError Str :=
  match value with
  | .str name => do
      check (SafeName name) (.synthetic (text "write must be a safe workspace-relative file name"))
      return name
  | _ => .error (.synthetic (text "write must be a safe workspace-relative file name"))

/-- The content to write. -/
def contentParam (value : Json) : Except SyntheticError Str :=
  match value with
  | .str content => .ok content
  | _ => .error (.synthetic (text "content must be a string"))

/-- Whether to hang. -/
def hangParam (value : Json) : Except SyntheticError Bool :=
  match value with
  | .bool hang => .ok hang
  | _ => .error (.synthetic (text "hang must be a boolean"))

/-- How many attempts fail. -/
def failParam (value : Json) : Except SyntheticError Int :=
  match countedInt? value with
  | some n => do
      check (0 ≤ n) (.synthetic (text "fail_transient_n must be a non-negative int"))
      return n
  | none => .error (.synthetic (text "fail_transient_n must be a non-negative int"))

def attemptsParam (value : Json) : Except SyntheticError (List Int) :=
  match value with
  | .arr items => do
      let attempts := items.filterMap countedInt?
      check (items ≠ [] ∧ attempts.length = items.length ∧ ∀ a ∈ attempts, 1 ≤ a)
        (.synthetic (text "fault_attempts must be a non-empty list of attempts >= 1"))
      return attempts
  | _ => .error (.synthetic (text "fault_attempts must be a non-empty list of attempts >= 1"))

/-- `params.get(key, default)`. -/
def param (members : Members) (key : Str) (default : Json) : Json :=
  (members.lookup key).getD default

def params (value : Json) : Except SyntheticError Config :=
  match value with
  | .obj d => do
      let fromInput ← inputParam (param d (text "from_input") .null) (param d (text "content") (.str []))
      let sleepS := param d (text "sleep_s") (.int 0)
      check (nonNegative sleepS) (.synthetic (text "sleep_s must be a non-negative number"))
      let write ← nameParam (param d (text "write") (.str (text "out.txt")))
      let content ← contentParam (param d (text "content") (.str []))
      let crashAfterS := param d (text "crash_after_s") .null
      check (crashAfterS = .null ∨ nonNegative crashAfterS)
        (.synthetic (text "crash_after_s must be null or a non-negative number"))
      let hang ← hangParam (param d (text "hang") (.bool false))
      let failTransientN ← failParam (param d (text "fail_transient_n") (.int 0))
      let faultAttempts ← attemptsParam (param d (text "fault_attempts") (.arr [.int 1]))
      return {
        sleepS := sleepS
        write := write
        content := content
        crashAfterS := crashAfterS
        hang := hang
        failTransientN := failTransientN
        faultAttempts := faultAttempts
        fromInput := fromInput }
  | _ => .error (.synthetic (text "synthetic params must be a mapping"))

/-! ### Execution -/

/-- `transform_input`, if the bytes can be transformed. -/
def transformInput : Transform → Bytes → Option Bytes
  | .copy, data => some data
  | .reverse, data => do
      let s ← Bytes.decode data
      Bytes.encode s.reverse

/-- A file that was written, with its size. -/
structure RunArtifact where
  path : Str
  sha256 : Str
  size : Nat
  deriving DecidableEq

structure RunResult where
  outcome : Str
  artifacts : List RunArtifact
  reason : Str
  retryable : Bool
  deriving DecidableEq

/-- `_atomic_write`, below a directory; the directory itself is no file. -/
def atomicWrite (files : Files) (dir path : List Str) (data : Bytes) : Except SyntheticError Files :=
  if path = [] ∨ ¬ Surroundings.accepts files (dir ++ path) then .error .osError
  else .ok (files.set (dir ++ path) data)

/-- The bytes that are written. -/
def outputOf (files : Files) (cfg : Config) (inputFiles : List (List Str)) :
    Except SyntheticError Bytes :=
  match cfg.fromInput with
  | some kind =>
      match inputFiles with
      | [] => .error (.synthetic (text "from_input needs the verified input of a dependency"))
      | first :: _ =>
          match files.get? first with
          | none => .error (.synthetic (text "input cannot be read: FileNotFoundError"))
          | some data =>
              match transformInput kind data with
              | none => .error (.synthetic (text "input cannot be read: UnicodeDecodeError"))
              | some data => .ok data
  | none =>
      match Bytes.encode cfg.content with
      | none => .error .unicodeEncodeError
      | some data => .ok data

/-- `run`: what it comes to, and the files after it. -/
def run (files : Files) (value : Json) (dir : List Str) (attempt : Int) (inputFiles : List (List Str)) :
    Except SyntheticError (RunResult × Files) := do
  let cfg ← params value
  check (1 ≤ attempt) (.synthetic (text "attempt must be an int >= 1"))
  let faulted := attempt ∈ cfg.faultAttempts
  check (¬ (faulted ∧ cfg.crashAfterS ≠ .null)) .crash
  check (¬ (faulted ∧ cfg.hang)) .hang
  if attempt ≤ cfg.failTransientN then
    return (⟨text "failure", [], text "synthetic transient fault", true⟩, files)
  else
    let data ← outputOf files cfg inputFiles
    let files' ← atomicWrite files dir (components Surroundings.flavour cfg.write) data
    return (⟨text "success", [⟨cfg.write, Surroundings.sha256 data, data.length⟩], [], false⟩, files')

/-! ### The input of a task -/

/-- The text is sixty-four lower-case hexadecimal digits: `SHA256_RE`. -/
def IsDigest (s : Str) : Prop :=
  s.length = 64 ∧ ∀ c ∈ s, isDigit c ∨ 97 ≤ c ∧ c ≤ 102

instance (s : Str) : Decidable (IsDigest s) :=
  inferInstanceAs (Decidable (_ ∧ _))

/-- An artifact of the input, found among the files with its hash. -/
def inputFile? (files : Files) (home : List Str) (ref : Json) : Option (List Str) := do
  let name ← (Json.get ref.asMembers (text "path")).str?
  let digest ← (Json.get ref.asMembers (text "sha256")).str?
  if name = [] ∨ 92 ∈ name ∨ 58 ∈ name ∨ ∃ part ∈ name.splitOnP (· = 47), part ∈ [[], text ".", text ".."]
  then none
  else
    let path := home ++ components Surroundings.flavour name
    let data ← files.get? path
    if Surroundings.sha256 data = digest then some path else none

def verifiedInputFiles (files : Files) (home : List Str) (bound : Json) : Option (List (List Str)) :=
  match Json.get bound.asMembers (text "artifacts") with
  | .arr refs => if refs = [] then none else refs.mapM (inputFile? files home)
  | _ => none

/-! ### Verification -/

/-- Why a result is rejected. -/
structure Rejection where
  reason : Str
  retryable : Bool
  deriving DecidableEq

def reject {α : Type} (reason : Str) : Except Rejection α :=
  .error ⟨reason, false⟩

/-- A condition without which a result is rejected. -/
def demand (p : Prop) [Decidable p] (reason : Str) : Except Rejection Unit :=
  check p ⟨reason, false⟩

/-- `_expected_from_input`: the digest of what the task must have written. -/
def expectedFromInput (files : Files) (home : List Str) (bound transform : Json) :
    Except Rejection Str := do
  match transform? transform with
  | .error .typeError => reject (text "verifier internal error: TypeError")
  | .error _ => reject (text "task declares an unknown input transform")
  | .ok kind =>
      match (Json.get bound.asMembers (text "artifacts")).asItems.head? with
      | some (.obj ref) =>
          let name := Json.get ref (text "path")
          let digest := (Json.get ref (text "sha256")).asStr
          demand (isSafeName name ∧ IsDigest digest) (text "task input reference is malformed")
          let path := components Surroundings.flavour name.asStr
          demand (path ≠ []) (text "task input path escapes the work scope")
          match files.get? (home ++ path) with
          | none => reject (text "task input file is missing")
          | some data =>
              demand (Surroundings.sha256 data = digest)
                (text "task input no longer matches its verified hash")
              match transformInput kind data with
              | none => reject (text "task input cannot be transformed")
              | some data => return Surroundings.sha256 data
      | _ => reject (text "task has no verified input to compare against")

/-- What the task declares of the file that it writes: its name, the digest of its bytes, and what
is said of another one. -/
structure Pinned where
  name : Json
  digest : Str
  mismatch : Str

/-- The content that the task declares for its file. -/
def declared? (name content : Json) : Except Rejection (Option Pinned) :=
  match name, content with
  | .str _, .str content =>
      match Bytes.encode content with
      | none => reject (text "verifier internal error: UnicodeEncodeError")
      | some data => .ok (some ⟨name, Surroundings.sha256 data,
          text "evidence does not match the declared synthetic content"⟩)
  | _, _ => .ok none

def pinned? (files : Files) (home : List Str) (task : TaskState) : Except Rejection (Option Pinned) := do
  let name := Json.get task.params.asMembers (text "write")
  let content := Json.get task.params.asMembers (text "content")
  let transform := Json.get task.params.asMembers (text "from_input")
  let declared ← declared? name content
  if transform ≠ .null then
    let digest ← expectedFromInput files home task.input transform
    return some ⟨.str (name.str?.getD (text "out.txt")), digest,
      text "evidence does not match the transformed input"⟩
  else return declared

/-- The names under which the declared file may be reported. -/
def wantedNames (name : Str) (dispatchId : Option Str) : List Str :=
  name :: match dispatchId with
    | some d =>
        if SafeName d ∧ 47 ∉ d ∧ 92 ∉ d then [text "artifacts/" ++ d ++ text "/" ++ asPosix name] else []
    | none => []

/-- One reported file is compared; the answer says whether it is the declared one. -/
def checkArtifact (files : Files) (home : List Str) (pinned : Option Pinned) (wanted : List Str)
    (ref : Json) : Except Rejection Bool := do
  match ref with
  | .obj ref =>
      let name := Json.get ref (text "path")
      let digest := Json.get ref (text "sha256")
      demand (isSafeName name) (text "evidence artifact path escapes the work scope")
      demand (digest.str?.any fun digest => IsDigest digest) (text "evidence artifact sha256 is malformed")
      match files.get? (home ++ components Surroundings.flavour name.asStr) with
      | none => reject (text "evidence file missing")
      | some data =>
          demand (Surroundings.sha256 data = digest.asStr) (text "evidence artifact hash does not match")
          match pinned with
          | some pinned =>
              if name.asStr ∈ wanted then
                demand (digest.asStr = pinned.digest) pinned.mismatch
                return true
              else return false
          | none => return false
  | _ => reject (text "malformed evidence")

/-- The reported files are compared one after the other; the answer says whether the declared one
is among them. -/
def checkArtifacts (files : Files) (home : List Str) (pinned : Option Pinned) (wanted : List Str) :
    List Json → Except Rejection Bool
  | [] => return false
  | ref :: rest => do
      let first ← checkArtifact files home pinned wanted ref
      let others ← checkArtifacts files home pinned wanted rest
      return first || others

/-- `_verify`: the reason of an acceptance. -/
def accept [Platform] (files : Files) (home : List Str) (task : TaskState) (result : EventFields) :
    Except Rejection Str := do
  check (result.get (text "outcome") = .str (text "success")) {
    reason := if (result.get (text "reason")).truthy then pyStr (result.get (text "reason"))
      else text "worker reported failure"
    retryable := if Json.hasKey result.payload (text "retryable") then
        (result.get (text "retryable")).truthy
      else task.effectClass = text "idempotent" }
  demand (task.dispatchId = none ∨ result.dispatchId = task.dispatchId)
    (text "evidence is bound to a different dispatch")
  match result.get (text "artifacts") with
  | .arr [] => reject (text "missing evidence")
  | .arr refs =>
      let pinned ← pinned? files home task
      demand (∀ p ∈ pinned, isSafeName p.name) (text "task declares an unsafe artifact name")
      let wanted := (pinned.map fun p => wantedNames p.name.asStr result.dispatchId).getD []
      let seen ← checkArtifacts files home pinned wanted refs
      demand (pinned.isSome → seen) (text "declared synthetic artifact is absent from the evidence")
      return text "synthetic evidence verified"
  | _ => reject (text "malformed evidence")

/-- `verify`: what the verifier of the adapter comes to. -/
def verify [Platform] (identity : VerifierIdentity) (files : Files) (home : List Str) (task : TaskState)
    (result : EventFields) : Finding :=
  match accept files home task result with
  | .ok reason => .verdict identity true (reason.take 500) false
  | .error rejection => .verdict identity false (rejection.reason.take 500) rejection.retryable

/-! ### Collection -/

/-- `collect_artifacts`: the files below a directory, each once, in the order in which the
operating system lists them. -/
def Collects (files : Files) (dir : List Str) (artifacts : List ArtifactRef) : Prop :=
  (artifacts.map ArtifactRef.path).Nodup ∧
    ∀ a : ArtifactRef, a ∈ artifacts ↔
      ∃ data, files.get? (dir ++ a.path) = some data ∧ a.sha256 = Surroundings.sha256 data

end Calls

end Courier.Synthetic
