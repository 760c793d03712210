import Courier.Library.Escaped
import Courier.Library.Linked
import Courier.Platform

/-!
# The stage handoff

A pipeline goes through its stages in order.  At every stage a witness token is signed and appended to
the chain of the pipeline; a token names the hash of the token before it.
-/

namespace Courier.StageHandoff

/-! ### The pipeline -/

inductive StageType where
  | dispatch
  | workerA
  | handoff
  | workerB
  | verifier
  | done
  deriving DecidableEq, Repr

def StageType.value : StageType → Str
  | .dispatch => text "DISPATCH"
  | .workerA => text "WORKER_A"
  | .handoff => text "HANDOFF"
  | .workerB => text "WORKER_B"
  | .verifier => text "VERIFIER"
  | .done => text "DONE"

def StageType.lower : StageType → Str
  | .dispatch => text "dispatch"
  | .workerA => text "worker_a"
  | .handoff => text "handoff"
  | .workerB => text "worker_b"
  | .verifier => text "verifier"
  | .done => text "done"

def orderedStages : List StageType :=
  [.dispatch, .workerA, .handoff, .workerB, .verifier, .done]

/-- The exceptions of the pipeline, with what their messages tell. -/
inductive PipelineError where
  | emptyChain
  | outOfOrder (idx : Nat) (expected got : StageType)
  | brokenLink (idx : Nat) (expected got : Json)
  | tampered (stage : StageType)
  | aborted (reason : Json)
  | alreadyCompleted
  | indexError
  | keyError
  | typeError
  | valueError
  | attributeError
  | unicodeEncode
  | overflow
  deriving DecidableEq

/-- The exception is a `StageHandoffError`. -/
def PipelineError.IsHandoff : PipelineError → Prop
  | .emptyChain | .outOfOrder .. | .brokenLink .. | .tampered _ | .aborted _ | .alreadyCompleted => True
  | _ => False

instance (e : PipelineError) : Decidable e.IsHandoff := by
  cases e <;> unfold PipelineError.IsHandoff <;> infer_instance

structure StageWitnessToken where
  stageId : Str
  stageType : StageType
  workerId : Str
  outputHash : Str
  timestamp : Str
  prevTokenHash : Json
  signature : Str
  deriving DecidableEq

structure StageHandoffPipeline where
  pipelineId : Str
  secretKey : Str
  currentStageIndex : Int := 0
  witnessChain : List StageWitnessToken := []
  isAborted : Bool := false
  abortReason : Json := .null
  deriving DecidableEq

/-- What the pipeline takes from its surroundings. -/
class Surroundings where
  /-- The hexadecimal digest of a message, keyed with a secret. -/
  hmac : Str → Str → Str
  /-- The hexadecimal digest of bytes. -/
  digest : List Nat → Str
  /-- `int(value)`. -/
  toInt : Json → Except PipelineError Int

namespace StageWitnessToken

/-- The payload of `canonical_bytes`. -/
def payload (t : StageWitnessToken) : Members :=
  [(text "output_hash", .str t.outputHash),
    (text "prev_token_hash", t.prevTokenHash),
    (text "stage_id", .str t.stageId),
    (text "stage_type", .str t.stageType.value),
    (text "timestamp", .str t.timestamp),
    (text "worker_id", .str t.workerId)]

/-- `canonical_bytes`, before it is encoded. -/
def canonicalBytes (t : StageWitnessToken) : Str :=
  (Json.obj t.payload).dumpsAscii

/-- `to_dict`, its keys in order. -/
def toDict (t : StageWitnessToken) : Members :=
  [(text "output_hash", .str t.outputHash),
    (text "prev_token_hash", t.prevTokenHash),
    (text "signature", .str t.signature),
    (text "stage_id", .str t.stageId),
    (text "stage_type", .str t.stageType.value),
    (text "timestamp", .str t.timestamp),
    (text "worker_id", .str t.workerId)]

def tokenHash [Platform] (t : StageWitnessToken) : Str :=
  Platform.sha256 (Json.obj t.toDict).dumpsAscii

end StageWitnessToken

/-- `stage_id` of the token of a pipeline at a stage. -/
def stageIdOf (pipelineId : Str) (stage : StageType) : Str :=
  pipelineId ++ text "-" ++ stage.lower

/-- `hmac.compare_digest` of texts. -/
def compareDigest (a b : Str) : Except PipelineError Bool :=
  if (∀ c ∈ a, c < 128) ∧ ∀ c ∈ b, c < 128 then .ok (a = b) else .error .typeError

/-- `ORDERED_STAGES[index]`. -/
def stageAt (index : Int) : Option StageType :=
  if 0 ≤ index then orderedStages[index.toNat]?
  else if -6 ≤ index then orderedStages[(index + 6).toNat]?
  else none

namespace StageHandoffPipeline

def create (pipelineId secretKey : Str) : StageHandoffPipeline where
  pipelineId := pipelineId
  secretKey := secretKey

def isCompleted (p : StageHandoffPipeline) : Bool :=
  !p.isAborted && p.witnessChain.length == orderedStages.length &&
    decide ((orderedStages.length : Int) ≤ p.currentStageIndex)

section Platform

variable [Platform] [Surroundings]

/-- `prev_token_hash` of the token that is appended to a chain. -/
def linkAfter (chain : List StageWitnessToken) : Json :=
  lastLink (fun t => .str t.tokenHash) .null chain

/-- The token that `advance` appends, at the time `now`. -/
def nextToken (p : StageHandoffPipeline) (stage : StageType) (workerId : Str) (outputData : List Nat)
    (now : Str) : StageWitnessToken :=
  let unsigned : StageWitnessToken := {
    stageId := stageIdOf p.pipelineId stage
    stageType := stage
    workerId := workerId
    outputHash := Surroundings.digest outputData
    timestamp := now
    prevTokenHash := linkAfter p.witnessChain
    signature := [] }
  { unsigned with signature := Surroundings.hmac p.secretKey unsigned.canonicalBytes }

/-- `advance`, at the time `now`. -/
def advance (p : StageHandoffPipeline) (workerId : Str) (outputData : List Nat) (now : Str) :
    Except PipelineError (StageWitnessToken × StageHandoffPipeline) :=
  if p.isAborted then .error (.aborted p.abortReason)
  else if p.isCompleted then .error .alreadyCompleted
  else match stageAt p.currentStageIndex with
    | none => .error .indexError
    | some stage =>
        if Text.Encodable p.secretKey then
          let token := p.nextToken stage workerId outputData now
          .ok (token, { p with
            witnessChain := p.witnessChain ++ [token]
            currentStageIndex := p.currentStageIndex + 1 })
        else .error .unicodeEncode

def fail (p : StageHandoffPipeline) (reason : Json) : StageHandoffPipeline :=
  { p with isAborted := true, abortReason := reason }

/-- The loop of `verify_chain`. -/
def verifyFrom (secretKey : Str) : Nat → Json → List StageWitnessToken → Except PipelineError Unit
  | _, _, [] => .ok ()
  | idx, prevHash, t :: ts =>
      match orderedStages[idx]? with
      | none => .error .indexError
      | some expected =>
          if t.stageType ≠ expected then .error (.outOfOrder idx expected t.stageType)
          else if t.prevTokenHash ≠ prevHash then .error (.brokenLink idx prevHash t.prevTokenHash)
          else if ¬ Text.Encodable secretKey then .error .unicodeEncode
          else match compareDigest t.signature (Surroundings.hmac secretKey t.canonicalBytes) with
            | .error e => .error e
            | .ok false => .error (.tampered t.stageType)
            | .ok true => verifyFrom secretKey (idx + 1) (.str t.tokenHash) ts

/-- `verify_chain`: it returns true or raises. -/
def verifyChain (p : StageHandoffPipeline) : Except PipelineError Unit :=
  if p.isAborted then .error (.aborted p.abortReason)
  else if p.witnessChain = [] then .error .emptyChain
  else verifyFrom p.secretKey 0 .null p.witnessChain

end Platform

end StageHandoffPipeline

/-! ### Reading pipelines -/

/-- `data[key]`. -/
def index (data : Json) (key : Str) : Except PipelineError Json :=
  match data with
  | .obj d => ((d.lookup key).map Except.ok).getD (.error .keyError)
  | _ => .error .typeError

/-- `StageType(value)`. -/
def stageTypeOf (value : Json) : Except PipelineError StageType :=
  ((orderedStages.find? fun stage => value = .str stage.value).map Except.ok).getD
    (.error .valueError)

section Platform

variable [Platform]

def StageWitnessToken.fromDict (data : Json) : Except PipelineError StageWitnessToken := do
  let stageId ← index data (text "stage_id")
  let stageType ← stageTypeOf (← index data (text "stage_type"))
  let workerId ← index data (text "worker_id")
  let outputHash ← index data (text "output_hash")
  let timestamp ← index data (text "timestamp")
  let signature ← index data (text "signature")
  return {
    stageId := pyStr stageId
    stageType := stageType
    workerId := pyStr workerId
    outputHash := pyStr outputHash
    timestamp := pyStr timestamp
    prevTokenHash := Json.get data.asMembers (text "prev_token_hash")
    signature := pyStr signature }

/-- The tokens that are read of `data.get("witness_chain", [])`. -/
def chainOf (value : Json) : Except PipelineError (List StageWitnessToken) :=
  match value with
  | .arr items => items.mapM StageWitnessToken.fromDict
  | .str [] | .obj [] => .ok []
  | _ => .error .typeError

def StageHandoffPipeline.fromDict [Surroundings] (data : Json) (secretKey : Str) :
    Except PipelineError StageHandoffPipeline :=
  match data with
  | .obj d => do
      let chain ← chainOf ((d.lookup (text "witness_chain")).getD (.arr []))
      let pipelineId ← index data (text "pipeline_id")
      let currentStageIndex ←
        Surroundings.toInt ((d.lookup (text "current_stage_index")).getD (.int 0))
      return {
        pipelineId := pyStr pipelineId
        secretKey := secretKey
        currentStageIndex := currentStageIndex
        witnessChain := chain
        isAborted := (Json.get d (text "is_aborted")).truthy
        abortReason := Json.get d (text "abort_reason") }
  | _ => .error .attributeError

end Platform

/-- `to_dict`, its keys in order. -/
def StageHandoffPipeline.toDict (p : StageHandoffPipeline) : Members :=
  [(text "abort_reason", p.abortReason),
    (text "current_stage_index", .int p.currentStageIndex),
    (text "is_aborted", .bool p.isAborted),
    (text "pipeline_id", .str p.pipelineId),
    (text "witness_chain", .arr (p.witnessChain.map fun t => .obj t.toDict))]

end Courier.StageHandoff
