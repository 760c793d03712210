import Courier.Library.Paths
import Courier.Platform

/-!
# What the worker reports

The worker reports the result of an execution to the controller: the files that were written, with
their hashes, and whether the execution succeeded.  A file or directory is given by the parts of
its path. -/

namespace Courier.Worker

open Flavour (joined)
open Text

/-- How an execution ended. -/
inductive Outcome where
  | completed
  | crash
  | timeout
  | cancelled
  | leaseLost
  | spawnFailed
  deriving DecidableEq

/-- The outcome as it is written. -/
def Outcome.value : Outcome → Str
  | .completed => text "completed"
  | .crash => text "crash"
  | .timeout => text "timeout"
  | .cancelled => text "cancelled"
  | .leaseLost => text "lease-lost"
  | .spawnFailed => text "spawn-failed"

/-- A file that was written, below the directory of the dispatch. -/
structure ArtifactRef where
  path : List Str
  sha256 : Str
  deriving DecidableEq

structure ExecutionSpec where
  dispatchId : Str
  resultId : Str
  artifactDir : List Str
  adapter : Option Str
  effectClass : Option Str

structure ExecutionResult where
  spec : ExecutionSpec
  outcome : Outcome
  artifacts : List ArtifactRef

def ExecutionResult.l2Outcome (result : ExecutionResult) : Str :=
  if result.outcome = .completed then text "success" else text "failure"

def ExecutionResult.retryable (result : ExecutionResult) : Bool :=
  if result.spec.effectClass ≠ some (text "idempotent") then false
  else result.outcome = .timeout || result.outcome = .leaseLost

def artifactPrefix (artifactDir : List Str) (home : Option (List Str)) : Str :=
  match home with
  | none => []
  | some home =>
      if home.isPrefixOf artifactDir then
        let rel := artifactDir.drop home.length
        if rel = [] ∨ (text "..").isPrefixOf (joined rel) then []
        else joined rel ++ text "/"
      else []

/-- A file as it is reported. -/
def ArtifactRef.reported (before : Str) (a : ArtifactRef) : Json :=
  .obj [(text "path", .str (before ++ joined a.path)), (text "sha256", .str a.sha256)]

variable [Platform]

/-- Whether the result is a success, whether a failure may be retried, and the reason of a
failure. -/
def ExecutionResult.judged (result : ExecutionResult) (report : Option Members) :
    Str × Bool × Option Str :=
  if result.l2Outcome ≠ text "success" then
    (result.l2Outcome, result.retryable, some (text "worker outcome: " ++ result.outcome.value))
  else if result.spec.adapter.isSome then
    match report with
    | none => (text "failure", false, some (text "adapter runner produced no structured result"))
    | some report =>
        if Json.get report (text "outcome") ≠ .str (text "success") then
          (text "failure", (Json.get report (text "retryable")).truthy,
            some ((if (Json.get report (text "reason")).truthy then pyStr (Json.get report (text "reason"))
              else text "adapter reported failure").take 500))
        else (result.l2Outcome, result.retryable, none)
  else (result.l2Outcome, result.retryable, none)

def buildResultPayload (result : ExecutionResult) (report : Option Members)
    (home : Option (List Str)) : Members :=
  let before := artifactPrefix result.spec.artifactDir home
  let (outcome, retryable, reason) := result.judged report
  Json.members <|
    [(text "dispatch_id", .str result.spec.dispatchId), (text "result_id", .str result.spec.resultId),
      (text "artifacts", .arr (result.artifacts.map fun a => a.reported before)),
      (text "outcome", .str outcome)] ++
    if outcome ≠ text "success" then
      (text "retryable", .bool retryable) ::
        match reason with
        | some reason => if reason = [] then [] else [(text "reason", .str reason)]
        | none => []
    else []

def buildSpecFailurePayload (dispatchId resultId reason : Str) : Members :=
  Json.members [(text "dispatch_id", .str dispatchId), (text "result_id", .str resultId),
    (text "artifacts", .arr []), (text "outcome", .str (text "failure")), (text "retryable", .bool false),
    (text "reason", .str reason)]

end Courier.Worker
