import Courier.StateMachine

/-!
# The verdict on a result

How the controller decides about a result.  The adapter's verifier is code the controller only
calls: `Finding` is what comes of the call, and `runVerifier` the rules around it, which never
accept what a verifier did not.
-/

namespace Courier

open Text
open Json (truthy)

/-- Who decided: the code of an adapter's verifier. -/
structure VerifierIdentity where
  name : Str
  version : Option Str
  sourceSha256 : Option Str

/-- What the verifier of an adapter comes to. -/
inductive Finding where
  | loadFailed (exception : Str)
  | missing
  | raised (identity : VerifierIdentity) (exception : Str)
  | invalid (identity : VerifierIdentity)
  | verdict (identity : VerifierIdentity) (accepted : Bool) (reason : Str) (retryable : Bool)

structure Verdict where
  accepted : Bool
  reason : Str
  retryable : Bool
  verifier : Members

/-- How many characters of a reason are kept. -/
def MAX_VERDICT_REASON : Nat := 500

/-- `verifier_identity`. -/
def VerifierIdentity.record (identity : VerifierIdentity) : Members :=
  [(text "kind", .str (text "adapter")), (text "name", .str identity.name),
    (text "source_sha256", Event.optionJson identity.sourceSha256),
    (text "version", Event.optionJson identity.version)]

/-- `_rule`: a verdict by a rule of the controller. -/
def rule (name adapter : Str) : Members :=
  [(text "adapter", .str adapter), (text "kind", .str (text "courier_rule")),
    (text "name", .str name)]

/-- The reason speaks of a timeout, after which the effect may have happened all the same. -/
def timedOut (reason : Str) (effectClass : Str) : Bool :=
  occurs (text "timeout") (lower reason) && !mayAutoRetry effectClass

variable [Platform]

def reportedReason (result : EventFields) : Str :=
  if truthy (result.get (text "reason")) then pyStr (result.get (text "reason"))
  else text "worker reported failure"

/-- Whether a failure the worker reported may be retried. -/
def reportedRetryable (s : TaskState) (result : EventFields) : Bool :=
  if Json.hasKey result.payload (text "retryable") then truthy (result.get (text "retryable"))
  else mayAutoRetry s.effectClass

/-- `run_verifier`: the rules around the verdict of an adapter. -/
def runVerifier (finding : Finding) (s : TaskState) (result : EventFields) : Verdict :=
  if result.get (text "outcome") ≠ .str (text "success") then
    { accepted := false
      reason := (reportedReason result).take MAX_VERDICT_REASON
      retryable := !timedOut (reportedReason result) s.effectClass && reportedRetryable s result
      verifier := rule (text "worker_reported_failure") s.adapter }
  else match finding with
    | .loadFailed exception =>
        { accepted := false
          reason := text "verifier for adapter " ++ Platform.repr (.str s.adapter)
            ++ text " failed to load: " ++ exception
          retryable := false
          verifier := rule (text "verifier_load_failed") s.adapter }
    | .missing =>
        { accepted := false
          reason := text "no verifier registered for adapter " ++ Platform.repr (.str s.adapter)
          retryable := false
          verifier := rule (text "no_verifier") s.adapter }
    | .raised identity exception =>
        { accepted := false
          reason := text "verifier raised " ++ exception
          retryable := false
          verifier := identity.record }
    | .invalid identity =>
        { accepted := false
          reason := text "verifier returned an invalid verdict"
          retryable := false
          verifier := identity.record }
    | .verdict identity accepted reason retryable =>
        { accepted := accepted
          reason := reason.take MAX_VERDICT_REASON
          retryable := !timedOut reason s.effectClass && retryable
          verifier := identity.record }

end Courier
