import Courier.Library.Dict
import Courier.Library.Escaped
import Courier.Library.Program
import Courier.Platform
import Mathlib.Data.List.Sort

/-!
# The quorum verifier

Workers submit their outputs of a task as proposals.  An evaluation agrees on the output of the largest group with one
digest, if it meets the policy.  A worker outside of the group deviates, and may not submit any more when it did so
too often.
-/

namespace Courier.Quorum

open Program

/-- `QuorumPolicy`. -/
inductive Policy where
  | strictMajority
  | supermajorityTwoThirds
  | unanimous
  deriving DecidableEq

/-- The exceptions of the verifier, with what their messages tell. -/
inductive QuorumError where
  | forgedDigest (workerId : Str)
  | untrusted (workerId : Str)
  | duplicateVote (workerId taskId : Str)
  | insufficientParticipants (taskId : Str) (votes : Nat) (minimum : Int)
  | indexError
  deriving DecidableEq

section Proposals

variable [Platform]

/-- `canonical_digest` of an object. -/
def canonicalDigest (payload : Members) : Str :=
  Platform.sha256 (Json.obj payload).dumpsAscii

structure WorkerProposal where
  taskId : Str
  workerId : Str
  outputPayload : Members
  resultDigest : Str
  timestamp : Str
  digest_eq : resultDigest = canonicalDigest outputPayload

def WorkerProposal.make (taskId workerId : Str) (outputPayload : Members) (resultDigest : Option Str)
    (timestamp : Str) : Except QuorumError WorkerProposal :=
  match resultDigest with
  | none => .ok ⟨taskId, workerId, outputPayload, canonicalDigest outputPayload, timestamp, rfl⟩
  | some digest =>
      if h : digest = canonicalDigest outputPayload then
        .ok ⟨taskId, workerId, outputPayload, digest, timestamp, h⟩
      else .error (.forgedDigest workerId)

end Proposals

/-- What is kept of a worker. -/
structure Reputation where
  totalVotes : Nat
  conformingCount : Nat
  byzantineCount : Nat
  isUntrusted : Bool
  deriving DecidableEq

structure QuorumResult where
  taskId : Str
  achieved : Bool
  policy : Policy
  winningDigest : Option Str
  consensusOutput : Option Members
  participatingWorkers : List Str
  conformingWorkers : List Str
  byzantineWorkers : List Str

/-- So many of the participants are enough for the policy. -/
def Policy.Met (policy : Policy) (count total : Nat) : Prop :=
  match policy with
  | .strictMajority => total < 2 * count
  | .supermajorityTwoThirds => 2 * total ≤ 3 * count
  | .unanimous => count = total

instance (policy : Policy) (count total : Nat) : Decidable (policy.Met count total) :=
  match policy with
  | .strictMajority => inferInstanceAs (Decidable (_ < _))
  | .supermajorityTwoThirds => inferInstanceAs (Decidable (_ ≤ _))
  | .unanimous => inferInstanceAs (Decidable (_ = _))

section Verifier

variable [Platform]

/-- `ByzantineQuorumVerifier`. -/
structure Verifier where
  minParticipants : Int
  policy : Policy
  slashThreshold : Int
  proposals : Dict Str (Dict Str WorkerProposal)
  reputation : Dict Str Reputation

def Verifier.new (minParticipants : Int) (policy : Policy) (slashThreshold : Int) : Verifier where
  minParticipants := max 1 minParticipants
  policy := policy
  slashThreshold := max 1 slashThreshold
  proposals := ∅
  reputation := ∅

abbrev QuorumM := EStateM QuorumError Verifier

/-! ### Calls -/

def ensureReputation (workerId : Str) : QuorumM Reputation := do
  let v ← get
  match v.reputation.get? workerId with
  | some rep => return rep
  | none =>
      let rep : Reputation := ⟨0, 0, 0, false⟩
      set { v with reputation := v.reputation.set workerId rep }
      return rep

def submitProposal (proposal : WorkerProposal) : QuorumM Unit := do
  let v ← get
  if (v.reputation.get? proposal.workerId).any Reputation.isUntrusted then
    throw (.untrusted proposal.workerId)
  let votes := (v.proposals.get? proposal.taskId).getD ∅
  set { v with proposals := v.proposals.set proposal.taskId votes }
  if (votes.get? proposal.workerId).isSome then
    throw (.duplicateVote proposal.workerId proposal.taskId)
  set { v with
    proposals := v.proposals.set proposal.taskId (votes.set proposal.workerId proposal) }

/-- The proposals of a task by their digests, in the order in which the digests first occur. -/
def groups (proposals : List WorkerProposal) : Dict Str (List WorkerProposal) :=
  proposals.foldl
    (fun groups p =>
      groups.set p.resultDigest ((groups.get? p.resultDigest).getD [] ++ [p]))
    ∅

/-- The groups with the largest first; those of one size stay in order. -/
def sortedGroups (proposals : List WorkerProposal) : List (Str × List WorkerProposal) :=
  (groups proposals).entries.insertionSort fun a b => b.2.length ≤ a.2.length

def countConforming (workerId : Str) : QuorumM Unit := do
  let rep ← ensureReputation workerId
  modify fun v => { v with
    reputation := v.reputation.set workerId { rep with
      totalVotes := rep.totalVotes + 1
      conformingCount := rep.conformingCount + 1 } }

/-- A worker is counted as one that deviates, and slashed if it did so too often. -/
def countByzantine (workerId : Str) : QuorumM Unit := do
  let rep ← ensureReputation workerId
  modify fun v => { v with
    reputation := v.reputation.set workerId { rep with
      totalVotes := rep.totalVotes + 1
      byzantineCount := rep.byzantineCount + 1
      isUntrusted := rep.isUntrusted || v.slashThreshold ≤ (rep.byzantineCount + 1 : Nat) } }

def workers (proposals : List WorkerProposal) : List Str :=
  (proposals.map WorkerProposal.workerId).insertionSort (· ≤ ·)

def evaluateQuorum (taskId : Str) : QuorumM QuorumResult := do
  let v ← get
  let proposals := ((v.proposals.get? taskId).getD ∅).values
  if (proposals.length : Int) < v.minParticipants then
    throw (.insufficientParticipants taskId proposals.length v.minParticipants)
  match sortedGroups proposals with
  | (topDigest, top :: others) :: _ =>
      let topProposals := top :: others
      if v.policy.Met topProposals.length proposals.length then
        let conforming := workers topProposals
        let byzantine := workers (proposals.filter fun p => p.resultDigest ≠ topDigest)
        conforming.forM countConforming
        byzantine.forM countByzantine
        return ⟨taskId, true, v.policy, some topDigest, some top.outputPayload, workers proposals,
          conforming, byzantine⟩
      else
        return ⟨taskId, false, v.policy, none, none, workers proposals, [], []⟩
  | _ => throw .indexError

def getWorkerReputation (workerId : Str) : QuorumM Reputation :=
  ensureReputation workerId

/-! ### Runs -/

/-- A call on a verifier. -/
inductive Call where
  | submit (proposal : WorkerProposal)
  | evaluate (taskId : Str)
  | reputation (workerId : Str)

/-- What the verifier does with a call. -/
def perform : Call → QuorumM Unit
  | .submit proposal => submitProposal proposal
  | .evaluate taskId => discard (evaluateQuorum taskId)
  | .reputation workerId => discard (getWorkerReputation workerId)

def Verifier.after (v : Verifier) (call : Call) : Verifier :=
  match perform call v with
  | .ok _ v' => v'
  | .error _ v' => v'

def Verifier.run (v : Verifier) (calls : List Call) : Verifier :=
  calls.foldl Verifier.after v

end Verifier

end Courier.Quorum
