import Courier.Library.Dict
import Courier.Library.Escaped
import Courier.Library.Program
import Courier.Library.Run
import Courier.Platform

/-!
# The replica coordinator

A coordinator appends mutations to its log, each with the hash of its predecessor, if enough of its
peers are active and acknowledge.  A replica that lags behind is given the mutations it lacks, and
checks each of them before it appends it.
-/

namespace Courier.Replica

open Program

/-! ### The coordinator -/

inductive PeerStatus where
  | active
  | degraded
  | unreachable
  deriving DecidableEq

structure PeerNode where
  url : Str
  status : PeerStatus
  deriving DecidableEq

inductive ReplicaError where
  | quorumUnavailable (received : Nat) (quorum : Nat)
  | staleFence (sequenceId fenceToken : Int)
  | brokenChain (sequenceId : Int)
  deriving DecidableEq

structure ReplicationMutation where
  sequenceId : Int
  fenceToken : Int
  payload : Members
  commitHash : Str
  ackCount : Nat
  committed : Bool
  timestamp : Str
  deriving DecidableEq

structure Coordinator where
  peers : Dict Str PeerNode
  log : List ReplicationMutation
  currentSequence : Int

/-- A coordinator that has done nothing yet. -/
def Coordinator.new : Coordinator where
  peers := ∅
  log := []
  currentSequence := 0

abbrev ReplicaM := EStateM ReplicaError Coordinator

def registerPeer (peerId url : Str) : ReplicaM Unit :=
  modify fun c => { c with peers := c.peers.set peerId ⟨url, .active⟩ }

def setPeerStatus (peerId : Str) (status : PeerStatus) : ReplicaM Unit := do
  let c ← get
  match c.peers.get? peerId with
  | none => pure ()
  | some peer => set { c with peers := c.peers.set peerId { peer with status := status } }

def Coordinator.calculateQuorum (c : Coordinator) : Nat :=
  (1 + c.peers.values.length) / 2 + 1

def Coordinator.activeNodeCount (c : Coordinator) : Nat :=
  1 + c.peers.values.countP fun peer => peer.status = .active

/-- `json.dumps(value, sort_keys=True, ensure_ascii=False)`. -/
def dumpsSpaced : Json → Str
  | .arr items => 91 :: (dumpsItems items ++ [93])
  | .obj d => 123 :: (dumpsMembers d ++ [125])
  | v => v.dumps
where
  dumpsItems : List Json → Str
    | [] => []
    | [x] => dumpsSpaced x
    | x :: y :: xs => dumpsSpaced x ++ 44 :: 32 :: dumpsItems (y :: xs)
  dumpsMembers : Members → Str
    | [] => []
    | [(k, x)] => Json.quote k ++ 58 :: 32 :: dumpsSpaced x
    | (k, x) :: (l, y) :: xs =>
        Json.quote k ++ 58 :: 32 :: (dumpsSpaced x ++ 44 :: 32 :: dumpsMembers ((l, y) :: xs))

def previousHash (log : List ReplicationMutation) : Str :=
  match log.getLast? with
  | some m => m.commitHash
  | none => text "GENESIS"

section Operations

variable [Platform]

/-- The hash a mutation has after another one. -/
def commitHash (sequenceId fenceToken : Int) (previous : Str) (payload : Members) : Str :=
  Platform.sha256 (Text.decimal sequenceId ++ text ":" ++ Text.decimal fenceToken ++ text ":" ++
    previous ++ text ":" ++ (dumpsSpaced (.obj payload)).flatMap Json.asciiPoint)

def proposeMutation (payload : Members) (fenceToken : Int) (ackNodes : Option (List Str))
    (timestamp : Str) : ReplicaM ReplicationMutation := do
  let c ← get
  let quorum := c.calculateQuorum
  let active := c.activeNodeCount
  if active < quorum then
    throw (.quorumUnavailable active quorum)
  let newSeq := c.currentSequence + 1
  let hash := commitHash newSeq fenceToken (previousHash c.log) payload
  let acks := match ackNodes with
    | some nodes => nodes.length
    | none => active
  if acks < quorum then
    throw (.quorumUnavailable acks quorum)
  let mutation : ReplicationMutation := ⟨newSeq, fenceToken, payload, hash, acks, true, timestamp⟩
  set { c with log := c.log ++ [mutation], currentSequence := newSeq }
  return mutation

def Coordinator.getDeltaCatchup (c : Coordinator) (fromSequence : Int) : List ReplicationMutation :=
  c.log.filter fun m => fromSequence < m.sequenceId

/-- The body of the loop of `apply_deltas`: whether the delta was applied. -/
def applyDelta (d : ReplicationMutation) : ReplicaM Bool := do
  let c ← get
  if d.sequenceId ≠ c.currentSequence + 1 then
    return false
  if c.log.getLast?.any fun m => d.fenceToken < m.fenceToken then
    throw (.staleFence d.sequenceId d.fenceToken)
  if commitHash d.sequenceId d.fenceToken (previousHash c.log) d.payload ≠ d.commitHash then
    throw (.brokenChain d.sequenceId)
  set { c with log := c.log ++ [d], currentSequence := d.sequenceId }
  return true

/-- `apply_deltas`: the number of deltas that were applied. -/
def applyDeltas : List ReplicationMutation → ReplicaM Nat
  | [] => return 0
  | d :: deltas => do
      let applied ← applyDelta d
      let count ← applyDeltas deltas
      return if applied then count + 1 else count

/-! ### Logs a coordinator builds -/

/-- A call on a coordinator. -/
inductive Call where
  | registerPeer (peerId url : Str)
  | setPeerStatus (peerId : Str) (status : PeerStatus)
  | propose (payload : Members) (fenceToken : Int) (ackNodes : Option (List Str)) (timestamp : Str)

/-- What the coordinator does with a call. -/
def perform : Call → ReplicaM Unit
  | .registerPeer peerId url => registerPeer peerId url
  | .setPeerStatus peerId status => setPeerStatus peerId status
  | .propose payload fenceToken ackNodes timestamp =>
      discard (proposeMutation payload fenceToken ackNodes timestamp)

def Coordinator.after (c : Coordinator) (call : Call) : Coordinator :=
  match perform call c with
  | .ok _ c' => c'
  | .error _ c' => c'

def Coordinator.run (calls : List Call) : Coordinator :=
  calls.foldl Coordinator.after .new

end Operations

/-- Deltas that are delivered in order, where those that a replica has seen may come again. -/
inductive Delivers {α : Type} : List α → List α → List α → Prop
  | done {seen : List α} : Delivers seen [] []
  | next {seen pending delivered : List α} {m : α} : Delivers (seen ++ [m]) pending delivered →
      Delivers seen (m :: pending) (m :: delivered)
  | again {seen pending delivered : List α} {m : α} : m ∈ seen → Delivers seen pending delivered →
      Delivers seen pending (m :: delivered)

/-- The fence tokens do not decrease from each mutation to the next one. -/
def Ascending (mutations : List ReplicationMutation) : Prop :=
  mutations.IsChain fun earlier later => earlier.fenceToken ≤ later.fenceToken

instance (mutations : List ReplicationMutation) : Decidable (Ascending mutations) :=
  inferInstanceAs (Decidable (List.IsChain _ _))

end Courier.Replica
