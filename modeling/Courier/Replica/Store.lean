import Courier.Library.Indented
import Courier.Replica.Catchup

/-!
# The store of a coordinator

A coordinator with a store writes its log, its sequence and its peers to a file after each mutation it
proposes, and after each call in which it has applied deltas.  A new coordinator loads the file if there is
one.  What it loads is the log that was written, if no text of the log has a surrogate pair.
-/

namespace Courier.Replica

open Json Program

/-! ### Records -/

def PeerStatus.value : PeerStatus → Str
  | .active => text "ACTIVE"
  | .degraded => text "DEGRADED"
  | .unreachable => text "UNREACHABLE"

def PeerStatus.ofValue (value : Str) : Option PeerStatus :=
  [PeerStatus.active, .degraded, .unreachable].find? fun status => status.value = value

/-- The fields of a peer that are only stored. -/
structure PeerRecord where
  peerId : Str
  lastHeartbeat : Str
  lastKnownSequence : Int

def stamp (now given : Str) : Str :=
  if given = [] then now else given

def member {α : Type} (d : Members) (key : Str) (default : Option α) (read : Json → Option α) : Option α :=
  match d.lookup key with
  | some v => read v
  | none => default

def members? : Json → Option Members
  | .obj d => some d
  | _ => none

def items? : Json → Option (List Json)
  | .arr items => some items
  | _ => none

def bool? : Json → Option Bool
  | .bool b => some b
  | _ => none

def nat? : Json → Option Nat
  | .int i => if 0 ≤ i then some i.toNat else none
  | _ => none

def PeerNode.toDict (peer : PeerNode) (record : PeerRecord) : Json :=
  .obj [(text "peer_id", .str record.peerId), (text "url", .str peer.url),
    (text "status", .str peer.status.value), (text "last_heartbeat", .str record.lastHeartbeat),
    (text "last_known_sequence", .int record.lastKnownSequence)]

/-- `PeerNode.from_dict`, of a value whose members have the types of the fields. -/
def PeerNode.fromDict (now : Str) (data : Json) : Option (PeerNode × PeerRecord) := do
  let d ← members? data
  let peerId ← member d (text "peer_id") none str?
  let url ← member d (text "url") none str?
  let value ← member d (text "status") none str?
  let status ← PeerStatus.ofValue value
  let lastHeartbeat ← member d (text "last_heartbeat") (some []) str?
  let lastKnownSequence ← member d (text "last_known_sequence") (some 0) int?
  return (⟨url, status⟩, ⟨peerId, stamp now lastHeartbeat, lastKnownSequence⟩)

def MUTATION_FIELDS : List Str :=
  [text "sequence_id", text "fence_token", text "payload", text "commit_hash", text "ack_count",
    text "committed", text "timestamp"]

def ReplicationMutation.toDict (m : ReplicationMutation) : Json :=
  .obj [(text "sequence_id", .int m.sequenceId), (text "fence_token", .int m.fenceToken),
    (text "payload", .obj m.payload), (text "commit_hash", .str m.commitHash),
    (text "ack_count", .int m.ackCount), (text "committed", .bool m.committed),
    (text "timestamp", .str m.timestamp)]

/-- `ReplicationMutation.from_dict`, of a value whose members have the types of the fields. -/
def ReplicationMutation.fromDict (now : Str) (data : Json) : Option ReplicationMutation := do
  let d ← members? data
  guard (∀ p ∈ d, p.1 ∈ MUTATION_FIELDS)
  let sequenceId ← member d (text "sequence_id") none int?
  let fenceToken ← member d (text "fence_token") none int?
  let payload ← member d (text "payload") none members?
  let commitHash ← member d (text "commit_hash") (some []) str?
  let ackCount ← member d (text "ack_count") (some 1) nat?
  let committed ← member d (text "committed") (some false) bool?
  let timestamp ← member d (text "timestamp") (some []) str?
  return ⟨sequenceId, fenceToken, payload, commitHash, ackCount, committed, stamp now timestamp⟩

/-! ### The store -/

/-- A coordinator with a store; the file does not exist before it is written first. -/
structure Node where
  nodeId : Str
  coordinator : Coordinator
  records : Dict Str PeerRecord
  file : Option Str

def Node.record (n : Node) (peerId : Str) : PeerRecord :=
  (n.records.get? peerId).getD ⟨peerId, [], 0⟩

/-- What `save` writes, before it is encoded. -/
def Node.contents (n : Node) : Json :=
  .obj [(text "node_id", .str n.nodeId), (text "current_sequence", .int n.coordinator.currentSequence),
    (text "peers", .obj (n.coordinator.peers.entries.map fun p => (p.1, p.2.toDict (n.record p.1)))),
    (text "log", .arr (n.coordinator.log.map ReplicationMutation.toDict))]

def Node.save (n : Node) : Node :=
  { n with file := some n.contents.dumpsIndented }

def dictOf {V : Type} (entries : List (Str × V)) : Dict Str V :=
  entries.foldl (fun d p => d.set p.1 p.2) ∅

/-- `load`, of a file with the given text. -/
def Node.load (now : Str) (n : Node) (file : Str) : Option Node := do
  let raw ← loads file >>= members?
  let nodeId ← member raw (text "node_id") (some n.nodeId) str?
  let currentSequence ← member raw (text "current_sequence") (some 0) int?
  let stored ← member raw (text "peers") (some []) members?
  let peers ← stored.mapM fun p => (PeerNode.fromDict now p.2).map fun peer => (p.1, peer)
  let items ← member raw (text "log") (some []) items?
  let log ← items.mapM (ReplicationMutation.fromDict now)
  return { n with
    nodeId := nodeId
    coordinator := ⟨dictOf (peers.map fun p => (p.1, p.2.1)), log, currentSequence⟩
    records := dictOf (peers.map fun p => (p.1, p.2.2)) }

def Node.opened (now nodeId : Str) (file : Option Str) : Option Node :=
  match file with
  | none => some ⟨nodeId, .new, ∅, none⟩
  | some s => Node.load now ⟨nodeId, .new, ∅, some s⟩ s

/-! ### Reading back -/

structure ReplicationMutation.Typed (m : ReplicationMutation) : Prop where
  payload : (Json.obj m.payload).wf = true
  texts : (Json.obj m.payload).Fit
  commitHash : IsText m.commitHash
  timestamp : IsText m.timestamp
  stamped : m.timestamp ≠ []

/-- The mutation as it is read back. -/
def ReplicationMutation.reread (m : ReplicationMutation) : ReplicationMutation :=
  { m with
    payload := members (reread.rereadMembers m.payload)
    commitHash := fuse m.commitHash
    timestamp := fuse m.timestamp }

structure ReplicationMutation.Plain (m : ReplicationMutation) : Prop where
  payload : Good (.obj m.payload)
  commitHash : PlainText m.commitHash
  timestamp : PlainText m.timestamp

variable {m : ReplicationMutation}

theorem ReplicationMutation.reread_eq_self (h : m.Plain) :
  m.reread = m
  := by
  obtain ⟨-, hsame⟩ := fit_of_good h.payload.1 h.payload.2
  have hpayload : members (Json.reread.rereadMembers m.payload) = m.payload := Json.obj.inj hsame
  rw [ReplicationMutation.reread, hpayload, fuse_eq_self h.commitHash.2, fuse_eq_self h.timestamp.2]

theorem ReplicationMutation.plain_reread (h : m.Typed) :
  m.reread.Plain
  where
  payload := by
    have hascii : Decoded ((Json.obj m.payload).render escapeAscii) := by
      intro c hc
      obtain ⟨-, hlt⟩ := printable_render h.texts c hc
      refine ⟨hlt.trans (by decide), ?_⟩
      simp only [Text.isSurrogate, Bool.and_eq_false_iff, decide_eq_false_iff_not]
      omega
    exact good_of_loads hascii (loads_render_reread h.texts)
  commitHash := plainText_fuse h.commitHash
  timestamp := plainText_fuse h.timestamp

theorem member_of_mem {α : Type} {pairs : Members} (h : (pairs.map Prod.fst).Nodup) {key : Str} {v : Json}
    (hmem : (key, v) ∈ pairs) (default : Option α) (read : Json → Option α) :
  member (members pairs) key default read = read v
  := by
  rw [member, lookup_members h, (Dict.lookup_eq_some_iff h).mpr hmem]

theorem fuse_ne_nil {s : Str} (h : s ≠ []) :
  fuse s ≠ []
  := by
  obtain ⟨c, rest, rfl⟩ := List.exists_cons_of_ne_nil h
  cases rest with
  | nil => exact List.cons_ne_nil _ _
  | cons d rest =>
    rw [fuse]
    split_ifs <;> exact List.cons_ne_nil _ _

theorem ReplicationMutation.Typed.reread (h : m.Typed) :
  m.reread.Typed
  := by
  have hplain := ReplicationMutation.plain_reread h
  exact ⟨hplain.payload.1, (fit_of_good hplain.payload.1 hplain.payload.2).1, hplain.commitHash.1,
    hplain.timestamp.1, fuse_ne_nil h.stamped⟩

theorem ReplicationMutation.fromDict_reread (now : Str) (h : m.timestamp ≠ []) :
  ReplicationMutation.fromDict now m.toDict.reread = some m.reread
  := by
  obtain ⟨pairs, hpairs⟩ : ∃ pairs : Members, pairs = [(text "sequence_id", .int m.sequenceId),
      (text "fence_token", .int m.fenceToken), (text "payload", .obj m.reread.payload),
      (text "commit_hash", .str m.reread.commitHash), (text "ack_count", .int m.ackCount),
      (text "committed", .bool m.committed), (text "timestamp", .str m.reread.timestamp)] := ⟨_, rfl⟩
  have hdict : m.toDict.reread = .obj (members pairs) := by
    rw [hpairs]
    rfl
  have hkeys : pairs.map Prod.fst = MUTATION_FIELDS := by
    rw [hpairs]
    rfl
  have hnodup : (pairs.map Prod.fst).Nodup := by
    rw [hkeys]
    decide
  have hall : ∀ p ∈ members pairs, p.1 ∈ MUTATION_FIELDS := by
    intro p hp
    rw [← hkeys]
    exact List.mem_map_of_mem (mem_of_mem_members hp)
  obtain ⟨hsequence, hfence, hpayload, hhash, hack, hcommitted, htime⟩ :
      (text "sequence_id", .int m.sequenceId) ∈ pairs ∧ (text "fence_token", .int m.fenceToken) ∈ pairs ∧
      (text "payload", .obj m.reread.payload) ∈ pairs ∧ (text "commit_hash", .str m.reread.commitHash) ∈ pairs ∧
      (text "ack_count", .int m.ackCount) ∈ pairs ∧ (text "committed", .bool m.committed) ∈ pairs ∧
      (text "timestamp", .str m.reread.timestamp) ∈ pairs := by
    simp [hpairs]
  have hnat : nat? (.int m.ackCount) = some m.ackCount := by simp [nat?]
  have hstamp : stamp now m.reread.timestamp = m.reread.timestamp := if_neg (fuse_ne_nil h)
  rw [hdict, ReplicationMutation.fromDict]
  simp only [members?, guard, if_pos hall, member_of_mem hnodup hsequence, member_of_mem hnodup hfence,
    member_of_mem hnodup hpayload, member_of_mem hnodup hhash, member_of_mem hnodup hack,
    member_of_mem hnodup hcommitted, member_of_mem hnodup htime, hnat, bool?, Json.int?, Json.str?,
    Option.bind_eq_bind, Option.bind_some, Option.pure_def, hstamp]
  rfl

theorem PeerNode.fromDict_reread (now : Str) (peer : PeerNode) (record : PeerRecord) :
  PeerNode.fromDict now (peer.toDict record).reread = some (⟨fuse peer.url, peer.status⟩,
    ⟨fuse record.peerId, stamp now (fuse record.lastHeartbeat), record.lastKnownSequence⟩)
  := by
  obtain ⟨pairs, hpairs⟩ : ∃ pairs : Members, pairs = [(text "peer_id", .str (fuse record.peerId)),
      (text "url", .str (fuse peer.url)), (text "status", .str peer.status.value),
      (text "last_heartbeat", .str (fuse record.lastHeartbeat)),
      (text "last_known_sequence", .int record.lastKnownSequence)] := ⟨_, rfl⟩
  have hstatus : fuse peer.status.value = peer.status.value ∧
      PeerStatus.ofValue peer.status.value = some peer.status := by
    cases peer.status <;> decide
  have hdict : (peer.toDict record).reread = .obj (members pairs) := by
    rw [hpairs, ← hstatus.1]
    rfl
  have hnodup : (pairs.map Prod.fst).Nodup := by
    rw [hpairs]
    show [text "peer_id", text "url", text "status", text "last_heartbeat",
      text "last_known_sequence"].Nodup
    decide
  obtain ⟨hid, hurl, hvalue, hheartbeat, hsequence⟩ :
      (text "peer_id", .str (fuse record.peerId)) ∈ pairs ∧ (text "url", .str (fuse peer.url)) ∈ pairs ∧
      (text "status", .str peer.status.value) ∈ pairs ∧
      (text "last_heartbeat", .str (fuse record.lastHeartbeat)) ∈ pairs ∧
      (text "last_known_sequence", .int record.lastKnownSequence) ∈ pairs := by
    simp [hpairs]
  rw [hdict, PeerNode.fromDict]
  simp only [members?, member_of_mem hnodup hid, member_of_mem hnodup hurl, member_of_mem hnodup hvalue,
    member_of_mem hnodup hheartbeat, member_of_mem hnodup hsequence, Json.str?, Json.int?, hstatus.2,
    Option.bind_eq_bind, Option.bind_some, Option.pure_def]

theorem forall_dictOf {V : Type} {P : Str → V → Prop} {entries : List (Str × V)}
    (h : ∀ p ∈ entries, P p.1 p.2) {k : Str} {v : V} (hv : (dictOf entries).get? k = some v) :
  P k v
  := by
  induction entries using List.reverseRecOn with
  | nil => cases hv
  | append_singleton entries p ih =>
    rw [dictOf, List.foldl_concat, Dict.get?_set] at hv
    split_ifs at hv with hk
    · cases hv
      rw [hk]
      exact h p (by simp)
    · exact ih (fun q hq => h q (List.mem_append_left _ hq)) hv

structure Node.Typed (n : Node) : Prop where
  nodeId : IsText n.nodeId
  peers : ∀ {peerId peer}, n.coordinator.peers.get? peerId = some peer → IsText peerId ∧ IsText peer.url
  records : ∀ {peerId record}, n.records.get? peerId = some record →
    IsText record.peerId ∧ IsText record.lastHeartbeat
  log : ∀ m ∈ n.coordinator.log, m.Typed

theorem Node.Typed.record {n : Node} (h : n.Typed) {peerId : Str} (hid : IsText peerId) :
  IsText (n.record peerId).peerId ∧ IsText (n.record peerId).lastHeartbeat
  := by
  unfold Node.record
  cases hrecord : n.records.get? peerId with
  | none => exact ⟨hid, by simp [IsText]⟩
  | some record => exact h.records hrecord

theorem isText_value (status : PeerStatus) :
  IsText status.value
  := by
  cases status <;> decide

variable {n : Node}

theorem Node.Typed.fit (h : n.Typed) :
  n.contents.Fit
  := by
  have hpeers : Fit.fitMembers (n.coordinator.peers.entries.map fun p => (p.1, p.2.toDict (n.record p.1))) := by
    rw [fitMembers_iff]
    intro p hp
    obtain ⟨⟨peerId, peer⟩, hpeer, rfl⟩ := List.mem_map.mp hp
    obtain ⟨hid, hurl⟩ := h.peers (Dict.get?_eq_some.mpr hpeer)
    obtain ⟨hrecord, hheartbeat⟩ := h.record hid
    exact ⟨hid, by decide, hrecord, by decide, hurl, by decide, isText_value _, by decide, hheartbeat,
      by decide, trivial, trivial⟩
  have hlog : Fit.fitItems (n.coordinator.log.map ReplicationMutation.toDict) := by
    rw [fitItems_iff]
    intro v hv
    obtain ⟨m, hm, rfl⟩ := List.mem_map.mp hv
    have hm := h.log m hm
    exact ⟨by decide, trivial, by decide, trivial, by decide, hm.texts, by decide, hm.commitHash, by decide,
      trivial, by decide, trivial, by decide, hm.timestamp, trivial⟩
  exact ⟨by decide, h.nodeId, by decide, trivial, by decide, hpeers, by decide, hlog, trivial⟩

theorem mapM_peers {now : Str} (hnow : IsText now) (h : n.Typed) :
  ∃ peers : List (Str × PeerNode × PeerRecord),
    (members (reread.rereadMembers (n.coordinator.peers.entries.map fun p =>
      (p.1, p.2.toDict (n.record p.1))))).mapM
        (fun p => (PeerNode.fromDict now p.2).map fun peer => (p.1, peer)) = some peers ∧
    ∀ p ∈ peers, IsText p.1 ∧ IsText p.2.1.url ∧ IsText p.2.2.peerId ∧ IsText p.2.2.lastHeartbeat
  := by
  have hread : ∀ p ∈ members (reread.rereadMembers (n.coordinator.peers.entries.map fun p =>
      (p.1, p.2.toDict (n.record p.1)))), ∃ peer, PeerNode.fromDict now p.2 = some peer ∧
        IsText p.1 ∧ IsText peer.1.url ∧ IsText peer.2.peerId ∧ IsText peer.2.lastHeartbeat := by
    intro p hp
    have hp := mem_of_mem_members hp
    rw [rereadMembers_eq_map, List.map_map] at hp
    obtain ⟨⟨peerId, peer⟩, hpeer, rfl⟩ := List.mem_map.mp hp
    obtain ⟨hid, hurl⟩ := h.peers (Dict.get?_eq_some.mpr hpeer)
    obtain ⟨hrecord, hheartbeat⟩ := h.record hid
    refine ⟨_, PeerNode.fromDict_reread now peer _, isText_fuse hid, isText_fuse hurl, isText_fuse hrecord, ?_⟩
    unfold stamp
    split_ifs
    · exact hnow
    · exact isText_fuse hheartbeat
  revert hread
  generalize members _ = entries
  intro hread
  induction entries with
  | nil => exact ⟨[], rfl, by simp⟩
  | cons p entries ih =>
    obtain ⟨peer, hpeer, htexts⟩ := hread p (List.mem_cons_self ..)
    obtain ⟨peers, hpeers, hall⟩ := ih fun q hq => hread q (List.mem_cons_of_mem _ hq)
    refine ⟨(p.1, peer) :: peers, ?_, List.forall_mem_cons.mpr ⟨htexts, hall⟩⟩
    rw [List.mapM_cons, hpeer, hpeers]
    rfl

theorem mapM_log (now : Str) {log : List ReplicationMutation} (h : ∀ m ∈ log, m.Typed) :
  (reread.rereadItems (log.map ReplicationMutation.toDict)).mapM (ReplicationMutation.fromDict now) =
    some (log.map ReplicationMutation.reread)
  := by
  rw [rereadItems_eq_map, Option.mapM_eq_some, List.map_map, List.forall₂_map_left_iff,
    List.forall₂_map_right_iff, List.forall₂_same]
  intro m hm
  exact ReplicationMutation.fromDict_reread now (h m hm).stamped

/-- A new coordinator loads what was stored. -/
theorem Node.opened_contents {now : Str} (hnow : IsText now) (nodeId : Str) (h : n.Typed) :
  ∃ opened, Node.opened now nodeId (some n.contents.dumpsIndented) = some opened ∧ opened.Typed ∧
    opened.coordinator.log = n.coordinator.log.map ReplicationMutation.reread ∧
    opened.coordinator.currentSequence = n.coordinator.currentSequence ∧
    opened.file = some n.contents.dumpsIndented
  := by
  obtain ⟨peers, hpeers, htexts⟩ := mapM_peers hnow h
  obtain ⟨pairs, hpairs⟩ : ∃ pairs : Members, pairs = [(text "node_id", .str (fuse n.nodeId)),
      (text "current_sequence", .int n.coordinator.currentSequence),
      (text "peers", .obj (members (reread.rereadMembers (n.coordinator.peers.entries.map fun p =>
        (p.1, p.2.toDict (n.record p.1)))))),
      (text "log", .arr (reread.rereadItems (n.coordinator.log.map ReplicationMutation.toDict)))] := ⟨_, rfl⟩
  have hcontents : n.contents.reread = .obj (members pairs) := by
    rw [hpairs]
    rfl
  have hnodup : (pairs.map Prod.fst).Nodup := by
    rw [hpairs]
    show [text "node_id", text "current_sequence", text "peers", text "log"].Nodup
    decide
  obtain ⟨hid, hsequence, hstored, hlog⟩ :
      (text "node_id", .str (fuse n.nodeId)) ∈ pairs ∧
      (text "current_sequence", .int n.coordinator.currentSequence) ∈ pairs ∧
      (text "peers", .obj (members (reread.rereadMembers (n.coordinator.peers.entries.map fun p =>
        (p.1, p.2.toDict (n.record p.1)))))) ∈ pairs ∧
      (text "log", .arr (reread.rereadItems (n.coordinator.log.map ReplicationMutation.toDict))) ∈ pairs := by
    simp [hpairs]
  refine ⟨⟨fuse n.nodeId, ⟨dictOf (peers.map fun p => (p.1, p.2.1)),
      n.coordinator.log.map ReplicationMutation.reread, n.coordinator.currentSequence⟩,
    dictOf (peers.map fun p => (p.1, p.2.2)), some n.contents.dumpsIndented⟩, ?_, ?_, rfl, rfl, rfl⟩
  · rw [Node.opened, Node.load, loads_dumpsIndented_reread h.fit]
    simp only [hcontents, members?, items?, member_of_mem hnodup hid, member_of_mem hnodup hsequence,
      member_of_mem hnodup hstored, member_of_mem hnodup hlog, Json.str?, Json.int?, Option.bind_eq_bind,
      Option.bind_some, hpeers, mapM_log now h.log, Option.pure_def]
  · constructor
    · exact isText_fuse h.nodeId
    · intro peerId peer hpeer
      apply forall_dictOf (P := fun peerId peer => IsText peerId ∧ IsText peer.url) _ hpeer
      intro p hp
      obtain ⟨q, hq, rfl⟩ := List.mem_map.mp hp
      exact ⟨(htexts q hq).1, (htexts q hq).2.1⟩
    · intro peerId record hrecord
      apply forall_dictOf (P := fun _ record => IsText record.peerId ∧ IsText record.lastHeartbeat) _ hrecord
      intro p hp
      obtain ⟨q, hq, rfl⟩ := List.mem_map.mp hp
      exact (htexts q hq).2.2
    · intro m hm
      obtain ⟨original, horiginal, rfl⟩ := List.mem_map.mp hm
      exact (h.log original horiginal).reread

abbrev NodeM := EStateM ReplicaError Node

/-- A method that only concerns the coordinator. -/
def onCoordinator {α : Type} (m : ReplicaM α) : NodeM α := fun n =>
  match m n.coordinator with
  | .ok a c => .ok a { n with coordinator := c }
  | .error e c => .error e { n with coordinator := c }

section Operations

variable [Platform]

/-- `propose_mutation` with a store. -/
def Node.proposeMutation (payload : Members) (fenceToken : Int) (ackNodes : Option (List Str))
    (timestamp : Str) : NodeM ReplicationMutation := do
  let mutation ← onCoordinator (Replica.proposeMutation payload fenceToken ackNodes timestamp)
  modify Node.save
  return mutation

/-- `apply_deltas` with a store. -/
def Node.applyDeltas (deltas : List ReplicationMutation) : NodeM Nat := do
  let count ← onCoordinator (Replica.applyDeltas deltas)
  if 0 < count then
    modify Node.save
  return count

/-- `register_peer`, which stores nothing. -/
def Node.registerPeer (peerId url now : Str) : NodeM Unit := do
  onCoordinator (Replica.registerPeer peerId url)
  modify fun n => { n with records := n.records.set peerId ⟨peerId, now, 0⟩ }

namespace Node

/-- What is done with a coordinator: a call, or a restart with a new coordinator at the same store. -/
inductive Call where
  | registerPeer (peerId url now : Str)
  | setPeerStatus (peerId : Str) (status : PeerStatus)
  | propose (payload : Members) (fenceToken : Int) (ackNodes : Option (List Str)) (timestamp : Str)
  | applyDeltas (deltas : List ReplicationMutation)
  | restart (nodeId now : Str)

/-- The coordinator and the store after a program, whether it returns or raises. -/
def afterwards {α : Type} (m : NodeM α) (n : Node) : Node :=
  match m n with
  | .ok _ n' => n'
  | .error _ n' => n'

def after (n : Node) : Call → Node
  | .registerPeer peerId url now => afterwards (Node.registerPeer peerId url now) n
  | .setPeerStatus peerId status => afterwards (onCoordinator (Replica.setPeerStatus peerId status)) n
  | .propose payload fenceToken ackNodes timestamp =>
      afterwards (Node.proposeMutation payload fenceToken ackNodes timestamp) n
  | .applyDeltas deltas => afterwards (Node.applyDeltas deltas) n
  | .restart nodeId now => (Node.opened now nodeId n.file).getD n

def run (nodeId : Str) (calls : List Call) : Node :=
  calls.foldl after ⟨nodeId, .new, ∅, none⟩

end Node

end Operations

end Courier.Replica
