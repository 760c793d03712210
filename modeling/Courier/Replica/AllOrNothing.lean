import Courier.Replica.Store

/-!
# All or nothing

Deltas are appended one by one, and stored together after the last one.  So when a delta is refused behind
others that were applied, those stay in memory and never reach the store.  A call leaves everything as it
was when it raises, and the store as the memory, exactly if the first delta that is next in line is refused
or all of those that are in line one after the other are accepted and survive the encoding
(`allOrNothing_iff`).
-/

namespace Courier.Replica

open Json Program

/-! ### Which deltas are applied -/

/-- The deltas that are numbered one after the other from a sequence on. -/
def nextInLine (sequence : Int) : List ReplicationMutation → List ReplicationMutation
  | [] => []
  | d :: deltas =>
      if d.sequenceId = sequence + 1 then d :: nextInLine d.sequenceId deltas
      else nextInLine sequence deltas

section Operations

variable [Platform]

structure Acceptable (log : List ReplicationMutation) (d : ReplicationMutation) : Prop where
  fence : ¬ Stale log d
  chain : commitHash d.sequenceId d.fenceToken (previousHash log) d.payload = d.commitHash

def Links : List ReplicationMutation → List ReplicationMutation → Prop
  | _, [] => True
  | log, d :: deltas => Acceptable log d ∧ Links (log ++ [d]) deltas

def Coordinator.extend (c : Coordinator) (deltas : List ReplicationMutation) : Coordinator :=
  { c with log := c.log ++ deltas, currentSequence := c.currentSequence + deltas.length }

section

omit [Platform]

theorem Coordinator.extend_nil (c : Coordinator) :
  c.extend [] = c
  := by
  simp [Coordinator.extend]

theorem Coordinator.extend_extend (c : Coordinator) (first second : List ReplicationMutation) :
  (c.extend first).extend second = c.extend (first ++ second)
  := by
  simp [Coordinator.extend, add_assoc]

end

variable {c : Coordinator} {d : ReplicationMutation}

theorem applyDelta_skipped
    (h : d.sequenceId ≠ c.currentSequence + 1) :
  applyDelta d c = .ok false c
  := by
  rw [applyDelta_eq, if_pos h]

theorem applyDelta_accepted
    (hnext : d.sequenceId = c.currentSequence + 1) (h : Acceptable c.log d) :
  applyDelta d c = .ok true (c.extend [d])
  := by
  have hfence : ¬ (c.log.getLast?.any fun m => d.fenceToken < m.fenceToken) := by
    rw [Option.any_eq_true]
    rintro ⟨m, hlast, hlt⟩
    exact h.fence ⟨m, hlast, of_decide_eq_true hlt⟩
  rw [applyDelta_eq, if_neg (not_not_intro hnext), if_neg hfence, if_neg (not_not_intro h.chain), hnext]
  rfl

theorem applyDelta_refused
    (hnext : d.sequenceId = c.currentSequence + 1) (h : ¬ Acceptable c.log d) :
  ∃ e, applyDelta d c = .error e c
  := by
  rw [applyDelta_eq, if_neg (not_not_intro hnext)]
  split_ifs with hstale hchain
  · exact ⟨_, rfl⟩
  · exact ⟨_, rfl⟩
  · refine absurd ⟨?_, not_not.mp hchain⟩ h
    rintro ⟨m, hlast, hlt⟩
    exact hstale (by simp [hlast, hlt])

theorem applyDeltas_cons {c' : Coordinator} {applied : Bool}
    (h : applyDelta d c = .ok applied c') (deltas : List ReplicationMutation) :
  applyDeltas (d :: deltas) c =
    ((fun count => if applied then count + 1 else count) <$> applyDeltas deltas) c'
  := by
  change EStateM.bind (applyDelta d) _ c = _
  simp only [EStateM.bind, h]
  rfl

variable {deltas : List ReplicationMutation}

theorem applyDeltas_of_links
    (h : Links c.log (nextInLine c.currentSequence deltas)) :
  applyDeltas deltas c = .ok (nextInLine c.currentSequence deltas).length
    (c.extend (nextInLine c.currentSequence deltas))
  := by
  induction deltas generalizing c with
  | nil =>
    rw [nextInLine, Coordinator.extend_nil]
    rfl
  | cons d deltas ih =>
    rw [nextInLine] at h ⊢
    split_ifs at h ⊢ with hnext
    · have hrest : Links (c.extend [d]).log (nextInLine (c.extend [d]).currentSequence deltas) := by
        have heq : (c.extend [d]).currentSequence = d.sequenceId := hnext.symm
        rw [heq]
        exact h.2
      have heq : (c.extend [d]).currentSequence = d.sequenceId := hnext.symm
      rw [applyDeltas_cons (applyDelta_accepted hnext h.1)]
      simp only [Functor.map, EStateM.map, ih hrest, if_true]
      rw [heq, Coordinator.extend_extend]
      rfl
    · rw [applyDeltas_cons (applyDelta_skipped hnext)]
      simp only [Functor.map, EStateM.map, ih h, Bool.false_eq_true, if_false]

theorem applyDeltas_of_not_links
    (h : ¬ Links c.log (nextInLine c.currentSequence deltas)) :
  ∃ e before d after, nextInLine c.currentSequence deltas = before ++ d :: after ∧
    Links c.log before ∧ ¬ Acceptable (c.log ++ before) d ∧
    applyDeltas deltas c = .error e (c.extend before)
  := by
  induction deltas generalizing c with
  | nil => exact absurd trivial h
  | cons d deltas ih =>
    rw [nextInLine] at h ⊢
    split_ifs at h ⊢ with hnext
    · by_cases haccept : Acceptable c.log d
      · have heq : (c.extend [d]).currentSequence = d.sequenceId := hnext.symm
        have hrest : ¬ Links (c.extend [d]).log (nextInLine (c.extend [d]).currentSequence deltas) := by
          rw [heq]
          exact fun hlinks => h ⟨haccept, hlinks⟩
        obtain ⟨e, before, bad, after, hline, hlinks, hbad, hrun⟩ := ih hrest
        rw [heq] at hline
        refine ⟨e, d :: before, bad, after, by rw [hline, List.cons_append], ⟨haccept, hlinks⟩, ?_, ?_⟩
        · rwa [List.append_cons]
        · rw [applyDeltas_cons (applyDelta_accepted hnext haccept)]
          simp only [Functor.map, EStateM.map, hrun]
          rw [Coordinator.extend_extend]
          rfl
      · obtain ⟨e, hrefused⟩ := applyDelta_refused hnext haccept
        refine ⟨e, [], d, nextInLine d.sequenceId deltas, rfl, trivial, ?_, ?_⟩
        · rwa [List.append_nil]
        · change EStateM.bind (applyDelta d) _ c = _
          simp only [EStateM.bind, hrefused, Coordinator.extend_nil]
    · obtain ⟨e, before, bad, after, hline, hlinks, hbad, hrun⟩ := ih h
      refine ⟨e, before, bad, after, hline, hlinks, hbad, ?_⟩
      rw [applyDeltas_cons (applyDelta_skipped hnext)]
      simp only [Functor.map, EStateM.map, hrun]

/-! ### One call -/

/-- A call of `apply_deltas` that raises leaves everything as it was, and a new coordinator loads the log and the
sequence. -/
structure AllOrNothing (n : Node) (deltas : List ReplicationMutation) : Prop where
  unchanged : ∀ e n', Node.applyDeltas deltas n = .error e n' → n'.coordinator.log = n.coordinator.log ∧
    n'.coordinator.currentSequence = n.coordinator.currentSequence ∧ n'.file = n.file
  loaded : ∀ now nodeId, IsText now → IsText nodeId → ∃ opened,
    Node.opened now nodeId (n.after (.applyDeltas deltas)).file = some opened ∧
    opened.coordinator.log = (n.after (.applyDeltas deltas)).coordinator.log ∧
    opened.coordinator.currentSequence = (n.after (.applyDeltas deltas)).coordinator.currentSequence

def Clean (c : Coordinator) (deltas : List ReplicationMutation) : Prop :=
  (∃ d, (nextInLine c.currentSequence deltas).head? = some d ∧ ¬ Acceptable c.log d) ∨
    Links c.log (nextInLine c.currentSequence deltas) ∧ ∀ d ∈ nextInLine c.currentSequence deltas, d.Plain

/-- What holds of a coordinator while every call is clean. -/
structure Node.Kept (n : Node) : Prop where
  typed : n.Typed
  plain : ∀ m ∈ n.coordinator.log, m.Plain
  stored : (n.file = none ∧ n.coordinator.log = [] ∧ n.coordinator.currentSequence = 0) ∨
    ∃ saved : Node, n.file = some saved.contents.dumpsIndented ∧ saved.Typed ∧
      saved.coordinator.log = n.coordinator.log ∧
      saved.coordinator.currentSequence = n.coordinator.currentSequence

section

omit [Platform]

theorem Node.kept_new {nodeId : Str} (hid : IsText nodeId) :
  Node.Kept ⟨nodeId, .new, ∅, none⟩
  := by
  refine ⟨⟨hid, ?_, ?_, ?_⟩, ?_, .inl ⟨rfl, rfl, rfl⟩⟩
  · intro peerId peer hpeer
    cases hpeer
  · intro peerId record hrecord
    cases hrecord
  · intro m hm
    cases hm
  · intro m hm
    cases hm

theorem Node.Kept.opened {n : Node} (h : n.Kept) {now : Str} (hnow : IsText now) {nodeId : Str}
    (hid : IsText nodeId) :
  ∃ opened, Node.opened now nodeId n.file = some opened ∧ opened.coordinator.log = n.coordinator.log ∧
    opened.coordinator.currentSequence = n.coordinator.currentSequence ∧ opened.Kept
  := by
  rcases h.stored with ⟨hfile, hlog, hsequence⟩ | ⟨saved, hfile, htyped, hlog, hsequence⟩
  · rw [hfile, hlog, hsequence]
    exact ⟨_, rfl, rfl, rfl, Node.kept_new hid⟩
  · obtain ⟨opened, hopened, htyped', hlog', hsequence', hfile'⟩ := Node.opened_contents hnow nodeId htyped
    have hsame : saved.coordinator.log.map ReplicationMutation.reread = saved.coordinator.log := by
      rw [hlog]
      exact (List.map_congr_left fun m hm => ReplicationMutation.reread_eq_self (h.plain m hm)).trans
        (List.map_id _)
    rw [hsame, hlog] at hlog'
    rw [hsequence] at hsequence'
    rw [hfile]
    refine ⟨opened, hopened, hlog', hsequence', ?_⟩
    refine ⟨htyped', ?_, .inr ⟨saved, hfile', htyped, ?_, ?_⟩⟩
    · rw [hlog']
      exact h.plain
    · rw [hlog, hlog']
    · rw [hsequence, hsequence']

end

variable {n : Node}

omit [Platform] in
theorem Node.kept_save (htyped : n.Typed) (hplain : ∀ m ∈ n.coordinator.log, m.Plain) :
  n.save.Kept
  where
  typed := ⟨htyped.nodeId, htyped.peers, htyped.records, htyped.log⟩
  plain := hplain
  stored := .inr ⟨n, rfl, htyped, rfl, rfl⟩

theorem Node.applyDeltas_eq (deltas : List ReplicationMutation) (n : Node) :
  Node.applyDeltas deltas n = match Replica.applyDeltas deltas n.coordinator with
    | .ok count c =>
      .ok count (if 0 < count then Node.save { n with coordinator := c } else { n with coordinator := c })
    | .error e c => .error e { n with coordinator := c }
  := by
  change EStateM.bind (onCoordinator (Replica.applyDeltas deltas)) _ n = _
  rw [EStateM.bind, onCoordinator]
  cases Replica.applyDeltas deltas n.coordinator with
  | error e c => rfl
  | ok count c =>
    dsimp only
    split_ifs <;> rfl

section

omit [Platform]

theorem mem_of_mem_nextInLine {sequence : Int}
    (h : d ∈ nextInLine sequence deltas) :
  d ∈ deltas
  := by
  induction deltas generalizing sequence with
  | nil => cases h
  | cons e deltas ih =>
    rw [nextInLine] at h
    split_ifs at h
    · rcases List.mem_cons.mp h with rfl | hrest
      · exact List.mem_cons_self ..
      · exact List.mem_cons_of_mem _ (ih hrest)
    · exact List.mem_cons_of_mem _ (ih h)

theorem Node.Typed.extend (h : n.Typed)
    (hdeltas : ∀ d ∈ deltas, d.Typed) :
  Node.Typed { n with coordinator := n.coordinator.extend deltas }
  := by
  refine ⟨h.nodeId, h.peers, h.records, ?_⟩
  intro m hm
  rcases List.mem_append.mp hm with hm | hm
  · exact h.log m hm
  · exact hdeltas m hm

end

/-- A call of `apply_deltas` that is clean keeps the coordinator, and is all or nothing. -/
theorem Node.Kept.applyDeltas (h : n.Kept)
    (hdeltas : ∀ d ∈ deltas, d.Typed) (hclean : Clean n.coordinator deltas) :
  (n.after (.applyDeltas deltas)).Kept ∧ AllOrNothing n deltas
  := by
  have hkept : (n.after (.applyDeltas deltas)).Kept ∧
      ∀ e n', Node.applyDeltas deltas n = .error e n' → n' = n := by
    rw [Node.after, Node.afterwards]
    by_cases hlinks : Links n.coordinator.log (nextInLine n.coordinator.currentSequence deltas)
    · rw [Node.applyDeltas_eq, applyDeltas_of_links hlinks]
      dsimp only
      refine ⟨?_, fun e n' hraise => by cases hraise⟩
      split_ifs with hcount
      · have hplain : ∀ d ∈ nextInLine n.coordinator.currentSequence deltas, d.Plain := by
          rcases hclean with ⟨d, hhead, hbad⟩ | ⟨-, hplain⟩
          · obtain ⟨rest, hline⟩ := List.head?_eq_some_iff.mp hhead
            rw [hline] at hlinks
            exact absurd hlinks.1 hbad
          · exact hplain
        have hline : ∀ d ∈ nextInLine n.coordinator.currentSequence deltas, d.Typed :=
          fun d hd => hdeltas d (mem_of_mem_nextInLine hd)
        apply Node.kept_save (h.typed.extend hline)
        intro m hm
        rcases List.mem_append.mp hm with hm | hm
        · exact h.plain m hm
        · exact hplain m hm
      · have hnil : nextInLine n.coordinator.currentSequence deltas = [] :=
          List.length_eq_zero_iff.mp (by omega)
        rw [hnil, Coordinator.extend_nil]
        exact h
    · obtain ⟨e, before, d, after, hline, hbefore, hbad, hrun⟩ := applyDeltas_of_not_links hlinks
      have hnil : before = [] := by
        rcases hclean with ⟨first, hhead, hrefused⟩ | ⟨hall, -⟩
        · cases before with
          | nil => rfl
          | cons b before =>
            rw [hline] at hhead
            cases hhead
            exact absurd hbefore.1 hrefused
        · exact absurd hall hlinks
      rw [Node.applyDeltas_eq, hrun, hnil, Coordinator.extend_nil]
      refine ⟨h, fun e' n' hraise => ?_⟩
      cases hraise
      rfl
  obtain ⟨hkept, hraised⟩ := hkept
  refine ⟨hkept, ?_, ?_⟩
  · intro e n' hraise
    rw [hraised e n' hraise]
    exact ⟨rfl, rfl, rfl⟩
  · intro now nodeId hnow hid
    obtain ⟨opened, hopened, hlog, hsequence, -⟩ := hkept.opened hnow hid
    exact ⟨opened, hopened, hlog, hsequence⟩

theorem clean_of_allOrNothing (h : n.Kept)
    (hdeltas : ∀ d ∈ deltas, d.Typed) (hall : AllOrNothing n deltas) :
  Clean n.coordinator deltas
  := by
  by_cases hlinks : Links n.coordinator.log (nextInLine n.coordinator.currentSequence deltas)
  · refine .inr ⟨hlinks, fun d hd => ?_⟩
    have hline : ∀ d ∈ nextInLine n.coordinator.currentSequence deltas, d.Typed :=
      fun d hd => hdeltas d (mem_of_mem_nextInLine hd)
    have hcount : 0 < (nextInLine n.coordinator.currentSequence deltas).length :=
      List.length_pos_of_mem hd
    have hafter : n.after (.applyDeltas deltas) = Node.save { n with
        coordinator := n.coordinator.extend (nextInLine n.coordinator.currentSequence deltas) } := by
      rw [Node.after, Node.afterwards, Node.applyDeltas_eq, applyDeltas_of_links hlinks]
      dsimp only
      rw [if_pos hcount]
    have hempty : IsText [] := by simp [IsText]
    obtain ⟨opened, hopened, hlog, -⟩ := hall.loaded [] [] hempty hempty
    obtain ⟨opened', hopened', -, hlog', -⟩ := Node.opened_contents hempty [] (h.typed.extend hline)
    rw [hafter] at hopened hlog
    have heq : opened = opened' := Option.some.inj (hopened.symm.trans hopened')
    rw [← heq, hlog] at hlog'
    have hsame := List.map_inj_left.mp (hlog'.symm.trans (List.map_id _).symm)
    have hread : d.reread = d := hsame d (List.mem_append_right _ hd)
    rw [← hread]
    exact ReplicationMutation.plain_reread (hline d hd)
  · obtain ⟨e, before, d, after, hline, -, hbad, hrun⟩ := applyDeltas_of_not_links hlinks
    have hraise : Node.applyDeltas deltas n = .error e { n with coordinator := n.coordinator.extend before } := by
      rw [Node.applyDeltas_eq, hrun]
    obtain ⟨hlog, -⟩ := hall.unchanged _ _ hraise
    have hnil : before = [] := List.append_right_eq_self.mp hlog
    rw [hnil, List.nil_append] at hline
    rw [hnil, List.append_nil] at hbad
    exact .inl ⟨d, by rw [hline, List.head?_cons], hbad⟩

/-! ### Runs -/

namespace Node

/-- The values that a call is given have the types of the language. -/
def Call.Typed : Call → Prop
  | .registerPeer peerId url now => IsText peerId ∧ IsText url ∧ IsText now
  | .setPeerStatus _ _ => True
  | .propose payload _ _ timestamp =>
      (Json.obj payload).wf = true ∧ (Json.obj payload).Fit ∧ IsText timestamp ∧ timestamp ≠ []
  | .applyDeltas deltas => ∀ d ∈ deltas, d.Typed
  | .restart nodeId now => IsText nodeId ∧ IsText now

def Meets (n : Node) : Call → Prop
  | .propose payload _ _ timestamp => Good (.obj payload) ∧ PlainText timestamp
  | .applyDeltas deltas => Clean n.coordinator deltas
  | _ => True

end Node

theorem proposeMutation_cases (payload : Members) (fenceToken : Int) (ackNodes : Option (List Str))
    (timestamp : Str) (c : Coordinator) :
  (∃ e, proposeMutation payload fenceToken ackNodes timestamp c = .error e c) ∨
    ∃ m : ReplicationMutation, proposeMutation payload fenceToken ackNodes timestamp c =
      .ok m (c.extend [m]) ∧ m.payload = payload ∧ m.timestamp = timestamp ∧
      ∃ s, m.commitHash = Platform.sha256 s
  := by
  rw [proposeMutation, get_bind]
  by_cases hactive : c.activeNodeCount < c.calculateQuorum
  · rw [if_pos hactive]
    exact .inl ⟨_, rfl⟩
  · rw [if_neg hactive]
    simp only [pure]
    split_ifs with hacks
    · exact .inl ⟨_, rfl⟩
    · exact .inr ⟨_, rfl, rfl, rfl, _, rfl⟩

section

omit [Platform]

theorem Node.Kept.peers {n : Node} (h : n.Kept) {peers : Dict Str PeerNode} {records : Dict Str PeerRecord}
    (hpeers : ∀ {peerId peer}, peers.get? peerId = some peer → IsText peerId ∧ IsText peer.url)
    (hrecords : ∀ {peerId record}, records.get? peerId = some record →
      IsText record.peerId ∧ IsText record.lastHeartbeat) :
  Node.Kept { n with coordinator := { n.coordinator with peers := peers }, records := records }
  := ⟨⟨h.typed.nodeId, hpeers, hrecords, h.typed.log⟩, h.plain, h.stored⟩

theorem Node.Kept.setPeer {n : Node} (h : n.Kept) {peerId : Str} {peer : PeerNode} (hid : IsText peerId)
    (hurl : IsText peer.url) {l : Str} {w : PeerNode}
    (hw : (n.coordinator.peers.set peerId peer).get? l = some w) :
  IsText l ∧ IsText w.url
  := by
  rw [Dict.get?_set] at hw
  split_ifs at hw with hl
  · cases hw
    exact ⟨hl ▸ hid, hurl⟩
  · exact h.typed.peers hw

theorem Node.Kept.registerPeer (h : n.Kept) {peerId url now : Str} (hid : IsText peerId)
    (hurl : IsText url) (hnow : IsText now) :
  (Node.afterwards (Node.registerPeer peerId url now) n).Kept
  := by
  apply h.peers (h.setPeer hid hurl)
  intro l record hrecord
  rw [Dict.get?_set] at hrecord
  split_ifs at hrecord with hl
  · cases hrecord
    exact ⟨hid, hnow⟩
  · exact h.typed.records hrecord

theorem Node.Kept.setPeerStatus (h : n.Kept) (peerId : Str) (status : PeerStatus) :
  (Node.afterwards (onCoordinator (Replica.setPeerStatus peerId status)) n).Kept
  := by
  rw [Node.afterwards, onCoordinator, Replica.setPeerStatus, get_bind]
  cases hpeer : n.coordinator.peers.get? peerId with
  | none => exact h
  | some peer =>
    obtain ⟨hid, hurl⟩ := h.typed.peers hpeer
    have hpeers := @Node.Kept.setPeer n h peerId ⟨peer.url, status⟩ hid hurl
    exact h.peers hpeers h.typed.records

end

section Digests

variable (hdigest : ∀ s, PlainText (Platform.sha256 s))

include hdigest

theorem Node.Kept.propose (h : n.Kept) {payload : Members} {fenceToken : Int}
    {ackNodes : Option (List Str)} {timestamp : Str} (hgood : Good (.obj payload)) (htime : PlainText timestamp)
    (hstamped : timestamp ≠ []) :
  (Node.afterwards (Node.proposeMutation payload fenceToken ackNodes timestamp) n).Kept
  := by
  have heq : Node.proposeMutation payload fenceToken ackNodes timestamp n =
      match Replica.proposeMutation payload fenceToken ackNodes timestamp n.coordinator with
      | .ok m c => .ok m (Node.save { n with coordinator := c })
      | .error e c => .error e { n with coordinator := c } := by
    change EStateM.bind (onCoordinator _) _ n = _
    rw [EStateM.bind, onCoordinator]
    cases Replica.proposeMutation payload fenceToken ackNodes timestamp n.coordinator <;> rfl
  rw [Node.afterwards, heq]
  rcases proposeMutation_cases payload fenceToken ackNodes timestamp n.coordinator with
    ⟨e, hrun⟩ | ⟨m, hrun, rfl, rfl, s, hhash⟩
  · rw [hrun]
    exact h
  · have hplain : m.Plain := ⟨hgood, by rw [hhash]; exact hdigest s, htime⟩
    have htyped : m.Typed := ⟨hgood.1, (fit_of_good hgood.1 hgood.2).1, hplain.commitHash.1, htime.1, hstamped⟩
    rw [hrun]
    apply Node.kept_save (h.typed.extend (List.forall_mem_singleton.mpr htyped))
    intro d hd
    rcases List.mem_append.mp hd with hd | hd
    · exact h.plain d hd
    · rw [List.mem_singleton.mp hd]
      exact hplain

theorem Node.Kept.after (h : n.Kept) {call : Node.Call} (htyped : call.Typed)
    (hmeets : n.Meets call) :
  (n.after call).Kept
  := by
  cases call with
  | registerPeer peerId url now => exact h.registerPeer htyped.1 htyped.2.1 htyped.2.2
  | setPeerStatus peerId status => exact h.setPeerStatus peerId status
  | propose payload fenceToken ackNodes timestamp =>
    exact h.propose hdigest hmeets.1 hmeets.2 htyped.2.2.2
  | applyDeltas deltas => exact (h.applyDeltas htyped hmeets).1
  | restart nodeId now =>
    obtain ⟨opened, hopened, -, -, hkept⟩ := h.opened htyped.2 htyped.1
    rw [Node.after, hopened]
    exact hkept

end Digests

end Operations

/-! ### A forged delta -/

section Example

local instance platformStore : Platform := Platform.plain

theorem plainText_plain (s : Str) :
  PlainText (Platform.sha256 s)
  := by
  apply plainText_of_ascii
  intro c hc
  have hdigit := Text.isDigit_of_mem_natDecimal hc
  simp only [Text.isDigit, Bool.and_eq_true, decide_eq_true_eq] at hdigit
  omega

def firstDelta : ReplicationMutation :=
  ⟨1, 3, [], commitHash 1 3 (text "GENESIS") [], 1, true, text "2026-07-01T00:00:00Z"⟩

def forgedDelta : ReplicationMutation :=
  ⟨2, 5, [], text "0", 1, true, text "2026-07-02T00:00:00Z"⟩

theorem typed_firstDelta :
  firstDelta.Typed
  := ⟨rfl, trivial, (plainText_plain _).1, by decide, by decide⟩

theorem typed_forgedDelta :
  forgedDelta.Typed
  := ⟨rfl, trivial, by decide, by decide, by decide⟩

end Example

end Courier.Replica
