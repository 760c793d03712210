import Courier.Notary
import Courier.Library.Run
import Mathlib.Logic.Equiv.List

/-!
# What a proof binds

A proof is accepted if its path leads from its digest to the root of the batch.  Its name for the item is never looked
at, and its digest may be that of an inner node, or a part of what was hashed (`binds_iff`).
-/

namespace Courier.Notary

open Merkle

section Binding

variable [Platform]

structure Digests : Prop where
  injective : Function.Injective Platform.sha256
  length : ∀ s, (Platform.sha256 s).length = 64
  chars : ∀ s, ∀ c ∈ Platform.sha256 s, c ≠ 123 ∧ c ≠ 125 ∧ Text.isSurrogate c = false

def DigestLike (s : Str) : Prop :=
  s.length = 64 ∧ ∀ c ∈ s, c ≠ 123 ∧ c ≠ 125

def Atomic (t : Str) : Prop :=
  ∀ x y, DigestLike x ∨ DigestLike y → t ≠ x ++ y

theorem Digests.like (h : Digests) (s : Str) :
  DigestLike (Platform.sha256 s)
  :=
  ⟨h.length s, fun c hc => ⟨(h.chars s c hc).1, (h.chars s c hc).2.1⟩⟩

theorem Digests.fuse (h : Digests) (s : Str) :
  Json.fuse (Platform.sha256 s) = Platform.sha256 s
  := by
  apply Json.fuse_eq_self
  apply Json.hasPair_of_encodable
  apply List.any_eq_false.mpr
  intro c hc
  rw [(h.chars s c hc).2.2]
  exact Bool.false_ne_true

section

omit [Platform]

theorem atomic_dumpsAscii (d : Members) :
  Atomic (Json.obj d).dumpsAscii
  := by
  have hdumps : ∃ inner, (Json.obj d).dumpsAscii = 123 :: (inner ++ [125]) := by
    refine ⟨(Json.dumps.dumpsMembers d).flatMap Json.asciiPoint, ?_⟩
    rw [Json.dumpsAscii, Json.dumps, List.flatMap_cons, List.flatMap_append]
    rfl
  obtain ⟨inner, hinner⟩ := hdumps
  rintro x y (⟨hlength, hchars⟩ | ⟨hlength, hchars⟩) heq
  · cases x with
    | nil => cases hlength
    | cons c x =>
      rw [hinner] at heq
      exact (hchars c List.mem_cons_self).1 (List.cons.inj heq).1.symm
  · cases y using List.reverseRecOn with
    | nil => cases hlength
    | append_singleton y c =>
      rw [hinner, ← List.cons_append, ← List.append_assoc] at heq
      obtain ⟨-, hlast⟩ := List.append_inj' heq rfl
      exact (hchars c (by simp)).2 (List.cons.inj hlast).1.symm

theorem atomic_nil :
  Atomic []
  := by
  intro x y hlike heq
  obtain ⟨rfl, rfl⟩ := List.append_eq_nil_iff.mp heq.symm
  rcases hlike with ⟨hlength, -⟩ | ⟨hlength, -⟩
  · cases hlength
  · cases hlength

end

variable {leaves : List Str}

theorem Digests.node_of_climb (h : Digests)
    (hleaves : ∀ leaf ∈ leaves, ∃ t, leaf = Platform.sha256 t ∧ Atomic t) {start : Str}
    (hstart : DigestLike start) {path : List (Side × Str)}
    (hpath : Node hashPair leaves (climb hashPair start path)) :
  Node hashPair leaves start
  := by
  apply Merkle.node_of_climb (fun x y => h.like _) _ _ _ hstart hpath
  · intro leaf hleaf
    obtain ⟨t, rfl, -⟩ := hleaves leaf hleaf
    exact h.like t
  · intro x y l r hl hr hlike heq
    have htexts : x ++ y = l ++ r := h.injective heq
    rcases hlike with hx | hy
    · exact List.append_inj htexts (hx.1.trans hl.1.symm)
    · exact List.append_inj' htexts (hy.1.trans hr.1.symm)
  · intro leaf hleaf x y hlike heq
    obtain ⟨t, rfl, hatomic⟩ := hleaves leaf hleaf
    exact hatomic x y hlike (h.injective heq)

theorem Digests.leaf_of_node (h : Digests)
    (hleaves : ∀ leaf ∈ leaves, ∃ t, leaf = Platform.sha256 t) {t : Str} (ht : Atomic t)
    (hnode : Node hashPair leaves (Platform.sha256 t)) :
  Platform.sha256 t ∈ leaves
  := by
  generalize hx : Platform.sha256 t = x at hnode
  cases hnode with
  | leaf hmem => exact hmem
  | @pair l r hl hr =>
    have hlike : DigestLike l := by
      cases hl with
      | leaf hmem =>
        obtain ⟨u, rfl⟩ := hleaves l hmem
        exact h.like u
      | pair _ _ => exact h.like _
    exact absurd (h.injective hx) (ht l r (.inl hlike))

/-! ### The root of a batch -/

def treeLeaves (leaves : List Str) : List Str :=
  if leaves = [] then [Platform.sha256 []] else leaves

theorem node_treeRoot (leaves : List Str) :
  Node hashPair (treeLeaves leaves) (treeRoot leaves)
  := by
  unfold treeRoot treeLevels treeLeaves
  split_ifs with hempty
  · exact .leaf (List.mem_singleton_self _)
  · obtain ⟨root, hlast⟩ := getLast?_levels hashPair hempty
    rw [hlast]
    apply node_levels (fun x hx => .leaf hx) [root]
    · exact List.mem_of_getLast? hlast
    · exact List.mem_singleton_self root

/-! ### Accepted proofs -/

theorem climb_of_climbPath {current reached : Str} {path : List (Str × Str)}
    (h : climbPath current path = .ok (some reached)) :
  ∃ sides, climb hashPair current sides = reached
  := by
  induction path generalizing current with
  | nil =>
    cases h
    exact ⟨[], rfl⟩
  | cons step path ih =>
    obtain ⟨direction, sibling⟩ := step
    rw [climbPath] at h
    split_ifs at h
    · obtain ⟨sides, hsides⟩ := ih h
      exact ⟨(.left, sibling) :: sides, hsides⟩
    · obtain ⟨sides, hsides⟩ := ih h
      exact ⟨(.right, sibling) :: sides, hsides⟩
    · cases h

omit [Platform] in
theorem eq_of_compareDigest {a b : Str} (h : compareDigest a b = .ok true) :
  a = b
  := by
  unfold compareDigest at h
  split_ifs at h
  exact of_decide_eq_true (Except.ok.inj h)

theorem accepted_of_verify [Surroundings] {secret : Option Str} {log : Log} {proof : MerkleProof}
    (h : verifyItemProof secret log proof = .ok true) :
  ∃ record, getBatch log proof.batchId = .ok record ∧
    ∃ sides, climb hashPair proof.leafHash sides = record.rootHash
  := by
  unfold verifyItemProof at h
  obtain ⟨included, hincluded, h⟩ := Except.bind_eq_ok.mp h
  cases included with
  | false => cases h
  | true =>
    obtain ⟨record, hrecord, h⟩ := Except.bind_eq_ok.mp h
    split_ifs at h with hroot
    refine ⟨record, hrecord, ?_⟩
    unfold verifyInclusionProof at hincluded
    obtain ⟨reached, hreached, hincluded⟩ := Except.bind_eq_ok.mp hincluded
    cases reached with
    | none => cases hincluded
    | some reached =>
      obtain ⟨sides, hsides⟩ := climb_of_climbPath hreached
      refine ⟨sides, ?_⟩
      rw [hsides, eq_of_compareDigest hincluded]
      exact not_not.mp hroot

/-! ### Records -/

variable [Surroundings]

structure Recorded (items : List Item) (r : NotaryBatchRecord) : Prop where
  leafHashes : r.leafHashes = items.map fun item => canonicalJsonHash item.members
  itemKeys : r.itemKeys = items.zipIdx.map fun p => Json.fuse (p.1.key p.2)
  rootHash : r.rootHash = treeRoot r.leafHashes

variable {items : List Item}

section

omit [Surroundings]

theorem eq_of_itemKeys {batchId : Str} {index : Nat} {seen keys : List Str}
    (h : itemKeys batchId items index seen = .ok keys) :
  keys = seen ++ (items.zipIdx index).map fun p => p.1.key p.2
  := by
  induction items generalizing index seen with
  | nil =>
    cases h
    exact (List.append_nil _).symm
  | cons item items ih =>
    rw [itemKeys] at h
    split_ifs at h
    rw [ih h, List.zipIdx_cons, List.map_cons, List.append_assoc]
    rfl

theorem Digests.fuse_treeRoot (h : Digests)
    (hleaves : ∀ leaf ∈ leaves, ∃ t, leaf = Platform.sha256 t) :
  Json.fuse (treeRoot leaves) = treeRoot leaves
  := by
  have hroot : ∃ t, treeRoot leaves = Platform.sha256 t := by
    have hnode := node_treeRoot leaves
    generalize treeRoot leaves = root at hnode
    cases hnode with
    | leaf hmem =>
      unfold treeLeaves at hmem
      split_ifs at hmem
      · exact ⟨[], List.mem_singleton.mp hmem⟩
      · exact hleaves root hmem
    | pair _ _ => exact ⟨_, rfl⟩
  obtain ⟨t, ht⟩ := hroot
  rw [ht, h.fuse]

end

variable {r : NotaryBatchRecord}

theorem Digests.recorded (h : Digests) {secret : Option Str} {batchId timestamp : Str}
    {log log' : Log}
    (hnotarize : notarizeBatch secret batchId items timestamp log = .ok (r, log')) :
  log' = log.set (Surroundings.batchFile batchId) r ∧ Recorded items r.readBack
  := by
  unfold notarizeBatch at hnotarize
  obtain ⟨keys, hkeys, hnotarize⟩ := Except.bind_eq_ok.mp hnotarize
  cases hnotarize
  have hleaves : (items.map fun item => canonicalJsonHash item.members).map Json.fuse =
      items.map fun item => canonicalJsonHash item.members := by
    rw [List.map_map]
    exact List.map_congr_left fun item _ => h.fuse _
  refine ⟨rfl, hleaves, ?_, ?_⟩
  · change keys.map Json.fuse = _
    rw [eq_of_itemKeys hkeys, List.nil_append, List.map_map]
    rfl
  · change Json.fuse (treeRoot _) = treeRoot ((items.map _).map Json.fuse)
    rw [hleaves]
    apply h.fuse_treeRoot
    intro leaf hleaf
    obtain ⟨item, -, rfl⟩ := List.mem_map.mp hleaf
    exact ⟨_, rfl⟩

theorem Digests.recorded_logOf (h : Digests) (secret : Option Str) (batches : List Batch) :
  ∀ file r, (logOf secret batches).get? file = some r → ∃ items, Recorded items r.readBack
  := by
  apply Run.foldl_invariant (I := fun log : Log =>
    ∀ file r, log.get? file = some r → ∃ items, Recorded items r.readBack)
  · intro log batch hlog file r hr
    unfold logAfter at hr
    cases hnotarize : notarizeBatch secret batch.batchId batch.items batch.timestamp log with
    | error e =>
      rw [hnotarize] at hr
      exact hlog file r hr
    | ok result =>
      obtain ⟨record, log'⟩ := result
      rw [hnotarize] at hr
      obtain ⟨rfl, hrecorded⟩ := h.recorded hnotarize
      dsimp only at hr
      rw [Dict.get?_set] at hr
      split_ifs at hr
      · cases hr
        exact ⟨_, hrecorded⟩
      · exact hlog file r hr
  · intro file r hr
    cases hr

/-! ### Names and digests -/

def NotaryBatchRecord.Binds (r : NotaryBatchRecord) (proof : MerkleProof) : Prop :=
  ∃ i : Nat, r.itemKeys[i]? = some proof.itemId ∧ r.leafHashes[i]? = some proof.leafHash

def NotaryBatchRecord.Genuine (r : NotaryBatchRecord) (proof : MerkleProof) : Prop :=
  ∃ item : Item, proof.leafHash = canonicalJsonHash item.members ∧
    ((∃ key, item.ownKey = some key ∧ proof.itemId = Json.fuse key) ∨
      item.ownKey = none ∧
        ∃ i : Nat, proof.itemId = defaultKey i ∧ r.leafHashes[i]? = some proof.leafHash)

section

omit [Surroundings]

theorem Digests.members_eq (h : Digests) {item item' : Item}
    (heq : canonicalJsonHash item.members = canonicalJsonHash item'.members) :
  item.members = item'.members
  := by
  have hdumps := Json.dumpsAscii_injective item.wf item'.wf item.plain item'.plain (h.injective heq)
  exact Json.obj.inj hdumps

theorem Digests.mem_leafHashes (h : Digests)
    (hr : Recorded items r) {item : Item} {sides : List (Side × Str)}
    (hpath : climb hashPair (canonicalJsonHash item.members) sides = r.rootHash) :
  canonicalJsonHash item.members ∈ r.leafHashes
  := by
  have hleaves : ∀ leaf ∈ treeLeaves r.leafHashes, ∃ t, leaf = Platform.sha256 t ∧ Atomic t := by
    intro leaf hleaf
    unfold treeLeaves at hleaf
    split_ifs at hleaf
    · exact ⟨[], List.mem_singleton.mp hleaf, atomic_nil⟩
    · rw [hr.leafHashes] at hleaf
      obtain ⟨item', -, rfl⟩ := List.mem_map.mp hleaf
      exact ⟨_, rfl, atomic_dumpsAscii item'.members⟩
  have hroot := node_treeRoot r.leafHashes
  rw [← hr.rootHash, ← hpath] at hroot
  have hnode := h.node_of_climb hleaves (h.like _) hroot
  have hmem := h.leaf_of_node (fun leaf hleaf => (hleaves leaf hleaf).imp fun _ => And.left)
    (atomic_dumpsAscii item.members) hnode
  unfold treeLeaves at hmem
  split_ifs at hmem
  · have hempty : (Json.obj item.members).dumpsAscii = [] :=
      h.injective (List.mem_singleton.mp hmem)
    rw [Json.dumpsAscii, Json.dumps, List.flatMap_cons] at hempty
    cases hempty
  · exact hmem

theorem Recorded.at {items : List Item} {r : NotaryBatchRecord} (hr : Recorded items r) {i : Nat}
    {digest : Str} (h : r.leafHashes[i]? = some digest) :
  ∃ item : Item, digest = canonicalJsonHash item.members ∧
    r.itemKeys[i]? = some (Json.fuse (item.key i))
  := by
  rw [hr.leafHashes, List.getElem?_map, Option.map_eq_some_iff] at h
  obtain ⟨item, hitem, rfl⟩ := h
  refine ⟨item, rfl, ?_⟩
  rw [hr.itemKeys, List.getElem?_map, List.getElem?_zipIdx, hitem, Nat.zero_add]
  rfl

end

omit [Platform] [Surroundings] in
theorem fuse_defaultKey (index : Nat) :
  Json.fuse (defaultKey index) = defaultKey index
  := by
  apply Json.fuse_eq_self
  apply Json.hasPair_of_lt
  intro c hc
  have hitem : ∀ d ∈ text "item-", d < 0xD800 := by decide
  rcases List.mem_append.mp hc with hc | hc
  · exact hitem c hc
  · have hdigit := Text.isDigit_of_mem_natDecimal hc
    simp only [Text.isDigit, Bool.and_eq_true, decide_eq_true_eq] at hdigit
    omega

omit [Surroundings] in
theorem Digests.binds_iff_genuine (h : Digests)
    (hr : Recorded items r) {proof : MerkleProof} {sides : List (Side × Str)}
    (hpath : climb hashPair proof.leafHash sides = r.rootHash) :
  r.Binds proof ↔ r.Genuine proof
  := by
  constructor
  · rintro ⟨i, hkey, hdigest⟩
    obtain ⟨item, heq, hitem⟩ := hr.at hdigest
    refine ⟨item, heq, ?_⟩
    have hname : proof.itemId = Json.fuse (item.key i) := Option.some.inj (hkey.symm.trans hitem)
    cases hown : item.ownKey with
    | some key =>
      rw [Item.key, hown] at hname
      exact .inl ⟨key, rfl, hname⟩
    | none =>
      rw [Item.key, hown, Option.getD_none, fuse_defaultKey] at hname
      exact .inr ⟨rfl, i, hname, hdigest⟩
  · rintro ⟨item, heq, hname⟩
    rcases hname with ⟨key, hown, hname⟩ | ⟨hown, i, hname, hdigest⟩
    · rw [heq] at hpath
      obtain ⟨i, hdigest⟩ := List.getElem?_of_mem (h.mem_leafHashes hr hpath)
      obtain ⟨item', heq', hitem'⟩ := hr.at hdigest
      have hown' : item'.ownKey = some key := by
        rw [← hown, Item.ownKey, Item.ownKey, h.members_eq heq']
      refine ⟨i, ?_, ?_⟩
      · rw [hitem', Item.key, hown', hname]
        rfl
      · rw [hdigest, heq]
    · obtain ⟨item', heq', hitem'⟩ := hr.at hdigest
      have hown' : item'.ownKey = none := by
        rw [← hown, Item.ownKey, Item.ownKey, h.members_eq (heq.symm.trans heq')]
      refine ⟨i, ?_, hdigest⟩
      rw [hitem', Item.key, hown', Option.getD_none, fuse_defaultKey, hname]

theorem binds_iff (h : Digests) {secret : Option Str} {batches : List Batch} {proof : MerkleProof}
    (haccepted : verifyItemProof secret (logOf secret batches) proof = .ok true) :
  ∃ record, getBatch (logOf secret batches) proof.batchId = .ok record ∧
    (record.Binds proof ↔ record.Genuine proof)
  := by
  obtain ⟨record, hrecord, sides, hpath⟩ := accepted_of_verify haccepted
  refine ⟨record, hrecord, ?_⟩
  unfold getBatch at hrecord
  cases hstored : (logOf secret batches).get? (Surroundings.batchFile proof.batchId) with
  | none =>
    rw [hstored] at hrecord
    cases hrecord
  | some r =>
    rw [hstored] at hrecord
    cases hrecord
    obtain ⟨items, hr⟩ := h.recorded_logOf secret batches _ r hstored
    exact h.binds_iff_genuine hr hpath

end Binding

/-! ### A proof under another name -/

section Example

def tabled (table : List (Str × Str)) (s : Str) : Str :=
  (table.lookup s).getD (List.replicate 63 48 ++ [0x110000 + Encodable.encode s])

/-- Digests from a table of distinct ones are as they are assumed to be. -/
theorem digests_tabled {table : List (Str × Str)} (hdistinct : (table.map Prod.snd).Nodup)
    (hdigests : ∀ p ∈ table, p.2.length = 64 ∧
      ∀ c ∈ p.2, c ≠ 123 ∧ c ≠ 125 ∧ Text.isSurrogate c = false ∧ c < 0x110000) :
  letI : Platform := { Platform.plain with sha256 := tabled table }
  Digests
  := by
  have hmem : ∀ {s d : Str}, table.lookup s = some d → (s, d) ∈ table := by
    intro s d h
    exact List.lookup_eq_some_iff.mp h |>.elim fun l₁ ⟨l₂, heq, _⟩ => by simp [heq]
  have hchars : ∀ s : Str, ∀ c ∈ List.replicate 63 48 ++ [0x110000 + Encodable.encode s],
      c = 48 ∨ 0x110000 ≤ c := by
    intro s c hc
    rcases List.mem_append.mp hc with hc | hc
    · exact .inl (List.eq_of_mem_replicate hc)
    · rw [List.mem_singleton.mp hc]
      exact .inr (Nat.le_add_right _ _)
  have hnot : ∀ {s t d : Str}, table.lookup s = some d →
      d ≠ List.replicate 63 48 ++ [0x110000 + Encodable.encode t] := by
    rintro s t d h rfl
    have hlt := (hdigests _ (hmem h)).2 (0x110000 + Encodable.encode t) (by simp)
    omega
  refine @Digests.mk (_) ?_ ?_ ?_
  · intro s t hst
    change (table.lookup s).getD _ = (table.lookup t).getD _ at hst
    cases hs : table.lookup s with
    | none =>
      cases ht : table.lookup t with
      | none =>
        rw [hs, ht] at hst
        have hlast := List.append_cancel_left hst
        exact Encodable.encode_injective (Nat.add_left_cancel (List.cons.inj hlast).1)
      | some d =>
        rw [hs, ht] at hst
        exact absurd hst.symm (hnot ht)
    | some d =>
      cases ht : table.lookup t with
      | none =>
        rw [hs, ht] at hst
        exact absurd hst (hnot hs)
      | some d' =>
        rw [hs, ht] at hst
        have hpair := List.inj_on_of_nodup_map hdistinct (hmem hs) (hmem ht) hst
        exact congrArg Prod.fst hpair
  · intro s
    change ((table.lookup s).getD _).length = 64
    cases hs : table.lookup s with
    | none => simp
    | some d => exact (hdigests _ (hmem hs)).1
  · intro s c hc
    change c ∈ (table.lookup s).getD _ at hc
    cases hs : table.lookup s with
    | none =>
      rw [hs] at hc
      have hbig := hchars s c hc
      simp only [Text.isSurrogate, Bool.and_eq_false_iff, decide_eq_false_iff_not]
      omega
    | some d =>
      rw [hs] at hc
      obtain ⟨hopen, hclose, hsurrogate, -⟩ := (hdigests _ (hmem hs)).2 c hc
      exact ⟨hopen, hclose, hsurrogate⟩

/-- The digests of two items and of the root of their batch. -/
def sampleTable : List (Str × Str) :=
  [((Json.obj [(text "task_id", .str (text "a"))]).dumpsAscii,
      text "dc7a4e129a7f9c35b1b543adc26ceeb39e029d4ea6ee79f2083d0acb7837ef4b"),
    ((Json.obj [(text "task_id", .str (text "b"))]).dumpsAscii,
      text "00aa733f97269bdbfdd56ffbb5f0581ddda7582a173cedbd7cbcdeec7a6e832e"),
    (text "dc7a4e129a7f9c35b1b543adc26ceeb39e029d4ea6ee79f2083d0acb7837ef4b" ++
        text "00aa733f97269bdbfdd56ffbb5f0581ddda7582a173cedbd7cbcdeec7a6e832e",
      text "ce6df7df1a03a7d14424d70772f8d5a95877540a5864c8f1600098ec0a998e63")]

local instance platformNotary : Platform :=
  { Platform.plain with sha256 := tabled sampleTable }

local instance surroundingsNotary : Surroundings where
  hmac key message := Platform.sha256 (key ++ message)
  batchFile batchId := batchId

theorem digests_sample :
  Digests
  := digests_tabled (by decide +kernel) (by decide +kernel)

def sampleBatch : Batch where
  batchId := text "batch-1"
  items := [
    ⟨[(text "task_id", .str (text "a"))], by decide,
      ⟨by decide, (by decide : Json.PlainText (text "a")), trivial⟩⟩,
    ⟨[(text "task_id", .str (text "b"))], by decide,
      ⟨by decide, (by decide : Json.PlainText (text "b")), trivial⟩⟩]
  timestamp := text "2026-07-01T00:00:00+00:00"

def proofOf (itemId : Str) : MerkleProof where
  batchId := text "batch-1"
  itemId := itemId
  leafHash := text "dc7a4e129a7f9c35b1b543adc26ceeb39e029d4ea6ee79f2083d0acb7837ef4b"
  rootHash := text "ce6df7df1a03a7d14424d70772f8d5a95877540a5864c8f1600098ec0a998e63"
  proofPath :=
    [(text "right", text "00aa733f97269bdbfdd56ffbb5f0581ddda7582a173cedbd7cbcdeec7a6e832e")]
  notarySignature := []

theorem binds_sample :
  generateItemProof (logOf none [sampleBatch]) (text "batch-1") (text "a") = .ok (proofOf (text "a")) ∧
    ∃ record, getBatch (logOf none [sampleBatch]) (text "batch-1") = .ok record ∧
      (record.Binds (proofOf (text "a")) ↔ record.Genuine (proofOf (text "a")))
  := by
  have haccepted : verifyItemProof none (logOf none [sampleBatch]) (proofOf (text "a")) = .ok true :=
    by decide +kernel
  exact ⟨by decide +kernel, binds_iff digests_sample haccepted⟩

/-- The proof of the first item is accepted under a name that no item of the batch has. -/
theorem not_binds :
  Digests ∧ verifyItemProof none (logOf none [sampleBatch]) (proofOf (text "forged")) = .ok true ∧
    ∃ record, getBatch (logOf none [sampleBatch]) (text "batch-1") = .ok record ∧
      ¬ record.Binds (proofOf (text "forged"))
  := by
  have hkeys : (match getBatch (logOf none [sampleBatch]) (text "batch-1") with
      | .ok record => decide (text "forged" ∉ record.itemKeys)
      | .error _ => false) = true := by decide +kernel
  refine ⟨digests_sample, by decide +kernel, ?_⟩
  cases hrecord : getBatch (logOf none [sampleBatch]) (text "batch-1") with
  | error e =>
    rw [hrecord] at hkeys
    cases hkeys
  | ok record =>
    rw [hrecord] at hkeys
    refine ⟨record, rfl, ?_⟩
    rintro ⟨i, hkey, -⟩
    exact of_decide_eq_true hkeys (List.mem_of_getElem? hkey)

end Example

end Courier.Notary
