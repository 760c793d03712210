import Courier.DeltaPatcher
import Mathlib.Data.List.Infix
import Mathlib.Data.Set.Function

/-!
# Content-addressed storage

A file is stored in chunks under their digests, and put together again from its manifest.  A file that is stored with
the chunk size 0 ends at once for the loop that reads it, and its manifest is that of the empty file; any other file is
given back as long as no collection removes its chunks (`givesBack_of_reached`).
-/

namespace Courier.ContentDedup

open Delta Json Text

structure ArtifactManifest where
  fileName : Json
  rootHash : Json
  totalSize : ℤ
  chunkSize : ℤ
  chunks : List Json
  deriving DecidableEq

namespace ArtifactManifest

def toDict (m : ArtifactManifest) : Members :=
  [(text "file_name", m.fileName), (text "root_hash", m.rootHash), (text "total_size", .int m.totalSize),
    (text "chunk_size", .int m.chunkSize), (text "chunks", .arr m.chunks)]

def fromDict [Surroundings] (data : Members) : Except PatchError ArtifactManifest := do
  let fileName ← item data (text "file_name")
  let rootHash ← item data (text "root_hash")
  let totalSize ← pyInt (← item data (text "total_size"))
  let chunkSize ← pyInt (← item data (text "chunk_size"))
  let chunks ← pyList (← item data (text "chunks"))
  return ⟨fileName, rootHash, totalSize, chunkSize, chunks⟩

end ArtifactManifest

/-! ### The store -/

/-- `_HEX_DIGEST_REGEX.match(digest)`; its `$` also matches before a line feed at the end. -/
def isDigest (digest : Str) : Bool :=
  let digits := if digest.getLast? = some 10 then digest.dropLast else digest
  digits.length = 64 && digits.all fun c => (48 ≤ c && c ≤ 57) || (97 ≤ c && c ≤ 102)

/-- The object files by their digests, which name their directories too. -/
abbrev Objects := Dict Str Bytes

section Runs

variable [Surroundings]

/-- `store_bytes`: the digest and the objects, unless it raises. -/
def storeBytes (objects : Objects) (data : Bytes) : Option (Str × Objects) :=
  let digest := Surroundings.sha256 data
  if ¬ isDigest digest then none
  else if (objects.get? digest).isSome then some (digest, objects)
  else some (digest, objects.set digest data)

/-- `retrieve_bytes`, if it does not raise. -/
def retrieveBytes (objects : Objects) (verifyIntegrity : Bool) : Json → Option Bytes
  | .str digest =>
      if ¬ isDigest digest then none
      else
        match objects.get? digest with
        | none => none
        | some data => if verifyIntegrity ∧ Surroundings.sha256 data ≠ digest then none else some data
  | _ => none

/-- `f.read(size)` of what is left of a file: the block, and what is left then. -/
def read (size : ℤ) (rest : Bytes) : Option (Bytes × Bytes) :=
  if size < -1 then none
  else if size = -1 then some (rest, [])
  else some (rest.take size.toNat, rest.drop size.toNat)

omit [Surroundings] in
theorem append_of_read {size : ℤ} {rest block later : Bytes} (h : read size rest = some (block, later)) :
  block ++ later = rest
  := by
  unfold read at h
  split_ifs at h
  · cases h
    apply List.append_nil
  · cases h
    apply List.take_append_drop

/-- The loop of `store_file`: the objects, the digests of the blocks, and the bytes that were read. -/
def storeBlocks (chunkSize : ℤ) (objects : Objects) (rest : Bytes) : Option (Objects × List Str × Bytes) :=
  match _ : read chunkSize rest with
  | none => none
  | some ([], _) => some (objects, [], [])
  | some (b :: block, later) => do
      let (digest, objects) ← storeBytes objects (b :: block)
      let (objects, digests, hashed) ← storeBlocks chunkSize objects later
      return (objects, digest :: digests, b :: block ++ hashed)
  termination_by rest.length
  decreasing_by
    rw [← append_of_read ‹read chunkSize rest = _›]
    simp

/-- `store_file`, of a file with a name and contents. -/
def storeFile (chunkSize : ℤ) (objects : Objects) (name : Str) (contents : Bytes) :
    Option (ArtifactManifest × Objects) := do
  let (objects, digests, hashed) ← storeBlocks chunkSize objects contents
  return (⟨.str name, .str (Surroundings.sha256 hashed), hashed.length, chunkSize, digests.map .str⟩, objects)

/-- `restore_file`: whether it returns, and the destination.  The environment may fail it on the way. -/
def restoreFile (objects : Objects) (manifest : ArtifactManifest) (verifyIntegrity fails : Bool)
    (dest : Option Bytes) : Bool × Option Bytes :=
  match manifest.chunks.mapM (retrieveBytes objects verifyIntegrity) with
  | none => (false, dest)
  | some parts =>
      if verifyIntegrity ∧ .str (Surroundings.sha256 parts.flatten) ≠ manifest.rootHash then (false, dest)
      else if fails then (false, dest)
      else (true, some parts.flatten)

/-- `garbage_collect`: what is left of the objects, unless a chunk cannot be in a set. -/
def garbageCollect (objects : Objects) (activeManifests : List ArtifactManifest) : Option Objects :=
  let activeDigests := activeManifests.flatMap (·.chunks)
  if activeDigests.any (fun chunk => chunk matches .arr _ | .obj _) then none
  else some (objects.filter fun name _ => .str name ∈ activeDigests)

/-! ### Runs -/

/-- The objects, and the manifests that were returned and in every later collection, with the files that were stored. -/
structure World where
  objects : Objects := ∅
  held : List (ArtifactManifest × Bytes) := []

inductive Call where
  | storeFile (chunkSize : ℤ) (name : Str) (contents : Bytes)
  | storeBytes (data : Bytes)
  | garbageCollect (activeManifests : List ArtifactManifest)

def World.step (w : World) : Call → World
  | .storeFile chunkSize name contents =>
      match ContentDedup.storeFile chunkSize w.objects name contents with
      | none => w
      | some (manifest, objects) => ⟨objects, (manifest, contents) :: w.held⟩
  | .storeBytes data => { w with objects := ((ContentDedup.storeBytes w.objects data).map (·.2)).getD w.objects }
  | .garbageCollect activeManifests =>
      ⟨(ContentDedup.garbageCollect w.objects activeManifests).getD w.objects,
        w.held.filter (·.1 ∈ activeManifests)⟩

/-- The files are given back, also from manifests that were written and read; and what is restored from any manifest
and any objects has the digest of the manifest, or the destination is left as it was. -/
structure GivesBack (w : World) : Prop where
  restored : ∀ m contents, (m, contents) ∈ w.held →
    ∀ dest, restoreFile w.objects m true false dest = (true, some contents)
  reread : ∀ m contents, (m, contents) ∈ w.held → ArtifactManifest.fromDict m.toDict = .ok m
  honest : ∀ objects m fails dest, restoreFile objects m true fails dest = (false, dest) ∨
    ∃ content, restoreFile objects m true fails dest = (true, some content) ∧
      .str (Surroundings.sha256 content) = m.rootHash

/-- A call whose pieces are among some, and which stores with the chunk size 0 no more than an empty file. -/
def Orderly (pieces : Set Bytes) : Call → Prop
  | .storeFile chunkSize _ contents => (∀ piece, piece <:+: contents → piece ∈ pieces) ∧ (chunkSize = 0 → contents = [])
  | .storeBytes data => data ∈ pieces
  | .garbageCollect _ => True

inductive Reached (pieces : Set Bytes) : World → Prop
  | init : Reached pieces {}
  | step {w : World} (h : Reached pieces w) (call : Call) (horderly : Orderly pieces call) : Reached pieces (w.step call)

/-! ### What is kept -/

section Kept

variable {pieces : Set Bytes} {objects after : Objects} {w : World}

/-- The objects are pieces under their digests. -/
def Sound (pieces : Set Bytes) (objects : Objects) : Prop :=
  ∀ digest content, objects.get? digest = some content → content ∈ pieces ∧ Surroundings.sha256 content = digest

omit [Surroundings] in
/-- Every object is still there. -/
def Grown (objects after : Objects) : Prop :=
  ∀ digest content, objects.get? digest = some content → after.get? digest = some content

/-- The objects have the blocks of a file under the digests of its manifest. -/
structure Holds (objects : Objects) (m : ArtifactManifest) (contents : Bytes) (blocks : List Bytes) : Prop where
  flatten : blocks.flatten = contents
  rootHash : m.rootHash = .str (Surroundings.sha256 contents)
  chunks : m.chunks = blocks.map fun block => .str (Surroundings.sha256 block)
  stored : ∀ block ∈ blocks, objects.get? (Surroundings.sha256 block) = some block

theorem storeBytes_spec (hhex : ∀ data, isDigest (Surroundings.sha256 data) = true)
    (hinj : Set.InjOn Surroundings.sha256 pieces) (h : Sound pieces objects) {data : Bytes} (hdata : data ∈ pieces) :
  ∃ after, storeBytes objects data = some (Surroundings.sha256 data, after) ∧ Sound pieces after ∧
    Grown objects after ∧ after.get? (Surroundings.sha256 data) = some data
  := by
  unfold storeBytes
  dsimp only
  rw [if_neg (by simp [hhex data])]
  cases hget : objects.get? (Surroundings.sha256 data) with
  | some content =>
    obtain ⟨hcontent, hdigest⟩ := h _ _ hget
    rw [hinj hcontent hdata hdigest] at hget
    exact ⟨objects, rfl, h, fun _ _ hkept => hkept, hget⟩
  | none =>
    refine ⟨_, rfl, ?_, ?_, by rw [Dict.get?_set, if_pos rfl]⟩
    · intro digest content hcontent
      rw [Dict.get?_set] at hcontent
      split_ifs at hcontent with heq
      · cases hcontent
        exact ⟨hdata, heq.symm⟩
      · apply h digest content hcontent
    · intro digest content hcontent
      rw [Dict.get?_set, if_neg]
      · exact hcontent
      · rintro rfl
        cases hget.symm.trans hcontent

theorem storeBlocks_spec (hhex : ∀ data, isDigest (Surroundings.sha256 data) = true)
    (hinj : Set.InjOn Surroundings.sha256 pieces) {chunkSize : ℤ} {rest hashed : Bytes} {digests : List Str}
    (hrest : ∀ piece, piece <:+: rest → piece ∈ pieces) (hsize : chunkSize = 0 → rest = []) (h : Sound pieces objects)
    (hstore : storeBlocks chunkSize objects rest = some (after, digests, hashed)) :
  hashed = rest ∧ Sound pieces after ∧ Grown objects after ∧
    ∃ blocks : List Bytes, blocks.flatten = rest ∧ digests = blocks.map Surroundings.sha256 ∧
      ∀ block ∈ blocks, after.get? (Surroundings.sha256 block) = some block
  := by
  induction hlength : rest.length using Nat.strong_induction_on generalizing objects rest digests hashed with
  | _ length ih =>
  subst hlength
  rw [storeBlocks] at hstore
  split at hstore
  · cases hstore
  · rename_i later hread
    cases hstore
    have hempty : rest = [] := by
      unfold read at hread
      split_ifs at hread
      · cases hread
        rfl
      · rw [Option.some.injEq, Prod.mk.injEq, List.take_eq_nil_iff] at hread
        obtain hzero | hempty := hread.1
        · apply hsize
          omega
        · exact hempty
    rw [hempty]
    exact ⟨rfl, h, fun _ _ hkept => hkept, [], rfl, rfl, by simp⟩
  · rename_i b block later hread
    have hsplit := append_of_read hread
    have hpieces : ∀ piece, piece <:+: later → piece ∈ pieces := fun piece hpiece =>
      hrest piece (hpiece.trans (hsplit ▸ (List.suffix_append _ _).isInfix))
    obtain ⟨objects', hstored, hsound, hgrown, hget⟩ := storeBytes_spec hhex hinj h
      (hrest (b :: block) (hsplit ▸ (List.prefix_append _ _).isInfix))
    rw [hstored] at hstore
    simp only [Option.bind_eq_bind, Option.bind_some, Option.bind_eq_some_iff] at hstore
    obtain ⟨⟨objects'', digests', hashed'⟩, hlater, hresult⟩ := hstore
    cases hresult
    obtain ⟨rfl, hsound', hgrown', blocks, hflatten, rfl, hblocks⟩ := ih later.length (by rw [← hsplit]; simp) hpieces
      (fun hzero => by rw [hsize hzero] at hsplit; cases hsplit) hsound hlater rfl
    refine ⟨hsplit, hsound', fun digest content hkept => hgrown' _ _ (hgrown _ _ hkept), (b :: block) :: blocks,
      by rw [List.flatten_cons, hflatten, hsplit], rfl, ?_⟩
    intro stored hmem
    obtain rfl | hmem := List.mem_cons.mp hmem
    · apply hgrown' _ _ hget
    · apply hblocks stored hmem

theorem Holds.restore {m : ArtifactManifest} {contents : Bytes} {blocks : List Bytes}
    (hhex : ∀ data, isDigest (Surroundings.sha256 data) = true) (h : Holds objects m contents blocks)
    (dest : Option Bytes) :
  restoreFile objects m true false dest = (true, some contents)
  := by
  have hparts : m.chunks.mapM (retrieveBytes objects true) = some blocks := by
    have hblocks := h.stored
    rw [h.chunks]
    clear h
    induction blocks with
    | nil => rfl
    | cons block blocks ih =>
      rw [List.map_cons, List.mapM_cons, ih fun other hother => hblocks other (List.mem_cons_of_mem block hother)]
      simp [retrieveBytes, hhex block, hblocks block (List.mem_cons_self ..)]
  simp [restoreFile, hparts, h.flatten, h.rootHash]

/-- The objects are sound, and the held manifests have theirs. -/
structure Kept (pieces : Set Bytes) (w : World) : Prop where
  sound : Sound pieces w.objects
  held : ∀ m contents, (m, contents) ∈ w.held → ∃ blocks, Holds w.objects m contents blocks

omit [Surroundings] in
theorem Holds.grown [Surroundings] {m : ArtifactManifest} {contents : Bytes} {blocks : List Bytes}
    (h : Holds objects m contents blocks) (hgrown : Grown objects after) :
  Holds after m contents blocks
  := ⟨h.flatten, h.rootHash, h.chunks, fun block hblock => hgrown _ _ (h.stored block hblock)⟩

theorem Kept.step (hhex : ∀ data, isDigest (Surroundings.sha256 data) = true)
    (hinj : Set.InjOn Surroundings.sha256 pieces) (h : Kept pieces w) {call : Call} (horderly : Orderly pieces call) :
  Kept pieces (w.step call)
  := by
  cases call with
  | storeFile chunkSize name contents =>
    obtain ⟨hpieces, hsize⟩ := horderly
    unfold World.step
    dsimp only
    split
    · exact h
    · rename_i manifest objects hstore
      simp only [storeFile, Option.bind_eq_bind, Option.bind_eq_some_iff] at hstore
      obtain ⟨⟨after, digests, hashed⟩, hblocks, hresult⟩ := hstore
      cases hresult
      obtain ⟨rfl, hsound, hgrown, blocks, hflatten, rfl, hstored⟩ :=
        storeBlocks_spec hhex hinj hpieces hsize h.sound hblocks
      refine ⟨hsound, ?_⟩
      intro m other hmem
      obtain heq | hmem := List.mem_cons.mp hmem
      · cases heq
        exact ⟨blocks, hflatten, rfl, by simp, hstored⟩
      · obtain ⟨blocks, hholds⟩ := h.held m other hmem
        exact ⟨blocks, hholds.grown hgrown⟩
  | storeBytes data =>
    obtain ⟨after, hstore, hsound, hgrown, -⟩ := storeBytes_spec hhex hinj h.sound horderly
    simp only [World.step, hstore, Option.map_some, Option.getD_some]
    refine ⟨hsound, ?_⟩
    intro m contents hmem
    obtain ⟨blocks, hholds⟩ := h.held m contents hmem
    exact ⟨blocks, hholds.grown hgrown⟩
  | garbageCollect activeManifests =>
    have hheld : ∀ m contents, (m, contents) ∈ w.held.filter (·.1 ∈ activeManifests) →
        m ∈ activeManifests ∧ ∃ blocks, Holds w.objects m contents blocks := by
      intro m contents hmem
      rw [List.mem_filter, decide_eq_true_eq] at hmem
      exact ⟨hmem.2, h.held m contents hmem.1⟩
    simp only [World.step, garbageCollect]
    split_ifs
    · exact ⟨h.sound, fun m contents hmem => (hheld m contents hmem).2⟩
    · refine ⟨?_, ?_⟩
      · intro digest content hget
        rw [Option.getD_some, Dict.get?_filter] at hget
        apply h.sound
        exact (Option.filter_eq_some_iff.mp hget).1
      · intro m contents hmem
        obtain ⟨hactive, blocks, hholds⟩ := hheld m contents hmem
        refine ⟨blocks, hholds.flatten, hholds.rootHash, hholds.chunks, ?_⟩
        intro block hblock
        rw [Option.getD_some, Dict.get?_filter, hholds.stored block hblock]
        have hchunk : Json.str (Surroundings.sha256 block) ∈ activeManifests.flatMap (·.chunks) := by
          rw [List.mem_flatMap]
          refine ⟨m, hactive, ?_⟩
          rw [hholds.chunks]
          apply List.mem_map_of_mem hblock
        simp [Option.filter, hchunk]

theorem givesBack_of_reached (hhex : ∀ data, isDigest (Surroundings.sha256 data) = true)
    (hinj : Set.InjOn Surroundings.sha256 pieces) (h : Reached pieces w) :
  GivesBack w
  := by
  have hkept : Kept pieces w := by
    induction h with
    | init =>
      refine ⟨?_, by simp⟩
      intro digest content hget
      cases hget
    | step _ call horderly ih => exact ih.step hhex hinj horderly
  refine ⟨?_, ?_, ?_⟩
  · intro m contents hmem dest
    obtain ⟨blocks, hholds⟩ := hkept.held m contents hmem
    exact hholds.restore hhex dest
  · intro m contents _
    rfl
  · intro objects m fails dest
    unfold restoreFile
    split
    · exact .inl rfl
    · rename_i parts _
      split_ifs with hroot hfails
      · exact .inl rfl
      · exact .inl rfl
      · refine .inr ⟨parts.flatten, rfl, ?_⟩
        simpa using hroot

end Kept

end Runs

/-! ### A file of one byte -/

private def digests (data : Bytes) : Str :=
  if data = [] then text "e3b0c44298fc1c149afbf4c8996fb92427ae41e4649b934ca495991b7852b855"
  else text "4bf5122f344554c53bde2ebb8cd2b7e3d1600ad631c385a5d7cce23c7785459a"

local instance surroundingsOneByte : Surroundings where
  sha256 := digests
  toInt _ := .error .keyError

private theorem isDigest_digests (data : Bytes) :
  isDigest (Surroundings.sha256 data) = true
  := by
  change isDigest (digests data) = true
  unfold digests
  split_ifs
  · decide
  · decide

/-- The store after the file is stored. -/
private def stored (chunkSize : ℤ) : World :=
  World.step {} (.storeFile chunkSize (text "f") [1])

private def manifest (chunkSize : ℤ) (chunks : List Json) (contents : Bytes) : ArtifactManifest :=
  ⟨.str (text "f"), .str (digests contents), contents.length, chunkSize, chunks⟩

theorem givesBack_oneByte :
  GivesBack (stored 65536) ∧ (stored 65536).held = [(manifest 65536 [.str (digests [1])] [1], [1])]
  := by
  have hinj : Set.InjOn digests ({[], [1]} : Set Bytes) := by
    rintro a (rfl | rfl) b (rfl | rfl) heq
    · rfl
    · revert heq
      decide
    · revert heq
      decide
    · rfl
  refine ⟨givesBack_of_reached isDigest_digests hinj ?_, ?_⟩
  · refine .step .init _ ⟨?_, by omega⟩
    intro piece hpiece
    exact List.sublist_singleton.mp hpiece.sublist
  · have hblocks : storeBlocks 65536 ∅ [1] = some ((∅ : Objects).set (digests [1]) [1], [digests [1]], [1]) := by
      rw [storeBlocks]
      have hrest : storeBlocks 65536 ((∅ : Objects).set (digests [1]) [1]) [] =
          some ((∅ : Objects).set (digests [1]) [1], [], []) := by
        rw [storeBlocks]
        rfl
      have hstored : storeBytes ∅ [1] = some (digests [1], (∅ : Objects).set (digests [1]) [1]) := rfl
      simp [read, hstored, hrest]
    simp [stored, World.step, storeFile, hblocks, manifest]
    rfl

theorem givesBack_fails :
  ¬ GivesBack (stored 0)
  := by
  intro h
  have hblocks : storeBlocks 0 ∅ [1] = some (∅, [], []) := by
    rw [storeBlocks]
    simp [read]
  have hheld : (stored 0).held = [(manifest 0 [] [], [1])] := by
    simp [stored, World.step, storeFile, hblocks, manifest]
    rfl
  have hrestored := h.restored (manifest 0 [] []) [1] (by rw [hheld]; simp) none
  have hempty : restoreFile (stored 0).objects (manifest 0 [] []) true false none = (true, some []) := rfl
  cases hempty.symm.trans hrestored

end Courier.ContentDedup
