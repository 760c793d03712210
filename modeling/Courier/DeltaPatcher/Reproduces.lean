import Courier.DeltaPatcher
import Courier.Library.Checks

/-!
# What patches reproduce

A patch is made of copies and insertions that give the target, for every chunk size but zero.  With that
size an empty chunk is found everywhere, and the search goes on only as long as the target agrees with the
start of the base (`reproduces_iff`).
-/

namespace Courier.Delta

open Agree Base64 Except Json Text

/-! ### Slices -/

theorem slice_nat (data : Bytes) (i n : Nat) :
  slice data i (i + n) = (data.drop i).take n
  := by
  have hstart : position data.length i = min i data.length := by
    rw [position, if_neg (by omega), Int.toNat_natCast]
  have hend : position data.length (i + n) = min (i + n) data.length := by
    rw [position, if_neg (by omega)]
    rfl
  rw [slice, hstart, hend, ← List.take_eq_take_min, List.drop_take]
  rcases Nat.le_total i data.length with hle | hle
  · rw [Nat.min_eq_left hle, Nat.add_sub_cancel_left]
  · rw [Nat.min_eq_right hle, List.drop_length, List.drop_eq_nil_of_le hle, List.take_nil, List.take_nil]

section Patches

variable [Platform] [Surroundings]

/-! ### Operations -/

def Emitted (op : Json) : Prop :=
  (∃ offset length, op = copyOp offset length) ∨ ∃ data, op = insertOp data

theorem perform_copyOp (base : Bytes) (offset length : Nat) :
  perform base (copyOp offset length) = .ok ((base.drop offset).take length)
  := by
  rw [← slice_nat]
  rfl

theorem perform_insertOp (base data : Bytes) :
  perform base (insertOp data) = .ok data
  := by
  have hitem : item [(text "type", .str (text "INSERT")), (text "data_b64", .str (b64encode data))]
      (text "data_b64") = .ok (.str (b64encode data)) := rfl
  unfold perform insertOp
  dsimp only
  rw [if_neg (by simp [Json.get]; decide), if_pos (by rfl), hitem]
  dsimp only [bind, Except.bind]
  rw [b64decode_b64encode]
  rfl

def Gives (base : Bytes) (operations : List Json) (data : Bytes) : Prop :=
  ∃ parts, List.Forall₂ (fun op part => perform base op = .ok part) operations parts ∧ parts.flatten = data

theorem Gives.nil (base : Bytes) :
  Gives base [] []
  := ⟨[], .nil, rfl⟩

theorem Gives.concat {base data part : Bytes} {operations : List Json} {op : Json}
    (h : Gives base operations data) (hop : perform base op = .ok part) :
  Gives base (operations ++ [op]) (data ++ part)
  := by
  obtain ⟨parts, hparts, rfl⟩ := h
  exact ⟨parts ++ [part], List.rel_append hparts (.cons hop .nil), by simp⟩

variable {operations : List Json}

theorem writeAll_of_gives {base data : Bytes} (h : Gives base operations data)
    (number : Nat) :
  writeAll (fun _ => false) base number operations = .ok data
  := by
  obtain ⟨parts, hparts, rfl⟩ := h
  induction hparts generalizing number with
  | nil => rfl
  | cons hop _ ih =>
    rw [writeAll, hop, ok_bind, if_neg Bool.false_ne_true, List.flatten_cons]
    change (writeAll (fun _ => false) base (number + 1) _ >>= fun rest => _) = _
    rw [ih, ok_bind]
    rfl

/-! ### Chunks -/

section Search

variable {patcher : DeltaPatcher} {base target : Bytes}

omit [Platform] [Surroundings]

def indexed (patcher : DeltaPatcher) (base : Bytes) (index : Dict Bytes Nat) (starts : List Nat) :
    Dict Bytes Nat :=
  starts.foldl (fun index (i : Nat) =>
    let chunk := slice base i (i + patcher.chunkSize)
    if (index.get? chunk).isNone then index.set chunk i else index) index

variable {chunk : Bytes} {offset : Nat}

theorem get_indexed {starts : List Nat} {index : Dict Bytes Nat}
    (hindex : ∀ chunk offset, index.get? chunk = some offset →
      slice base offset (offset + patcher.chunkSize) = chunk)
    (h : (indexed patcher base index starts).get? chunk = some offset) :
  slice base offset (offset + patcher.chunkSize) = chunk
  := by
  induction starts generalizing index with
  | nil => exact hindex chunk offset h
  | cons i starts ih =>
    rw [indexed, List.foldl_cons] at h
    apply ih _ h
    intro chunk' offset' hget
    dsimp only at hget
    split_ifs at hget with hnew
    · rw [Dict.get?_set] at hget
      split_ifs at hget with heq
      · cases hget
        rw [heq]
      · exact hindex chunk' offset' hget
    · exact hindex chunk' offset' hget

theorem get_indexed_of_get {starts : List Nat} {index : Dict Bytes Nat}
    (h : index.get? chunk = some offset) :
  (indexed patcher base index starts).get? chunk = some offset
  := by
  induction starts generalizing index with
  | nil => exact h
  | cons i starts ih =>
    rw [indexed, List.foldl_cons]
    apply ih
    dsimp only
    split_ifs with hnew
    · rw [Dict.get?_set, if_neg, h]
      rintro rfl
      rw [h] at hnew
      cases hnew
    · exact h

theorem slice_of_chunkIndex
    (h : (patcher.chunkIndex base).get? chunk = some offset) :
  slice base offset (offset + patcher.chunkSize) = chunk
  := by
  rw [DeltaPatcher.chunkIndex] at h
  split_ifs at h
  · rw [Dict.get?_empty] at h
    cases h
  · apply get_indexed _ h
    intro chunk' offset' hget
    rw [Dict.get?_empty] at hget
    cases hget

theorem chunkIndex_of_zero (hzero : patcher.chunkSize = 0) :
  (patcher.chunkIndex base).get? [] = some 0
  := by
  have hstarts : patcher.chunkStarts base = 0 :: (List.range base.length).map (· + 1) := by
    simp [DeltaPatcher.chunkStarts, hzero, List.range_succ_eq_map]
  have hempty : slice base (0 : Nat) ((0 : Nat) + patcher.chunkSize) = [] := by
    have hslice := slice_nat base 0 0
    rw [List.take_zero] at hslice
    rw [hzero]
    exact hslice
  have hfirst : ((∅ : Dict Bytes Nat).set [] 0).get? [] = some 0 := by
    rw [Dict.get?_set, if_pos rfl]
  rw [DeltaPatcher.chunkIndex, if_neg (by omega), hstarts, List.foldl_cons]
  dsimp only
  rw [hempty, Dict.get?_empty, Option.isNone_none, if_pos rfl]
  exact get_indexed_of_get hfirst

theorem findChunk_eq_some {pos : Nat} (h : patcher.findChunk base target pos = some offset) :
  ∃ size : Nat, patcher.chunkSize = size ∧ (base.drop offset).take size = (target.drop pos).take size ∧
    ((target.drop pos).take size).length = size
  := by
  simp only [DeltaPatcher.findChunk] at h
  split_ifs at h with hlength
  obtain ⟨size, hsize⟩ : ∃ size : Nat, patcher.chunkSize = size := ⟨_, hlength.symm⟩
  have hbase := slice_of_chunkIndex h
  rw [hsize, slice_nat] at hbase hlength
  rw [slice_nat] at hbase
  exact ⟨size, hsize, hbase, by exact_mod_cast hlength⟩

theorem findChunk_of_zero (hzero : patcher.chunkSize = 0) (pos : Nat) :
  patcher.findChunk base target pos = some 0
  := by
  have hempty : slice target pos (pos + patcher.chunkSize) = [] := by
    have hslice := slice_nat target pos 0
    rw [List.take_zero] at hslice
    rw [hzero]
    exact hslice
  simp only [DeltaPatcher.findChunk, hempty]
  rw [if_pos (by simp [hzero]), chunkIndex_of_zero hzero]

theorem take_matchLength {pos : Nat} (h : patcher.findChunk base target pos = some offset) :
  (base.drop offset).take (patcher.matchLength base target pos offset) =
      (target.drop pos).take (patcher.matchLength base target pos offset) ∧
    patcher.matchLength base target pos offset ≤ (target.drop pos).length ∧
    0 ≤ patcher.chunkSize ∧ patcher.chunkSize ≤ patcher.matchLength base target pos offset
  := by
  obtain ⟨size, hsize, htake, hlength⟩ := findChunk_eq_some h
  have hmatch : patcher.matchLength base target pos offset =
      size + agree (target.drop (pos + size)) (base.drop (offset + size)) := by
    simp only [DeltaPatcher.matchLength, hsize, Int.toNat_natCast]
  have hagree := agree_le_left (target.drop (pos + size)) (base.drop (offset + size))
  rw [List.length_take] at hlength
  rw [List.length_drop] at hagree hlength
  rw [hmatch, List.take_add, List.take_add, htake, List.drop_drop, List.drop_drop, List.length_drop, hsize]
  refine ⟨?_, by omega, by omega, by omega⟩
  rw [take_agree]

variable (patcher base) in
theorem advance_cases {s : Progress} (h : DeltaPatcher.atEnd target s = false) :
  (∃ offset length, patcher.findChunk base target s.pos = some offset ∧
      length = patcher.matchLength base target s.pos offset ∧
      patcher.advance base target s = ⟨s.pos + length, [], s.flushInsert.operations ++ [copyOp offset length]⟩) ∨
    ∃ b, patcher.findChunk base target s.pos = none ∧ target[s.pos]? = some b ∧
      patcher.advance base target s = ⟨s.pos + 1, s.pendingInsert ++ [b], s.operations⟩
  := by
  cases hfind : patcher.findChunk base target s.pos with
  | some offset =>
    left
    refine ⟨offset, _, rfl, rfl, ?_⟩
    rw [DeltaPatcher.advance, hfind]
  | none =>
    right
    have hpos : s.pos < target.length := by simpa [DeltaPatcher.atEnd] using h
    refine ⟨target[s.pos], rfl, List.getElem?_eq_getElem hpos, ?_⟩
    rw [DeltaPatcher.advance, hfind, List.getElem?_eq_getElem hpos]
    rfl

variable (patcher base) in
theorem lt_pos_advance (hsize : patcher.chunkSize ≠ 0) {s : Progress} (h : DeltaPatcher.atEnd target s = false) :
  s.pos < (patcher.advance base target s).pos
  := by
  rcases advance_cases patcher base h with ⟨offset, length, hfind, rfl, heq⟩ | ⟨b, -, -, heq⟩
  · obtain ⟨-, -, hpositive, hle⟩ := take_matchLength hfind
    rw [heq]
    dsimp only
    omega
  · rw [heq]
    exact Nat.lt_succ_self _

end Search

/-! ### The loop over the target -/

section Covering

variable {patcher : DeltaPatcher} {base target : Bytes}

structure Covers (base target : Bytes) (s : Progress) : Prop where
  within : s.pos ≤ target.length
  emitted : ∀ op ∈ s.operations, Emitted op
  data : ∃ data, Gives base s.operations data ∧ data ++ s.pendingInsert = target.take s.pos

theorem Covers.flushInsert {s : Progress} (h : Covers base target s) :
  (∀ op ∈ s.flushInsert.operations, Emitted op) ∧ Gives base s.flushInsert.operations (target.take s.pos)
  := by
  obtain ⟨data, hgives, hdata⟩ := h.data
  rw [Progress.flushInsert]
  split_ifs with hpending
  · rw [hpending, List.append_nil] at hdata
    exact ⟨h.emitted, hdata ▸ hgives⟩
  · refine ⟨?_, hdata ▸ hgives.concat (perform_insertOp base s.pendingInsert)⟩
    intro op hop
    rcases List.mem_append.mp hop with hop | hop
    · exact h.emitted op hop
    · exact .inr ⟨_, List.mem_singleton.mp hop⟩

theorem covers_advance (s : Progress) (h : Covers base target s) (hend : DeltaPatcher.atEnd target s = false) :
  Covers base target (patcher.advance base target s)
  := by
  rcases advance_cases patcher base hend with ⟨offset, length, hfind, rfl, heq⟩ | ⟨b, -, hb, heq⟩
  · obtain ⟨htake, hlength, -, -⟩ := take_matchLength hfind
    obtain ⟨hemitted, hgives⟩ := h.flushInsert
    rw [heq]
    constructor
    · rw [List.length_drop] at hlength
      have hwithin := h.within
      dsimp only
      omega
    · intro op hop
      rcases List.mem_append.mp hop with hop | hop
      · exact hemitted op hop
      · exact .inl ⟨_, _, List.mem_singleton.mp hop⟩
    · refine ⟨_, hgives.concat (perform_copyOp base _ _), ?_⟩
      rw [List.append_nil, htake, ← List.take_add]
  · obtain ⟨hpos, hvalue⟩ := List.getElem?_eq_some_iff.mp hb
    obtain ⟨data, hgives, hdata⟩ := h.data
    rw [heq]
    refine ⟨hpos, h.emitted, data, hgives, ?_⟩
    rw [← List.append_assoc, hdata, ← hvalue, List.take_append_getElem hpos]

theorem gives_of_operations {fuel : Nat}
    (h : patcher.operations base target fuel = some operations) :
  (∀ op ∈ operations, Emitted op) ∧ Gives base operations target
  := by
  rw [DeltaPatcher.operations] at h
  split_ifs at h with hsame hempty
  · cases h
    subst hsame
    refine ⟨fun op hop => .inl ⟨_, _, List.mem_singleton.mp hop⟩, ?_⟩
    have hcopy := (Gives.nil base).concat (perform_copyOp base 0 base.length)
    rwa [List.drop_zero, List.take_length, List.nil_append] at hcopy
  · cases h
    subst hsame
    have hnil : base = [] := List.length_eq_zero_iff.mp (by omega)
    rw [hnil]
    exact ⟨by simp, Gives.nil []⟩
  · obtain ⟨s, hrun, rfl⟩ := Option.map_eq_some_iff.mp h
    have hstart : Covers base target {} := ⟨Nat.zero_le _, by simp, [], Gives.nil base, rfl⟩
    obtain ⟨hcovers, hend⟩ := Loop.run_invariant covers_advance hstart hrun
    have hall : target.take s.pos = target := List.take_of_length_le (by simpa [DeltaPatcher.atEnd] using hend)
    obtain ⟨hemitted, hgives⟩ := hcovers.flushInsert
    rw [hall] at hgives
    exact ⟨hemitted, hgives⟩

omit [Platform] [Surroundings]

theorem exists_run_iff (hzero : patcher.chunkSize = 0) {s : Progress} :
  (∃ fuel t, Loop.run (DeltaPatcher.atEnd target) (patcher.advance base target) fuel s = some t) ↔
    Tiled base (target.drop s.pos)
  := by
  have hstep : ∀ s, patcher.advance base target s =
      ⟨s.pos + agree (target.drop s.pos) base, [], s.flushInsert.operations ++
        [copyOp 0 (agree (target.drop s.pos) base)]⟩ := by
    intro s
    have hmatch : patcher.matchLength base target s.pos 0 = agree (target.drop s.pos) base := by
      simp [DeltaPatcher.matchLength, hzero]
    simp only [DeltaPatcher.advance, findChunk_of_zero hzero, hmatch]
  constructor
  · rintro ⟨fuel, t, hrun⟩
    induction fuel generalizing s with
    | zero =>
      rw [Loop.run] at hrun
      split_ifs at hrun with hend
      rw [List.drop_eq_nil_of_le (by simpa [DeltaPatcher.atEnd] using hend)]
      exact .nil
    | succ fuel ih =>
      cases hend : DeltaPatcher.atEnd target s with
      | true =>
        rw [List.drop_eq_nil_of_le (by simpa [DeltaPatcher.atEnd] using hend)]
        exact .nil
      | false =>
        rw [Loop.run_succ hend] at hrun
        have hrest := ih hrun
        rw [hstep, ← List.drop_drop] at hrest
        by_cases hnone : agree (target.drop s.pos) base = 0
        · rwa [hnone, List.drop_zero] at hrest
        · exact tiled_of_drop hnone hrest
  · intro htiled
    have hdrop : ∀ s, Tiled base (target.drop s.pos) → DeltaPatcher.atEnd target s = false →
        agree (target.drop s.pos) base ≠ 0 ∧
          Tiled base ((target.drop s.pos).drop (agree (target.drop s.pos) base)) := by
      intro s h hend
      apply h.drop
      intro hnil
      have hlength := List.drop_eq_nil_iff.mp hnil
      simp [DeltaPatcher.atEnd] at hend
      omega
    refine ⟨_, Loop.run_of_measure (I := fun s => Tiled base (target.drop s.pos)) ?_
      (fun s => target.length - s.pos) ?_ htiled le_rfl⟩
    · intro s h hend
      rw [hstep, ← List.drop_drop]
      exact (hdrop s h hend).2
    · intro s h hend
      have hpositive := (hdrop s h hend).1
      have hpos : s.pos < target.length := by simpa [DeltaPatcher.atEnd] using hend
      rw [hstep]
      dsimp only
      omega

theorem exists_operations_iff :
  (∃ fuel operations, patcher.operations base target fuel = some operations) ↔
    patcher.chunkSize ≠ 0 ∨ base = target ∨ Tiled base target
  := by
  by_cases hsame : base = target
  · exact iff_of_true ⟨0, _, if_pos hsame⟩ (.inr (.inl hsame))
  · have hrun : (∃ fuel operations, patcher.operations base target fuel = some operations) ↔
        ∃ fuel t, Loop.run (DeltaPatcher.atEnd target) (patcher.advance base target) fuel {} = some t := by
      simp only [DeltaPatcher.operations, if_neg hsame, Option.map_eq_some_iff]
      constructor
      · rintro ⟨fuel, -, t, ht, -⟩
        exact ⟨fuel, t, ht⟩
      · rintro ⟨fuel, t, ht⟩
        exact ⟨fuel, _, t, ht, rfl⟩
    rw [hrun]
    by_cases hzero : patcher.chunkSize = 0
    · rw [exists_run_iff hzero]
      simp [hzero, hsame]
    · refine iff_of_true ⟨target.length, ?_⟩ (.inl hzero)
      apply Loop.run_of_measure (I := fun _ => True) (fun _ _ _ => trivial) (fun s => target.length - s.pos)
      · intro s _ hend
        have hless := lt_pos_advance patcher base hzero hend
        have hpos : s.pos < target.length := by simpa [DeltaPatcher.atEnd] using hend
        omega
      · trivial
      · simp

end Covering

/-! ### Patches as JSON -/

section Records

omit [Platform] [Surroundings]

theorem item_members {d : Members} (h : (d.map Prod.fst).Nodup) (k : Str) :
  item (members d) k = item d k
  := by
  rw [item, item, hasKey, hasKey, lookup_members h, get_members h]

theorem plainText_b64encode (data : Bytes) :
  PlainText (b64encode data)
  := plainText_of_ascii (lt_of_mem_b64encode data)

theorem fit_of_emitted {op : Json} (h : Emitted op) :
  op.Fit
  := by
  rcases h with ⟨offset, length, rfl⟩ | ⟨data, rfl⟩
  · exact ⟨by decide, show IsText (text "COPY") by decide, by decide, trivial, by decide, trivial, trivial⟩
  · exact ⟨by decide, show IsText (text "INSERT") by decide, by decide, (plainText_b64encode data).1, trivial⟩

end Records

theorem perform_reread (base : Bytes) {op : Json} (h : Emitted op) :
  perform base op.reread = perform base op
  := by
  have hmembers : ∀ d : Members, (d.map Prod.fst).Nodup →
      perform base (.obj (members d)) = perform base (.obj d) := by
    intro d hd
    simp only [perform, item_members hd, get_members hd]
  rcases h with ⟨offset, length, rfl⟩ | ⟨data, rfl⟩
  · exact hmembers _ (show [text "type", text "offset", text "length"].Nodup by decide)
  · have hplain : fuse (b64encode data) = b64encode data := fuse_eq_self (plainText_b64encode data).2
    have hreread : (insertOp data).reread = .obj (members [(text "type", .str (text "INSERT")),
        (text "data_b64", .str (fuse (b64encode data)))]) := rfl
    rw [hreread, hplain]
    exact hmembers _ (show [text "type", text "data_b64"].Nodup by decide)

theorem Gives.reread {base data : Bytes} (h : Gives base operations data)
    (hemitted : ∀ op ∈ operations, Emitted op) :
  Gives base (operations.map Json.reread) data
  := by
  obtain ⟨parts, hparts, rfl⟩ := h
  refine ⟨parts, ?_, rfl⟩
  rw [List.forall₂_map_left_iff]
  induction hparts with
  | nil => exact .nil
  | cons hop _ ih =>
    refine .cons ?_ (ih fun op hmem => hemitted op (List.mem_cons_of_mem _ hmem))
    rw [perform_reread base (hemitted _ (List.mem_cons_self ..)), hop]

theorem fromJson_toJson {patch : DeltaPatch} (hbase : PlainText patch.baseSha256)
    (htarget : PlainText patch.targetSha256) (hemitted : ∀ op ∈ patch.operations, Emitted op) :
  DeltaPatch.fromJson patch.toJson = .ok { patch with operations := patch.operations.map Json.reread }
  := by
  have hoperations : (Json.arr patch.operations).Fit :=
    fitItems_iff.mpr fun op hop => fit_of_emitted (hemitted op hop)
  have hfit : (Json.obj patch.toDict).Fit :=
    ⟨by decide, hbase.1, by decide, trivial, by decide, htarget.1, by decide, trivial, by decide, trivial,
      by decide, hoperations, trivial⟩
  have hreread : (Json.obj patch.toDict).reread =
      .obj (members { patch with operations := patch.operations.map Json.reread }.toDict) := by
    rw [Json.reread]
    congr 2
    simp only [DeltaPatch.toDict, reread.rereadMembers, Json.reread, fuse_eq_self hbase.2,
      fuse_eq_self htarget.2, rereadItems_eq_map]
    rfl
  rw [DeltaPatch.fromJson, DeltaPatch.toJson, loads_dumpsIndented_reread hfit, hreread]
  have hkeys : ({ patch with operations := patch.operations.map Json.reread }.toDict.map Prod.fst).Nodup := by
    have hall : [text "base_sha256", text "base_size", text "target_sha256", text "target_size",
      text "chunk_size", text "operations"].Nodup := by decide
    exact hall
  simp only [DeltaPatch.fromDict, item_members hkeys, get_members hkeys, hasKey, lookup_members hkeys]
  rfl

/-! ### Applying patches -/

/-- Applied to the base, the patch writes the target, if the system does not fail. -/
def Yields (patch : DeltaPatch) (base target : Bytes) : Prop :=
  ∀ temp files baseFile targetFile, files baseFile = some base →
    (applyPatch (fun _ => false) temp files baseFile patch targetFile).1 = .ok targetFile ∧
      (applyPatch (fun _ => false) temp files baseFile patch targetFile).2 targetFile = some target

/-- A file with the digest of the patch is written, or the patch is refused and the destination left as it was. -/
def Sound (patch : DeltaPatch) : Prop :=
  ∀ fails temp files baseFile targetFile, files temp = none →
    let result := applyPatch fails temp files baseFile patch targetFile
    (result.1 = .ok targetFile ∧
        ∃ data, result.2 targetFile = some data ∧ Surroundings.sha256 data = patch.targetSha256) ∨
      ((∃ why, result.1 = .error why) ∧ result.2 targetFile = files targetFile)

theorem yields_of_gives {patch : DeltaPatch} {base target : Bytes} (h : Gives base patch.operations target)
    (hbase : Surroundings.sha256 base = patch.baseSha256)
    (htarget : Surroundings.sha256 target = patch.targetSha256) :
  Yields patch base target
  := by
  intro temp files baseFile targetFile hfile
  have happly : applyPatch (fun _ => false) temp files baseFile patch targetFile =
      (.ok targetFile, Function.update (Function.update files temp none) targetFile (some target)) := by
    simp [applyPatch, hfile, hbase, htarget, writeAll_of_gives h 0]
  rw [happly]
  exact ⟨rfl, Function.update_self ..⟩

omit [Platform] [Surroundings] in
theorem update_temp {files : Files} {temp : Str} (h : files temp = none) (path : Str) :
  Function.update files temp none path = files path
  := by
  by_cases hpath : path = temp
  · rw [hpath, Function.update_self, h]
  · rw [Function.update_of_ne hpath]

theorem sound (patch : DeltaPatch) :
  Sound patch
  := by
  intro fails temp files baseFile targetFile htemp
  have hremoved := update_temp htemp targetFile
  simp only [applyPatch]
  cases files baseFile with
  | none => exact .inr ⟨⟨_, rfl⟩, rfl⟩
  | some base =>
    cases hwrite : writeAll fails base 0 patch.operations with
    | error e =>
      simp only [hwrite]
      split_ifs
      · exact .inr ⟨⟨_, rfl⟩, rfl⟩
      · exact .inr ⟨⟨_, rfl⟩, rfl⟩
      · exact .inr ⟨⟨_, rfl⟩, rfl⟩
      · exact .inr ⟨⟨e, rfl⟩, hremoved⟩
    | ok data =>
      simp only [hwrite]
      split_ifs with hread hbase hprepare htarget
      · exact .inr ⟨⟨_, rfl⟩, rfl⟩
      · exact .inr ⟨⟨_, rfl⟩, rfl⟩
      · exact .inr ⟨⟨_, rfl⟩, rfl⟩
      · exact .inr ⟨⟨_, rfl⟩, hremoved⟩
      · exact .inr ⟨⟨_, rfl⟩, hremoved⟩
      · exact .inl ⟨rfl, data, Function.update_self .., not_not.mp htarget⟩

/-! ### What is reproduced -/

/-- A patch is made in any number of further rounds, gives the target, also after it was written and read, and is sound.
-/
structure Reproduces (patcher : DeltaPatcher) (base target : Bytes) : Prop where
  created : ∃ patch fuel, (∀ more, fuel ≤ more → patcher.createPatch base target more = some patch) ∧
    Yields patch base target ∧
    ∃ patch', DeltaPatch.fromJson patch.toJson = .ok patch' ∧ Yields patch' base target
  applied : ∀ patch : DeltaPatch, Sound patch

omit [Platform] [Surroundings] in
theorem operations_of_le {patcher : DeltaPatcher} {base target : Bytes} {fuel more : Nat}
    (hle : fuel ≤ more) (h : patcher.operations base target fuel = some operations) :
  patcher.operations base target more = some operations
  := by
  rw [DeltaPatcher.operations] at h ⊢
  split_ifs at h ⊢ with hsame hempty
  · exact h
  · exact h
  · obtain ⟨s, hrun, rfl⟩ := Option.map_eq_some_iff.mp h
    rw [Loop.run_of_le hle hrun, Option.map_some]

variable (hdigest : ∀ data, PlainText (Surroundings.sha256 data))

include hdigest

theorem reproduces_of_operations {patcher : DeltaPatcher} {base target : Bytes} {fuel : Nat}
    (h : patcher.operations base target fuel = some operations) :
  Reproduces patcher base target
  := by
  obtain ⟨hemitted, hgives⟩ := gives_of_operations h
  let patch : DeltaPatch := ⟨Surroundings.sha256 base, base.length, Surroundings.sha256 target, target.length,
    patcher.chunkSize, operations⟩
  have hjson : DeltaPatch.fromJson patch.toJson = .ok { patch with operations := operations.map Json.reread } :=
    fromJson_toJson (hdigest _) (hdigest _) hemitted
  refine ⟨⟨patch, fuel, ?_, yields_of_gives hgives rfl rfl, _, hjson,
    yields_of_gives (hgives.reread hemitted) rfl rfl⟩, sound⟩
  intro more hle
  rw [DeltaPatcher.createPatch, operations_of_le hle h, Option.map_some]

/-- The target is reproduced exactly if the chunk size is not zero, or it is the base, or is cut into longest starts of
the base. -/
theorem reproduces_iff (patcher : DeltaPatcher) (base target : Bytes) :
  Reproduces patcher base target ↔ patcher.chunkSize ≠ 0 ∨ base = target ∨ Tiled base target
  := by
  rw [← exists_operations_iff]
  constructor
  · rintro ⟨⟨patch, fuel, hcreate, -⟩, -⟩
    obtain ⟨operations, hoperations, -⟩ := Option.map_eq_some_iff.mp (hcreate fuel le_rfl)
    exact ⟨fuel, operations, hoperations⟩
  · rintro ⟨fuel, operations, hoperations⟩
    exact reproduces_of_operations hdigest hoperations

end Patches

/-! ### Chunks of eight bytes, and empty ones -/

section Example

local instance platformPlain : Platform := Platform.plain

@[reducible]
def digestsOf (digests : List (Bytes × Str)) : Surroundings where
  sha256 data := (digests.lookup data).getD (35 :: b64encode data)
  toInt _ := .error (.other .valueError)

theorem plainText_digestsOf {digests : List (Bytes × Str)} (h : ∀ p ∈ digests, PlainText p.2) (data : Bytes) :
  PlainText ((digestsOf digests).sha256 data)
  := by
  change PlainText ((digests.lookup data).getD (35 :: b64encode data))
  cases hlookup : digests.lookup data with
  | none =>
    apply plainText_of_ascii
    intro c hc
    rcases List.mem_cons.mp hc with rfl | hc
    · decide
    · exact lt_of_mem_b64encode data c hc
  | some digest =>
    obtain ⟨before, rest, rfl, -⟩ := List.lookup_eq_some_iff.mp hlookup
    exact h (data, digest) (by simp)

section Patched

def formerFile : Bytes := Bytes.ofAscii (text "HEAD MID TAIL OF THE FILE")

def latterFile : Bytes := Bytes.ofAscii (text "HEAD NEW MID TAIL OF THE FILE")

local instance surroundingsPatched : Surroundings :=
  digestsOf [(formerFile, text "e92099f41e6c7bb4804e0874598d649b88685240839cc9c217d6d2d91129a96b"),
    (latterFile, text "5fa8a6d5689b20043efbf0d0d915d62115e573645219f1771c239465e8ca916c")]

/-- The new words are inserted, and the rest is copied. -/
theorem reproduces_latter :
  (DeltaPatcher.ofCommandLine 8).operations formerFile latterFile 40 =
      some [insertOp (Bytes.ofAscii (text "HEAD NEW")), copyOp 4 21] ∧
    Reproduces (.ofCommandLine 8) formerFile latterFile
  := ⟨by decide +kernel, (reproduces_iff (plainText_digestsOf (by decide)) _ _ _).mpr (.inl (by decide))⟩

end Patched

section Empty

local instance surroundingsEmpty : Surroundings :=
  digestsOf [([97], text "ca978112ca1bbdcafac231b39a23dc4da786eff8147c4e72b9807785afee48bb"),
    ([98], text "3e23e8160039594a33894f6564e1b1348bbd7a0088d42c4acb73eeaed59c009d")]

/-- With empty chunks no patch is ever made of `a` to `b`. -/
theorem not_reproduces_b :
  (∀ fuel, (DeltaPatcher.ofCommandLine 0).createPatch [97] [98] fuel = none) ∧
    ¬Reproduces (.ofCommandLine 0) [97] [98]
  := by
  have hnone : ¬∃ fuel operations, (DeltaPatcher.ofCommandLine 0).operations [97] [98] fuel = some operations := by
    rw [exists_operations_iff]
    rintro (hsize | hsame | htiled)
    · exact hsize rfl
    · cases hsame
    · exact (htiled.drop (by simp)).1 rfl
  have hcreate : ∀ fuel, (DeltaPatcher.ofCommandLine 0).createPatch [97] [98] fuel = none := by
    intro fuel
    rw [DeltaPatcher.createPatch, Option.map_eq_none_iff, Option.eq_none_iff_forall_ne_some]
    intro operations hoperations
    exact hnone ⟨fuel, operations, hoperations⟩
  refine ⟨hcreate, ?_⟩
  rintro ⟨⟨patch, fuel, hpatch, -⟩, -⟩
  have hsome := hpatch fuel le_rfl
  rw [hcreate] at hsome
  cases hsome

end Empty

end Example

end Courier.Delta
