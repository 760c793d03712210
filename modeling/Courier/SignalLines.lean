import Courier.Library.Lines
import Courier.Library.TextLines

/-!
# Signal lines

Providers append lines to a signal file (`emitSignal`), and the host loop reads what was added since it last read
(`readNewLines`) and hands the lines over (`runOnce`).  A run whose reads all see the file at the end of a line, without
a carriage return, hands over the lines that are written, every one once (`handed_of_whole`).
-/

namespace Courier.SignalLines

open Text

/-! ### The file -/

/-- `emit_signal`, on the bytes of the file.  `none` when the line has no UTF-8 encoding. -/
def emitSignal (file : Bytes) (line : Str) : Option Bytes :=
  (Bytes.encode (line ++ [10])).map (file ++ ·)

/-- The lines of a file that is opened as text, without the newlines at their ends. -/
def linesFrom (current : Str) : Str → List Str
  | [] => if current = [] then [] else [current]
  | c :: rest => if c = 10 then current :: linesFrom [] rest else linesFrom (current ++ [c]) rest

/-- `read_new_lines`: the lines after the offset, and the offset of the end.  `none` when the bytes are not UTF-8. -/
def readNewLines (file : Bytes) (offset : Nat) : Option (List Str × Nat) :=
  (Bytes.decode (file.drop offset)).map fun read => (linesFrom [] (newlines read), file.length)

/-- What `run_once` does with the signal file: it reads the new lines, which it hands over, and keeps the offset. -/
def runOnce (offset : Nat) : Option Bytes → Option (List Str × Nat)
  | none => some ([], offset)
  | some file => readNewLines file (if file.length < offset then 0 else offset)

/-- The lines that some calls hand over, each of which sees the file as it is at that time, and the offset after them. -/
def handed (offset : Nat) : List (Option Bytes) → Option (List Str × Nat)
  | [] => some ([], offset)
  | file :: files => do
      let (lines, offset) ← runOnce offset file
      let (more, offset) ← handed offset files
      return (lines ++ more, offset)

/-! ### Written lines -/

def written (lines : List Str) : Bytes :=
  lines.flatMap fun line => line.flatMap Bytes.encodePoint ++ [10]

/-- A line that can be written: it has no newline, and it has a UTF-8 encoding. -/
def Writable (line : Str) : Prop :=
  ∀ c ∈ line, c ≠ 10 ∧ c < 0x110000 ∧ isSurrogate c = false

/-- A file that is seen between two writes has no part of a line and no carriage return. -/
def Whole (file : Bytes) : Prop :=
  (file = [] ∨ file.getLast? = some 10) ∧ 13 ∉ file

def seenLines (lines : List Str) (file : Bytes) : List Str :=
  lines.take (file.count 10)

theorem emitSignal_written {lines : List Str} {line : Str} (h : Writable line) :
  emitSignal (written lines) line = some (written (lines ++ [line]))
  := by
  have hencodable : Text.Encodable (line ++ [10]) := by
    rw [Text.Encodable, List.any_append, List.any_eq_false.mpr fun c hc => by simp [(h c hc).2.2]]
    rfl
  rw [emitSignal, Bytes.encode, if_pos hencodable]
  simp [written, Bytes.encodePoint]

/-! ### What was encoded is decoded -/

theorem toNat_ofNat {n : Nat} (h : n < 256) :
  (UInt8.ofNat n).toNat = n
  := by
  simp only [UInt8.toNat_ofNat']
  omega

theorem decode_encodePoint {c : Nat} (hlt : c < 0x110000) (hsurrogate : isSurrogate c = false) (rest : Bytes) :
  Bytes.decode (Bytes.encodePoint c ++ rest) = (Bytes.decode rest).map (c :: ·)
  := by
  have hplain : ¬(0xD800 ≤ c ∧ c ≤ 0xDFFF) := by simpa [isSurrogate] using hsurrogate
  have hnat : ∀ n < 256, (UInt8.ofNat n).toNat = n := fun n hn => toNat_ofNat hn
  have hcons : ∀ {d : Nat}, d = c → (Bytes.decode rest).map (d :: ·) = (Bytes.decode rest).map (c :: ·) := by
    rintro d rfl
    rfl
  unfold Bytes.encodePoint
  split_ifs with hone htwo hthree
  · have ha := hnat c (by omega)
    rw [List.singleton_append, Bytes.decode.eq_def]
    dsimp only
    rw [if_pos, ha]
    rw [UInt8.lt_iff_toNat_lt, ha]
    exact hone
  · have ha := hnat (0xC0 + c / 0x40) (by omega)
    have hb := hnat (0x80 + c % 0x40) (by omega)
    rw [List.cons_append, List.singleton_append, Bytes.decode.eq_def]
    dsimp only
    simp only [Bytes.continues, UInt8.lt_iff_toNat_lt, UInt8.le_iff_toNat_le, ha, hb, Bool.and_eq_true,
      decide_eq_true_eq, UInt8.reduceToNat]
    rw [if_neg (by omega), if_pos (by omega)]
    exact hcons (by omega)
  · have ha := hnat (0xE0 + c / 0x1000) (by omega)
    have hb := hnat (0x80 + c / 0x40 % 0x40) (by omega)
    have hc := hnat (0x80 + c % 0x40) (by omega)
    rw [List.cons_append, List.cons_append, List.singleton_append, Bytes.decode.eq_def]
    dsimp only
    simp only [Bytes.continues, UInt8.lt_iff_toNat_lt, UInt8.le_iff_toNat_le, ← UInt8.toNat_inj, ha, hb, hc,
      Bool.and_eq_true, decide_eq_true_eq, UInt8.reduceToNat]
    rw [if_neg (by omega), if_neg (by omega), if_pos (by omega)]
    exact hcons (by omega)
  · have ha := hnat (0xF0 + c / 0x40000) (by omega)
    have hb := hnat (0x80 + c / 0x1000 % 0x40) (by omega)
    have hc := hnat (0x80 + c / 0x40 % 0x40) (by omega)
    have hd := hnat (0x80 + c % 0x40) (by omega)
    rw [List.cons_append, List.cons_append, List.cons_append, List.singleton_append, Bytes.decode.eq_def]
    dsimp only
    simp only [Bytes.continues, UInt8.lt_iff_toNat_lt, UInt8.le_iff_toNat_le, ← UInt8.toNat_inj, ha, hb, hc, hd,
      Bool.and_eq_true, decide_eq_true_eq, UInt8.reduceToNat]
    rw [if_neg (by omega), if_neg (by omega), if_neg (by omega), if_pos (by omega)]
    exact hcons (by omega)

theorem decode_encoded {s : Str} (h : ∀ c ∈ s, c < 0x110000 ∧ isSurrogate c = false) :
  Bytes.decode (s.flatMap Bytes.encodePoint) = some s
  := by
  induction s with
  | nil => rfl
  | cons c s ih =>
    obtain ⟨hlt, hsurrogate⟩ := h c List.mem_cons_self
    rw [List.flatMap_cons, decode_encodePoint hlt hsurrogate, ih fun d hd => h d (List.mem_cons_of_mem _ hd)]
    rfl

theorem newline_notMem {line : Str} (h : Writable line) :
  10 ∉ line.flatMap Bytes.encodePoint
  := by
  intro hmem
  obtain ⟨c, hc, hbyte⟩ := List.mem_flatMap.mp hmem
  obtain ⟨hnewline, hlt, -⟩ := h c hc
  have hother : ∀ n < 256, n ≠ 10 → (10 : UInt8) ≠ UInt8.ofNat n := by
    intro n hn hne heq
    have hnat := congrArg UInt8.toNat heq
    rw [toNat_ofNat hn] at hnat
    exact hne hnat.symm
  unfold Bytes.encodePoint at hbyte
  split_ifs at hbyte <;> simp only [List.mem_cons, List.not_mem_nil, or_false] at hbyte
  · exact hother c (by omega) hnewline hbyte
  · obtain hbyte | hbyte := hbyte
    · exact hother _ (by omega) (by omega) hbyte
    · exact hother _ (by omega) (by omega) hbyte
  · obtain hbyte | hbyte | hbyte := hbyte
    · exact hother _ (by omega) (by omega) hbyte
    · exact hother _ (by omega) (by omega) hbyte
    · exact hother _ (by omega) (by omega) hbyte
  · obtain hbyte | hbyte | hbyte | hbyte := hbyte
    · exact hother _ (by omega) (by omega) hbyte
    · exact hother _ (by omega) (by omega) hbyte
    · exact hother _ (by omega) (by omega) hbyte
    · exact hother _ (by omega) (by omega) hbyte

/-! ### What is read -/

section Read

variable {lines : List Str} {j k : Nat}

theorem linesFrom_line {line : Str} (h : Writable line) (current rest : Str) :
  linesFrom current (line ++ 10 :: rest) = (current ++ line) :: linesFrom [] rest
  := by
  induction line generalizing current with
  | nil => simp [linesFrom]
  | cons c line ih =>
    have hc : c ≠ 10 := (h c List.mem_cons_self).1
    rw [List.cons_append, linesFrom, if_neg hc, ih fun d hd => h d (List.mem_cons_of_mem _ hd)]
    simp

theorem linesFrom_lines (h : ∀ line ∈ lines, Writable line) :
  linesFrom [] (lines.flatMap (· ++ [10])) = lines
  := by
  induction lines with
  | nil => rfl
  | cons line lines ih =>
    rw [List.flatMap_cons, List.append_assoc, List.singleton_append, linesFrom_line (h line List.mem_cons_self),
      List.nil_append, ih fun other hother => h other (List.mem_cons_of_mem _ hother)]

theorem written_eq (lines : List Str) :
  written lines = (lines.flatMap (· ++ [10])).flatMap Bytes.encodePoint
  := by
  rw [written, List.flatMap_assoc]
  simp [Bytes.encodePoint]

theorem count_written (h : ∀ line ∈ lines, Writable line) :
  (written lines).count 10 = lines.length
  := by
  induction lines with
  | nil => rfl
  | cons line lines ih =>
    have hline : (line.flatMap Bytes.encodePoint).count 10 = 0 :=
      List.count_eq_zero.mpr (newline_notMem (h line List.mem_cons_self))
    have hrest := ih fun other hother => h other (List.mem_cons_of_mem _ hother)
    rw [written] at hrest ⊢
    rw [List.flatMap_cons, List.count_append, List.count_append, hline, hrest, List.length_cons]
    simp [Nat.add_comm]

theorem eq_written {file : Bytes} (h : ∀ line ∈ lines, Writable line) (hseen : file <+: written lines)
    (hends : file = [] ∨ file.getLast? = some 10) :
  ∃ k ≤ lines.length, file = written (lines.take k)
  := by
  induction lines generalizing file with
  | nil => exact ⟨0, le_refl _, List.prefix_nil.mp hseen⟩
  | cons line lines ih =>
    obtain rfl | hlast := hends
    · exact ⟨0, Nat.zero_le _, rfl⟩
    have hwritten : written (line :: lines) = line.flatMap Bytes.encodePoint ++ [10] ++ written lines := rfl
    rw [hwritten] at hseen
    obtain ⟨k, hk, hfile⟩ : ∃ k ≤ lines.length,
        file = line.flatMap Bytes.encodePoint ++ [10] ++ written (lines.take k) := by
      obtain hpart | hmore := List.prefix_or_prefix_of_prefix hseen (List.prefix_append _ _)
      · obtain rfl | hinside := List.prefix_concat_iff.mp hpart
        · exact ⟨0, Nat.zero_le _, by simp [written]⟩
        · have hmem : 10 ∈ file := List.mem_of_getLast? hlast
          exact absurd (hinside.subset hmem) (newline_notMem (h line List.mem_cons_self))
      · obtain ⟨more, rfl⟩ := hmore
        rw [List.prefix_append_right_inj] at hseen
        have hends : more = [] ∨ more.getLast? = some 10 := by
          by_cases hnil : more = []
          · exact .inl hnil
          · rw [List.getLast?_append_of_ne_nil _ hnil] at hlast
            exact .inr hlast
        obtain ⟨k, hk, rfl⟩ := ih (fun other hother => h other (List.mem_cons_of_mem _ hother)) hseen hends
        exact ⟨k, hk, rfl⟩
    exact ⟨k + 1, Nat.succ_le_succ hk, hfile⟩

theorem readNewLines_written (h : ∀ line ∈ lines, Writable line) (hjk : j ≤ k)
    (hreturn : 13 ∉ written (lines.take k)) :
  readNewLines (written (lines.take k)) (written (lines.take j)).length =
    some ((lines.take k).drop j, (written (lines.take k)).length)
  := by
  have hnew : ∀ line ∈ (lines.take k).drop j, Writable line := fun line hline =>
    h line (List.mem_of_mem_take (List.mem_of_mem_drop hline))
  have hsplit : written (lines.take k) = written (lines.take j) ++ written ((lines.take k).drop j) := by
    have htake : (lines.take k).take j = lines.take j := by rw [List.take_take, Nat.min_eq_left hjk]
    rw [← htake, written, written, written, ← List.flatMap_append, List.take_append_drop]
  have hplain : 13 ∉ ((lines.take k).drop j).flatMap (· ++ [10]) := by
    intro hmem
    refine hreturn ?_
    rw [hsplit, written_eq ((lines.take k).drop j)]
    exact List.mem_append_right _ (List.mem_flatMap.mpr ⟨13, hmem, by decide⟩)
  have hpoints : ∀ c ∈ ((lines.take k).drop j).flatMap (· ++ [10]), c < 0x110000 ∧ isSurrogate c = false := by
    intro c hc
    obtain ⟨line, hline, hc⟩ := List.mem_flatMap.mp hc
    obtain hc | hc := List.mem_append.mp hc
    · exact (hnew line hline c hc).2
    · obtain rfl := List.mem_singleton.mp hc
      decide
  rw [readNewLines, hsplit, List.drop_left, ← hsplit, written_eq ((lines.take k).drop j), decode_encoded hpoints,
    Option.map_some, newlines_eq_self hplain, linesFrom_lines hnew]

end Read

/-! ### Runs -/

/-- What some calls see of the bytes that are written: more and more of them. -/
def Grows (bytes : Bytes) : Bytes → List (Option Bytes) → Prop
  | _, [] => True
  | seen, file :: files => seen <+: file.getD [] ∧ file.getD [] <+: bytes ∧ Grows bytes (file.getD []) files

def lastSeen : Bytes → List (Option Bytes) → Bytes
  | seen, [] => seen
  | _, file :: files => lastSeen (file.getD []) files

section Runs

variable {lines : List Str} {bytes seen : Bytes} {files : List (Option Bytes)}

theorem prefix_lastSeen (hgrows : Grows bytes seen files) :
  seen <+: lastSeen seen files
  := by
  induction files generalizing seen with
  | nil => exact List.prefix_refl _
  | cons file files ih => exact hgrows.1.trans (ih hgrows.2.2)

theorem runOnce_whole {file : Option Bytes} (h : ∀ line ∈ lines, Writable line) (hbefore : seen <+: file.getD [])
    (hseen : file.getD [] <+: written lines) (hends : seen = [] ∨ seen.getLast? = some 10)
    (hwhole : Whole (file.getD [])) :
  runOnce seen.length file = some ((seenLines lines (file.getD [])).drop (seen.count 10), (file.getD []).length)
  := by
  cases file with
  | none =>
    obtain rfl := List.prefix_nil.mp hbefore
    rfl
  | some file =>
    simp only [Option.getD_some] at hbefore hseen hwhole ⊢
    obtain ⟨k, hk, rfl⟩ := eq_written h hseen hwhole.1
    obtain ⟨j, hj, rfl⟩ := eq_written h (hbefore.trans hseen) hends
    have hcount : ∀ i ≤ lines.length, (written (lines.take i)).count 10 = i := by
      intro i hi
      rw [count_written fun line hline => h line (List.mem_of_mem_take hline), List.length_take, Nat.min_eq_left hi]
    have hjk : j ≤ k := by
      have hle := hbefore.sublist.count_le 10
      rwa [hcount j hj, hcount k hk] at hle
    rw [runOnce, if_neg (not_lt.mpr hbefore.length_le), readNewLines_written h hjk hwhole.2, seenLines,
      hcount j hj, hcount k hk]

theorem handed_from (h : ∀ line ∈ lines, Writable line) (hgrows : Grows (written lines) seen files)
    (hends : seen = [] ∨ seen.getLast? = some 10) (hwhole : ∀ file ∈ files, Whole (file.getD [])) :
  handed seen.length files =
    some ((seenLines lines (lastSeen seen files)).drop (seen.count 10), (lastSeen seen files).length)
  := by
  induction files generalizing seen with
  | nil => simp [handed, lastSeen, seenLines]
  | cons file files ih =>
    obtain ⟨hbefore, hseen, hrest⟩ := hgrows
    obtain ⟨hfile, hfiles⟩ := List.forall_mem_cons.mp hwhole
    have hold : seen.count 10 ≤ (file.getD []).count 10 := hbefore.sublist.count_le 10
    have hnew : (file.getD []).count 10 ≤ (lastSeen (file.getD []) files).count 10 :=
      (prefix_lastSeen hrest).sublist.count_le 10
    have hlines : ∀ {l : List Str} {i j k : ℕ}, i ≤ j → j ≤ k →
        (l.take j).drop i ++ (l.take k).drop j = (l.take k).drop i := by
      intro l i j k hij hjk
      have htake : l.take j = (l.take k).take j := by rw [List.take_take, Nat.min_eq_left hjk]
      obtain ⟨d, rfl⟩ := Nat.exists_eq_add_of_le hij
      rw [htake, List.drop_take, Nat.add_sub_cancel_left, ← List.drop_drop, List.take_append_drop]
    rw [handed, runOnce_whole h hbefore hseen hends hfile]
    simp only [Option.bind_eq_bind, Option.bind_some, ih hrest hfile.1 hfiles, Option.pure_def, lastSeen]
    rw [seenLines, seenLines, hlines hold hnew]

theorem handed_of_whole (h : ∀ line ∈ lines, Writable line) (hgrows : Grows (written lines) [] files)
    (hwhole : ∀ file ∈ files, Whole (file.getD [])) :
  ∃ offset, handed 0 files = some (seenLines lines (lastSeen [] files), offset)
  := ⟨_, handed_from h hgrows (.inl rfl) hwhole⟩

theorem handed_two_lines :
  ∃ offset, handed 0 [none, some (written [text "IDLE"]), some (written [text "IDLE", text "OUTPUT x"])] =
    some (seenLines [text "IDLE", text "OUTPUT x"] (written [text "IDLE", text "OUTPUT x"]), offset)
  := by
  have hwritable : ∀ line ∈ [text "IDLE", text "OUTPUT x"], Writable line := by
    unfold Writable
    decide
  refine handed_of_whole hwritable ?_ ?_
  · simp [Grows, written]
  · unfold Whole
    decide

theorem handed_fails :
  Writable (text "IDLE") ∧ Grows (written [text "IDLE"]) [] [some [73, 68], some (written [text "IDLE"])] ∧
    handed 0 [some [73, 68], some (written [text "IDLE"])] = some ([text "ID", text "LE"], 5) ∧
    seenLines [text "IDLE"] (lastSeen [] [some [73, 68], some (written [text "IDLE"])]) = [text "IDLE"]
  := by
  refine ⟨?_, ?_, by decide, by decide⟩
  · unfold Writable
    decide
  · simp only [Grows, Option.getD_some, List.nil_prefix, true_and, and_true]
    decide

end Runs

end Courier.SignalLines
