import Courier.Library.Text

/-!
# Lines of bytes

A file is a list of bytes.  It is split into lines as `bytes.splitlines` does, and a line is
decoded as strict UTF-8.  Lines of printable ASCII that were written one after the other, each
with a newline behind it, are read back as they are (`splitLines_written`, `decode_ascii`).
-/

/-- The contents of a file. -/
abbrev Bytes := List UInt8

namespace Bytes

/-! ### Lines -/

/-- `raw.splitlines()` after the start of a line. -/
def splitLinesFrom (current : Bytes) : Bytes → List Bytes
  | [] => if current = [] then [] else [current]
  | 13 :: 10 :: rest => current :: splitLinesFrom [] rest
  | b :: rest =>
      if b = 10 ∨ b = 13 then current :: splitLinesFrom [] rest
      else splitLinesFrom (current ++ [b]) rest

def splitLines (raw : Bytes) : List Bytes :=
  splitLinesFrom [] raw

/-- A newline ends the lines before it. -/
theorem splitLinesFrom_newline (current a b : Bytes) :
  splitLinesFrom current (a ++ 10 :: b) = splitLinesFrom current (a ++ [10]) ++ splitLines b
  := by
  have hempty : ∀ current, splitLinesFrom current (10 :: b) = splitLinesFrom current [10] ++ splitLines b := by
    intro current
    rw [splitLinesFrom, splitLinesFrom]
    · rfl
    all_goals simp
  -- Only a carriage return that ends the text is joined with the newline.
  have hjoined : ∀ {c : UInt8} {rest tail : Bytes}, (c = 13 → rest ≠ []) →
      (∀ more, c = 13 → rest = 10 :: more → False) →
      ∀ more, c = 13 → rest ++ 10 :: tail = 10 :: more → False := by
    intro c rest tail hne hnot more hc heq
    obtain ⟨d, rest', rfl⟩ := List.exists_cons_of_ne_nil (hne hc)
    obtain ⟨rfl, -⟩ := List.cons.inj heq
    exact hnot rest' hc rfl
  induction current, a using splitLinesFrom.induct with
  | case1 => exact hempty []
  | case2 current => exact hempty current
  | case3 current rest ih =>
    rw [List.cons_append, List.cons_append, splitLinesFrom, ih, List.cons_append, List.cons_append,
      splitLinesFrom]
    rfl
  | case4 current c rest hnot hends ih =>
    by_cases hlast : c = 13 ∧ rest = []
    · obtain ⟨rfl, rfl⟩ := hlast
      rfl
    · have hne : c = 13 → rest ≠ [] := fun hc hrest => hlast ⟨hc, hrest⟩
      rw [List.cons_append, List.cons_append, splitLinesFrom, splitLinesFrom, if_pos hends, if_pos hends, ih]
      · rfl
      · exact hjoined hne hnot
      · exact hjoined hne hnot
  | case5 current c rest hnot hends ih =>
    have hne : c = 13 → rest ≠ [] := fun hc _ => hends (.inr hc)
    rw [List.cons_append, List.cons_append, splitLinesFrom, splitLinesFrom, if_neg hends, if_neg hends, ih]
    · exact hjoined hne hnot
    · exact hjoined hne hnot

theorem splitLines_append {a : Bytes} (h : a = [] ∨ a.getLast? = some 10) (b : Bytes) :
  splitLines (a ++ b) = splitLines a ++ splitLines b
  := by
  rcases h with rfl | hlast
  · rfl
  · obtain ⟨a, rfl⟩ := List.getLast?_eq_some_iff.mp hlast
    have hsplit := splitLinesFrom_newline [] a b
    rw [List.append_assoc]
    exact hsplit

/-- White space of `bytes.strip`. -/
def isSpace (b : UInt8) : Bool :=
  b = 32 || (9 ≤ b && b ≤ 13)

/-- `not line.strip()`. -/
def blank (line : Bytes) : Bool :=
  line.all isSpace

/-! ### Texts -/

/-- A byte that continues a character. -/
def continues (b : UInt8) : Bool :=
  0x80 ≤ b && b ≤ 0xBF

/-- `raw.decode("utf-8")`. -/
def decode : Bytes → Option Str
  | [] => some []
  | a :: rest =>
      if a < 0x80 then (decode rest).map (a.toNat :: ·)
      else match rest with
      | [] => none
      | b :: rest =>
          if 0xC2 ≤ a ∧ a ≤ 0xDF ∧ continues b then
            (decode rest).map (((a.toNat - 0xC0) * 0x40 + (b.toNat - 0x80)) :: ·)
          else match rest with
          | [] => none
          | c :: rest =>
              if 0xE0 ≤ a ∧ a ≤ 0xEF ∧ continues b ∧ continues c ∧ (a = 0xE0 → 0xA0 ≤ b)
                  ∧ (a = 0xED → b ≤ 0x9F) then
                (decode rest).map (((a.toNat - 0xE0) * 0x1000 + (b.toNat - 0x80) * 0x40
                  + (c.toNat - 0x80)) :: ·)
              else match rest with
              | [] => none
              | d :: rest =>
                  if 0xF0 ≤ a ∧ a ≤ 0xF4 ∧ continues b ∧ continues c ∧ continues d
                      ∧ (a = 0xF0 → 0x90 ≤ b) ∧ (a = 0xF4 → b ≤ 0x8F) then
                    (decode rest).map (((a.toNat - 0xF0) * 0x40000 + (b.toNat - 0x80) * 0x1000
                      + (c.toNat - 0x80) * 0x40 + (d.toNat - 0x80)) :: ·)
                  else none

def encodePoint (c : Nat) : Bytes :=
  if c < 0x80 then [UInt8.ofNat c]
  else if c < 0x800 then [UInt8.ofNat (0xC0 + c / 0x40), UInt8.ofNat (0x80 + c % 0x40)]
  else if c < 0x10000 then
    [UInt8.ofNat (0xE0 + c / 0x1000), UInt8.ofNat (0x80 + c / 0x40 % 0x40), UInt8.ofNat (0x80 + c % 0x40)]
  else
    [UInt8.ofNat (0xF0 + c / 0x40000), UInt8.ofNat (0x80 + c / 0x1000 % 0x40),
      UInt8.ofNat (0x80 + c / 0x40 % 0x40), UInt8.ofNat (0x80 + c % 0x40)]

/-- `s.encode("utf-8")`, if no character is a surrogate. -/
def encode (s : Str) : Option Bytes :=
  if Text.Encodable s then some (s.flatMap encodePoint) else none

def ofAscii (s : Str) : Bytes :=
  s.map UInt8.ofNat

/-! ### What was written is read back -/

/-- The text is of printable ASCII characters. -/
def Printable (s : Str) : Prop :=
  ∀ c ∈ s, 32 ≤ c ∧ c < 127

theorem decode_ofAscii {s : Str} (h : ∀ c ∈ s, c < 128) :
  decode (ofAscii s) = some s
  := by
  induction s with
  | nil => rfl
  | cons c s ih =>
    have hc := h c (by simp)
    have hnat : (UInt8.ofNat c).toNat = c := by
      simp only [UInt8.toNat_ofNat']
      omega
    have hlt : UInt8.ofNat c < 0x80 := by
      rw [UInt8.lt_iff_toNat_lt, hnat]
      exact lt_of_lt_of_le hc (by decide)
    rw [ofAscii, List.map_cons, decode.eq_def]
    dsimp only
    rw [if_pos hlt, ← ofAscii, ih fun d hd => h d (List.mem_cons_of_mem _ hd), hnat]
    rfl

theorem decode_ascii {s : Str} (h : Printable s) :
  decode (ofAscii s) = some s
  := decode_ofAscii fun c hc => (h c hc).2.trans (by decide)

theorem printable_ne {c : Nat} (h : 32 ≤ c ∧ c < 127) :
  UInt8.ofNat c ≠ 10 ∧ UInt8.ofNat c ≠ 13
  := by
  have hnat : (UInt8.ofNat c).toNat = c := by
    simp only [UInt8.toNat_ofNat']
    omega
  constructor
  · intro heq
    have hval := congrArg UInt8.toNat heq
    rw [hnat] at hval
    simp at hval
    omega
  · intro heq
    have hval := congrArg UInt8.toNat heq
    rw [hnat] at hval
    simp at hval
    omega

theorem splitLinesFrom_line {s : Str} (h : Printable s) (current rest : Bytes) :
  splitLinesFrom current (ofAscii s ++ 10 :: rest) = (current ++ ofAscii s) :: splitLines rest
  := by
  induction s generalizing current with
  | nil =>
    rw [ofAscii, List.map_nil, List.nil_append, splitLinesFrom.eq_def]
    simp [splitLines]
  | cons c s ih =>
    obtain ⟨hnewline, hreturn⟩ := printable_ne (h c (by simp))
    rw [ofAscii, List.map_cons, List.cons_append, splitLinesFrom.eq_def]
    split
    · next heq => cases heq
    · next heq =>
      simp only [List.cons.injEq] at heq
      exact absurd heq.1 hreturn
    · next heq =>
      obtain ⟨rfl, rfl⟩ := List.cons.inj heq
      rw [if_neg (by simp [hnewline, hreturn]), ← ofAscii,
        ih fun d hd => h d (List.mem_cons_of_mem _ hd)]
      simp [ofAscii]

theorem splitLines_line {s : Str} (h : Printable s) (rest : Bytes) :
  splitLines (ofAscii s ++ 10 :: rest) = ofAscii s :: splitLines rest
  := splitLinesFrom_line h [] rest

theorem splitLines_written {lines : List Str} (h : ∀ s ∈ lines, Printable s) :
  splitLines (lines.flatMap fun s => ofAscii s ++ [10]) = lines.map ofAscii
  := by
  induction lines with
  | nil => rfl
  | cons s lines ih =>
    rw [List.flatMap_cons, List.append_assoc, List.singleton_append,
      splitLines_line (h s (by simp)), ih fun t ht => h t (List.mem_cons_of_mem _ ht)]
    rfl

theorem blank_ofAscii {c : Nat} {s : Str} (h : 33 ≤ c ∧ c < 127) :
  blank (ofAscii (c :: s)) = false
  := by
  have hnat : (UInt8.ofNat c).toNat = c := by
    simp only [UInt8.toNat_ofNat']
    omega
  have hspace : isSpace (UInt8.ofNat c) = false := by
    have hle : ¬ UInt8.ofNat c ≤ 13 := by
      rw [UInt8.le_iff_toNat_le, hnat]
      exact not_le.mpr (lt_of_lt_of_le (by decide) h.1)
    have hne : UInt8.ofNat c ≠ 32 := by
      intro heq
      have hval := congrArg UInt8.toNat heq
      rw [hnat] at hval
      simp at hval
      omega
    simp [isSpace, hle, hne]
  simp [blank, ofAscii, hspace]

end Bytes
