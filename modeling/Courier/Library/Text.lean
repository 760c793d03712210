import Mathlib.Data.Nat.Digits.Lemmas
import Mathlib.Data.List.Infix
import Mathlib.Data.List.Basic
import Mathlib.Data.List.DropRight

/-!
# Text

A text is the list of its code points.  Surrogates are code points like any other, so a
text need not have a UTF-8 encoding; `Encodable` says that it has one.  The operations are
the ones of Python's `str` that the programs under verification use.
-/

/-- A text: the list of its code points. -/
abbrev Str := List Nat

def text (s : String) : Str :=
  s.toList.map Char.toNat

instance : Coe String Str := ⟨text⟩

instance (priority := 1100) Str.lawfulBEq : LawfulBEq Str := inferInstance

namespace Text

/-- A code point reserved for UTF-16 surrogates. -/
def isSurrogate (c : Nat) : Bool :=
  0xD800 ≤ c && c ≤ 0xDFFF

/-- The text has a UTF-8 encoding. -/
def Encodable (s : Str) : Prop :=
  s.any isSurrogate = false

instance (s : Str) : Decidable (Encodable s) :=
  inferInstanceAs (Decidable (_ = _))

/-- `pattern in s`. -/
def occurs (pattern s : Str) : Bool :=
  decide (pattern <:+: s)

/-- The lower case of a code point; outside ASCII only `İ` and the Kelvin sign have one with an ASCII character, and the
others are left as they are. -/
def lowerPoint (c : Nat) : Str :=
  if 65 ≤ c ∧ c ≤ 90 then [c + 32]
  else if c = 0x130 then [105, 0x307]
  else if c = 0x212A then [107]
  else [c]

/-- `s.lower()`, as far as a search for an ASCII text can tell. -/
def lower (s : Str) : Str :=
  s.flatMap lowerPoint

/-- The code points for which `str.isspace` holds. -/
def isSpace (c : Nat) : Bool :=
  (9 ≤ c && c ≤ 13) || (28 ≤ c && c ≤ 32) || c = 0x85 || c = 0xA0 || c = 0x1680
    || (0x2000 ≤ c && c ≤ 0x200A) || c = 0x2028 || c = 0x2029 || c = 0x202F || c = 0x205F
    || c = 0x3000

/-- `not s.strip()`. -/
def blank (s : Str) : Bool :=
  s.all isSpace

def strip (s : Str) : Str :=
  (s.dropWhile isSpace).rdropWhile isSpace

theorem mem_of_mem_strip {s : Str} {c : Nat} (h : c ∈ strip s) :
  c ∈ s
  := (List.dropWhile_sublist _).mem ((List.rdropWhile_prefix _ _).sublist.mem h)

theorem length_strip_le (s : Str) :
  (strip s).length ≤ s.length
  := ((List.rdropWhile_prefix _ _).sublist.trans (List.dropWhile_sublist _)).length_le

theorem dropWhile_strip (s : Str) :
  (strip s).dropWhile isSpace = strip s
  := by
  obtain ⟨rest, hrest⟩ := List.rdropWhile_prefix isSpace (s.dropWhile isSpace)
  cases hstrip : strip s with
  | nil => rfl
  | cons c t =>
    have hhead : s.dropWhile isSpace = c :: (t ++ rest) := by
      rw [← hrest, ← strip, hstrip]
      rfl
    have hspace : isSpace c = false := by
      have hidem := List.dropWhile_idempotent isSpace s
      rw [hhead] at hidem
      by_contra htrue
      rw [List.dropWhile_cons_of_pos (by simpa using htrue)] at hidem
      have hlength := (List.dropWhile_sublist isSpace (l := t ++ rest)).length_le
      rw [hidem] at hlength
      simp at hlength
    exact List.dropWhile_cons_of_neg (by simp [hspace])

theorem strip_strip (s : Str) :
  strip (strip s) = strip s
  := by
  have hdrop := dropWhile_strip s
  unfold strip at hdrop ⊢
  rw [hdrop, List.rdropWhile_idempotent]

theorem strip_between {a b : Nat} {s : Str} (ha : isSpace a = false) (hb : isSpace b = false) :
  strip (a :: (s ++ [b])) = a :: (s ++ [b])
  := by
  rw [strip, List.dropWhile_cons_of_neg (by simp [ha]), ← List.cons_append,
    List.rdropWhile_concat_neg _ _ _ (by simp [hb])]

theorem blank_strip {s : Str} (h : blank s = false) :
  blank (strip s) = false
  := by
  by_contra hblank
  have hspaces : ∀ c ∈ strip s, isSpace c = true := by simpa [blank] using hblank
  have hnil : strip s = [] := by
    rw [← dropWhile_strip, List.dropWhile_eq_nil_iff]
    exact hspaces
  have hall : s.dropWhile isSpace = [] := by
    rw [← List.dropWhile_idempotent, List.dropWhile_eq_nil_iff]
    exact List.rdropWhile_eq_nil_iff.mp hnil
  rw [List.dropWhile_eq_nil_iff] at hall
  have htrue : blank s = true := by simpa [blank] using hall
  rw [h] at htrue
  cases htrue

/-- The upper case of a code point; outside ASCII only those listed have one with an ASCII character, and the others are
left as they are. -/
def upperPoint (c : Nat) : Str :=
  if 97 ≤ c ∧ c ≤ 122 then [c - 32]
  else match c with
    | 0xDF => [83, 83]
    | 0x131 => [73]
    | 0x149 => [0x2BC, 78]
    | 0x17F => [83]
    | 0x1F0 => [74, 0x30C]
    | 0x1E96 => [72, 0x331]
    | 0x1E97 => [84, 0x308]
    | 0x1E98 => [87, 0x30A]
    | 0x1E99 => [89, 0x30A]
    | 0x1E9A => [65, 0x2BE]
    | 0xFB00 => [70, 70]
    | 0xFB01 => [70, 73]
    | 0xFB02 => [70, 76]
    | 0xFB03 => [70, 70, 73]
    | 0xFB04 => [70, 70, 76]
    | 0xFB05 => [83, 84]
    | 0xFB06 => [83, 84]
    | c => [c]

/-- `s.upper()`, as far as a search for an ASCII text can tell. -/
def upper (s : Str) : Str :=
  s.flatMap upperPoint

/-- `s.endswith(suffix)`. -/
def endsWith (s suffix : Str) : Bool :=
  suffix.isSuffixOf s

/-! ### Decimal numerals -/

/-- A decimal digit. -/
def isDigit (c : Nat) : Bool :=
  48 ≤ c && c ≤ 57

/-- The decimal numeral of a natural number. -/
def natDecimal (n : Nat) : Str :=
  if n = 0 then [48] else ((Nat.digits 10 n).map (· + 48)).reverse

/-- The decimal numeral of an integer, as `str` prints it. -/
def decimal : Int → Str
  | .ofNat n => natDecimal n
  | .negSucc n => 45 :: natDecimal (n + 1)

/-- The number a list of digits denotes. -/
def ofDigits (s : Str) : Nat :=
  s.foldl (fun n c => 10 * n + (c - 48)) 0

theorem ofDigits_append_singleton (s : Str) (c : Nat) :
  ofDigits (s ++ [c]) = 10 * ofDigits s + (c - 48)
  := by
  simp [ofDigits]

theorem ofDigits_digits (l : List Nat) :
  ofDigits (l.map (· + 48)).reverse = Nat.ofDigits 10 l
  := by
  induction l with
  | nil => rfl
  | cons d l ih =>
    rw [List.map_cons, List.reverse_cons, ofDigits_append_singleton, ih, Nat.ofDigits_cons]
    simp
    omega

@[simp]
theorem ofDigits_natDecimal (n : Nat) :
  ofDigits (natDecimal n) = n
  := by
  by_cases hn : n = 0
  · simp [natDecimal, hn, ofDigits]
  · rw [natDecimal, if_neg hn, ofDigits_digits, Nat.ofDigits_digits]

theorem isDigit_of_mem_natDecimal {n c : Nat} (hc : c ∈ natDecimal n) :
  isDigit c = true
  := by
  by_cases hn : n = 0
  · simp [natDecimal, hn] at hc
    simp [hc, isDigit]
  · simp only [natDecimal, if_neg hn, List.mem_reverse, List.mem_map] at hc
    obtain ⟨d, hd, rfl⟩ := hc
    have hlt := Nat.digits_lt_base (by norm_num) hd
    simp [isDigit]
    omega

theorem natDecimal_ne_nil (n : Nat) :
  natDecimal n ≠ []
  := by
  by_cases hn : n = 0
  · simp [natDecimal, hn]
  · simp [natDecimal, hn, Nat.digits_ne_nil_iff_ne_zero]

theorem head_natDecimal {n c : Nat} {s : Str} (hn : n ≠ 0) (h : natDecimal n = c :: s) :
  c ≠ 48
  := by
  rw [natDecimal, if_neg hn] at h
  have hne : Nat.digits 10 n ≠ [] := Nat.digits_ne_nil_iff_ne_zero.mpr hn
  have hlast := Nat.getLast_digit_ne_zero 10 hn
  have hhead : ((Nat.digits 10 n).map (· + 48)).reverse.head? = some c := by
    rw [h]
    rfl
  rw [List.head?_reverse, List.getLast?_map, List.getLast?_eq_some_getLast hne] at hhead
  simp at hhead
  omega

theorem natDecimal_injective :
  Function.Injective natDecimal
  := by
  intro m n h
  rw [← ofDigits_natDecimal m, h, ofDigits_natDecimal]

theorem minus_notMem_natDecimal (n : Nat) :
  45 ∉ natDecimal n
  := by
  intro h
  have hd := isDigit_of_mem_natDecimal h
  simp [isDigit] at hd

theorem decimal_injective :
  Function.Injective decimal
  := by
  rintro (m | m) (n | n) h
  · rw [natDecimal_injective h]
  · apply absurd _ (minus_notMem_natDecimal m)
    rw [show natDecimal m = 45 :: natDecimal (n + 1) from h]
    simp
  · apply absurd _ (minus_notMem_natDecimal n)
    rw [show natDecimal n = 45 :: natDecimal (m + 1) from h.symm]
    simp
  · have h' : natDecimal (m + 1) = natDecimal (n + 1) := (List.cons.inj h).2
    have hmn := natDecimal_injective h'
    rw [Nat.succ.inj hmn]

theorem mem_decimal {i : Int} {c : Nat} (hc : c ∈ decimal i) :
  c = 45 ∨ isDigit c = true
  := by
  cases i with
  | ofNat n =>
    right
    apply isDigit_of_mem_natDecimal hc
  | negSucc n =>
    rcases List.mem_cons.mp hc with rfl | hc
    · left; rfl
    · right
      apply isDigit_of_mem_natDecimal hc

end Text
