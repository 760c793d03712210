import Courier.Library.Lines

/-!
# Base64

Bytes are written with an alphabet of 64 characters, four characters for three bytes, with padding where
the last bytes are fewer.  Reading passes over what is not in the alphabet.  What was written is read back
(`b64decode_b64encode`).
-/

namespace Base64

/-- The character of a value below 64. -/
def charOf (v : Nat) : Nat :=
  if v < 26 then 65 + v
  else if v < 52 then 71 + v
  else if v < 62 then v - 4
  else if v = 62 then 43
  else 47

/-- The value of a character of the alphabet. -/
def valueOf (c : Nat) : Option Nat :=
  if 65 ≤ c ∧ c ≤ 90 then some (c - 65)
  else if 97 ≤ c ∧ c ≤ 122 then some (c - 71)
  else if 48 ≤ c ∧ c ≤ 57 then some (c + 4)
  else if c = 43 then some 62
  else if c = 47 then some 63
  else none

/-- `base64.b64encode(data)`. -/
def b64encode : Bytes → Str
  | [] => []
  | [a] => [charOf (a.toNat / 4), charOf (a.toNat % 4 * 16), 61, 61]
  | [a, b] =>
      [charOf (a.toNat / 4), charOf (a.toNat % 4 * 16 + b.toNat / 16), charOf (b.toNat % 16 * 4), 61]
  | a :: b :: c :: data =>
      charOf (a.toNat / 4) :: charOf (a.toNat % 4 * 16 + b.toNat / 16) ::
        charOf (b.toNat % 16 * 4 + c.toNat / 64) :: charOf (c.toNat % 64) :: b64encode data

/-- How much of a group of four characters was read: the bits of it that no byte has yet, and whether there
was padding behind two characters. -/
inductive Group where
  | start
  | one (left : Nat)
  | two (left : Nat) (padded : Bool)
  | three (left : Nat)

/-- The bytes of the characters that follow.  Padding that completes a group ends the text; other padding is
passed over. -/
def readFrom : Group → Str → Option Bytes
  | .start, [] => some []
  | _, [] => none
  | group, c :: s =>
      if c = 61 then
        match group with
        | .two left false => readFrom (.two left true) s
        | .two _ true | .three _ => some []
        | group => readFrom group s
      else
        match valueOf c with
        | none => readFrom group s
        | some v =>
            match group with
            | .start => readFrom (.one v) s
            | .one left => (readFrom (.two (v % 16) false) s).map (UInt8.ofNat (left * 4 + v / 16) :: ·)
            | .two left _ => (readFrom (.three (v % 4)) s).map (UInt8.ofNat (left * 16 + v / 4) :: ·)
            | .three left => (readFrom .start s).map (UInt8.ofNat (left * 64 + v) :: ·)

/-- `base64.b64decode(s)`. -/
def b64decode (s : Str) : Option Bytes :=
  if s.all (· < 128) then readFrom .start s else none

/-! ### The alphabet -/

theorem valueOf_charOf {v : Nat} (h : v < 64) :
  valueOf (charOf v) = some v
  := by
  have hall : ∀ v : Fin 64, valueOf (charOf v) = some v.val := by decide
  exact hall ⟨v, h⟩

theorem charOf_ne_padding {v : Nat} (h : v < 64) :
  charOf v ≠ 61
  := by
  intro heq
  have hvalue := valueOf_charOf h
  rw [heq] at hvalue
  cases hvalue

theorem charOf_lt {v : Nat} (h : v < 64) :
  charOf v < 128
  := by
  have hall : ∀ v : Fin 64, charOf v < 128 := by decide
  exact hall ⟨v, h⟩

theorem lt_of_mem_b64encode (data : Bytes) :
  ∀ c ∈ b64encode data, c < 128
  := by
  have hbyte : ∀ a : UInt8, a.toNat < 256 := fun a => a.toNat_lt
  fun_induction b64encode data with
  | case1 => simp
  | case2 a =>
    have ha := hbyte a
    simp only [List.forall_mem_cons, List.not_mem_nil, false_imp_iff, implies_true, and_true]
    exact ⟨charOf_lt (by omega), charOf_lt (by omega), by decide, by decide⟩
  | case3 a b =>
    have ha := hbyte a
    have hb := hbyte b
    simp only [List.forall_mem_cons, List.not_mem_nil, false_imp_iff, implies_true, and_true]
    exact ⟨charOf_lt (by omega), charOf_lt (by omega), charOf_lt (by omega), by decide⟩
  | case4 a b c data ih =>
    have ha := hbyte a
    have hb := hbyte b
    have hc := hbyte c
    simp only [List.forall_mem_cons]
    exact ⟨charOf_lt (by omega), charOf_lt (by omega), charOf_lt (by omega), charOf_lt (by omega), ih⟩

/-! ### Reading what was written -/

section Reading

variable {v : Nat} (h : v < 64) (s : Str)

include h

theorem readFrom_start :
  readFrom .start (charOf v :: s) = readFrom (.one v) s
  := by
  rw [readFrom, if_neg (charOf_ne_padding h), valueOf_charOf h]
  all_goals simp

theorem readFrom_one (left : Nat) :
  readFrom (.one left) (charOf v :: s) =
    (readFrom (.two (v % 16) false) s).map (UInt8.ofNat (left * 4 + v / 16) :: ·)
  := by
  rw [readFrom, if_neg (charOf_ne_padding h), valueOf_charOf h]
  all_goals simp

theorem readFrom_two (left : Nat) :
  readFrom (.two left false) (charOf v :: s) =
    (readFrom (.three (v % 4)) s).map (UInt8.ofNat (left * 16 + v / 4) :: ·)
  := by
  rw [readFrom, if_neg (charOf_ne_padding h), valueOf_charOf h]

theorem readFrom_three (left : Nat) :
  readFrom (.three left) (charOf v :: s) = (readFrom .start s).map (UInt8.ofNat (left * 64 + v) :: ·)
  := by
  rw [readFrom, if_neg (charOf_ne_padding h), valueOf_charOf h]

end Reading

theorem ofNat_eq {n : Nat} {a : UInt8} (h : n = a.toNat) :
  UInt8.ofNat n = a
  := by
  rw [h, UInt8.ofNat_toNat]

theorem readFrom_b64encode (data : Bytes) :
  readFrom .start (b64encode data) = some data
  := by
  have hbyte : ∀ a : UInt8, a.toNat < 256 := fun a => a.toNat_lt
  fun_induction b64encode data with
  | case1 => rfl
  | case2 a =>
    have ha := hbyte a
    rw [readFrom_start (by omega), readFrom_one (by omega), ofNat_eq (a := a) (by omega)]
    rfl
  | case3 a b =>
    have ha := hbyte a
    have hb := hbyte b
    rw [readFrom_start (by omega), readFrom_one (by omega), readFrom_two (by omega),
      ofNat_eq (a := a) (by omega), ofNat_eq (a := b) (by omega)]
    rfl
  | case4 a b c data ih =>
    have ha := hbyte a
    have hb := hbyte b
    have hc := hbyte c
    rw [readFrom_start (by omega), readFrom_one (by omega), readFrom_two (by omega),
      readFrom_three (by omega), ih, ofNat_eq (a := a) (by omega), ofNat_eq (a := b) (by omega),
      ofNat_eq (a := c) (by omega)]
    rfl

theorem b64decode_b64encode (data : Bytes) :
  b64decode (b64encode data) = some data
  := by
  have hascii : (b64encode data).all (· < 128) = true := by
    simpa using lt_of_mem_b64encode data
  rw [b64decode, if_pos hascii, readFrom_b64encode]

end Base64
