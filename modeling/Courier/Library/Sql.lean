import Courier.Library.Text

/-!
# SQL values

The values a column of a SQLite table can hold.  A text column may also hold bytes that are
no UTF-8 text, which a driver refuses to read.  Writing a value binds it to a statement,
which fails for an integer of more than 64 bits and for a text without an encoding.
-/

/-- A value of a column. -/
inductive SqlValue where
  | null
  | integer (i : Int)
  | real (literal : Str)
  | text (s : Str)
  | badText (bytes : List Nat)
  | blob (bytes : List Nat)
  deriving DecidableEq

namespace SqlValue

/-- Why a value cannot be bound. -/
inductive Refusal where
  | overflow
  | unicode
  deriving DecidableEq

/-- The integer fits into 64 bits. -/
def fits (i : Int) : Bool :=
  -(2 ^ 63) ≤ i && i < 2 ^ 63

/-- Why the value cannot be bound, if it cannot. -/
def refusal : SqlValue → Option Refusal
  | integer i => if fits i then none else some .overflow
  | text s => if Text.Encodable s then none else some .unicode
  | _ => none

def refusals (parameters : List SqlValue) : Option Refusal :=
  parameters.findSome? refusal

def ofOption : Option Str → SqlValue
  | none => null
  | some s => text s

def ofInt : Option Int → SqlValue
  | none => null
  | some i => integer i

def ofBool : Bool → SqlValue
  | false => integer 0
  | true => integer 1

def text? : SqlValue → Option Str
  | text s => some s
  | _ => none

def integer? : SqlValue → Option Int
  | integer i => some i
  | _ => none

def nullable {α : Type} (read : SqlValue → Option α) : SqlValue → Option (Option α)
  | null => some none
  | v => (read v).map some

/-- `bool(value)` of a stored integer. -/
def flag? (v : SqlValue) : Option Bool :=
  v.integer?.map (· ≠ 0)

@[simp]
theorem nullable_ofOption (o : Option Str) :
  nullable text? (ofOption o) = some o
  := by
  cases o <;> rfl

@[simp]
theorem nullable_ofInt (o : Option Int) :
  nullable integer? (ofInt o) = some o
  := by
  cases o <;> rfl

@[simp]
theorem flag?_ofBool (b : Bool) :
  flag? (ofBool b) = some b
  := by
  cases b <;> rfl

@[simp]
theorem integer?_ofInt (o : Option Int) :
  (ofInt o).integer? = o
  := by
  cases o <;> rfl

@[simp]
theorem text?_ofOption (o : Option Str) :
  (ofOption o).text? = o
  := by
  cases o <;> rfl

@[simp]
theorem refusal_text {s : Str} :
  (text s).refusal = none ↔ Text.Encodable s
  := by
  simp [refusal]

@[simp]
theorem refusal_ofOption {o : Option Str} :
  (ofOption o).refusal = none ↔ ∀ s, o = some s → Text.Encodable s
  := by
  cases o with
  | none => simp [ofOption, refusal]
  | some s => simp [ofOption]

@[simp]
theorem refusal_integer {i : Int} :
  (integer i).refusal = none ↔ fits i = true
  := by
  simp [refusal]

@[simp]
theorem refusal_ofInt {o : Option Int} :
  (ofInt o).refusal = none ↔ ∀ i, o = some i → fits i = true
  := by
  cases o with
  | none => simp [ofInt, refusal]
  | some i => simp [ofInt]

@[simp]
theorem refusal_ofBool (b : Bool) :
  (ofBool b).refusal = none
  := by
  cases b <;> rfl

end SqlValue
