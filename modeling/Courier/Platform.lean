import Courier.Library.Json

/-!
# The platform

What the programs take from Python and from the machine: the exceptions they raise and
catch, and functions whose results they only pass on.  Nothing is assumed of these functions
here; a result that needs more of them says so.
-/

namespace Courier

/-- The answer of a refused request. -/
structure ApiError where
  status : Nat
  code : Str
  message : Str
  extra : Members := []
  deriving DecidableEq

/-- The exceptions of the program; `environment` is whatever the surroundings of a statement raise. -/
inductive Exc where
  | eventValidation (message : Str)
  | transition (message : Str)
  | journal (message : Str)
  | dedupeConflict (message : Str)
  | projection (message : Str)
  | api (error : ApiError)
  | valueError
  | typeError
  | attributeError
  | unicodeEncode
  | overflow
  | recursion
  | integrity
  | operational
  | environment
  deriving DecidableEq

/-- The functions of the platform. -/
class Platform where
  /-- The hexadecimal digest of the UTF-8 encoding of a text. -/
  sha256 : Str → Str
  /-- `repr` of a value. -/
  repr : Json → Str
  /-- The text `json.loads` decodes from bytes, if they have one. -/
  decodeBytes : List Nat → Option Str
  /-- The text is JSON nested more deeply than the parser recurses. -/
  tooDeep : Str → Bool

/-- A platform to evaluate examples on: a short digest, containers that print as their encoding,
ASCII bytes, and nothing nested too deeply. -/
@[reducible]
def Platform.plain : Platform where
  sha256 s := Text.natDecimal (s.foldl (fun digest c => (31 * digest + c) % 2 ^ 61) 7)
  repr := Json.dumps
  decodeBytes := some
  tooDeep := fun _ => false

/-- `str(value)`. -/
def pyStr [Platform] : Json → Str
  | .null => text "None"
  | .bool true => text "True"
  | .bool false => text "False"
  | .int i => Text.decimal i
  | .float literal => literal
  | .str s => s
  | v => Platform.repr v

@[simp]
theorem pyStr_str [Platform] (s : Str) :
  pyStr (.str s) = s
  := rfl

end Courier
