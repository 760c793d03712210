import Courier.Library.Text

/-!
# Scopes

The scope of a work item is a list of paths and path patterns.  Two scopes overlap if a path or
pattern of one meets one of the other.  The relation is symmetric, so it does not matter which
of two items is claimed first.
-/

namespace Courier.WorkQueue

/-! ### Shell patterns -/

/-- The character is in the set a bracket expression lists, with its ranges. -/
def inSet : Str → Nat → Bool
  | low :: 45 :: high :: rest, c => (low ≤ c && c ≤ high) || inSet rest c
  | d :: rest, c => d = c || inSet rest c
  | [], _ => false

/-- The character is in a bracket expression, whose set may be negated. -/
def inBrackets : Str → Nat → Bool
  | 33 :: set, c => !inSet set c
  | set, c => inSet set c

/-- Split what follows an opening bracket at the bracket that closes it: a bracket that comes
first, or first after `!`, belongs to the set. -/
def splitBracket (pattern : Str) : Option (Str × Str) :=
  let start := if pattern.head? = some 33 then pattern.take 1 else []
  let rest := pattern.drop start.length
  let first := if rest.head? = some 93 then rest.take 1 else []
  let rest := rest.drop first.length
  match rest.dropWhile (· ≠ 93) with
  | [] => none
  | _ :: after => some (start ++ first ++ rest.takeWhile (· ≠ 93), after)

/-- Match a name against a pattern, with `fuel` bounding the tokens of the pattern. -/
def fnmatchFrom : Nat → Str → Str → Bool
  | _, [], name => name = []
  | 0, _ :: _, _ => false
  | fuel + 1, 42 :: pattern, name => name.tails.any fun rest => fnmatchFrom fuel pattern rest
  | fuel + 1, 63 :: pattern, name => name ≠ [] && fnmatchFrom fuel pattern name.tail
  | fuel + 1, 91 :: pattern, name =>
      match splitBracket pattern with
      | none => name.head? = some 91 && fnmatchFrom fuel pattern name.tail
      | some (set, after) => name.head?.any (inBrackets set) && fnmatchFrom fuel after name.tail
  | fuel + 1, c :: pattern, name => name.head? = some c && fnmatchFrom fuel pattern name.tail

def fnmatchcase (name pattern : Str) : Bool :=
  fnmatchFrom pattern.length pattern name

/-! ### Paths -/

def norm (value : Str) : Str :=
  (value.map fun c => if c = 92 then 47 else c).dropWhile fun c => c = 46 || c = 47

def wild (value : Str) : Bool :=
  value.any fun c => c = 42 || c = 63 || c = 91

/-- `value.split("/")`. -/
def splitSlash : Str → List Str
  | [] => [[]]
  | c :: rest =>
      if c = 47 then [] :: splitSlash rest
      else match splitSlash rest with
      | part :: parts => (c :: part) :: parts
      | [] => [[c]]

def literalPrefix (pattern : Str) : Str :=
  List.intercalate [47] ((splitSlash pattern).takeWhile fun part => !wild part)

def startsWith (value start : Str) : Bool :=
  start.isPrefixOf value

def insideDir (directory path : Str) : Bool :=
  Text.endsWith directory [47] && !wild directory
    && (path = directory.dropLast || startsWith path directory)

/-- `_paths_overlap`, of paths that are normalized. -/
def normsOverlap (a b : Str) : Bool :=
  if a = b ∨ fnmatchcase a b ∨ fnmatchcase b a then true
  else if insideDir a b ∨ insideDir b a then true
  else if wild a ∧ ¬ wild b then startsWith b (literalPrefix a ++ [47])
  else if wild b ∧ ¬ wild a then startsWith a (literalPrefix b ++ [47])
  else if wild a ∧ wild b then
    if literalPrefix a = [] ∨ literalPrefix b = [] then true
    else literalPrefix a = literalPrefix b
      || startsWith (literalPrefix a) (literalPrefix b ++ [47])
      || startsWith (literalPrefix b) (literalPrefix a ++ [47])
  else false

def pathsOverlap (left right : Str) : Bool :=
  normsOverlap (norm left) (norm right)

def scopesOverlap (left right : List Str) : Bool :=
  left.any fun a => right.any fun b => pathsOverlap a b

def stripSlashes (value : Str) : Str :=
  value.rdropWhile (· = 47)

def directoryCovers (scope path : Str) : Bool :=
  if pathsOverlap scope path then true
  else
    let directory := stripSlashes (norm scope)
    let concrete := stripSlashes (norm path)
    if directory = [] ∨ concrete = [] ∨ wild directory then false
    else concrete = directory || startsWith concrete (directory ++ [47])

/-! ### Symmetry -/

theorem normsOverlap_comm (a b : Str) :
  normsOverlap a b = normsOverlap b a
  := by
  by_cases hsame : a = b
  · rw [hsame]
  have hinit : literalPrefix a = literalPrefix b ↔ literalPrefix b = literalPrefix a := eq_comm
  have hmatch : (a = b ∨ fnmatchcase a b = true ∨ fnmatchcase b a = true) ↔
      (b = a ∨ fnmatchcase b a = true ∨ fnmatchcase a b = true) := by tauto
  have hinside : (insideDir a b = true ∨ insideDir b a = true) ↔
      (insideDir b a = true ∨ insideDir a b = true) := or_comm
  simp only [normsOverlap, hmatch, hinside, hinit]
  cases wild a <;> cases wild b <;> simp [or_comm, Bool.or_assoc, Bool.or_comm, Bool.or_left_comm]

theorem scopesOverlap_comm (left right : List Str) :
  scopesOverlap left right = scopesOverlap right left
  := by
  apply Bool.eq_iff_iff.mpr
  simp only [scopesOverlap, List.any_eq_true, pathsOverlap]
  constructor
  · rintro ⟨a, ha, b, hb, hab⟩
    exact ⟨b, hb, a, ha, (normsOverlap_comm _ _).trans hab⟩
  · rintro ⟨b, hb, a, ha, hab⟩
    exact ⟨a, ha, b, hb, (normsOverlap_comm _ _).trans hab⟩

end Courier.WorkQueue
