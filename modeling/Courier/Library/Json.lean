import Courier.Library.Text

/-!
# JSON values and their compact encoding

A JSON value as Python's `json` module reads and writes it.  An object is the list of its members in the order of
their keys, so that equal dictionaries are equal lists.  A float is carried as its literal.
-/

/-- A JSON value. -/
inductive Json where
  | null
  | bool (b : Bool)
  | int (i : Int)
  | float (literal : Str)
  | str (s : Str)
  | arr (items : List Json)
  | obj (members : List (Str × Json))

abbrev Members := List (Str × Json)

namespace Json

/-! ### Equality -/

/-- The Boolean equality of values. -/
def beq : Json → Json → Bool
  | .null, .null => true
  | .bool a, .bool b => a == b
  | .int a, .int b => a == b
  | .float a, .float b => a == b
  | .str a, .str b => a == b
  | .arr a, .arr b => beqItems a b
  | .obj a, .obj b => beqMembers a b
  | _, _ => false
where
  beqItems : List Json → List Json → Bool
    | [], [] => true
    | x :: xs, y :: ys => x.beq y && beqItems xs ys
    | _, _ => false
  beqMembers : Members → Members → Bool
    | [], [] => true
    | (k, x) :: xs, (l, y) :: ys => k == l && x.beq y && beqMembers xs ys
    | _, _ => false

mutual

theorem beq_iff : ∀ {x y : Json}, x.beq y = true ↔ x = y
  | x, .null => by cases x <;> simp [beq]
  | x, .bool b => by cases x <;> simp [beq]
  | x, .int i => by cases x <;> simp [beq]
  | x, .float l => by cases x <;> simp [beq]
  | x, .str s => by cases x <;> simp [beq]
  | x, .arr ys => by
    cases x with
    | arr xs => rw [beq, beqItems_iff, Json.arr.injEq]
    | _ => simp [beq]
  | x, .obj ys => by
    cases x with
    | obj xs => rw [beq, beqMembers_iff, Json.obj.injEq]
    | _ => simp [beq]

theorem beqItems_iff : ∀ {xs ys : List Json}, beq.beqItems xs ys = true ↔ xs = ys
  | [], [] => by simp [beq.beqItems]
  | [], y :: ys => by simp [beq.beqItems]
  | x :: xs, [] => by simp [beq.beqItems]
  | x :: xs, y :: ys => by
    simp only [beq.beqItems, Bool.and_eq_true, List.cons.injEq]
    rw [beq_iff, beqItems_iff]

theorem beqMembers_iff : ∀ {xs ys : Members}, beq.beqMembers xs ys = true ↔ xs = ys
  | [], [] => by simp [beq.beqMembers]
  | [], y :: ys => by simp [beq.beqMembers]
  | x :: xs, [] => by simp [beq.beqMembers]
  | (k, x) :: xs, (l, y) :: ys => by
    simp only [beq.beqMembers, Bool.and_eq_true, beq_iff_eq, List.cons.injEq, Prod.mk.injEq]
    rw [beq_iff, beqMembers_iff]

end

instance : DecidableEq Json :=
  fun _ _ => decidable_of_iff _ beq_iff

/-! ### Objects -/

/-- Set a key of an object, keeping the keys in order. -/
def insertMember (k : Str) (v : Json) : Members → Members
  | [] => [(k, v)]
  | (l, w) :: rest =>
      if k = l then (k, v) :: rest
      else if k < l then (k, v) :: (l, w) :: rest
      else (l, w) :: insertMember k v rest

/-- The object with the given members; of two members with one key the later counts. -/
def members (pairs : Members) : Members :=
  pairs.foldl (fun d p => insertMember p.1 p.2 d) []

/-- `d.get(k)`, where `None` and JSON's `null` are one value. -/
def get (d : Members) (k : Str) : Json :=
  (d.lookup k).getD .null

/-- `k in d`. -/
def hasKey (d : Members) (k : Str) : Bool :=
  (d.lookup k).isSome

/-- The string a value is, or the empty string. -/
def asStr : Json → Str
  | .str s => s
  | _ => []

/-- The integer a value is, or zero. -/
def asInt : Json → Int
  | .int i => i
  | _ => 0

/-- `bool(value)`. -/
def truthy : Json → Bool
  | .null => false
  | .bool b => b
  | .int i => i ≠ 0
  | .float literal => (literal.takeWhile fun c => c ≠ 101 && c ≠ 69).any fun c => 49 ≤ c && c ≤ 57
  | .str s => s ≠ []
  | .arr items => items ≠ []
  | .obj d => d ≠ []

def asBool : Json → Bool
  | .bool b => b
  | _ => false

/-- The string a value is, if it is one. -/
def str? : Json → Option Str
  | .str s => some s
  | _ => none

/-- The integer a value is, if it is one. -/
def int? : Json → Option Int
  | .int i => some i
  | _ => none

/-- The members of a value that is an object, or none. -/
def asMembers : Json → Members
  | .obj d => d
  | _ => []

/-- The items of a value that is an array, or none. -/
def asItems : Json → List Json
  | .arr items => items
  | _ => []

@[simp]
theorem asMembers_obj (d : Members) :
  (Json.obj d).asMembers = d
  := rfl

theorem str?_eq_some {v : Json} {s : Str} :
  v.str? = some s ↔ v = .str s
  := by
  cases v <;> simp [str?]

/-- Looking a key up in an object with one key set. -/
theorem lookup_insertMember (k l : Str) (v : Json) (d : Members) :
  (insertMember k v d).lookup l = if l = k then some v else d.lookup l
  := by
  induction d with
  | nil =>
    by_cases h : l = k
    · simp [insertMember, h]
    · have hb : (l == k) = false := by simp [h]
      simp [insertMember, List.lookup_cons, hb, h]
  | cons p d ih =>
    obtain ⟨m, w⟩ := p
    by_cases hkm : k = m
    · subst hkm
      by_cases h : l = k
      · simp [insertMember, h]
      · have hb : (l == k) = false := by simp [h]
        simp [insertMember, List.lookup_cons, hb, h]
    · by_cases hlt : k < m
      · by_cases h : l = k
        · simp [insertMember, hkm, hlt, h]
        · have hb : (l == k) = false := by simp [h]
          simp [insertMember, hkm, hlt, List.lookup_cons, hb, h]
      · by_cases hlm : l = m
        · simp [insertMember, hkm, hlt, hlm, Ne.symm hkm]
        · have hb : (l == m) = false := by simp [hlm]
          simp [insertMember, hkm, hlt, List.lookup_cons, hb, ih]

theorem get_members_of_notMem {k : Str} {pairs : Members} (h : k ∉ pairs.map Prod.fst) :
  get (members pairs) k = .null
  := by
  have key : (members pairs).lookup k = none := by
    induction pairs using List.reverseRecOn with
    | nil => rfl
    | append_singleton pairs p ih =>
      rw [List.map_append, List.mem_append, not_or] at h
      have hne : k ≠ p.1 := by simpa using h.2
      rw [members, List.foldl_concat, lookup_insertMember, if_neg hne]
      exact ih h.1
  rw [get, key]
  rfl

/-! ### Well-formed values -/

/-- The keys of an object are in strictly increasing order. -/
def sortedKeys : Members → Bool
  | [] => true
  | [_] => true
  | (k, _) :: (l, w) :: rest => decide (k < l) && sortedKeys ((l, w) :: rest)

theorem sortedKeys_cons {k : Str} {v : Json} :
  ∀ {d : Members}, sortedKeys ((k, v) :: d) = true ↔
    (∀ p ∈ d, k < p.1) ∧ sortedKeys d = true
  | [] => by simp [sortedKeys]
  | (l, w) :: d => by
    rw [sortedKeys, Bool.and_eq_true, decide_eq_true_iff, sortedKeys_cons]
    constructor
    · rintro ⟨hkl, hl, hd⟩
      refine ⟨?_, hl, hd⟩
      intro p hp
      rcases List.mem_cons.mp hp with rfl | hp
      · exact hkl
      · exact lt_trans hkl (hl p hp)
    · rintro ⟨hk, hl, hd⟩
      exact ⟨hk (l, w) (by simp), hl, hd⟩

theorem insertMember_of_lt {k : Str} {v : Json} :
  ∀ {d : Members}, (∀ p ∈ d, p.1 < k) → insertMember k v d = d ++ [(k, v)]
  | [], _ => rfl
  | (l, w) :: d, h => by
    have hl : l < k := h (l, w) (by simp)
    have hd : ∀ p ∈ d, p.1 < k := fun p hp => h p (List.mem_cons_of_mem _ hp)
    rw [insertMember, if_neg (ne_of_gt hl), if_neg (lt_asymm hl), insertMember_of_lt hd]
    rfl

theorem members_eq_self {d : Members} (h : sortedKeys d = true) :
  members d = d
  := by
  have key : ∀ (d e : Members), sortedKeys d = true → (∀ p ∈ e, ∀ q ∈ d, p.1 < q.1) →
      d.foldl (fun d p => insertMember p.1 p.2 d) e = e ++ d := by
    intro d
    induction d with
    | nil => simp
    | cons q d ih =>
      intro e hd he
      obtain ⟨hq, hd⟩ := sortedKeys_cons.mp hd
      rw [List.foldl_cons, insertMember_of_lt (fun p hp => he p hp q (by simp)), ih _ hd]
      · simp
      · intro p hp r hr
        rcases List.mem_append.mp hp with hp | hp
        · exact he p hp r (List.mem_cons_of_mem _ hr)
        · obtain rfl := List.mem_singleton.mp hp
          exact hq r hr
  apply key d [] h
  simp

theorem mem_insertMember {k : Str} {v : Json} {p : Str × Json} :
  ∀ {d : Members}, p ∈ insertMember k v d → p = (k, v) ∨ p ∈ d
  | [], h => by
    left
    simpa [insertMember] using h
  | (l, w) :: d, h => by
    simp only [insertMember] at h
    split at h
    · rcases List.mem_cons.mp h with h | h
      · left; exact h
      · right; simp [h]
    · split at h
      · rcases List.mem_cons.mp h with h | h
        · left; exact h
        · right; exact h
      · rcases List.mem_cons.mp h with h | h
        · right; simp [h]
        · rcases mem_insertMember h with h | h
          · left; exact h
          · right; simp [h]

/-- Setting a key keeps the keys in order. -/
theorem sortedKeys_insertMember {k : Str} {v : Json} :
  ∀ {d : Members}, sortedKeys d = true → sortedKeys (insertMember k v d) = true
  | [], _ => by simp [insertMember, sortedKeys]
  | (l, w) :: d, h => by
    obtain ⟨hl, hd⟩ := sortedKeys_cons.mp h
    simp only [insertMember]
    split
    · next hkl =>
      subst hkl
      apply sortedKeys_cons.mpr ⟨hl, hd⟩
    · next hkl =>
      split
      · next hlt =>
        apply sortedKeys_cons.mpr
        refine ⟨?_, h⟩
        intro p hp
        rcases List.mem_cons.mp hp with rfl | hp
        · exact hlt
        · exact lt_trans hlt (hl p hp)
      · next hlt =>
        apply sortedKeys_cons.mpr
        refine ⟨?_, sortedKeys_insertMember hd⟩
        intro p hp
        rcases mem_insertMember hp with rfl | hp
        · exact lt_of_le_of_ne (not_lt.mp hlt) (Ne.symm hkl)
        · exact hl p hp

/-! ### The compact encoding -/

/-- A hexadecimal digit, in lower case. -/
def hexDigit (n : Nat) : Nat :=
  if n < 10 then n + 48 else n + 87

/-- A character inside a JSON string. -/
def escape (c : Nat) : Str :=
  if c = 34 then [92, 34]
  else if c = 92 then [92, 92]
  else if c = 10 then [92, 110]
  else if c = 13 then [92, 114]
  else if c = 9 then [92, 116]
  else if c = 12 then [92, 102]
  else if c = 8 then [92, 98]
  else if c < 32 then [92, 117, 48, 48, hexDigit (c / 16), hexDigit (c % 16)]
  else [c]

/-- A JSON string literal. -/
def quote (s : Str) : Str :=
  34 :: (s.flatMap escape ++ [34])

/-- `json.dumps(value, sort_keys=True, separators=(",", ":"), ensure_ascii=False)`. -/
def dumps : Json → Str
  | .null => text "null"
  | .bool true => text "true"
  | .bool false => text "false"
  | .int i => Text.decimal i
  | .float literal => literal
  | .str s => quote s
  | .arr items => 91 :: (dumpsItems items ++ [93])
  | .obj d => 123 :: (dumpsMembers d ++ [125])
where
  dumpsItems : List Json → Str
    | [] => []
    | [x] => x.dumps
    | x :: y :: xs => x.dumps ++ 44 :: dumpsItems (y :: xs)
  dumpsMembers : Members → Str
    | [] => []
    | [(k, x)] => quote k ++ 58 :: x.dumps
    | (k, x) :: (l, y) :: xs => quote k ++ 58 :: (x.dumps ++ 44 :: dumpsMembers ((l, y) :: xs))

end Json
