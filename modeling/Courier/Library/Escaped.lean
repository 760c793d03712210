import Courier.Library.RoundTrip
import Courier.Library.Lines

/-!
# The ASCII encoding of JSON

`dumpsAscii` is the compact encoding in which every character that is not printable ASCII is
escaped.  What is read back of a text is the text with its surrogate pairs fused (`fuse`): a
high surrogate that is directly followed by a low one becomes the character they encode.
-/

namespace Json

open Text Bytes

/-! ### Encoding -/

/-- A code unit as four hexadecimal digits. -/
def hexUnit (c : Nat) : Str :=
  [92, 117, hexDigit (c / 4096), hexDigit (c / 256 % 16), hexDigit (c / 16 % 16), hexDigit (c % 16)]

/-- The first half of the surrogate pair of a character outside the basic plane. -/
def highHalf (c : Nat) : Nat := 0xD800 + (c - 0x10000) / 0x400

/-- The second half of the surrogate pair of a character outside the basic plane. -/
def lowHalf (c : Nat) : Nat := 0xDC00 + (c - 0x10000) % 0x400

/-- A character of the encoding, escaped if it is not ASCII. -/
def asciiPoint (c : Nat) : Str :=
  if c < 127 then [c]
  else if c < 0x10000 then hexUnit c
  else hexUnit (highHalf c) ++ hexUnit (lowHalf c)

/-- `json.dumps(value, sort_keys=True, separators=(",", ":"))`. -/
def dumpsAscii (v : Json) : Str :=
  v.dumps.flatMap asciiPoint

/-- `json.dumps(value, sort_keys=True)`, before what is not ASCII is escaped. -/
def dumpsSpaced : Json → Str
  | .arr items => 91 :: (dumpsItems items ++ [93])
  | .obj d => 123 :: (dumpsMembers d ++ [125])
  | v => v.dumps
where
  dumpsItems : List Json → Str
    | [] => []
    | [x] => x.dumpsSpaced
    | x :: y :: xs => x.dumpsSpaced ++ 44 :: 32 :: dumpsItems (y :: xs)
  dumpsMembers : Members → Str
    | [] => []
    | [(k, x)] => quote k ++ 58 :: 32 :: x.dumpsSpaced
    | (k, x) :: (l, y) :: xs =>
        quote k ++ 58 :: 32 :: (x.dumpsSpaced ++ 44 :: 32 :: dumpsMembers ((l, y) :: xs))

/-! ### Fusing -/

/-- The character a surrogate pair encodes. -/
def fused (high low : Nat) : Nat :=
  0x10000 + (high - 0xD800) * 0x400 + (low - 0xDC00)

/-- The text with its surrogate pairs fused. -/
def fuse : Str → Str
  | [] => []
  | [c] => [c]
  | c :: d :: rest => if isPair c d then fused c d :: fuse rest else c :: fuse (d :: rest)

/-- Somewhere in the text a high surrogate is directly followed by a low one. -/
def hasPair : Str → Bool
  | c :: d :: rest => isPair c d || hasPair (d :: rest)
  | _ => false

variable {s : Str}

theorem fuse_eq_self (h : hasPair s = false) :
  fuse s = s
  := by
  induction s using fuse.induct with
  | case1 => rfl
  | case2 c => rfl
  | case3 c d rest hpair _ =>
    simp [hasPair, hpair] at h
  | case4 c d rest hpair ih =>
    simp only [hasPair, Bool.or_eq_false_iff] at h
    rw [fuse, if_neg hpair, ih h.2]

theorem length_fuse_le (s : Str) :
  (fuse s).length ≤ s.length
  := by
  induction s using fuse.induct with
  | case1 => simp [fuse]
  | case2 c => simp [fuse]
  | case3 c d rest hpair ih =>
    rw [fuse, if_pos hpair]
    simp only [List.length_cons]
    omega
  | case4 c d rest hpair ih =>
    rw [fuse, if_neg hpair]
    simp only [List.length_cons] at ih ⊢
    omega

theorem le_fused (high low : Nat) :
  0x10000 ≤ fused high low
  := by
  unfold fused
  exact le_trans (Nat.le_add_right _ _) (Nat.le_add_right _ _)

theorem isPair_iff {high low : Nat} :
  isPair high low = true ↔
    0xD800 ≤ high ∧ high ≤ 0xDBFF ∧ 0xDC00 ≤ low ∧ low ≤ 0xDFFF
  := by
  simp only [isPair, Bool.and_eq_true, decide_eq_true_eq, and_assoc]

theorem head_fuse {d e : Nat} {rest more : Str} (h : fuse (d :: rest) = e :: more) :
  e = d ∨ 0x10000 ≤ e
  := by
  cases rest with
  | nil =>
    cases h
    exact .inl rfl
  | cons c rest =>
    rw [fuse] at h
    split_ifs at h
    · rw [← (List.cons.inj h).1]
      exact .inr (le_fused d c)
    · exact .inl (List.cons.inj h).1.symm

/-- No pair is left in a fused text. -/
theorem hasPair_fuse (s : Str) :
  hasPair (fuse s) = false
  := by
  induction s using fuse.induct with
  | case1 => rfl
  | case2 c => rfl
  | case3 c d rest hpair ih =>
    rw [fuse, if_pos hpair]
    cases hrest : fuse rest with
    | nil => rfl
    | cons e more =>
      have hbig := le_fused c d
      have hnot : isPair (fused c d) e = false := by
        rw [Bool.eq_false_iff, ne_eq, isPair_iff]
        omega
      rw [hrest] at ih
      rw [hasPair, hnot, ih]
      rfl
  | case4 c d rest hpair ih =>
    rw [fuse, if_neg hpair]
    cases hrest : fuse (d :: rest) with
    | nil => rfl
    | cons e more =>
      have hnot : isPair c e = false := by
        rcases head_fuse hrest with rfl | hbig
        · exact Bool.eq_false_iff.mpr hpair
        · rw [Bool.eq_false_iff, ne_eq, isPair_iff]
          omega
      rw [hrest] at ih
      rw [hasPair, hnot, ih]
      rfl

theorem fuse_eq_self_iff :
  fuse s = s ↔ hasPair s = false
  := by
  constructor
  · intro h
    rw [← h]
    exact hasPair_fuse s
  · exact fuse_eq_self

theorem fuse_fuse (s : Str) :
  fuse (fuse s) = fuse s
  :=
  fuse_eq_self (hasPair_fuse s)

variable {c : Nat}

theorem mem_fuse (h : c ∈ fuse s) :
  c ∈ s ∨ 0x10000 ≤ c
  := by
  induction s using fuse.induct with
  | case1 => exact .inl h
  | case2 c => exact .inl h
  | case3 a b rest hpair ih =>
    rw [fuse, if_pos hpair] at h
    rcases List.mem_cons.mp h with hc | h
    · exact .inr (hc.symm ▸ le_fused a b)
    · rcases ih h with h | h
      · exact .inl (by simp [h])
      · exact .inr h
  | case4 a b rest hpair ih =>
    rw [fuse, if_neg hpair] at h
    rcases List.mem_cons.mp h with rfl | h
    · exact .inl (by simp)
    · rcases ih h with h | h
      · exact .inl (List.mem_cons_of_mem _ h)
      · exact .inr h

theorem fuse_eq_self_of_lt (h : ∀ c ∈ fuse s, c < 0x10000) :
  fuse s = s
  := by
  induction s using fuse.induct with
  | case1 => rfl
  | case2 c => rfl
  | case3 c d rest hpair _ =>
    rw [fuse, if_pos hpair] at h
    exact absurd (h _ (by simp)) (not_lt.mpr (le_fused c d))
  | case4 c d rest hpair ih =>
    rw [fuse, if_neg hpair] at h ⊢
    rw [ih fun e he => h e (List.mem_cons_of_mem _ he)]

theorem hasPair_of_lt (h : ∀ c ∈ s, c < 0xD800) :
  hasPair s = false
  := by
  induction s using hasPair.induct with
  | case1 c d rest ih =>
    have hc := h c (by simp)
    rw [hasPair, ih fun e he => h e (List.mem_cons_of_mem _ he)]
    simp [isPair]
    omega
  | case2 s hnot =>
    unfold hasPair
    split
    · next c d rest => exact absurd rfl (hnot c d rest)
    · rfl

theorem hasPair_of_cons (h : hasPair (c :: s) = false) :
  hasPair s = false
  := by
  cases s with
  | nil => rfl
  | cons d s =>
    rw [hasPair, Bool.or_eq_false_iff] at h
    exact h.2

theorem hasPair_of_append_right {t : Str} :
  ∀ {s : Str}, hasPair (s ++ t) = false → hasPair t = false
  | [], h => h
  | _ :: _, h => hasPair_of_append_right (hasPair_of_cons h)

theorem hasPair_of_append_left {t : Str} :
  ∀ {s : Str}, hasPair (s ++ t) = false → hasPair s = false
  | [], _ => rfl
  | [_], _ => rfl
  | c :: d :: s, h => by
    rw [List.cons_append, List.cons_append, hasPair, Bool.or_eq_false_iff] at h
    rw [hasPair, h.1, hasPair_of_append_left h.2]
    rfl

theorem hasPair_strip (h : hasPair s = false) :
  hasPair (strip s) = false
  := by
  obtain ⟨front, hfront⟩ := List.dropWhile_suffix Text.isSpace (l := s)
  obtain ⟨back, hback⟩ := List.rdropWhile_prefix Text.isSpace (s.dropWhile Text.isSpace)
  rw [← hfront] at h
  have hdrop := hasPair_of_append_right h
  rw [← hback] at hdrop
  exact hasPair_of_append_left hdrop

theorem hasPair_of_encodable (h : Encodable s) :
  hasPair s = false
  := by
  induction s using hasPair.induct with
  | case1 c d rest ih =>
    simp only [Text.Encodable, List.any_cons, Bool.or_eq_false_iff] at h
    obtain ⟨hc, hd, hrest⟩ := h
    rw [hasPair, ih (by simp [Text.Encodable, hd, hrest])]
    simp only [isSurrogate, Bool.and_eq_false_iff, decide_eq_false_iff_not] at hc
    simp [isPair]
    omega
  | case2 s hnot =>
    unfold hasPair
    split
    · next c d rest => exact absurd rfl (hnot c d rest)
    · rfl

/-- A text with a UTF-8 encoding is not fused with what is before it. -/
theorem fuse_append {a b : Str} (hb : Encodable b) :
  fuse (a ++ b) = fuse a ++ b
  := by
  have hself : fuse b = b := fuse_eq_self (hasPair_of_encodable hb)
  induction a using fuse.induct with
  | case1 => exact hself
  | case2 c =>
    cases b with
    | nil => rfl
    | cons d rest =>
      have hd : isSurrogate d = false := (Bool.or_eq_false_iff.mp hb).1
      have hpair : ¬ isPair c d = true := by
        rw [isPair_iff]
        simp only [isSurrogate, Bool.and_eq_false_iff, decide_eq_false_iff_not] at hd
        omega
      change (if isPair c d then _ else c :: fuse (d :: rest)) = c :: d :: rest
      rw [if_neg hpair, hself]
  | case3 c d rest hpair ih =>
    rw [List.cons_append, List.cons_append, fuse, fuse, if_pos hpair, if_pos hpair, ih]
    rfl
  | case4 c d rest hpair ih =>
    rw [List.cons_append, List.cons_append, fuse, fuse, if_neg hpair, if_neg hpair,
      ← List.cons_append, ih]
    rfl

/-! ### Reading strings -/

theorem hexValue_hexDigit {n : Nat} (h : n < 16) :
  hexValue (hexDigit n) = some n
  := by
  revert n
  decide

theorem scanUnits_hexUnit (h : c < 0x10000) (s : Str) :
  scanUnits (hexUnit c ++ s) = consScanned (c, true) (scanUnits s)
  := by
  have hunit : hex4 (hexDigit (c / 4096)) (hexDigit (c / 256 % 16)) (hexDigit (c / 16 % 16))
      (hexDigit (c % 16)) = some c := by
    simp only [hex4, hexValue_hexDigit (show c / 4096 < 16 by omega),
      hexValue_hexDigit (show c / 256 % 16 < 16 by omega),
      hexValue_hexDigit (show c / 16 % 16 < 16 by omega),
      hexValue_hexDigit (show c % 16 < 16 by omega), Option.bind_eq_bind, Option.bind_some,
      Option.pure_def, Option.some.injEq]
    omega
  simp only [hexUnit, List.cons_append, List.nil_append, scanUnits, hunit]

/-- The units a character of an encoded string is read as. -/
inductive Spells : Nat → List (Nat × Bool) → Prop
  | plain {c : Nat} {mark : Bool} : c < 127 → Spells c [(c, mark)]
  | unit {c : Nat} : 127 ≤ c → c < 0x10000 → Spells c [(c, true)]
  | pair {c : Nat} : 0x10000 ≤ c → c < 0x110000 → Spells c [(highHalf c, true), (lowHalf c, true)]

theorem escape_lt {d : Nat} (hc : c < 127) (hd : d ∈ escape c) :
  32 ≤ d ∧ d < 127
  := by
  have hdigit : ∀ n < 16, 32 ≤ hexDigit n ∧ hexDigit n < 127 := by decide
  have hlow := hdigit (c / 16)
  have hhigh := hdigit (c % 16) (Nat.mod_lt _ (by omega))
  unfold escape at hd
  split_ifs at hd <;>
    simp only [List.mem_cons, List.not_mem_nil, or_false] at hd <;> omega

theorem flatMap_asciiPoint (h : ∀ c ∈ s, c < 127) :
  s.flatMap asciiPoint = s
  := by
  induction s with
  | nil => rfl
  | cons c s ih =>
    rw [List.flatMap_cons, ih fun d hd => h d (List.mem_cons_of_mem _ hd), asciiPoint,
      if_pos (h c (by simp))]
    rfl

/-- An encoded character is scanned as its units. -/
theorem scanUnits_asciiPoint (h : c < 0x110000) (s : Str) :
  ∃ units, Spells c units ∧ scanUnits ((escape c).flatMap asciiPoint ++ s) =
    (scanUnits s).map fun p => (units ++ p.1, p.2)
  := by
  rcases lt_or_ge c 127 with hlow | hge
  · obtain ⟨mark, -, hscan⟩ := scanUnits_escape c s
    refine ⟨[(c, mark)], .plain hlow, ?_⟩
    rw [flatMap_asciiPoint fun d hd => (escape_lt hlow hd).2, hscan]
    rfl
  · have hescape : escape c = [c] := by
      unfold escape
      split_ifs <;> first | omega | rfl
    rw [hescape]
    simp only [List.flatMap_cons, List.flatMap_nil, List.append_nil, asciiPoint,
      if_neg (not_lt.mpr hge)]
    split_ifs with hplane
    · exact ⟨_, .unit hge hplane, scanUnits_hexUnit hplane s⟩
    · refine ⟨_, .pair (not_lt.mp hplane) h, ?_⟩
      have hhigh : highHalf c < 0x10000 := by unfold highHalf; omega
      have hlow : lowHalf c < 0x10000 := by unfold lowHalf; omega
      rw [List.append_assoc, scanUnits_hexUnit hhigh, scanUnits_hexUnit hlow]
      cases scanUnits s <;> rfl

theorem halves_bounds (hlow : 0x10000 ≤ c) (hhigh : c < 0x110000) :
  0xD800 ≤ highHalf c ∧ highHalf c ≤ 0xDBFF ∧ 0xDC00 ≤ lowHalf c ∧ lowHalf c ≤ 0xDFFF
  := by
  unfold highHalf lowHalf
  omega

theorem joinPairs_halves (hlow : 0x10000 ≤ c) (hhigh : c < 0x110000)
    (units : List (Nat × Bool)) :
  joinPairs ((highHalf c, true) :: (lowHalf c, true) :: units) = c :: joinPairs units
  := by
  have hpair : isPair (highHalf c) (lowHalf c) = true := by
    obtain ⟨hhigh₁, hhigh₂, hlow₁, hlow₂⟩ := halves_bounds hlow hhigh
    simp [isPair, hhigh₁, hhigh₂, hlow₁, hlow₂]
  have hc : 0x10000 + (highHalf c - 0xD800) * 0x400 + (lowHalf c - 0xDC00) = c := by
    unfold highHalf lowHalf
    omega
  rw [joinPairs, if_pos hpair, hc]

theorem joinPairs_single {mark : Bool} {units : List (Nat × Bool)}
    (h : ∀ d rest, units = (d, true) :: rest → isPair c d = false) :
  joinPairs ((c, mark) :: units) = c :: joinPairs units
  := by
  rw [joinPairs.eq_def]
  split
  · next heq => cases heq
  · next high low rest heq =>
    cases heq
    rw [if_neg (by simp [h low rest rfl])]
  · next heq =>
    cases heq
    rfl

theorem Spells.head {b : Nat} {u : List (Nat × Bool)} (h : Spells b u) {a : Nat}
    (hpair : isPair a b = false) (rest : List (Nat × Bool)) :
  ∀ d more, u ++ rest = (d, true) :: more → isPair a d = false
  := by
  intro d more heq
  cases h with
  | plain | unit =>
    simp only [List.cons_append, List.cons.injEq, Prod.mk.injEq] at heq
    rw [← heq.1.1, hpair]
  | pair hlow hhigh =>
    simp only [List.cons_append, List.cons.injEq, Prod.mk.injEq] at heq
    have hbound := (halves_bounds hlow hhigh).2.1
    have hnot : ¬ 0xDC00 ≤ highHalf b := by omega
    rw [← heq.1.1]
    simp [isPair, hnot]

theorem Spells.surrogate {u : List (Nat × Bool)} (h : Spells c u) (hlow : 0xD800 ≤ c)
    (hhigh : c ≤ 0xDFFF) :
  u = [(c, true)]
  := by
  cases h with
  | plain => omega
  | unit => rfl
  | pair => omega

/-- The units of an encoded text are joined to the fused text. -/
theorem joinPairs_spells {units : List (List (Nat × Bool))}
    (h : List.Forall₂ Spells s units) :
  joinPairs units.flatten = fuse s
  := by
  induction s using fuse.induct generalizing units with
  | case1 =>
    cases h
    rfl
  | case2 c =>
    obtain ⟨u, us, hu, hus, rfl⟩ := List.forall₂_cons_left_iff.mp h
    cases hus
    cases hu with
    | plain | unit => exact joinPairs_single (by simp)
    | pair hlow hhigh => exact joinPairs_halves hlow hhigh []
  | case3 a b rest hpair ih =>
    obtain ⟨u, us, hu, hus, rfl⟩ := List.forall₂_cons_left_iff.mp h
    obtain ⟨v, vs, hv, hvs, rfl⟩ := List.forall₂_cons_left_iff.mp hus
    have hrange := hpair
    simp only [isPair, Bool.and_eq_true, decide_eq_true_eq] at hrange
    obtain rfl := hu.surrogate (by omega) (by omega)
    obtain rfl := hv.surrogate (by omega) (by omega)
    rw [fuse, if_pos hpair, ← ih hvs]
    simp only [List.flatten_cons, List.cons_append, List.nil_append]
    rw [joinPairs, if_pos hpair]
    rfl
  | case4 a b rest hpair ih =>
    obtain ⟨u, us, hu, hus, rfl⟩ := List.forall₂_cons_left_iff.mp h
    have hrest := ih hus
    obtain ⟨v, vs, hv, hvs, rfl⟩ := List.forall₂_cons_left_iff.mp hus
    rw [fuse, if_neg hpair, ← hrest]
    rw [List.flatten_cons]
    cases hu with
    | plain | unit => exact joinPairs_single (hv.head (by simpa using hpair) _)
    | pair hlow hhigh => exact joinPairs_halves hlow hhigh _

theorem scanUnits_quoteAscii (h : ∀ c ∈ s, c < 0x110000) (rest : Str) :
  ∃ units, List.Forall₂ Spells s units ∧
    scanUnits ((s.flatMap escape).flatMap asciiPoint ++ 34 :: rest) = some (units.flatten, rest)
  := by
  induction s with
  | nil => exact ⟨[], .nil, rfl⟩
  | cons c s ih =>
    obtain ⟨units, hspells, hscan⟩ := ih fun d hd => h d (List.mem_cons_of_mem _ hd)
    obtain ⟨u, hu, hc⟩ := scanUnits_asciiPoint (h c (by simp))
      ((s.flatMap escape).flatMap asciiPoint ++ 34 :: rest)
    refine ⟨u :: units, .cons hu hspells, ?_⟩
    rw [List.flatMap_cons, List.flatMap_append, List.append_assoc, hc, hscan]
    rfl

theorem scanString_quoteAscii (h : ∀ c ∈ s, c < 0x110000) (rest : Str) :
  scanString ((s.flatMap escape).flatMap asciiPoint ++ 34 :: rest) = some (fuse s, rest)
  := by
  obtain ⟨units, hspells, hscan⟩ := scanUnits_quoteAscii h rest
  rw [scanString, hscan, Option.map_some, joinPairs_spells hspells]

/-! ### Reading values -/

theorem bounds_of_mem_takeWhile (h : c ∈ s.takeWhile isDigit) :
  32 ≤ c ∧ c < 127
  := by
  have hdigit := List.mem_takeWhile_imp h
  simp only [isDigit, Bool.and_eq_true, decide_eq_true_eq] at hdigit
  omega

theorem bounds_of_scanSign {signs : Str} (hsigns : ∀ d ∈ signs, 32 ≤ d ∧ d < 127)
    (h : c ∈ (scanSign signs s).1) :
  32 ≤ c ∧ c < 127
  := by
  cases s with
  | nil => cases h
  | cons d t =>
    simp only [scanSign] at h
    split_ifs at h with hd
    · rw [List.mem_singleton.mp h]
      exact hsigns d hd
    · cases h

theorem bounds_of_scanInt {p : Str × Str} (h : scanInt s = some p) (hc : c ∈ p.1) :
  32 ≤ c ∧ c < 127
  := by
  obtain ⟨u, hunsigned, rfl⟩ := Option.map_eq_some_iff.mp h
  rcases List.mem_append.mp hc with hc | hc
  · exact bounds_of_scanSign (by decide) hc
  · unfold scanUnsigned at hunsigned
    split at hunsigned
    · cases hunsigned
    · split_ifs at hunsigned
      · cases hunsigned
        rw [List.mem_singleton.mp hc]
        decide
      · cases hunsigned
        exact bounds_of_mem_takeWhile hc

theorem bounds_of_scanFraction (hc : c ∈ (scanFraction s).1) :
  32 ≤ c ∧ c < 127
  := by
  unfold scanFraction at hc
  split at hc
  · cases hc
  · split_ifs at hc
    · rcases List.mem_cons.mp hc with rfl | hc
      · decide
      · exact bounds_of_mem_takeWhile hc
    · cases hc

theorem bounds_of_scanExponent (hc : c ∈ (scanExponent s).1) :
  32 ≤ c ∧ c < 127
  := by
  unfold scanExponent at hc
  split at hc
  · cases hc
  · dsimp only at hc
    split_ifs at hc with he
    · rcases List.mem_cons.mp hc with rfl | hc
      · rcases he.1 with rfl | rfl <;> decide
      · rcases List.mem_append.mp hc with hc | hc
        · exact bounds_of_scanSign (by decide) hc
        · exact bounds_of_mem_takeWhile hc
    · cases hc

theorem bounds_of_isFloat {literal : Str} (h : isFloat literal = true) (hc : c ∈ literal) :
  32 ≤ c ∧ c < 127
  := by
  have hscan : scanNumber literal = some (.float literal, []) := of_decide_eq_true h
  simp only [scanNumber] at hscan
  cases hint : scanInt literal with
  | none => simp [hint] at hscan
  | some p =>
    simp only [hint] at hscan
    split_ifs at hscan with hnone
    · simp at hscan
    · simp only [Option.some.injEq, Prod.mk.injEq, Json.float.injEq] at hscan
      rw [← hscan.1] at hc
      rcases List.mem_append.mp hc with hc | hc
      · rcases List.mem_append.mp hc with hc | hc
        · exact bounds_of_scanInt hint hc
        · exact bounds_of_scanFraction hc
      · exact bounds_of_scanExponent hc

def escapeAscii (s : Str) : Str :=
  (s.flatMap escape).flatMap asciiPoint

theorem halves_fused {high low : Nat} (h : isPair high low = true) :
  highHalf (fused high low) = high ∧ lowHalf (fused high low) = low
  := by
  have hbounds := isPair_iff.mp h
  unfold highHalf lowHalf fused
  omega

/-- A text and its fused text have one ASCII encoding. -/
theorem escapeAscii_fuse (s : Str) :
  escapeAscii (fuse s) = escapeAscii s
  := by
  have hescape : ∀ c, 93 ≤ c → escape c = [c] := by
    intro c hc
    unfold escape
    repeat rw [if_neg (by omega)]
  induction s using fuse.induct with
  | case1 => rfl
  | case2 c => rfl
  | case3 c d rest hpair ih =>
    obtain ⟨hhigh, hlow⟩ := halves_fused hpair
    have hbounds := isPair_iff.mp hpair
    have hfused := le_fused c d
    have hasciiFused : asciiPoint (fused c d) = hexUnit c ++ hexUnit d := by
      rw [asciiPoint, if_neg (by omega), if_neg (by omega), hhigh, hlow]
    have hascii : asciiPoint c = hexUnit c ∧ asciiPoint d = hexUnit d := by
      constructor
      · rw [asciiPoint, if_neg (by omega), if_pos (by omega)]
      · rw [asciiPoint, if_neg (by omega), if_pos (by omega)]
    unfold escapeAscii at ih ⊢
    rw [fuse, if_pos hpair, List.flatMap_cons, List.flatMap_cons, List.flatMap_cons,
      hescape _ (by omega), hescape c (by omega), hescape d (by omega)]
    simp only [List.flatMap_append, List.flatMap_cons, List.flatMap_nil, List.append_nil, ih,
      hasciiFused, hascii, List.append_assoc]
  | case4 c d rest hpair ih =>
    unfold escapeAscii at ih ⊢
    rw [fuse, if_neg hpair, List.flatMap_cons, List.flatMap_cons, List.flatMap_append,
      List.flatMap_append, ih]

mutual

theorem dumpsAscii_eq_render :
  ∀ {v : Json}, v.wf = true → v.dumps.flatMap asciiPoint = v.render escapeAscii
  | .null, _ | .bool true, _ | .bool false, _ => rfl
  | .int i, _ => flatMap_asciiPoint fun c hc => by
    rcases mem_decimal hc with rfl | hdigit
    · decide
    · simp only [isDigit, Bool.and_eq_true, decide_eq_true_eq] at hdigit
      omega
  | .float literal, h => flatMap_asciiPoint fun c hc => (bounds_of_isFloat h hc).2
  | .str s, _ => by
    rw [dumps, quote, List.flatMap_cons, List.flatMap_append]
    rfl
  | .arr items, h => by
    rw [dumps, render, List.flatMap_cons, List.flatMap_append, dumpsItemsAscii_eq_render h]
    rfl
  | .obj d, h => by
    simp only [wf, Bool.and_eq_true] at h
    rw [dumps, render, List.flatMap_cons, List.flatMap_append, dumpsMembersAscii_eq_render h.2]
    rfl

theorem dumpsItemsAscii_eq_render :
  ∀ {items : List Json}, wf.wfItems items = true →
    (dumps.dumpsItems items).flatMap asciiPoint = render.renderItems escapeAscii items
  | [], _ => rfl
  | [x], h => by
    simp only [wf.wfItems, Bool.and_eq_true] at h
    rw [dumps.dumpsItems, render.renderItems, dumpsAscii_eq_render h.1]
  | x :: y :: xs, h => by
    rw [wf.wfItems, Bool.and_eq_true] at h
    rw [dumps.dumpsItems, render.renderItems, List.flatMap_append, List.flatMap_cons,
      dumpsAscii_eq_render h.1, dumpsItemsAscii_eq_render h.2]
    rfl

theorem dumpsMembersAscii_eq_render :
  ∀ {d : Members}, wf.wfMembers d = true →
    (dumps.dumpsMembers d).flatMap asciiPoint = render.renderMembers escapeAscii d
  | [], _ => rfl
  | [(k, x)], h => by
    simp only [wf.wfMembers, Bool.and_eq_true] at h
    simp only [dumps.dumpsMembers, render.renderMembers, quote, List.flatMap_append,
      List.flatMap_cons, dumpsAscii_eq_render h.1, escapeAscii,
      List.append_assoc, List.cons_append, show asciiPoint 34 = [34] from rfl,
      show asciiPoint 58 = [58] from rfl, List.nil_append]
  | (k, x) :: (l, y) :: d, h => by
    rw [wf.wfMembers, Bool.and_eq_true] at h
    rw [dumps.dumpsMembers, render.renderMembers]
    simp only [quote, List.flatMap_append,
      List.flatMap_cons, dumpsAscii_eq_render h.1, dumpsMembersAscii_eq_render h.2, escapeAscii,
      List.append_assoc, List.cons_append, show asciiPoint 34 = [34] from rfl,
      show asciiPoint 58 = [58] from rfl, show asciiPoint 44 = [44] from rfl, List.nil_append]

end

/-- A text of the language without surrogate pairs. -/
def PlainText (s : Str) : Prop :=
  (∀ c ∈ s, c < 0x110000) ∧ hasPair s = false

instance (s : Str) : Decidable (PlainText s) :=
  inferInstanceAs (Decidable (_ ∧ _))

theorem PlainText.strip (h : PlainText s) :
  PlainText (Text.strip s)
  := ⟨fun c hc => h.1 c (mem_of_mem_strip hc), hasPair_strip h.2⟩

theorem scans_escapeAscii :
  Scans escapeAscii PlainText
  := by
  intro s rest hs
  rw [escapeAscii, scanString_quoteAscii hs.1, fuse_eq_self hs.2]

theorem dumpsAscii_injective {v w : Json} (hv : v.wf = true) (hw : w.wf = true)
    (hpv : v.EveryText PlainText) (hpw : w.EveryText PlainText) (h : v.dumpsAscii = w.dumpsAscii) :
  v = w
  := by
  rw [dumpsAscii, dumpsAscii, dumpsAscii_eq_render hv, dumpsAscii_eq_render hw] at h
  exact render_injective scans_escapeAscii hv hw hpv hpw h

/-! ### Objects of texts -/

/-- An object of texts. -/
def texts (d : List (Str × Str)) : Members :=
  d.map fun p => (p.1, .str p.2)

/-- The texts of an object, fused. -/
def fuseAll (d : List (Str × Str)) : List (Str × Str) :=
  d.map fun p => (p.1, fuse p.2)

/-- A text of the language: its characters are code points. -/
def IsText (s : Str) : Prop :=
  ∀ c ∈ s, c < 0x110000

instance (s : Str) : Decidable (IsText s) :=
  inferInstanceAs (Decidable (∀ c ∈ s, _))

theorem isText_fuse (h : IsText s) :
  IsText (fuse s)
  := by
  induction s using fuse.induct with
  | case1 => exact h
  | case2 c => exact h
  | case3 c d rest hpair ih =>
    have hbounds := isPair_iff.mp hpair
    have hfused : fused c d < 0x110000 := by
      unfold fused
      omega
    rw [fuse, if_pos hpair]
    exact List.forall_mem_cons.mpr ⟨hfused, ih fun e he => h e (by simp [he])⟩
  | case4 c d rest hpair ih =>
    rw [fuse, if_neg hpair]
    exact List.forall_mem_cons.mpr ⟨h c (by simp), ih fun e he => h e (by simp [he])⟩

theorem plainText_fuse (h : IsText s) :
  PlainText (fuse s)
  := ⟨isText_fuse h, hasPair_fuse s⟩

theorem flatMap_quote (s : Str) :
  (quote s).flatMap asciiPoint = 34 :: ((s.flatMap escape).flatMap asciiPoint ++ [34])
  := by
  rw [quote, List.flatMap_cons, List.flatMap_append]
  rfl

theorem sortedKeys_fuseAll :
  ∀ {d : List (Str × Str)}, sortedKeys (texts (fuseAll d)) = sortedKeys (texts d)
  | [] => rfl
  | [p] => rfl
  | p :: q :: d => by
    have hd := sortedKeys_fuseAll (d := q :: d)
    simp only [texts, fuseAll, List.map_cons] at hd
    simp only [texts, fuseAll, List.map_cons, sortedKeys, hd]

/-! ### The encoding is printable -/

theorem printable_hexUnit (h : c < 0x10000) :
  Printable (hexUnit c)
  := by
  have hdigit : ∀ n < 16, 32 ≤ hexDigit n ∧ hexDigit n < 127 := by decide
  have h₁ := hdigit (c / 4096) (by omega)
  have h₂ := hdigit (c / 256 % 16) (by omega)
  have h₃ := hdigit (c / 16 % 16) (by omega)
  have h₄ := hdigit (c % 16) (by omega)
  intro d hd
  simp only [hexUnit, List.mem_cons, List.not_mem_nil, or_false] at hd
  omega

theorem printable_asciiPoint (hlow : 32 ≤ c) (hhigh : c < 0x110000) :
  Printable (asciiPoint c)
  := by
  unfold asciiPoint
  split_ifs with hascii hplane
  · intro d hd
    rw [List.mem_singleton.mp hd]
    exact ⟨hlow, hascii⟩
  · exact printable_hexUnit hplane
  · obtain ⟨-, hhigh₂, -, hlow₂⟩ := halves_bounds (not_lt.mp hplane) hhigh
    intro d hd
    rcases List.mem_append.mp hd with hd | hd
    · exact printable_hexUnit (by omega) d hd
    · exact printable_hexUnit (by omega) d hd

theorem bounds_of_mem_quote (h : IsText s) (hc : c ∈ quote s) :
  32 ≤ c ∧ c < 0x110000
  := by
  rw [quote, List.mem_cons, List.mem_append, List.mem_flatMap, List.mem_singleton] at hc
  rcases hc with rfl | ⟨d, hd, hc⟩ | rfl
  · decide
  · rcases lt_or_ge d 127 with hlow | hge
    · obtain ⟨hc₁, hc₂⟩ := escape_lt hlow hc
      exact ⟨hc₁, by omega⟩
    · have hescape : escape d = [d] := by
        unfold escape
        split_ifs <;> first | omega | rfl
      rw [hescape, List.mem_singleton] at hc
      exact ⟨by omega, hc ▸ h d hd⟩
  · decide

theorem printable_escapeAscii (h : IsText s) :
  Printable (escapeAscii s)
  := by
  intro c hc
  obtain ⟨d, hd, hc⟩ := List.mem_flatMap.mp hc
  have hquote : d ∈ quote s := by
    rw [quote, List.mem_cons, List.mem_append]
    exact .inr (.inl hd)
  obtain ⟨hlow, hhigh⟩ := bounds_of_mem_quote h hquote
  exact printable_asciiPoint hlow hhigh c hc

theorem strip_dumpsAscii_obj (d : Members) :
  strip (dumpsAscii (.obj d)) = dumpsAscii (.obj d)
  := by
  have hbraces : dumpsAscii (.obj d) = 123 :: ((dumps.dumpsMembers d).flatMap asciiPoint ++ [125]) := by
    rw [dumpsAscii, dumps, List.flatMap_cons, List.flatMap_append]
    rfl
  rw [hbraces]
  exact strip_between rfl rfl

theorem dumpsAscii_obj (d : Members) :
  ∃ s, dumpsAscii (.obj d) = 123 :: s
  := ⟨_, rfl⟩

end Json
