import Courier.Library.Loads
import Mathlib.Data.List.TakeWhile

/-!
# Reading back what was written

A text denotes a value if it has the tokens of the value in their order, with any white space between
them.  Whatever denotes a value is read as that value (`loads_of_denotes`).  The encoding of a well-formed
value denotes it; hence `loads` inverts `dumps`.
-/

namespace Json

open Text

/-! ### Well-formed values -/

def isFloat (literal : Str) : Bool :=
  decide (scanNumber literal = some (.float literal, []))

/-- The literals of a value are floats and the keys of its objects are in order. -/
def wf : Json → Bool
  | .float literal => isFloat literal
  | .arr items => wfItems items
  | .obj d => sortedKeys d && wfMembers d
  | _ => true
where
  wfItems : List Json → Bool
    | [] => true
    | x :: xs => x.wf && wfItems xs
  wfMembers : Members → Bool
    | [] => true
    | (_, x) :: xs => x.wf && wfMembers xs

theorem wf_of_lookup {k : Str} {v : Json} :
  ∀ {d : Members}, wf.wfMembers d = true → d.lookup k = some v → v.wf = true
  | [], _, hl => by simp at hl
  | (l, w) :: d, h, hl => by
    simp only [wf.wfMembers, Bool.and_eq_true] at h
    by_cases hkl : k = l
    · subst hkl
      simp only [List.lookup_cons_self, Option.some.injEq] at hl
      rw [← hl]
      exact h.1
    · have hb : (k == l) = false := by simp [hkl]
      simp only [List.lookup_cons, hb] at hl
      apply wf_of_lookup h.2 hl

theorem wf_get {d : Members} (h : (Json.obj d).wf = true) (k : Str) :
  (get d k).wf = true
  := by
  simp only [wf, Bool.and_eq_true] at h
  unfold get
  cases hl : d.lookup k with
  | none => rfl
  | some v => exact wf_of_lookup h.2 hl

theorem wf_arr {items : List Json} :
  (Json.arr items).wf = true ↔ ∀ a ∈ items, a.wf = true
  := by
  simp only [wf]
  induction items with
  | nil => simp [wf.wfItems]
  | cons a items ih => simp [wf.wfItems, ih]

/-! ### Strings -/

variable {c : Nat}

theorem hex4_hexDigit (h : c < 32) :
  hex4 48 48 (hexDigit (c / 16)) (hexDigit (c % 16)) = some c
  := by
  revert c
  decide

/-- The marks of scanned units are harmless: no marked unit is a surrogate. -/
def Plain (units : List (Nat × Bool)) : Prop :=
  ∀ u ∈ units, u.2 = true → u.1 < 32

theorem joinPairs_plain {units : List (Nat × Bool)} (h : Plain units) :
  joinPairs units = units.map Prod.fst
  := by
  induction units using joinPairs.induct with
  | case1 => rfl
  | case2 high low rest hpair ih =>
    have hhigh := h (high, true) (by simp) rfl
    simp [isPair] at hpair
    omega
  | case3 high low rest hpair ih =>
    rw [joinPairs, if_neg hpair, ih fun u hu => h u (List.mem_cons_of_mem _ hu)]
    rfl
  | case4 c mark rest hnot ih =>
    rw [joinPairs, ih fun u hu => h u (List.mem_cons_of_mem _ hu)]
    · rfl
    · exact hnot

theorem scanUnits_escape (c : Nat) (s : Str) :
  ∃ mark : Bool, (mark = true → c < 32) ∧
    scanUnits (escape c ++ s) = consScanned (c, mark) (scanUnits s)
  := by
  by_cases h34 : c = 34
  · exact ⟨false, by simp, by subst h34; rfl⟩
  by_cases h92 : c = 92
  · exact ⟨false, by simp, by subst h92; rfl⟩
  by_cases h10 : c = 10
  · exact ⟨false, by simp, by subst h10; rfl⟩
  by_cases h13 : c = 13
  · exact ⟨false, by simp, by subst h13; rfl⟩
  by_cases h9 : c = 9
  · exact ⟨false, by simp, by subst h9; rfl⟩
  by_cases h12 : c = 12
  · exact ⟨false, by simp, by subst h12; rfl⟩
  by_cases h8 : c = 8
  · exact ⟨false, by simp, by subst h8; rfl⟩
  by_cases h32 : c < 32
  · use true, fun _ => h32
    simp only [escape, h34, h92, h10, h13, h9, h12, h8, h32, if_true, if_false,
      List.cons_append, List.nil_append, scanUnits, hex4_hexDigit h32]
  · use false, by simp
    simp only [escape, h34, h92, h10, h13, h9, h12, h8, h32, if_false, List.cons_append,
      List.nil_append]
    rw [scanUnits.eq_def]
    split <;> simp_all

theorem scanUnits_quote (s rest : Str) :
  ∃ units, Plain units ∧ units.map Prod.fst = s ∧
    scanUnits (s.flatMap escape ++ 34 :: rest) = some (units, rest)
  := by
  induction s with
  | nil => exact ⟨[], by simp [Plain], rfl, rfl⟩
  | cons c s ih =>
    obtain ⟨units, hplain, hs, hscan⟩ := ih
    obtain ⟨mark, hmark, hc⟩ := scanUnits_escape c (s.flatMap escape ++ 34 :: rest)
    use (c, mark) :: units
    refine ⟨?_, by simp [hs], ?_⟩
    · intro u hu
      rcases List.mem_cons.mp hu with rfl | hu
      · exact hmark
      · exact hplain u hu
    · rw [List.flatMap_cons, List.append_assoc, hc, hscan]
      rfl

theorem scanString_quote (s rest : Str) :
  scanString (s.flatMap escape ++ 34 :: rest) = some (s, rest)
  := by
  obtain ⟨units, hplain, hs, hscan⟩ := scanUnits_quote s rest
  rw [scanString, hscan, Option.map_some, joinPairs_plain hplain, hs]

/-! ### Numbers -/

/-- The text does not continue a number. -/
def Stops (s : Str) : Prop :=
  ∀ c t, s = c :: t → isDigit c = false ∧ c ≠ 46 ∧ c ≠ 101 ∧ c ≠ 69 ∧ c ≠ 43 ∧ c ≠ 45

theorem stops_nil :
  Stops []
  := by
  intro c t h
  cases h

variable {s : Str}

theorem stops_cons (h : c = 44 ∨ c = 93 ∨ c = 125) :
  Stops (c :: s)
  := by
  intro c' t hc
  obtain ⟨rfl, rfl⟩ := List.cons.inj hc
  rcases h with rfl | rfl | rfl <;> decide

theorem span_append {rest : Str} (h : Stops rest) :
  ∀ s : Str, (s ++ rest).takeWhile isDigit = s.takeWhile isDigit ∧
    (s ++ rest).dropWhile isDigit = s.dropWhile isDigit ++ rest
  | [] => by
    cases rest with
    | nil => simp
    | cons c t => simp [(h c t rfl).1]
  | c :: s => by
    obtain ⟨htake, hdrop⟩ := span_append h s
    by_cases hc : isDigit c = true
    · simp [hc, htake, hdrop]
    · simp [hc]

theorem scanSign_append {signs : List Nat} {rest : Str} (h : Stops rest)
    (hsigns : ∀ c ∈ signs, c = 43 ∨ c = 45) (s : Str) :
  scanSign signs (s ++ rest) = ((scanSign signs s).1, (scanSign signs s).2 ++ rest)
  := by
  cases s with
  | nil =>
    cases rest with
    | nil => rfl
    | cons c t =>
      obtain ⟨-, -, -, -, hplus, hminus⟩ := h c t rfl
      have hc : c ∉ signs := by
        intro hc
        rcases hsigns c hc with rfl | rfl
        · exact hplus rfl
        · exact hminus rfl
      simp [scanSign, hc]
  | cons c t =>
    simp only [List.cons_append, scanSign]
    split <;> rfl

variable {rest : Str}

theorem scanUnsigned_append {i r : Str} (h : Stops rest)
    (hs : scanUnsigned s = some (i, r)) :
  scanUnsigned (s ++ rest) = some (i, r ++ rest)
  := by
  obtain ⟨htake, hdrop⟩ := span_append h s
  cases s with
  | nil => simp [scanUnsigned] at hs
  | cons c t =>
    simp only [List.cons_append] at htake hdrop
    simp only [scanUnsigned, List.cons_append, htake, hdrop] at hs ⊢
    split at hs
    · next hc =>
      cases hs
      rw [if_pos hc]
    · next hc =>
      rw [if_neg hc]
      split at hs
      · next hd =>
        cases hs
        rw [if_pos hd]
      · cases hs

theorem scanInt_append {i r : Str} (h : Stops rest) (hs : scanInt s = some (i, r)) :
  scanInt (s ++ rest) = some (i, r ++ rest)
  := by
  simp only [scanInt, Option.map_eq_some_iff] at hs
  obtain ⟨⟨u, v⟩, huv, heq⟩ := hs
  cases heq
  simp only [scanInt, @scanSign_append [45] rest h (by simp), scanUnsigned_append h huv,
    Option.map_some]

theorem scanFraction_append (h : Stops rest) (s : Str) :
  scanFraction (s ++ rest) = ((scanFraction s).1, (scanFraction s).2 ++ rest)
  := by
  cases s with
  | nil =>
    cases rest with
    | nil => rfl
    | cons c t =>
      obtain ⟨-, hdot, -⟩ := h c t rfl
      simp [scanFraction, hdot]
  | cons c t =>
    obtain ⟨htake, hdrop⟩ := span_append h t
    simp only [List.cons_append, scanFraction, htake, hdrop]
    split <;> rfl

theorem scanExponent_append (h : Stops rest) (s : Str) :
  scanExponent (s ++ rest) = ((scanExponent s).1, (scanExponent s).2 ++ rest)
  := by
  cases s with
  | nil =>
    cases rest with
    | nil => rfl
    | cons c t =>
      obtain ⟨-, -, he, hE, -⟩ := h c t rfl
      simp [scanExponent, he, hE]
  | cons c t =>
    obtain ⟨htake, hdrop⟩ := span_append h (scanSign [43, 45] t).2
    simp only [List.cons_append, scanExponent, @scanSign_append [43, 45] rest h (by simp),
      htake, hdrop]
    split <;> rfl

theorem scanNumber_append {literal : Str} (h : Stops rest)
    (hs : scanNumber s = some (.float literal, [])) :
  scanNumber (s ++ rest) = some (.float literal, rest)
  := by
  unfold scanNumber at hs ⊢
  cases hi : scanInt s with
  | none => simp [hi] at hs
  | some p =>
    obtain ⟨i, r⟩ := p
    simp only [hi, scanInt_append h hi, scanFraction_append h, scanExponent_append h] at hs ⊢
    split at hs
    · simp at hs
    · next hne =>
      simp only [Option.some.injEq, Prod.mk.injEq, Json.float.injEq] at hs
      rw [if_neg hne, hs.1, hs.2]
      rfl

theorem natDecimal_cons (n : Nat) :
  ∃ c t, natDecimal n = c :: t ∧ isDigit c = true
  := by
  cases h : natDecimal n with
  | nil => exact absurd h (natDecimal_ne_nil n)
  | cons c t =>
    refine ⟨c, t, rfl, ?_⟩
    apply @isDigit_of_mem_natDecimal n
    simp [h]

theorem span_natDecimal (n : Nat) :
  (natDecimal n).takeWhile isDigit = natDecimal n ∧ (natDecimal n).dropWhile isDigit = []
  := by
  constructor
  · rw [List.takeWhile_eq_self_iff]
    intro c hc
    apply isDigit_of_mem_natDecimal hc
  · rw [List.dropWhile_eq_nil_iff]
    intro c hc
    apply isDigit_of_mem_natDecimal hc

theorem scanUnsigned_natDecimal (n : Nat) :
  scanUnsigned (natDecimal n) = some (natDecimal n, [])
  := by
  obtain ⟨htake, hdrop⟩ := span_natDecimal n
  obtain ⟨c, t, hct, hc⟩ := natDecimal_cons n
  by_cases hzero : c = 48
  · have hn : n = 0 := by
      by_contra hn
      apply head_natDecimal hn hct hzero
    subst hn
    rfl
  · rw [hct] at htake hdrop ⊢
    rw [scanUnsigned, if_neg hzero, if_pos hc, htake, hdrop]

theorem scanInt_decimal (i : Int) :
  scanInt (decimal i) = some (decimal i, [])
  := by
  cases i with
  | ofNat n =>
    obtain ⟨c, t, hct, hc⟩ := natDecimal_cons n
    have hminus : c ≠ 45 := by
      rintro rfl
      simp [isDigit] at hc
    have h := scanUnsigned_natDecimal n
    simp only [decimal]
    rw [hct] at h ⊢
    simp [scanInt, scanSign, hminus, h]
  | negSucc n => simp [decimal, scanInt, scanSign, scanUnsigned_natDecimal]

theorem toInt_decimal (i : Int) :
  toInt (decimal i) = i
  := by
  cases i with
  | ofNat n =>
    obtain ⟨c, t, hct, hc⟩ := natDecimal_cons n
    have hminus : c ≠ 45 := by
      rintro rfl
      simp [isDigit] at hc
    have h := ofDigits_natDecimal n
    simp only [decimal]
    rw [hct] at h ⊢
    simp [toInt, hminus, h]
  | negSucc n =>
    simp only [decimal, toInt, ofDigits_natDecimal]
    omega

theorem scanNumber_decimal (h : Stops rest) (i : Int) :
  scanNumber (decimal i ++ rest) = some (.int i, rest)
  := by
  have hf : scanFraction rest = ([], rest) := by
    cases rest with
    | nil => rfl
    | cons c t =>
      obtain ⟨-, hdot, -⟩ := h c t rfl
      simp [scanFraction, hdot]
  have he : scanExponent rest = ([], rest) := by
    cases rest with
    | nil => rfl
    | cons c t =>
      obtain ⟨-, -, he, hE, -⟩ := h c t rfl
      simp [scanExponent, he, hE]
  simp only [scanNumber, scanInt_append h (scanInt_decimal i), List.nil_append, hf, he]
  simp [toInt_decimal]

variable {t : Str}

theorem readValue_number {n : Nat} (h : c = 45 ∨ isDigit c = true) :
  readValue (n + 1) (c :: t) = scanNumber (c :: t)
  := by
  have hc : c = 45 ∨ (48 ≤ c ∧ c ≤ 57) := by simpa [isDigit] using h
  simp only [readValue]
  split <;> simp_all

theorem head_of_scanNumber {r : Json × Str} (h : scanNumber s = some r) :
  ∃ c t, s = c :: t ∧ (c = 45 ∨ isDigit c = true)
  := by
  cases s with
  | nil => simp [scanNumber, scanInt, scanSign, scanUnsigned] at h
  | cons c t =>
    refine ⟨c, t, rfl, ?_⟩
    by_cases hminus : c = 45
    · left; exact hminus
    · right
      by_contra hc
      have hzero : c ≠ 48 := by
        rintro rfl
        simp [isDigit] at hc
      simp [scanNumber, scanInt, scanSign, scanUnsigned, hminus, hzero, hc] at h

/-! ### Tokens and values -/

/-- White space between tokens. -/
def Gap (s : Str) : Prop :=
  ∀ c ∈ s, isWhitespace c = true

theorem gap_nil :
  Gap []
  := by
  simp [Gap]

theorem gap_blank :
  Gap [32]
  := by
  simp [Gap, isWhitespace]

def DenotesText (t s : Str) : Prop :=
  ∀ rest, scanString (t ++ 34 :: rest) = some (s, rest)

/-- The text is read as a value without a look inside. -/
structure Word (t : Str) (v : Json) : Prop where
  head : ∃ c u, t = c :: u ∧ isWhitespace c = false ∧ c ≠ 93
  read : ∀ fuel rest, Stops rest → readValue (fuel + 1) (t ++ rest) = some (v, rest)

mutual

/-- The text denotes the value. -/
inductive Denotes : Str → Json → Prop
  | word {t : Str} {v : Json} : Word t v → Denotes t v
  | arr {a t : Str} {xs : List Json} : Gap a → DenotesItems t xs → Denotes (91 :: (a ++ t)) (.arr xs)
  | obj {a t : Str} {d : Members} : Gap a → DenotesMembers t d →
      Denotes (123 :: (a ++ t)) (.obj (members d))

/-- The text denotes the items of an array, with the bracket that ends it. -/
inductive DenotesItems : Str → List Json → Prop
  | last {t b : Str} {x : Json} : Denotes t x → Gap b → DenotesItems (t ++ (b ++ [93])) [x]
  | more {t a u : Str} {x : Json} {xs : List Json} : Denotes t x → Gap a → DenotesItems u xs →
      DenotesItems (t ++ 44 :: (a ++ u)) (x :: xs)

/-- The text denotes the members of an object, with the brace that ends it. -/
inductive DenotesMembers : Str → Members → Prop
  | last {n g t b k : Str} {x : Json} : DenotesText n k → Gap g → Denotes t x → Gap b →
      DenotesMembers (34 :: (n ++ 34 :: 58 :: (g ++ (t ++ (b ++ [125]))))) [(k, x)]
  | more {n g t a u k : Str} {x : Json} {d : Members} : DenotesText n k → Gap g → Denotes t x →
      Gap a → DenotesMembers u d →
      DenotesMembers (34 :: (n ++ 34 :: 58 :: (g ++ (t ++ 44 :: (a ++ u))))) ((k, x) :: d)

end

/-! ### Reading -/

theorem skip_cons (h : isWhitespace c = false) :
  skip (c :: s) = c :: s
  := by
  simp [skip, h]

variable {a : Str}

theorem skip_gap (h : Gap a) (s : Str) :
  skip (a ++ s) = skip s
  := by
  induction a with
  | nil => rfl
  | cons c a ih =>
    rw [List.cons_append, skip, List.dropWhile_cons_of_pos (h c (List.mem_cons_self ..))]
    exact ih fun d hd => h d (List.mem_cons_of_mem _ hd)

theorem stops_gap (h : Gap a) (hs : Stops s) :
  Stops (a ++ s)
  := by
  cases a with
  | nil => exact hs
  | cons c a =>
    intro d t heq
    obtain ⟨rfl, -⟩ := List.cons.inj heq
    have hc := h c (List.mem_cons_self ..)
    simp only [isWhitespace, Bool.or_eq_true, decide_eq_true_eq] at hc
    simp only [isDigit, Bool.and_eq_false_iff, decide_eq_false_iff_not]
    omega

theorem readItems_gap (h : Gap a) (fuel : Nat) (s : Str) :
  readItems fuel (a ++ s) = readItems fuel s
  := by
  cases fuel with
  | zero => rfl
  | succ fuel => rw [readItems, readItems, skip_gap h]

theorem readMembers_gap (h : Gap a) (fuel : Nat) (s : Str) :
  readMembers fuel (a ++ s) = readMembers fuel s
  := by
  cases fuel with
  | zero => rfl
  | succ fuel => rw [readMembers, readMembers, skip_gap h]

variable {v : Json}

theorem Denotes.head (h : Denotes t v) :
  ∃ c u, t = c :: u ∧ isWhitespace c = false ∧ c ≠ 93
  := by
  cases h with
  | word hword => exact hword.head
  | arr => exact ⟨91, _, rfl, rfl, by decide⟩
  | obj => exact ⟨123, _, rfl, rfl, by decide⟩

theorem Denotes.skip (h : Denotes t v) (rest : Str) :
  Json.skip (t ++ rest) = t ++ rest
  := by
  obtain ⟨c, u, rfl, hc, -⟩ := h.head
  rw [List.cons_append, skip_cons hc]

theorem DenotesItems.head {xs : List Json} (h : DenotesItems t xs) :
  ∃ c u, t = c :: u ∧ isWhitespace c = false ∧ c ≠ 93
  := by
  cases h with
  | last hx =>
    obtain ⟨c, u, rfl, hc⟩ := hx.head
    exact ⟨c, _, rfl, hc⟩
  | more hx =>
    obtain ⟨c, u, rfl, hc⟩ := hx.head
    exact ⟨c, _, rfl, hc⟩

theorem DenotesMembers.head {d : Members} (h : DenotesMembers t d) :
  ∃ u, t = 34 :: u
  := by
  cases h with
  | last => exact ⟨_, rfl⟩
  | more => exact ⟨_, rfl⟩

mutual

theorem readValue_of_denotes :
  ∀ (fuel : Nat) {t : Str} {v : Json} (rest : Str), Denotes t v → t.length ≤ fuel → Stops rest →
    readValue fuel (t ++ rest) = some (v, rest)
  | 0, t, v, rest, h, hfuel, _ => by
    obtain ⟨c, u, rfl, -⟩ := h.head
    simp at hfuel
  | fuel + 1, _, _, rest, .word hword, _, hrest => hword.read fuel rest hrest
  | fuel + 1, _, _, rest, .arr ha hitems, hfuel, _ => by
    have hread := readItems_of_denotes fuel rest hitems (by
      simp only [List.length_cons, List.length_append] at hfuel
      omega)
    obtain ⟨c, u, rfl, hc, hbracket⟩ := hitems.head
    rw [List.cons_append, List.append_assoc, readValue, skip_gap ha, List.cons_append, skip_cons hc]
    rw [List.cons_append] at hread
    split
    · next heq => exact absurd (List.cons.inj heq).1 hbracket
    · rw [hread]
      rfl
  | fuel + 1, _, _, rest, .obj ha hmembers, hfuel, _ => by
    have hread := readMembers_of_denotes fuel rest hmembers (by
      simp only [List.length_cons, List.length_append] at hfuel
      omega)
    obtain ⟨u, rfl⟩ := hmembers.head
    rw [List.cons_append, List.append_assoc, readValue, skip_gap ha, List.cons_append,
      skip_cons (by decide)]
    rw [List.cons_append] at hread
    simp only [hread, Option.map_some]
termination_by structural fuel => fuel

theorem readItems_of_denotes :
  ∀ (fuel : Nat) {t : Str} {xs : List Json} (rest : Str), DenotesItems t xs → t.length ≤ fuel →
    readItems fuel (t ++ rest) = some (xs, rest)
  | 0, t, xs, rest, h, hfuel => by
    obtain ⟨c, u, rfl, -⟩ := h.head
    simp at hfuel
  | fuel + 1, _, _, rest, .last hx hb, hfuel => by
    simp only [List.length_append, List.length_cons] at hfuel
    have hread := readValue_of_denotes fuel _ hx (by omega)
      (stops_gap hb (stops_cons (c := 93) (s := rest) (by simp)))
    simp only [List.append_assoc, List.cons_append, List.nil_append, readItems, hx.skip, hread,
      skip_gap hb, skip_cons (show isWhitespace 93 = false by decide)]
  | fuel + 1, _, _, rest, @DenotesItems.more t a u x xs hx ha hxs, hfuel => by
    simp only [List.length_append, List.length_cons] at hfuel
    have hread := readValue_of_denotes fuel (44 :: (a ++ (u ++ rest))) hx (by omega)
      (stops_cons (by simp))
    have hmore := readItems_of_denotes fuel rest hxs (by omega)
    simp only [List.append_assoc, List.cons_append, readItems, hx.skip, hread, readItems_gap ha,
      hmore, skip_cons (show isWhitespace 44 = false by decide), Option.map_some]
termination_by structural fuel => fuel

theorem readMembers_of_denotes :
  ∀ (fuel : Nat) {t : Str} {d : Members} (rest : Str), DenotesMembers t d → t.length ≤ fuel →
    readMembers fuel (t ++ rest) = some (d, rest)
  | 0, t, d, rest, h, hfuel => by
    obtain ⟨u, rfl⟩ := h.head
    simp at hfuel
  | fuel + 1, _, _, rest, .last hn hg hx hb, hfuel => by
    simp only [List.length_append, List.length_cons] at hfuel
    have hread := readValue_of_denotes fuel _ hx (by omega)
      (stops_gap hb (stops_cons (c := 125) (s := rest) (by simp)))
    simp only [List.append_assoc, List.cons_append, List.nil_append, readMembers,
      skip_cons (show isWhitespace 34 = false by decide), hn _,
      skip_cons (show isWhitespace 58 = false by decide), skip_gap hg, hx.skip, hread, skip_gap hb,
      skip_cons (show isWhitespace 125 = false by decide)]
  | fuel + 1, _, _, rest, @DenotesMembers.more n g t a u k x d hn hg hx ha hd, hfuel => by
    simp only [List.length_append, List.length_cons] at hfuel
    have hread := readValue_of_denotes fuel (44 :: (a ++ (u ++ rest))) hx (by omega)
      (stops_cons (by simp))
    have hmore := readMembers_of_denotes fuel rest hd (by omega)
    simp only [List.append_assoc, List.cons_append, readMembers,
      skip_cons (show isWhitespace 34 = false by decide), hn _,
      skip_cons (show isWhitespace 58 = false by decide), skip_gap hg, hx.skip, hread,
      readMembers_gap ha, hmore, skip_cons (show isWhitespace 44 = false by decide),
      Option.map_some]
termination_by structural fuel => fuel

end

theorem loads_of_denotes (h : Denotes t v) {b : Str} (ha : Gap a) (hb : Gap b) :
  loads (a ++ (t ++ b)) = some v
  := by
  have hread := readValue_of_denotes ((a ++ (t ++ b)).length + 1) b h (by
    simp only [List.length_append]
    omega) (by simpa using stops_gap hb stops_nil)
  have hend : skip b = [] := by
    rw [← List.append_nil b, skip_gap hb]
    rfl
  rw [loads, skip_gap ha, h.skip, hread]
  simp only [hend, if_true]

/-! ### Encodings -/

/-- The encoding of a value whose strings are encoded by `q`. -/
def render (q : Str → Str) : Json → Str
  | .null => text "null"
  | .bool true => text "true"
  | .bool false => text "false"
  | .int i => Text.decimal i
  | .float literal => literal
  | .str s => 34 :: (q s ++ [34])
  | .arr items => 91 :: (renderItems items ++ [93])
  | .obj d => 123 :: (renderMembers d ++ [125])
where
  renderItems : List Json → Str
    | [] => []
    | [x] => x.render q
    | x :: y :: xs => x.render q ++ 44 :: renderItems (y :: xs)
  renderMembers : Members → Str
    | [] => []
    | [(k, x)] => 34 :: (q k ++ 34 :: 58 :: x.render q)
    | (k, x) :: (l, y) :: xs =>
        34 :: (q k ++ 34 :: 58 :: (x.render q ++ 44 :: renderMembers ((l, y) :: xs)))

/-- Every string of a value has the property, and every key of its objects. -/
def EveryText (p : Str → Prop) : Json → Prop
  | .str s => p s
  | .arr items => everyItem items
  | .obj d => everyMember d
  | _ => True
where
  everyItem : List Json → Prop
    | [] => True
    | x :: xs => x.EveryText p ∧ everyItem xs
  everyMember : Members → Prop
    | [] => True
    | (k, x) :: d => p k ∧ x.EveryText p ∧ everyMember d

theorem everyText_of_lookup {p : Str → Prop} {k : Str} {v : Json} :
  ∀ {d : Members}, EveryText.everyMember p d → d.lookup k = some v → v.EveryText p
  | [], _, hl => by simp at hl
  | (l, w) :: d, h, hl => by
    by_cases hkl : k = l
    · subst hkl
      simp only [List.lookup_cons_self, Option.some.injEq] at hl
      rw [← hl]
      exact h.2.1
    · rw [List.lookup_cons, beq_eq_false_iff_ne.mpr hkl] at hl
      exact everyText_of_lookup h.2.2 hl

theorem everyText_of_mem {p : Str → Prop} {v : Json} :
  ∀ {items : List Json}, EveryText.everyItem p items → v ∈ items → v.EveryText p
  | [], _, hv => by simp at hv
  | x :: items, h, hv => by
    rcases List.mem_cons.mp hv with rfl | hv
    · exact h.1
    · exact everyText_of_mem h.2 hv

section Render

variable {q : Str → Str} {p : Str → Prop}

/-- The first character of the encoding of a value is neither white space nor a closing
bracket. -/
theorem head_render (h : v.wf = true) :
  ∃ c t, v.render q = c :: t ∧ isWhitespace c = false ∧ c ≠ 93
  := by
  have number : ∀ {c : Nat}, c = 45 ∨ isDigit c = true → isWhitespace c = false ∧ c ≠ 93 := by
    intro c hc
    have hc : c = 45 ∨ (48 ≤ c ∧ c ≤ 57) := by simpa [isDigit] using hc
    simp [isWhitespace]
    omega
  cases v with
  | null => exact ⟨110, text "ull", rfl, rfl, by decide⟩
  | bool b =>
    cases b with
    | false => exact ⟨102, text "alse", rfl, rfl, by decide⟩
    | true => exact ⟨116, text "rue", rfl, rfl, by decide⟩
  | int i =>
    have hnumber := scanNumber_decimal stops_nil i
    rw [List.append_nil] at hnumber
    obtain ⟨c, t, hct, hc⟩ := head_of_scanNumber hnumber
    exact ⟨c, t, hct, number hc⟩
  | float literal =>
    obtain ⟨c, t, hct, hc⟩ := head_of_scanNumber (of_decide_eq_true h)
    exact ⟨c, t, hct, number hc⟩
  | str s => exact ⟨34, _, rfl, rfl, by decide⟩
  | arr items => exact ⟨91, _, rfl, rfl, by decide⟩
  | obj d => exact ⟨123, _, rfl, rfl, by decide⟩

def Scans (q : Str → Str) (p : Str → Prop) : Prop :=
  ∀ s rest, p s → scanString (q s ++ 34 :: rest) = some (s, rest)

theorem denotes_quoted (h : DenotesText t s) :
  Denotes (34 :: (t ++ [34])) (.str s)
  := by
  apply Denotes.word
  constructor
  · exact ⟨34, _, rfl, rfl, by decide⟩
  · intro fuel rest _
    simp only [List.cons_append, List.append_assoc, List.nil_append, readValue, h rest, Option.map_some]

/-- The value has no strings and no parts. -/
def IsLeaf : Json → Prop
  | .str _ | .arr (_ :: _) | .obj (_ :: _) => False
  | _ => True

theorem denotes_leaf :
  ∀ {v : Json}, v.IsLeaf → v.wf = true → ∀ q : Str → Str, Denotes (v.render q) v
  | .null, _, _, q => .word ⟨head_render rfl, fun _ _ _ => rfl⟩
  | .bool true, _, _, q => .word ⟨head_render rfl, fun _ _ _ => rfl⟩
  | .bool false, _, _, q => .word ⟨head_render rfl, fun _ _ _ => rfl⟩
  | .int i, _, h, q => by
    refine .word ⟨head_render h, fun fuel rest hrest => ?_⟩
    have hnumber := scanNumber_decimal hrest i
    obtain ⟨c, t, hct, hc⟩ := head_of_scanNumber hnumber
    rw [render, hct, readValue_number hc, ← hct, hnumber]
  | .float literal, _, h, q => by
    refine .word ⟨head_render h, fun fuel rest hrest => ?_⟩
    have hnumber := scanNumber_append hrest (of_decide_eq_true h)
    obtain ⟨c, t, hct, hc⟩ := head_of_scanNumber hnumber
    rw [render, hct, readValue_number hc, ← hct, hnumber]
  | .arr [], _, _, q => .word ⟨head_render rfl, fun _ _ _ => rfl⟩
  | .obj [], _, _, q => .word ⟨head_render rfl, fun _ _ _ => rfl⟩

mutual

theorem denotes_render (hq : Scans q p) :
  ∀ {v : Json}, v.wf = true → v.EveryText p → Denotes (v.render q) v
  | .null, h, _ | .bool _, h, _ | .int _, h, _ | .float _, h, _ | .arr [], h, _ | .obj [], h, _ =>
    denotes_leaf (by trivial) h q
  | .str s, _, hp => denotes_quoted fun rest => hq s rest hp
  | .arr (x :: xs), h, hp => Denotes.arr (a := []) gap_nil (denotesItems_render hq (by simp) h hp)
  | .obj (m :: d), h, hp => by
    simp only [wf, Bool.and_eq_true] at h
    have hmembers := Denotes.obj (a := []) gap_nil (denotesMembers_render hq (by simp) h.2 hp)
    rwa [members_eq_self h.1] at hmembers

theorem denotesItems_render (hq : Scans q p) :
  ∀ {items : List Json}, items ≠ [] → wf.wfItems items = true → EveryText.everyItem p items →
    DenotesItems (render.renderItems q items ++ [93]) items
  | [], hempty, _, _ => absurd rfl hempty
  | [x], _, h, hp => by
    simp only [wf.wfItems, Bool.and_eq_true] at h
    exact .last (denotes_render hq h.1 hp.1) gap_nil
  | x :: y :: ys, _, h, hp => by
    rw [wf.wfItems, Bool.and_eq_true] at h
    rw [render.renderItems, List.append_assoc, List.cons_append]
    exact DenotesItems.more (a := []) (denotes_render hq h.1 hp.1) gap_nil
      (denotesItems_render hq (by simp) h.2 hp.2)

theorem denotesMembers_render (hq : Scans q p) :
  ∀ {d : Members}, d ≠ [] → wf.wfMembers d = true → EveryText.everyMember p d →
    DenotesMembers (render.renderMembers q d ++ [125]) d
  | [], hempty, _, _ => absurd rfl hempty
  | [(k, x)], _, h, hp => by
    simp only [wf.wfMembers, Bool.and_eq_true] at h
    have hlast := DenotesMembers.last (fun rest => hq k rest hp.1) gap_nil
      (denotes_render hq h.1 hp.2.1) gap_nil
    simpa [render.renderMembers] using hlast
  | (k, x) :: (l, y) :: d, _, h, hp => by
    rw [wf.wfMembers, Bool.and_eq_true] at h
    have hmore := DenotesMembers.more (fun rest => hq k rest hp.1) gap_nil (denotes_render hq h.1 hp.2.1)
      gap_nil (denotesMembers_render hq (by simp) h.2 hp.2.2)
    rw [render.renderMembers]
    simpa using hmore

end

theorem loads_render (hq : Scans q p) (h : v.wf = true) (hp : v.EveryText p) :
  loads (v.render q) = some v
  := by
  have hloads := loads_of_denotes (denotes_render hq h hp) gap_nil gap_nil
  rwa [List.nil_append, List.append_nil] at hloads

theorem render_injective (hq : Scans q p) {w : Json} (hv : v.wf = true) (hw : w.wf = true)
    (hpv : v.EveryText p)
    (hpw : w.EveryText p) (h : v.render q = w.render q) :
  v = w
  := by
  have hvw := loads_render hq hv hpv
  rw [h, loads_render hq hw hpw] at hvw
  exact (Option.some.inj hvw).symm

end Render

/-! ### The compact encoding -/

mutual

theorem dumps_eq_render :
  ∀ v : Json, v.dumps = v.render fun s => s.flatMap escape
  | .null | .bool true | .bool false | .int _ | .float _ | .str _ => rfl
  | .arr items => by rw [dumps, render, dumpsItems_eq_render items]
  | .obj d => by rw [dumps, render, dumpsMembers_eq_render d]

theorem dumpsItems_eq_render :
  ∀ items : List Json,
    dumps.dumpsItems items = render.renderItems (fun s => s.flatMap escape) items
  | [] => rfl
  | [x] => by rw [dumps.dumpsItems, render.renderItems, dumps_eq_render x]
  | x :: y :: xs => by
    rw [dumps.dumpsItems, render.renderItems, dumps_eq_render x, dumpsItems_eq_render (y :: xs)]

theorem dumpsMembers_eq_render :
  ∀ d : Members, dumps.dumpsMembers d = render.renderMembers (fun s => s.flatMap escape) d
  | [] => rfl
  | [(k, x)] => by simp [dumps.dumpsMembers, render.renderMembers, quote, dumps_eq_render x]
  | (k, x) :: (l, y) :: d => by
    rw [dumps.dumpsMembers, render.renderMembers, dumps_eq_render x,
      dumpsMembers_eq_render ((l, y) :: d)]
    simp [quote]

end

mutual

theorem everyText_true :
  ∀ v : Json, v.EveryText fun _ => True
  | .null | .bool _ | .int _ | .float _ | .str _ => trivial
  | .arr items => everyItem_true items
  | .obj d => everyMember_true d

theorem everyItem_true :
  ∀ items : List Json, EveryText.everyItem (fun _ => True) items
  | [] => trivial
  | x :: xs => ⟨everyText_true x, everyItem_true xs⟩

theorem everyMember_true :
  ∀ d : Members, EveryText.everyMember (fun _ => True) d
  | [] => trivial
  | (_, x) :: d => ⟨trivial, everyText_true x, everyMember_true d⟩

end

theorem loads_dumps (h : v.wf = true) :
  loads v.dumps = some v
  := by
  rw [dumps_eq_render]
  exact loads_render (fun s rest _ => scanString_quote s rest) h (everyText_true v)

end Json
