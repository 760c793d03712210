import Courier.Library.Denoted

/-!
# Encodings that are cut off

A text that was read as a value is cut off somewhere, and something else that starts with an object is written behind
the cut.  Then nothing is read of the result (`readValue_cut_record`), unless the cut lies inside a string.  So of
records that were cut off and written one after the other nothing is read, unless there is one only and it is whole
(`loads_pieces`).
-/

namespace Json

open Text

/-! ### What is behind a cut -/

/-- No value goes on like this. -/
def Foreign (s : Str) : Prop :=
  ∀ c t, s = c :: t → isWhitespace c = false ∧ c ≠ 44 ∧ c ≠ 58 ∧ c ≠ 93 ∧ c ≠ 125

/-- The text behind a cut: it is empty or starts with a brace, and where a string ends in it or a value
that starts it, no value goes on. -/
structure Behind (R : Str) : Prop where
  brace : R = [] ∨ ∃ t, R = 123 :: t
  inside : ∀ units tail, scanUnits R = some (units, tail) → Foreign tail
  value : ∀ fuel v tail, readValue fuel R = some (v, tail) → Foreign tail

theorem behind_nil :
  Behind []
  := by
  refine ⟨.inl rfl, ?_, ?_⟩
  · rintro units tail ⟨⟩
  · intro fuel v tail h
    cases fuel with
    | zero => cases h
    | succ fuel => cases h

theorem Foreign.skip {s : Str} (h : Foreign s) :
  Json.skip s = s
  := by
  cases s with
  | nil => rfl
  | cons c t =>
    rw [Json.skip, List.dropWhile_cons_of_neg]
    simp [(h c t rfl).1]

variable {R : Str}

theorem Behind.foreign (h : Behind R) :
  Foreign R
  := by
  rcases h.brace with rfl | ⟨t, rfl⟩
  · rintro c t ⟨⟩
  · rintro c t ⟨⟩
    decide

theorem skip_cut (h : Behind R) (T U : Str) :
  skip (T ++ R) = R ∨
    ∃ c T', skip (T ++ U) = c :: (T' ++ U) ∧ skip (T ++ R) = c :: (T' ++ R)
  := by
  induction T with
  | nil => exact .inl h.foreign.skip
  | cons c T ih =>
    by_cases hc : isWhitespace c = true
    · simp only [skip, List.cons_append, List.dropWhile_cons_of_pos hc]
      exact ih
    · simp only [skip, List.cons_append, List.dropWhile_cons_of_neg hc]
      exact .inr ⟨c, T, rfl, rfl⟩

/-! ### Strings -/

variable {c : Nat}

theorem scanUnits_backslash (h : c ≠ 117) (s : Str) :
  scanUnits (92 :: c :: s) =
    match unescape c with
    | none => none
    | some unit => consScanned (unit, false) (scanUnits s)
  := by
  rw [scanUnits]
  all_goals first
    | rfl
    | rintro a b d e rest rfl rfl
      exact h rfl

theorem scanUnits_plain (hquote : c ≠ 34) (hescape : c ≠ 92) (s : Str) :
  scanUnits (c :: s) = if c < 32 then none else consScanned (c, false) (scanUnits s)
  := by
  rw [scanUnits]
  · exact hquote
  · rintro a b d e rest rfl
    exact absurd rfl hescape
  · rintro d rest rfl
    exact absurd rfl hescape

theorem hex4_brace {a b d : Nat} (h : a = 123 ∨ b = 123 ∨ c = 123 ∨ d = 123) :
  hex4 a b c d = none
  := by
  have hbrace : hexValue 123 = none := rfl
  unfold hex4
  rcases h with rfl | rfl | rfl | rfl
  · rw [hbrace]
    rfl
  · rw [hbrace]
    cases hexValue a <;> rfl
  · rw [hbrace]
    cases hexValue a <;> cases hexValue b <;> rfl
  · rw [hbrace]
    cases hexValue a <;> cases hexValue b <;> cases hexValue c <;> rfl

variable {T : Str}

/-- A cut inside the four digits of an escape leaves nothing to read. -/
theorem scanUnits_short (h : Behind R) (hT : T.length < 4) :
  scanUnits (92 :: 117 :: (T ++ R)) = none
  := by
  have hnone : ∀ S : Str, (∀ a b c d rest, S = a :: b :: c :: d :: rest → hex4 a b c d = none) →
      scanUnits (92 :: 117 :: S) = none := by
    intro S hS
    rcases S with _ | ⟨a, _ | ⟨b, _ | ⟨c, _ | ⟨d, rest⟩⟩⟩⟩
    · rfl
    · rfl
    · rfl
    · rfl
    · rw [scanUnits, hS a b c d rest rfl]
  apply hnone
  intro a b c d rest heq
  apply hex4_brace
  rcases h.brace with rfl | ⟨t, rfl⟩
  · rw [List.append_nil] at heq
    simp [heq] at hT
    omega
  · rcases T with _ | ⟨_, _ | ⟨_, _ | ⟨_, _ | ⟨_, _⟩⟩⟩⟩ <;>
      simp only [List.cons_append, List.nil_append, List.cons.injEq, List.length_cons] at heq hT <;>
      omega

theorem scanUnits_cut (h : Behind R) :
  ∀ (T U : Str) {units : List (Nat × Bool)} {rest : Str}, scanUnits (T ++ U) = some (units, rest) →
    (∃ T', rest = T' ++ U ∧ scanUnits (T ++ R) = some (units, T' ++ R)) ∨
    ∀ units' tail, scanUnits (T ++ R) = some (units', tail) → Foreign tail
  := by
  -- What is read behind a unit decides.
  have hunit : ∀ {x : Nat × Bool} {s s' U : Str} {units : List (Nat × Bool)} {rest : Str},
      (∀ {units : List (Nat × Bool)} {rest : Str}, scanUnits s = some (units, rest) →
        (∃ T', rest = T' ++ U ∧ scanUnits s' = some (units, T' ++ R)) ∨
        ∀ units' tail, scanUnits s' = some (units', tail) → Foreign tail) →
      consScanned x (scanUnits s) = some (units, rest) →
      (∃ T', rest = T' ++ U ∧ consScanned x (scanUnits s') = some (units, T' ++ R)) ∨
      ∀ units' tail, consScanned x (scanUnits s') = some (units', tail) → Foreign tail := by
    intro x s s' U units rest hmore hscan
    obtain ⟨⟨units, rest⟩, hs, heq⟩ := Option.map_eq_some_iff.mp hscan
    cases heq
    rcases hmore hs with ⟨T', hrest, hs'⟩ | hforeign
    · exact .inl ⟨T', hrest, by rw [hs']; rfl⟩
    · refine .inr fun units' tail hs' => ?_
      obtain ⟨⟨units'', tail'⟩, hscan', heq⟩ := Option.map_eq_some_iff.mp hs'
      cases heq
      exact hforeign units'' tail' hscan'
  intro T
  induction hlength : T.length using Nat.strong_induction_on generalizing T with
  | _ n ih =>
    intro U units rest hscan
    match T with
    | [] => exact .inr h.inside
    | c :: T =>
      by_cases hquote : c = 34
      · subst hquote
        cases hscan
        exact .inl ⟨T, rfl, rfl⟩
      · by_cases hescape : c = 92
        · subst hescape
          match T with
          | [] =>
            refine .inr fun units' tail hs' => ?_
            rcases h.brace with rfl | ⟨t, rfl⟩
            · cases hs'
            · cases hs'
          | e :: T =>
            by_cases hdigits : e = 117
            · subst hdigits
              by_cases hshort : T.length < 4
              · refine .inr fun units' tail hs' => ?_
                have hnone := scanUnits_short h hshort
                simp only [List.cons_append] at hs'
                rw [hnone] at hs'
                cases hs'
              · match T with
                | a :: b :: c :: d :: T =>
                  simp only [List.cons_append, scanUnits] at hscan ⊢
                  cases hunits : hex4 a b c d with
                  | none => simp [hunits] at hscan
                  | some unit =>
                    simp only [hunits] at hscan ⊢
                    exact hunit (fun hs => ih T.length (by simp at hlength; omega) T rfl _ hs) hscan
                | [] | [_] | [_, _] | [_, _, _] => simp at hshort
            · simp only [List.cons_append, scanUnits_backslash hdigits] at hscan ⊢
              cases hunits : unescape e with
              | none => simp [hunits] at hscan
              | some unit =>
                simp only [hunits] at hscan ⊢
                exact hunit (fun hs => ih T.length (by simp at hlength; omega) T rfl _ hs) hscan
        · simp only [List.cons_append, scanUnits_plain hquote hescape] at hscan ⊢
          split_ifs at hscan ⊢
          exact hunit (fun hs => ih T.length (by simp at hlength; omega) T rfl _ hs) hscan

variable {rest : Str}

theorem scanString_cut (h : Behind R) (T U : Str) {s : Str}
    (hscan : scanString (T ++ U) = some (s, rest)) :
  (∃ T', rest = T' ++ U ∧ scanString (T ++ R) = some (s, T' ++ R)) ∨
    ∀ s' tail, scanString (T ++ R) = some (s', tail) → Foreign tail
  := by
  obtain ⟨⟨units, rest⟩, hunits, heq⟩ := Option.map_eq_some_iff.mp hscan
  cases heq
  rcases scanUnits_cut h T U hunits with ⟨T', hrest, hunits'⟩ | hforeign
  · exact .inl ⟨T', hrest, by rw [scanString, hunits']; rfl⟩
  · refine .inr fun s' tail hscan' => ?_
    obtain ⟨⟨units', tail'⟩, hunits', heq⟩ := Option.map_eq_some_iff.mp hscan'
    cases heq
    exact hforeign units' tail' hunits'

/-! ### Values -/

/-- The value has neither numbers nor objects in it. -/
def Flat : Json → Prop
  | .int _ | .float _ | .obj _ => False
  | .arr items => flatItems items
  | _ => True
where
  flatItems : List Json → Prop
    | [] => True
    | x :: xs => x.Flat ∧ flatItems xs

/-- The values of an object are flat. -/
def FlatMembers (d : Members) : Prop :=
  ∀ p ∈ d, p.2.Flat

variable {v : Json}

theorem not_flat_of_scanNumber {s : Str} (h : scanNumber s = some (v, rest)) :
  ¬v.Flat
  := by
  unfold scanNumber at h
  split at h
  · cases h
  · dsimp only at h
    split_ifs at h <;> cases h <;> exact id

theorem readValue_constant (h : Behind R) {w : Str} {fuel : Nat}
    (hword : (c, w, v) ∈ [(110, text "ull", Json.null), (116, text "rue", .bool true),
      (102, text "alse", .bool false)]) (hstart : T <+: w) (hne : T ≠ w) :
  readValue (fuel + 1) (c :: (T ++ R)) = none
  := by
  have hnull : (text "ull").inits = [[], [117], [117, 108], text "ull"] := rfl
  have htrue : (text "rue").inits = [[], [114], [114, 117], text "rue"] := rfl
  have hfalse : (text "alse").inits = [[], [97], [97, 108], [97, 108, 115], text "alse"] := rfl
  simp only [List.mem_cons, Prod.mk.injEq, List.not_mem_nil, or_false] at hword
  have hinits := (List.mem_inits T w).mpr hstart
  rcases hword with ⟨rfl, rfl, rfl⟩ | ⟨rfl, rfl, rfl⟩ | ⟨rfl, rfl, rfl⟩
  · simp only [hnull, List.mem_cons, hne, List.not_mem_nil, or_false] at hinits
    rcases h.brace with rfl | ⟨t, rfl⟩ <;> rcases hinits with rfl | rfl | rfl <;> rfl
  · simp only [htrue, List.mem_cons, hne, List.not_mem_nil, or_false] at hinits
    rcases h.brace with rfl | ⟨t, rfl⟩ <;> rcases hinits with rfl | rfl | rfl <;> rfl
  · simp only [hfalse, List.mem_cons, hne, List.not_mem_nil, or_false] at hinits
    rcases h.brace with rfl | ⟨t, rfl⟩ <;> rcases hinits with rfl | rfl | rfl | rfl <;> rfl

variable {U : Str}

theorem constant_cut (h : Behind R) (fuel : Nat) {w : Str}
    (hword : (c, w, v) ∈ [(110, text "ull", Json.null), (116, text "rue", .bool true),
      (102, text "alse", .bool false)]) (heq : T ++ U = w ++ rest) :
  (∃ T', rest = T' ++ U ∧ readValue (fuel + 1) (c :: (T ++ R)) = some (v, T' ++ R)) ∨
    readValue (fuel + 1) (c :: (T ++ R)) = none
  := by
  rcases List.append_eq_append_iff.mp heq with ⟨w', hw, hU⟩ | ⟨T', hT, hrest⟩
  · by_cases hempty : w' = []
    · subst hempty
      rw [List.append_nil] at hw
      subst hw
      refine .inl ⟨[], hU.symm, ?_⟩
      simp only [List.mem_cons, Prod.mk.injEq, List.not_mem_nil, or_false] at hword
      rcases hword with ⟨rfl, rfl, rfl⟩ | ⟨rfl, rfl, rfl⟩ | ⟨rfl, rfl, rfl⟩ <;> rfl
    · refine .inr (readValue_constant h hword ⟨w', hw.symm⟩ ?_)
      rintro rfl
      exact hempty (by simpa using hw)
  · refine .inl ⟨T', hrest, ?_⟩
    subst hT
    simp only [List.mem_cons, Prod.mk.injEq, List.not_mem_nil, or_false] at hword
    rcases hword with ⟨rfl, rfl, rfl⟩ | ⟨rfl, rfl, rfl⟩ | ⟨rfl, rfl, rfl⟩ <;> rfl

/-! ### Items and members, step by step -/

theorem Foreign.ne_cons {s : Str} (h : Foreign s) (t : Str) :
  s ≠ 44 :: t ∧ s ≠ 58 :: t ∧ s ≠ 93 :: t ∧ s ≠ 125 :: t
  := by
  refine ⟨?_, ?_, ?_, ?_⟩ <;> rintro rfl <;> have hc := h _ t rfl <;> simp at hc

theorem readItems_inv {fuel : Nat} {s : Str} {items : List Json}
    (h : readItems (fuel + 1) s = some (items, rest)) :
  ∃ x u, readValue fuel (skip s) = some (x, u) ∧
    (skip u = 93 :: rest ∧ items = [x] ∨
      ∃ t xs, skip u = 44 :: t ∧ readItems fuel t = some (xs, rest) ∧ items = x :: xs)
  := by
  rw [readItems] at h
  split at h
  · cases h
  · next x u hx =>
    refine ⟨x, u, hx, ?_⟩
    split at h
    · next t hu =>
      cases h
      exact .inl ⟨hu, rfl⟩
    · next t hu =>
      obtain ⟨⟨xs, rest⟩, hxs, heq⟩ := Option.map_eq_some_iff.mp h
      cases heq
      exact .inr ⟨t, xs, hu, hxs, rfl⟩
    · cases h

variable {u : Str} {x : Json}

theorem readItems_last {fuel : Nat} {s : Str} (hx : readValue fuel (skip s) = some (x, u))
    (hu : skip u = 93 :: rest) :
  readItems (fuel + 1) s = some ([x], rest)
  := by
  simp only [readItems, hx, hu]

theorem readItems_more {fuel : Nat} {s t : Str} (hx : readValue fuel (skip s) = some (x, u))
    (hu : skip u = 44 :: t) :
  readItems (fuel + 1) s = (readItems fuel t).map fun p => (x :: p.1, p.2)
  := by
  simp only [readItems, hx, hu]

theorem readItems_foreign {fuel : Nat} {s : Str}
    (h : ∀ x u, readValue fuel (skip s) = some (x, u) → Foreign (skip u)) :
  readItems (fuel + 1) s = none
  := by
  rw [readItems]
  split
  · rfl
  · next x u hx =>
    have hu := (h x u hx).ne_cons
    split
    · next t heq => exact absurd heq (hu t).2.2.1
    · next t heq => exact absurd heq (hu t).1
    · rfl

variable {d : Members}

theorem readMembers_inv {fuel : Nat} {s : Str}
    (h : readMembers (fuel + 1) s = some (d, rest)) :
  ∃ s₁ k s₂ s₃ x u, skip s = 34 :: s₁ ∧ scanString s₁ = some (k, s₂) ∧ skip s₂ = 58 :: s₃ ∧
    readValue fuel (skip s₃) = some (x, u) ∧
    (skip u = 125 :: rest ∧ d = [(k, x)] ∨
      ∃ t d', skip u = 44 :: t ∧ readMembers fuel t = some (d', rest) ∧ d = (k, x) :: d')
  := by
  rw [readMembers] at h
  split at h
  · next s₁ hs₁ =>
    split at h
    · cases h
    · next k s₂ hs₂ =>
      split at h
      · next s₃ hs₃ =>
        split at h
        · cases h
        · next x u hx =>
          refine ⟨s₁, k, s₂, s₃, x, u, hs₁, hs₂, hs₃, hx, ?_⟩
          split at h
          · next t hu =>
            cases h
            exact .inl ⟨hu, rfl⟩
          · next t hu =>
            obtain ⟨⟨d', rest⟩, hd', heq⟩ := Option.map_eq_some_iff.mp h
            cases heq
            exact .inr ⟨t, d', hu, hd', rfl⟩
          · cases h
      · cases h
  · cases h

section Member

variable {fuel : Nat} {s s₁ s₂ s₃ k : Str}

theorem readMembers_not_key (h : ∀ t, skip s ≠ 34 :: t) :
  readMembers fuel s = none
  := by
  cases fuel with
  | zero => rfl
  | succ fuel =>
    rw [readMembers]
    split
    · next t heq => exact absurd heq (h t)
    · rfl

theorem readMembers_key_foreign (hs₁ : skip s = 34 :: s₁)
    (h : ∀ k u, scanString s₁ = some (k, u) → Foreign (skip u)) :
  readMembers (fuel + 1) s = none
  := by
  simp only [readMembers, hs₁]
  split
  · rfl
  · next k u hu =>
    split
    · next t heq => exact absurd heq ((h k u hu).ne_cons t).2.1
    · rfl

theorem readMembers_value_foreign (hs₁ : skip s = 34 :: s₁) (hs₂ : scanString s₁ = some (k, s₂))
    (hs₃ : skip s₂ = 58 :: s₃) (h : ∀ x u, readValue fuel (skip s₃) = some (x, u) → Foreign (skip u)) :
  readMembers (fuel + 1) s = none
  := by
  simp only [readMembers, hs₁, hs₂, hs₃]
  split
  · rfl
  · next x u hx =>
    have hu := (h x u hx).ne_cons
    split
    · next t heq => exact absurd heq (hu t).2.2.2
    · next t heq => exact absurd heq (hu t).1
    · rfl

theorem readMembers_last (hs₁ : skip s = 34 :: s₁)
    (hs₂ : scanString s₁ = some (k, s₂)) (hs₃ : skip s₂ = 58 :: s₃)
    (hx : readValue fuel (skip s₃) = some (x, u)) (hu : skip u = 125 :: rest) :
  readMembers (fuel + 1) s = some ([(k, x)], rest)
  := by
  simp only [readMembers, hs₁, hs₂, hs₃, hx, hu]

theorem readMembers_more {t : Str} (hs₁ : skip s = 34 :: s₁)
    (hs₂ : scanString s₁ = some (k, s₂)) (hs₃ : skip s₂ = 58 :: s₃)
    (hx : readValue fuel (skip s₃) = some (x, u)) (hu : skip u = 44 :: t) :
  readMembers (fuel + 1) s = (readMembers fuel t).map fun p => ((k, x) :: p.1, p.2)
  := by
  simp only [readMembers, hs₁, hs₂, hs₃, hx, hu]

end Member

theorem readItems_behind (h : Behind R) (fuel : Nat) :
  readItems fuel R = none
  := by
  cases fuel with
  | zero => rfl
  | succ fuel =>
    apply readItems_foreign
    intro x u hx
    rw [h.foreign.skip] at hx
    have hu := h.value fuel x u hx
    rw [hu.skip]
    exact hu

theorem readMembers_behind (h : Behind R) (fuel : Nat) :
  readMembers fuel R = none
  := by
  apply readMembers_not_key
  intro t
  rw [h.foreign.skip]
  rcases h.brace with rfl | ⟨t', rfl⟩
  · simp
  · simp

mutual

theorem readValue_cut (h : Behind R) :
  ∀ (fuel c : Nat) (T U : Str) {v : Json} {rest : Str}, readValue fuel (c :: (T ++ U)) = some (v, rest) →
    v.Flat →
    (∃ T', rest = T' ++ U ∧ readValue fuel (c :: (T ++ R)) = some (v, T' ++ R)) ∨
    ∀ v' tail, readValue fuel (c :: (T ++ R)) = some (v', tail) → Foreign tail
  | 0, c, T, U, v, rest, hread, _ => by
    cases hread
  | fuel + 1, c, T, U, v, rest, hread, hflat => by
    simp only [readValue] at hread
    split at hread
    · next s heq =>
      obtain ⟨rfl, rfl⟩ := List.cons.inj heq
      obtain ⟨⟨s, rest⟩, hscan, heq⟩ := Option.map_eq_some_iff.mp hread
      cases heq
      rcases scanString_cut h T U hscan with ⟨T', hrest, hscan'⟩ | hforeign
      · exact .inl ⟨T', hrest, by rw [readValue, hscan']; rfl⟩
      · refine .inr fun v' tail hread' => ?_
        rw [readValue] at hread'
        obtain ⟨⟨s', tail'⟩, hscan', heq⟩ := Option.map_eq_some_iff.mp hread'
        cases heq
        exact hforeign s' tail' hscan'
    · split at hread
      · cases hread
        exact hflat.elim
      · obtain ⟨⟨d, rest⟩, -, heq⟩ := Option.map_eq_some_iff.mp hread
        cases heq
        exact hflat.elim
    · next s heq =>
      obtain ⟨rfl, rfl⟩ := List.cons.inj heq
      rcases skip_cut h T U with hR | ⟨e, T', hU, hR⟩
      · refine .inr fun v' tail hread' => ?_
        have hnone : readItems fuel R = none := readItems_behind h fuel
        simp only [readValue, hR] at hread'
        split at hread'
        · next t => exact absurd rfl (h.foreign.ne_cons t).2.2.1
        · rw [hnone] at hread'
          cases hread'
      · have hR' : e ≠ 93 → readValue (fuel + 1) (91 :: (T ++ R)) =
            (readItems fuel (e :: (T' ++ R))).map fun p => (.arr p.1, p.2) := by
          intro he
          simp only [readValue, hR]
          split
          · next heq => exact absurd (List.cons.inj heq).1 he
          · rfl
        rw [hU] at hread
        split at hread
        · next t heq =>
          obtain ⟨rfl, rfl⟩ := List.cons.inj heq
          cases hread
          exact .inl ⟨T', rfl, by simp only [readValue, hR]⟩
        · next hne =>
          obtain ⟨⟨items, rest⟩, hitems, heq⟩ := Option.map_eq_some_iff.mp hread
          cases heq
          have he : e ≠ 93 := fun he => hne _ (by rw [he])
          rw [← List.cons_append] at hitems
          rcases readItems_cut h fuel (e :: T') U hitems hflat with ⟨T'', hrest, hitems'⟩ | hnone
          · refine .inl ⟨T'', hrest, ?_⟩
            rw [hR' he, ← List.cons_append, hitems']
            rfl
          · refine .inr fun v' tail hread' => ?_
            rw [hR' he, ← List.cons_append, hnone] at hread'
            cases hread'
    · next s heq =>
      obtain ⟨rfl, hrest⟩ := List.cons.inj heq
      cases hread
      rcases constant_cut h fuel (c := 110) (w := text "ull") (v := .null) (by simp) hrest with hbehind | hnone
      · exact .inl hbehind
      · exact .inr (by simp [hnone])
    · next s heq =>
      obtain ⟨rfl, hrest⟩ := List.cons.inj heq
      cases hread
      rcases constant_cut h fuel (c := 116) (w := text "rue") (v := .bool true) (by simp) hrest with hbehind | hnone
      · exact .inl hbehind
      · exact .inr (by simp [hnone])
    · next s heq =>
      obtain ⟨rfl, hrest⟩ := List.cons.inj heq
      cases hread
      rcases constant_cut h fuel (c := 102) (w := text "alse") (v := .bool false) (by simp) hrest with hbehind | hnone
      · exact .inl hbehind
      · exact .inr (by simp [hnone])
    · exact absurd hflat (not_flat_of_scanNumber hread)
termination_by structural fuel => fuel

theorem readItems_cut (h : Behind R) :
  ∀ (fuel : Nat) (T U : Str) {items : List Json} {rest : Str},
    readItems fuel (T ++ U) = some (items, rest) → Flat.flatItems items →
    (∃ T', rest = T' ++ U ∧ readItems fuel (T ++ R) = some (items, T' ++ R)) ∨
    readItems fuel (T ++ R) = none
  | 0, T, U, items, rest, hread, _ => by
    cases hread
  | fuel + 1, T, U, items, rest, hread, hflat => by
    obtain ⟨x, u, hx, hitems⟩ := readItems_inv hread
    have hxflat : x.Flat := by
      rcases hitems with ⟨-, rfl⟩ | ⟨t, xs, -, -, rfl⟩
      · exact hflat.1
      · exact hflat.1
    rcases skip_cut h T U with hR | ⟨e, T', hU, hR⟩
    · refine .inr (readItems_foreign ?_)
      intro x' u' hx'
      rw [hR] at hx'
      have hu' := h.value fuel x' u' hx'
      rw [hu'.skip]
      exact hu'
    · rw [hU] at hx
      rcases readValue_cut h fuel e T' U hx hxflat with ⟨T₁, rfl, hx'⟩ | hforeign
      · rw [← hR] at hx'
        rcases skip_cut h T₁ U with hR₁ | ⟨e₁, T₂, hU₁, hR₁⟩
        · refine .inr (readItems_foreign ?_)
          intro x' u' heq
          rw [hx'] at heq
          cases heq
          rw [hR₁]
          exact h.foreign
        · rw [hU₁] at hitems
          rcases hitems with ⟨hu, rfl⟩ | ⟨t, xs, hu, hxs, rfl⟩
          · obtain ⟨rfl, rfl⟩ := List.cons.inj hu
            exact .inl ⟨T₂, rfl, readItems_last hx' hR₁⟩
          · obtain ⟨rfl, rfl⟩ := List.cons.inj hu
            rw [readItems_more hx' hR₁]
            rcases readItems_cut h fuel T₂ U hxs hflat.2 with ⟨T₃, hrest, hxs'⟩ | hnone
            · exact .inl ⟨T₃, hrest, by rw [hxs']; rfl⟩
            · exact .inr (by rw [hnone]; rfl)
      · refine .inr (readItems_foreign ?_)
        intro x' u' hx'
        rw [hR] at hx'
        have hu' := hforeign x' u' hx'
        rw [hu'.skip]
        exact hu'
termination_by structural fuel => fuel

end

theorem readMembers_cut (h : Behind R) :
  ∀ (fuel : Nat) (T U : Str) {d : Members} {rest : Str},
    readMembers fuel (T ++ U) = some (d, rest) → FlatMembers d →
    (∃ T', rest = T' ++ U ∧ readMembers fuel (T ++ R) = some (d, T' ++ R)) ∨
    readMembers fuel (T ++ R) = none
  | 0, T, U, d, rest, hread, _ => by
    cases hread
  | fuel + 1, T, U, d, rest, hread, hflat => by
    obtain ⟨s₁, k, s₂, s₃, x, u, hs₁, hs₂, hs₃, hx, hmembers⟩ := readMembers_inv hread
    rcases skip_cut h T U with hR | ⟨e, T₁, hU, hR⟩
    · refine .inr (readMembers_not_key ?_)
      intro t heq
      rw [hR] at heq
      rcases h.brace with rfl | ⟨t', rfl⟩
      · cases heq
      · cases heq
    rw [hU] at hs₁
    obtain ⟨rfl, rfl⟩ := List.cons.inj hs₁
    rcases scanString_cut h T₁ U hs₂ with ⟨T₂, rfl, hk⟩ | hforeign
    swap
    · refine .inr (readMembers_key_foreign hR ?_)
      intro k' u' hk'
      have hu' := hforeign k' u' hk'
      rw [hu'.skip]
      exact hu'
    rcases skip_cut h T₂ U with hR₂ | ⟨e, T₃, hU₂, hR₂⟩
    · refine .inr (readMembers_key_foreign hR ?_)
      intro k' u' hk'
      rw [hk] at hk'
      cases hk'
      rw [hR₂]
      exact h.foreign
    rw [hU₂] at hs₃
    obtain ⟨rfl, rfl⟩ := List.cons.inj hs₃
    rcases skip_cut h T₃ U with hR₃ | ⟨e, T₄, hU₃, hR₃⟩
    · refine .inr (readMembers_value_foreign hR hk hR₂ ?_)
      intro x' u' hx'
      rw [hR₃] at hx'
      have hu' := h.value fuel x' u' hx'
      rw [hu'.skip]
      exact hu'
    rw [hU₃] at hx
    have hxflat : x.Flat := by
      rcases hmembers with ⟨-, rfl⟩ | ⟨t, d', -, -, rfl⟩
      · exact hflat (k, x) (List.mem_cons_self ..)
      · exact hflat (k, x) (List.mem_cons_self ..)
    rcases readValue_cut h fuel e T₄ U hx hxflat with ⟨T₅, rfl, hx'⟩ | hforeign
    swap
    · refine .inr (readMembers_value_foreign hR hk hR₂ ?_)
      intro x' u' hx'
      rw [hR₃] at hx'
      have hu' := hforeign x' u' hx'
      rw [hu'.skip]
      exact hu'
    rw [← hR₃] at hx'
    rcases skip_cut h T₅ U with hR₅ | ⟨e, T₆, hU₅, hR₅⟩
    · refine .inr (readMembers_value_foreign hR hk hR₂ ?_)
      intro x'' u' heq
      rw [hx'] at heq
      cases heq
      rw [hR₅]
      exact h.foreign
    rw [hU₅] at hmembers
    rcases hmembers with ⟨hu, rfl⟩ | ⟨t, d', hu, hd', rfl⟩
    · obtain ⟨rfl, rfl⟩ := List.cons.inj hu
      exact .inl ⟨T₆, rfl, readMembers_last hR hk hR₂ hx' hR₅⟩
    · obtain ⟨rfl, rfl⟩ := List.cons.inj hu
      rw [readMembers_more hR hk hR₂ hx' hR₅]
      have hmore : FlatMembers d' := fun p hp => hflat p (List.mem_cons_of_mem _ hp)
      rcases readMembers_cut h fuel T₆ U hd' hmore with ⟨T₇, hrest, hd''⟩ | hnone
      · exact .inl ⟨T₇, hrest, by rw [hd'']; rfl⟩
      · exact .inr (by rw [hnone]; rfl)


/-! ### Fuel -/

mutual

/-- More fuel reads the same. -/
theorem readValue_succ :
  ∀ (fuel : Nat) {s : Str} {r : Json × Str}, readValue fuel s = some r → readValue (fuel + 1) s = some r
  | 0, s, r, h => by
    cases h
  | fuel + 1, s, r, h => by
    simp only [readValue] at h
    rw [readValue.eq_def]
    dsimp only
    split at h
    · exact h
    · split at h
      · exact h
      · next heq =>
        obtain ⟨p, hp, rfl⟩ := Option.map_eq_some_iff.mp h
        rw [readMembers_succ fuel hp]
        rfl
    · split at h
      · exact h
      · next heq =>
        obtain ⟨p, hp, rfl⟩ := Option.map_eq_some_iff.mp h
        rw [readItems_succ fuel hp]
        rfl
    · exact h
    · exact h
    · exact h
    · exact h
termination_by structural fuel => fuel

theorem readItems_succ :
  ∀ (fuel : Nat) {s : Str} {r : List Json × Str}, readItems fuel s = some r →
    readItems (fuel + 1) s = some r
  | 0, s, r, h => by
    cases h
  | fuel + 1, s, (items, rest), h => by
    obtain ⟨x, u, hx, hitems⟩ := readItems_inv h
    have hx' := readValue_succ fuel hx
    rcases hitems with ⟨hu, rfl⟩ | ⟨t, xs, hu, hxs, rfl⟩
    · exact readItems_last hx' hu
    · rw [readItems_more hx' hu, readItems_succ fuel hxs]
      rfl
termination_by structural fuel => fuel

theorem readMembers_succ :
  ∀ (fuel : Nat) {s : Str} {r : Members × Str}, readMembers fuel s = some r →
    readMembers (fuel + 1) s = some r
  | 0, s, r, h => by
    cases h
  | fuel + 1, s, (d, rest), h => by
    obtain ⟨s₁, k, s₂, s₃, x, u, hs₁, hs₂, hs₃, hx, hmembers⟩ := readMembers_inv h
    have hx' := readValue_succ fuel hx
    rcases hmembers with ⟨hu, rfl⟩ | ⟨t, d', hu, hd', rfl⟩
    · exact readMembers_last hs₁ hs₂ hs₃ hx' hu
    · rw [readMembers_more hs₁ hs₂ hs₃ hx' hu, readMembers_succ fuel hd']
      rfl
termination_by structural fuel => fuel

end

theorem readMembers_le {fuel more : Nat} (hle : fuel ≤ more) {s : Str} {r : Members × Str}
    (h : readMembers fuel s = some r) :
  readMembers more s = some r
  := by
  induction hle with
  | refl => exact h
  | step _ ih => exact readMembers_succ _ ih

theorem readValue_le {fuel more : Nat} (hle : fuel ≤ more) {s : Str} {r : Json × Str}
    (h : readValue fuel s = some r) :
  readValue more s = some r
  := by
  induction hle with
  | refl => exact h
  | step _ ih => exact readValue_succ _ ih

/-! ### Records -/

theorem readMembers_skip (fuel : Nat) (s : Str) :
  readMembers fuel (skip s) = readMembers fuel s
  := by
  cases fuel with
  | zero => rfl
  | succ fuel => rw [readMembers, readMembers, skip, skip, List.dropWhile_idempotent]

/-- A cut inside an object of flat values leaves nothing to read. -/
theorem readValue_cut_record (h : Behind R) {a m : Str} (ha : Gap a)
    (hm : DenotesMembers m d) (hflat : FlatMembers d) (heq : T ++ U = a ++ m) (hU : U ≠ []) (fuel : Nat) :
  readValue fuel (123 :: (T ++ R)) = none
  := by
  cases fuel with
  | zero => rfl
  | succ fuel =>
    have hmembers : readMembers fuel (T ++ R) = none := by
      have hread := readMembers_of_denotes (max m.length fuel) [] hm (le_max_left ..)
      rw [List.append_nil, ← readMembers_gap ha, ← heq] at hread
      rcases readMembers_cut h _ T U hread hflat with ⟨T', hrest, -⟩ | hnone
      · exact absurd (List.append_eq_nil_iff.mp hrest.symm).2 hU
      · by_contra hsome
        obtain ⟨r, hr⟩ := Option.ne_none_iff_exists'.mp hsome
        rw [readMembers_le (le_max_right ..) hr] at hnone
        cases hnone
    have hopen : ∀ t, skip (T ++ R) ≠ 125 :: t := by
      intro t hclose
      rcases skip_cut h T U with hR | ⟨c, T', hTU, hR⟩
      · rw [hR] at hclose
        exact (h.foreign.ne_cons t).2.2.2 hclose
      · obtain ⟨u, rfl⟩ := hm.head
        rw [heq, skip_gap ha, skip_cons (by decide)] at hTU
        obtain ⟨rfl, -⟩ := List.cons.inj hTU
        rw [hR] at hclose
        cases hclose
    rw [← readMembers_skip] at hmembers
    rw [readValue]
    generalize skip (T ++ R) = s at hmembers hopen ⊢
    split
    · next t => exact absurd rfl (hopen t)
    · rw [hmembers]
      rfl

theorem loads_cut_record (h : Behind R) {a m : Str} (ha : Gap a)
    (hm : DenotesMembers m d) (hflat : FlatMembers d) (heq : T ++ U = a ++ m) (hU : U ≠ []) :
  loads (123 :: (T ++ R)) = none
  := by
  rw [loads, skip_cons (by decide), readValue_cut_record h ha hm hflat heq hU]

/-- A character that nothing special starts with, between tokens or in a string. -/
def Ordinary (c : Nat) : Prop :=
  isWhitespace c = false ∧ c ≠ 44 ∧ c ≠ 58 ∧ c ≠ 93 ∧ c ≠ 125

/-- The text is an object of flat values, and the name of its first member starts with a letter. -/
structure Record (D : Str) (d : Members) : Prop where
  flat : FlatMembers d
  denotes : ∃ c t, D = 123 :: 34 :: c :: t ∧ Ordinary c ∧ DenotesMembers (34 :: c :: t) d

/-- What is left of records that were cut off, one after the other. -/
inductive Pieces : Str → Prop
  | nil : Pieces []
  | cons {T U R : Str} {d : Members} : Record (T ++ U) d → T ≠ [] → Pieces R → Pieces (T ++ R)

theorem Record.read {D : Str} (hrecord : Record D d) (h : Behind R) (fuel : Nat)
    (hfuel : D.length ≤ fuel) :
  readValue fuel (D ++ R) = some (.obj (members d), R)
  := by
  obtain ⟨c, t, rfl, -, hm⟩ := hrecord.denotes
  apply readValue_of_denotes fuel R (.obj gap_nil hm) hfuel
  rcases h.brace with rfl | ⟨u, rfl⟩
  · exact stops_nil
  · rintro e u' heq
    obtain ⟨rfl, -⟩ := List.cons.inj heq
    decide

theorem Record.cons_of_append (h : Record (T ++ U) d) (hT : T ≠ []) :
  ∃ T' c t, T = 123 :: T' ∧ T' ++ U = 34 :: c :: t ∧ Ordinary c ∧ DenotesMembers (34 :: c :: t) d
  := by
  obtain ⟨c, t, heq, hc, hm⟩ := h.denotes
  obtain ⟨e, T', rfl⟩ := List.exists_cons_of_ne_nil hT
  rw [List.cons_append] at heq
  obtain ⟨rfl, htail⟩ := List.cons.inj heq
  exact ⟨T', c, t, rfl, htail, hc, hm⟩

/-- What is left of records can stand behind a cut. -/
theorem Pieces.behind {s : Str} (h : Pieces s) :
  Behind s
  := by
  induction h with
  | nil => exact behind_nil
  | @cons T U R d hrecord hT _ ih =>
    obtain ⟨T', c, t, rfl, heq, hc, hm⟩ := hrecord.cons_of_append hT
    refine ⟨.inr ⟨_, rfl⟩, ?_, ?_⟩
    · intro units tail hscan
      rw [List.cons_append, scanUnits_plain (by decide) (by decide), if_neg (by decide)] at hscan
      obtain ⟨⟨units, tail⟩, hunits, hcons⟩ := Option.map_eq_some_iff.mp hscan
      cases hcons
      match T' with
      | [] => exact ih.inside units tail hunits
      | [e] =>
        obtain ⟨he, -⟩ := List.cons.inj heq
        subst he
        cases hunits
        exact ih.foreign
      | e :: f :: T'' =>
        obtain ⟨he, htail⟩ := List.cons.inj heq
        obtain ⟨hf, -⟩ := List.cons.inj htail
        subst he
        cases hunits
        rintro _ _ hfirst
        obtain ⟨rfl, -⟩ := List.cons.inj hfirst
        rw [← hf] at hc
        exact hc
    · intro fuel v tail hread
      by_cases hU : U = []
      · subst hU
        rw [List.append_nil] at hrecord
        have hwhole := hrecord.read ih _ (le_max_right fuel _)
        rw [readValue_le (le_max_left ..) hread] at hwhole
        cases hwhole
        exact ih.foreign
      · rw [List.cons_append, readValue_cut_record ih gap_nil hm hrecord.flat heq hU] at hread
        cases hread

theorem loads_pieces (hrecord : Record (T ++ U) d) (hT : T ≠ [])
    (hR : Pieces R) :
  loads (T ++ R) = if U = [] ∧ R = [] then some (.obj (members d)) else none
  := by
  obtain ⟨T', c, t, rfl, heq, hc, hm⟩ := hrecord.cons_of_append hT
  by_cases hU : U = []
  · subst hU
    have hread := hrecord.read hR.behind ((123 :: T' ++ R).length + 1) (by
      simp only [List.length_append, List.append_nil]
      omega)
    rw [List.append_nil] at hread
    rw [loads, List.cons_append, skip_cons (by decide), ← List.cons_append, hread]
    simp only [hR.behind.foreign.skip, true_and]
  · rw [if_neg fun hwhole => hU hwhole.1, List.cons_append]
    exact loads_cut_record hR.behind gap_nil hm hrecord.flat heq hU

theorem Pieces.concat {T U : Str} {d : Members} (h : Pieces R) (hrecord : Record (T ++ U) d) (hT : T ≠ []) :
  Pieces (R ++ T)
  := by
  induction h with
  | nil =>
    rw [List.nil_append, ← List.append_nil T]
    exact .cons hrecord hT .nil
  | cons hfirst hne _ ih =>
    rw [List.append_assoc]
    exact .cons hfirst hne ih

theorem Pieces.loads_concat (h : Pieces R) (hne : R ≠ [])
    (hrecord : Record (T ++ U) d) (hT : T ≠ []) :
  loads (R ++ T) = none
  := by
  cases h with
  | nil => exact absurd rfl hne
  | cons hfirst hfirstne hrest =>
    rw [List.append_assoc, loads_pieces hfirst hfirstne (hrest.concat hrecord hT)]
    simp [hT]

/-! ### Encoded records -/

mutual

theorem flat_reread :
  ∀ {v : Json}, v.Flat → v.reread.Flat
  | .null, h | .bool _, h | .str _, h => h
  | .arr _, h => flatItems_reread h

theorem flatItems_reread :
  ∀ {items : List Json}, Flat.flatItems items → Flat.flatItems (reread.rereadItems items)
  | [], _ => trivial
  | _ :: _, h => ⟨flat_reread h.1, flatItems_reread h.2⟩

end

theorem flatMembers_reread (h : FlatMembers d) :
  FlatMembers (reread.rereadMembers d)
  := by
  induction d with
  | nil => exact h
  | cons p d ih =>
    obtain ⟨k, x⟩ := p
    rintro q hq
    rcases List.mem_cons.mp hq with rfl | hq
    · exact flat_reread (h (k, x) (List.mem_cons_self ..))
    · exact ih (fun r hr => h r (List.mem_cons_of_mem _ hr)) q hq

/-- The encoding of an object of flat values whose first key starts with a letter is a record. -/
theorem record_dumpsSpaced {k : Str} (hc : 97 ≤ c ∧ c < 123)
    (h : Fit.fitMembers ((c :: k, x) :: d)) (hflat : FlatMembers ((c :: k, x) :: d)) :
  Record ((Json.obj ((c :: k, x) :: d)).dumpsSpaced.flatMap asciiPoint)
    (reread.rereadMembers ((c :: k, x) :: d))
  := by
  refine ⟨flatMembers_reread hflat, ?_⟩
  have hdenotes := (printsMembers_dumpsSpaced (P := fun _ => True) (by simp) (by simp) h).denotes
  have hhead : ∃ t, (dumpsSpaced.dumpsMembers ((c :: k, x) :: d)).flatMap asciiPoint ++ [125] =
      34 :: c :: t := by
    have hescape : escape c = [c] := by
      unfold escape
      repeat rw [if_neg (by omega)]
    have hpoint : asciiPoint c = [c] := by rw [asciiPoint, if_pos (by omega)]
    cases d with
    | nil => exact ⟨_, by simp [dumpsSpaced.dumpsMembers, flatMap_quote, hescape, hpoint]; rfl⟩
    | cons p d => exact ⟨_, by simp [dumpsSpaced.dumpsMembers, flatMap_quote, hescape, hpoint]; rfl⟩
  obtain ⟨t, ht⟩ := hhead
  rw [ht] at hdenotes
  refine ⟨c, t, ?_, ?_, hdenotes⟩
  · have hopen : asciiPoint 123 = [123] := rfl
    have hclose : [125].flatMap asciiPoint = [125] := rfl
    rw [dumpsSpaced, List.flatMap_cons, List.flatMap_append, hopen, hclose, ht, List.singleton_append]
  · refine ⟨?_, by omega, by omega, by omega, by omega⟩
    simp only [isWhitespace, Bool.or_eq_false_iff, decide_eq_false_iff_not]
    omega

end Json
