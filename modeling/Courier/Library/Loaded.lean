import Courier.Library.Dict
import Courier.Library.Escaped

/-!
# What is read of a text

A value that is read from a text of characters is well formed, and its texts have no surrogate pairs
(`good_of_loads`): the halves of a pair are joined when they are read.  So what was read once is read back
from every encoding of it.
-/

namespace Json

open Text

/-- The text is of characters: code points that are no surrogates. -/
def Decoded (s : Str) : Prop :=
  ∀ c ∈ s, c < 0x110000 ∧ isSurrogate c = false

variable {s t : Str}

theorem Decoded.sublist (h : Decoded s) (hst : t.Sublist s) :
  Decoded t
  := fun c hc => h c (hst.subset hc)

variable {c : Nat}

theorem Decoded.tail (h : Decoded (c :: s)) :
  Decoded s
  := h.sublist (List.sublist_cons_self c s)

theorem Decoded.skip (h : Decoded s) :
  Decoded (Json.skip s)
  := h.sublist (List.dropWhile_sublist _)

/-- The value is well formed, and its texts have no surrogate pairs. -/
def Good (v : Json) : Prop :=
  v.wf = true ∧ v.EveryText PlainText

theorem plainText_of_ascii (h : ∀ c ∈ s, c < 128) :
  PlainText s
  := ⟨fun c hc => lt_trans (h c hc) (by decide), hasPair_of_lt fun c hc => lt_trans (h c hc) (by decide)⟩

theorem good_str (h : PlainText s) :
  Good (.str s)
  := ⟨rfl, h⟩

/-! ### Texts -/

/-- The unit is a character, unless it was written as four digits. -/
def IsUnit (u : Nat × Bool) : Prop :=
  u.1 < 0x110000 ∧ (u.2 = false → isSurrogate u.1 = false)

variable {n : Nat}

theorem hexValue_lt (h : hexValue c = some n) :
  n < 16
  := by
  unfold hexValue at h
  split_ifs at h
  · cases h
    omega
  · cases h
    omega
  · cases h
    omega

theorem hex4_lt {a b d : Nat} (h : hex4 a b c d = some n) :
  n < 0x10000
  := by
  simp only [hex4, Option.bind_eq_bind, Option.bind_eq_some_iff, Option.pure_def, Option.some.injEq] at h
  obtain ⟨a', ha, b', hb, c', hc, d', hd, rfl⟩ := h
  have ha := hexValue_lt ha
  have hb := hexValue_lt hb
  have hc := hexValue_lt hc
  have hd := hexValue_lt hd
  omega

theorem unescape_lt (h : unescape c = some n) :
  n < 0xD800
  := by
  unfold unescape at h
  split_ifs at h with hsame
  · cases h
    omega
  all_goals
    cases h
    decide

variable {rest : Str} {units : List (Nat × Bool)}

/-- What is scanned of a text are units, and what is left is a part of it. -/
theorem isUnit_of_scanUnits (hs : Decoded s)
    (h : scanUnits s = some (units, rest)) :
  (∀ u ∈ units, IsUnit u) ∧ Decoded rest
  := by
  have hcons : ∀ {u : Nat × Bool} {t : Str}, IsUnit u →
      (∀ {units rest}, scanUnits t = some (units, rest) → (∀ u ∈ units, IsUnit u) ∧ Decoded rest) →
      ∀ {units rest}, consScanned u (scanUnits t) = some (units, rest) →
        (∀ u ∈ units, IsUnit u) ∧ Decoded rest := by
    intro u t hu ih units rest h
    obtain ⟨⟨more, left⟩, hmore, heq⟩ := Option.map_eq_some_iff.mp h
    cases heq
    obtain ⟨hunits, hleft⟩ := ih hmore
    exact ⟨List.forall_mem_cons.mpr ⟨hu, hunits⟩, hleft⟩
  induction s using scanUnits.induct generalizing units rest with
  | case1 => cases h
  | case2 t =>
    rw [scanUnits] at h
    cases h
    exact ⟨by simp, hs.tail⟩
  | case3 a b c d t hnone =>
    rw [scanUnits, hnone] at h
    cases h
  | case4 a b c d t unit hunit ih =>
    rw [scanUnits, hunit] at h
    have hlt := hex4_lt hunit
    refine hcons ⟨by dsimp only; omega, by rintro ⟨⟩⟩ (fun h => ih ?_ h) h
    exact hs.tail.tail.tail.tail.tail.tail
  | case5 c t hnot hnone =>
    rw [scanUnits, hnone] at h
    · cases h
    · exact hnot
  | case6 c t hnot unit hunit ih =>
    rw [scanUnits, hunit] at h
    · have hlt := unescape_lt hunit
      refine hcons ⟨by dsimp only; omega, fun _ => ?_⟩ (fun h => ih hs.tail.tail h) h
      simp only [isSurrogate, Bool.and_eq_false_iff, decide_eq_false_iff_not]
      omega
    · exact hnot
  | case7 c t h1 h2 h3 hlt =>
    rw [scanUnits, if_pos hlt] at h
    · cases h
    all_goals assumption
  | case8 c t h1 h2 h3 hlt ih =>
    rw [scanUnits, if_neg hlt] at h
    · exact hcons ⟨(hs c (by simp)).1, fun _ => (hs c (by simp)).2⟩ (fun h => ih hs.tail h) h
    all_goals assumption

/-- The second half of a pair that starts a joined text was written as four digits. -/
theorem head_joinPairs (hunits : ∀ u ∈ units, IsUnit u) {d : Nat}
    (h : joinPairs units = d :: t) :
  (∃ rest, units = (d, true) :: rest) ∨ ∀ c, isPair c d = false
  := by
  have hfused : ∀ high low c, isPair high low = true → isPair c (fused high low) = false := by
    intro high low c _
    have hle := le_fused high low
    rw [Bool.eq_false_iff, ne_eq, isPair_iff]
    omega
  rw [joinPairs.eq_def] at h
  split at h
  · cases h
  · next high low rest =>
    split_ifs at h with hpair
    · obtain ⟨rfl, -⟩ := List.cons.inj h
      exact .inr fun c => hfused high low c hpair
    · obtain ⟨rfl, -⟩ := List.cons.inj h
      exact .inl ⟨_, rfl⟩
  · next c mark rest hnot =>
    obtain ⟨rfl, -⟩ := List.cons.inj h
    cases mark with
    | true => exact .inl ⟨_, rfl⟩
    | false =>
      right
      intro b
      have hplain := (hunits (c, false) (by simp)).2 rfl
      rw [Bool.eq_false_iff, ne_eq, isPair_iff]
      simp only [isSurrogate, Bool.and_eq_false_iff, decide_eq_false_iff_not] at hplain
      omega

theorem hasPair_cons (hs : hasPair s = false)
    (h : ∀ d t, s = d :: t → isPair c d = false) :
  hasPair (c :: s) = false
  := by
  cases s with
  | nil => rfl
  | cons d t => rw [hasPair, h d t rfl, hs, Bool.or_false]

theorem plainText_joinPairs (hunits : ∀ u ∈ units, IsUnit u) :
  PlainText (joinPairs units)
  := by
  induction units using joinPairs.induct with
  | case1 => exact ⟨by simp [joinPairs], rfl⟩
  | case2 high low rest hpair ih =>
    obtain ⟨hlt, hnone⟩ := ih fun u hu => hunits u (by simp [hu])
    have hbounds := isPair_iff.mp hpair
    rw [joinPairs, if_pos hpair]
    refine ⟨List.forall_mem_cons.mpr ⟨by omega, hlt⟩, hasPair_cons hnone ?_⟩
    intro d t _
    rw [Bool.eq_false_iff, ne_eq, isPair_iff]
    omega
  | case3 high low rest hpair ih =>
    have hrest : ∀ u ∈ (low, true) :: rest, IsUnit u := fun u hu => hunits u (List.mem_cons_of_mem _ hu)
    obtain ⟨hlt, hnone⟩ := ih hrest
    rw [joinPairs, if_neg hpair]
    refine ⟨List.forall_mem_cons.mpr ⟨(hunits (high, true) (by simp)).1, hlt⟩, hasPair_cons hnone ?_⟩
    intro d t heq
    rcases head_joinPairs hrest heq with ⟨rest', hhead⟩ | hnever
    · cases hhead
      simpa using hpair
    · exact hnever high
  | case4 c mark rest hnot ih =>
    have hrest : ∀ u ∈ rest, IsUnit u := fun u hu => hunits u (List.mem_cons_of_mem _ hu)
    obtain ⟨hlt, hnone⟩ := ih hrest
    rw [joinPairs]
    · refine ⟨List.forall_mem_cons.mpr ⟨(hunits (c, mark) (by simp)).1, hlt⟩, hasPair_cons hnone ?_⟩
      intro d t heq
      rcases head_joinPairs hrest heq with ⟨rest', rfl⟩ | hnever
      · cases mark with
        | true => exact absurd rfl (hnot d rest' rfl)
        | false =>
          have hplain := (hunits (c, false) (by simp)).2 rfl
          rw [Bool.eq_false_iff, ne_eq, isPair_iff]
          simp only [isSurrogate, Bool.and_eq_false_iff, decide_eq_false_iff_not] at hplain
          omega
      · exact hnever c
    · exact hnot

theorem plainText_of_scanString (hs : Decoded s) (h : scanString s = some (t, rest)) :
  PlainText t ∧ Decoded rest
  := by
  obtain ⟨⟨units, left⟩, hscan, heq⟩ := Option.map_eq_some_iff.mp h
  cases heq
  obtain ⟨hunits, hleft⟩ := isUnit_of_scanUnits hs hscan
  exact ⟨plainText_joinPairs hunits, hleft⟩

/-! ### Numbers -/

/-- The text does not continue a run of digits. -/
def Breaks (s : Str) : Prop :=
  ∀ c t, s = c :: t → isDigit c = false

theorem breaks_nil :
  Breaks []
  := by
  rintro _ _ ⟨⟩

theorem span_digits {digits : Str} (h : ∀ c ∈ digits, isDigit c = true) (hrest : Breaks rest) :
  (digits ++ rest).takeWhile isDigit = digits ∧ (digits ++ rest).dropWhile isDigit = rest
  := by
  have hnone : rest.takeWhile isDigit = [] ∧ rest.dropWhile isDigit = rest := by
    cases rest with
    | nil => exact ⟨rfl, rfl⟩
    | cons c t =>
      have hc := hrest c t rfl
      simp [hc]
  constructor
  · rw [List.takeWhile_append_of_pos h, hnone.1, List.append_nil]
  · rw [List.dropWhile_append_of_pos h, hnone.2]

theorem digits_takeWhile (s : Str) :
  ∀ c ∈ s.takeWhile isDigit, isDigit c = true
  := fun _ hc => List.mem_takeWhile_imp hc

/-- An integer part is scanned as itself, whatever follows that is no digit. -/
theorem scanInt_self {i r : Str} (h : scanInt s = some (i, r)) (hrest : Breaks rest) :
  scanInt (i ++ rest) = some (i, rest) ∧ s = i ++ r
  := by
  have hunsigned : ∀ {s u r : Str}, scanUnsigned s = some (u, r) →
      scanUnsigned (u ++ rest) = some (u, rest) ∧ s = u ++ r ∧
        ∃ c t, u = c :: t ∧ isDigit c = true := by
    intro s u r h
    cases s with
    | nil => cases h
    | cons c t =>
      simp only [scanUnsigned] at h
      split_ifs at h with hzero hdigit
      · cases h
        subst hzero
        exact ⟨rfl, rfl, 48, [], rfl, rfl⟩
      · cases h
        have hu : (c :: t).takeWhile isDigit = c :: t.takeWhile isDigit := by
          rw [List.takeWhile_cons, if_pos hdigit]
        obtain ⟨htake, hdrop⟩ := span_digits (digits_takeWhile (c :: t)) hrest
        refine ⟨?_, List.takeWhile_append_dropWhile.symm, c, _, hu, hdigit⟩
        rw [hu, List.cons_append] at htake hdrop ⊢
        rw [scanUnsigned, if_neg hzero, if_pos hdigit, htake, hdrop]
  simp only [scanInt, Option.map_eq_some_iff] at h
  obtain ⟨⟨u, r'⟩, hscan, heq⟩ := h
  cases heq
  obtain ⟨hself, hsplit, c, t, rfl, hdigit⟩ := hunsigned hscan
  cases s with
  | nil => cases hscan
  | cons d s =>
  by_cases hminus : d = 45
  · subst hminus
    have hsign : scanSign [45] (45 :: s) = ([45], s) := rfl
    rw [hsign] at hsplit ⊢
    dsimp only at hsplit ⊢
    constructor
    · have hsign : scanSign [45] ([45] ++ (c :: t) ++ rest) = ([45], (c :: t) ++ rest) := rfl
      simp only [scanInt, hsign, hself, Option.map_some]
    · rw [hsplit]
      rfl
  · have hsign : scanSign [45] (d :: s) = ([], d :: s) := by simp [scanSign, hminus]
    rw [hsign] at hsplit ⊢
    dsimp only at hsplit ⊢
    have hc : c ≠ 45 := by
      rintro rfl
      cases hdigit
    constructor
    · have hsign : scanSign [45] ([] ++ (c :: t) ++ rest) = ([], (c :: t) ++ rest) := by
        simp [scanSign, hc]
      simp only [scanInt, hsign, hself, Option.map_some]
    · rw [hsplit]
      rfl

/-- A fraction is scanned as itself, whatever follows that is neither a digit nor a point. -/
theorem scanFraction_self (s : Str) (hrest : Breaks rest) (hpoint : ∀ t, rest ≠ 46 :: t) :
  scanFraction ((scanFraction s).1 ++ rest) = ((scanFraction s).1, rest) ∧
    s = (scanFraction s).1 ++ (scanFraction s).2 ∧ ((scanFraction s).1 = [] ∨ ∃ t, (scanFraction s).1 = 46 :: t)
  := by
  have hnone : scanFraction rest = ([], rest) := by
    cases rest with
    | nil => rfl
    | cons c t =>
      rw [scanFraction, if_neg]
      rintro ⟨rfl, -⟩
      exact hpoint t rfl
  cases s with
  | nil => exact ⟨hnone, rfl, .inl rfl⟩
  | cons c t =>
    by_cases hfraction : c = 46 ∧ t.takeWhile isDigit ≠ []
    · obtain ⟨rfl, hdigits⟩ := hfraction
      have hself : scanFraction (46 :: t) = (46 :: t.takeWhile isDigit, t.dropWhile isDigit) := by
        rw [scanFraction, if_pos ⟨rfl, hdigits⟩]
      obtain ⟨htake, hdrop⟩ := span_digits (digits_takeWhile t) hrest
      rw [hself]
      refine ⟨?_, by simp [List.takeWhile_append_dropWhile], .inr ⟨_, rfl⟩⟩
      rw [List.cons_append, scanFraction, htake, hdrop, if_pos ⟨rfl, hdigits⟩]
    · have hself : scanFraction (c :: t) = ([], c :: t) := by
        rw [scanFraction, if_neg hfraction]
      rw [hself]
      exact ⟨hnone, rfl, .inl rfl⟩

theorem scanExponent_self (s : Str) :
  scanExponent (scanExponent s).1 = ((scanExponent s).1, []) ∧
    s = (scanExponent s).1 ++ (scanExponent s).2 ∧
    ((scanExponent s).1 = [] ∨ ∃ c t, (scanExponent s).1 = c :: t ∧ (c = 101 ∨ c = 69))
  := by
  cases s with
  | nil => exact ⟨rfl, rfl, .inl rfl⟩
  | cons e t =>
    have hsign : (scanSign [43, 45] t).1 ++ (scanSign [43, 45] t).2 = t ∧
        ∀ c u, isDigit c = true → scanSign [43, 45] ((scanSign [43, 45] t).1 ++ c :: u) =
          ((scanSign [43, 45] t).1, c :: u) := by
      have hdigit : ∀ c u, isDigit c = true → scanSign [43, 45] (c :: u) = ([], c :: u) := by
        intro c u hc
        rw [scanSign, if_neg]
        intro hmem
        rcases List.mem_pair.mp hmem with rfl | rfl <;> cases hc
      cases t with
      | nil => exact ⟨rfl, hdigit⟩
      | cons d t =>
        by_cases hd : d ∈ [43, 45]
        · rw [scanSign, if_pos hd]
          refine ⟨rfl, ?_⟩
          intro c u hc
          rw [List.singleton_append, scanSign, if_pos hd]
        · rw [scanSign, if_neg hd]
          exact ⟨rfl, hdigit⟩
    obtain ⟨hsplit, hself⟩ := hsign
    generalize hscan : scanSign [43, 45] t = signed at hsplit hself
    obtain ⟨sign, u⟩ := signed
    dsimp only at hsplit hself
    by_cases hexp : (e = 101 ∨ e = 69) ∧ u.takeWhile isDigit ≠ []
    · obtain ⟨he, hdigits⟩ := hexp
      have hfound : scanExponent (e :: t) = (e :: (sign ++ u.takeWhile isDigit), u.dropWhile isDigit) := by
        simp only [scanExponent, hscan]
        rw [if_pos ⟨he, hdigits⟩]
      rw [hfound]
      refine ⟨?_, ?_, .inr ⟨e, _, rfl, he⟩⟩
      · obtain ⟨c, v, hcv⟩ := List.exists_cons_of_ne_nil hdigits
        have hc : isDigit c = true := digits_takeWhile u c (by simp [hcv])
        obtain ⟨htake, hdrop⟩ := span_digits (digits_takeWhile u) breaks_nil
        rw [List.append_nil] at htake hdrop
        simp only [scanExponent]
        rw [hcv, hself c v hc, ← hcv, htake, hdrop, if_pos ⟨he, hdigits⟩]
      · rw [List.cons_append, List.append_assoc, List.takeWhile_append_dropWhile, hsplit]
    · have hfound : scanExponent (e :: t) = ([], e :: t) := by
        simp only [scanExponent, hscan]
        rw [if_neg hexp]
      rw [hfound]
      exact ⟨rfl, rfl, .inl rfl⟩

/-- A number that is read is well formed, and what is left is a part of the text. -/
theorem good_of_scanNumber {v : Json} (h : scanNumber s = some (v, rest)) :
  Good v ∧ rest.Sublist s
  := by
  unfold scanNumber at h
  cases hint : scanInt s with
  | none =>
    rw [hint] at h
    cases h
  | some p =>
    obtain ⟨i, r⟩ := p
    rw [hint] at h
    dsimp only at h
    obtain ⟨-, hs⟩ := scanInt_self hint breaks_nil
    obtain ⟨hexponent, hr', he⟩ := scanExponent_self (scanFraction r).2
    have hbreaks : Breaks (scanExponent (scanFraction r).2).1 := by
      rcases he with hnil | ⟨c, t, hcons, hc⟩
      · rw [hnil]
        exact breaks_nil
      · rw [hcons]
        rintro d u heq
        obtain ⟨rfl, rfl⟩ := List.cons.inj heq
        rcases hc with rfl | rfl <;> rfl
    have hpoint : ∀ t, (scanExponent (scanFraction r).2).1 ≠ 46 :: t := by
      intro t heq
      rcases he with hnil | ⟨c, u, hcons, hc⟩
      · cases hnil.symm.trans heq
      · obtain ⟨rfl, -⟩ := List.cons.inj (hcons.symm.trans heq)
        rcases hc with hc | hc <;> cases hc
    obtain ⟨hfraction, hr, hf⟩ := scanFraction_self r hbreaks hpoint
    split_ifs at h with hnone
    · cases h
      refine ⟨⟨rfl, trivial⟩, ?_⟩
      rw [hs]
      exact List.sublist_append_right i _
    · cases h
      refine ⟨⟨?_, trivial⟩, ?_⟩
      · have hbreak : Breaks ((scanFraction r).1 ++ (scanExponent (scanFraction r).2).1) := by
          rcases hf with hnil | ⟨t, hcons⟩
          · rw [hnil]
            exact hbreaks
          · rw [hcons]
            rintro c u heq
            obtain ⟨rfl, -⟩ := List.cons.inj heq
            rfl
        obtain ⟨hself, -⟩ := scanInt_self hint hbreak
        simp only [wf, isFloat, decide_eq_true_eq]
        rw [List.append_assoc, scanNumber, hself]
        simp only [hfraction, hexponent]
        rw [if_neg hnone, List.append_assoc]
      · have hall : s = (i ++ (scanFraction r).1 ++ (scanExponent (scanFraction r).2).1) ++
            (scanExponent (scanFraction r).2).2 := by
          conv_lhs => rw [hs, hr, hr', ← List.append_assoc, ← List.append_assoc]
        conv_rhs => rw [hall]
        exact List.sublist_append_right _ _

/-! ### Values -/

theorem wfMembers_insertMember {k : Str} {v : Json} (hv : v.wf = true) :
  ∀ {d : Members}, wf.wfMembers d = true → wf.wfMembers (insertMember k v d) = true
  | [], _ => by simp [insertMember, wf.wfMembers, hv]
  | (l, w) :: d, h => by
    obtain ⟨hw, hd⟩ : w.wf = true ∧ wf.wfMembers d = true := by
      simpa only [wf.wfMembers, Bool.and_eq_true] using h
    unfold insertMember
    split_ifs
    · simp [wf.wfMembers, hv, hd]
    · simp [wf.wfMembers, hv, hw, hd]
    · simp [wf.wfMembers, hw, wfMembers_insertMember hv hd]

theorem everyMember_insertMember {p : Str → Prop} {k : Str} {v : Json} (hk : p k) (hv : v.EveryText p) :
  ∀ {d : Members}, EveryText.everyMember p d → EveryText.everyMember p (insertMember k v d)
  | [], _ => ⟨hk, hv, trivial⟩
  | (l, w) :: d, h => by
    obtain ⟨hl, hw, hd⟩ := h
    unfold insertMember
    split_ifs
    · exact ⟨hk, hv, hd⟩
    · exact ⟨hk, hv, hl, hw, hd⟩
    · exact ⟨hl, hw, everyMember_insertMember hk hv hd⟩

theorem sortedKeys_members (pairs : Members) :
  sortedKeys (members pairs) = true
  := by
  induction pairs using List.reverseRecOn with
  | nil => rfl
  | append_singleton pairs q ih =>
    have hlast : members (pairs ++ [q]) = insertMember q.1 q.2 (members pairs) := List.foldl_concat ..
    rw [hlast]
    exact sortedKeys_insertMember ih

variable {d : Members}

theorem nodup_of_sortedKeys (h : sortedKeys d = true) :
  (d.map Prod.fst).Nodup
  := by
  induction d with
  | nil => exact List.nodup_nil
  | cons p d ih =>
    obtain ⟨hfirst, hrest⟩ := sortedKeys_cons.mp h
    rw [List.map_cons, List.nodup_cons]
    refine ⟨?_, ih hrest⟩
    intro hmem
    obtain ⟨q, hq, heq⟩ := List.mem_map.mp hmem
    exact absurd heq (ne_of_gt (hfirst q hq))

variable {pairs : Members}

theorem mem_of_mem_members {q : Str × Json} (h : q ∈ members pairs) :
  q ∈ pairs
  := by
  induction pairs using List.reverseRecOn with
  | nil => cases h
  | append_singleton pairs p ih =>
    have hlast : members (pairs ++ [p]) = insertMember p.1 p.2 (members pairs) := List.foldl_concat ..
    rw [hlast] at h
    rcases mem_insertMember h with rfl | hold
    · simp
    · exact List.mem_append_left _ (ih hold)

theorem good_members (h : ∀ q ∈ pairs, PlainText q.1 ∧ Good q.2) :
  Good (.obj (members pairs))
  := by
  have hall : wf.wfMembers (members pairs) = true ∧
      EveryText.everyMember PlainText (members pairs) := by
    induction pairs using List.reverseRecOn with
    | nil => exact ⟨rfl, trivial⟩
    | append_singleton pairs q ih =>
      obtain ⟨hwf, hplain⟩ := ih fun q hq => h q (List.mem_append_left _ hq)
      obtain ⟨hk, hv⟩ := h q (by simp)
      have hlast : members (pairs ++ [q]) = insertMember q.1 q.2 (members pairs) := List.foldl_concat ..
      rw [hlast]
      exact ⟨wfMembers_insertMember hv.1 hwf, everyMember_insertMember hk hv.2 hplain⟩
  obtain ⟨hwf, hplain⟩ := hall
  exact ⟨by simp only [wf, sortedKeys_members, hwf, Bool.and_self], hplain⟩

theorem good_obj (hsorted : sortedKeys d = true)
    (h : ∀ q ∈ d, PlainText q.1 ∧ Good q.2) :
  Good (.obj d)
  := by
  rw [← members_eq_self hsorted]
  exact good_members h

/-- A member of an object whose keys are distinct is looked up as before. -/
theorem lookup_members (h : (pairs.map Prod.fst).Nodup) (k : Str) :
  (members pairs).lookup k = pairs.lookup k
  := by
  induction pairs using List.reverseRecOn with
  | nil => rfl
  | append_singleton pairs q ih =>
    rw [List.map_append, List.nodup_append] at h
    obtain ⟨hnodup, -, hnew⟩ := h
    have hlast : members (pairs ++ [q]) = insertMember q.1 q.2 (members pairs) := List.foldl_concat ..
    rw [hlast, lookup_insertMember, ih hnodup, List.lookup_append]
    by_cases hk : k = q.1
    · have hnone : pairs.lookup k = none := by
        rw [List.lookup_eq_none_iff]
        intro p hp
        have hne := hnew p.1 (List.mem_map_of_mem hp) q.1 (by simp)
        simpa [hk] using Ne.symm hne
      rw [if_pos hk, hnone, hk, List.lookup_cons_self]
      rfl
    · have hb : (k == q.1) = false := by simp [hk]
      rw [if_neg hk, List.lookup_cons, hb]
      simp

theorem get_members (h : (d.map Prod.fst).Nodup) (k : Str) :
  get (members d) k = get d k
  := by
  rw [Json.get, Json.get, lookup_members h]

theorem perm_members (h : (pairs.map Prod.fst).Nodup) :
  (members pairs).Perm pairs
  := by
  have hkeys := nodup_of_sortedKeys (sortedKeys_members pairs)
  rw [List.perm_ext_iff_of_nodup hkeys.of_map h.of_map]
  rintro ⟨k, v⟩
  rw [← Dict.lookup_eq_some_iff hkeys, ← Dict.lookup_eq_some_iff h, lookup_members h]

theorem good_items {items : List Json} (h : ∀ v ∈ items, Good v) :
  Good (.arr items)
  := by
  refine ⟨wf_arr.mpr fun v hv => (h v hv).1, ?_⟩
  show EveryText.everyItem PlainText items
  induction items with
  | nil => trivial
  | cons v items ih =>
    exact ⟨(h v (by simp)).2, ih fun w hw => h w (List.mem_cons_of_mem _ hw)⟩

/-- What is read of a text of characters is good, and so is what is left. -/
def Reads {V : Type} (good : V → Prop) (read : Str → Option (V × Str)) : Prop :=
  ∀ s v rest, Decoded s → read s = some (v, rest) → good v ∧ Decoded rest

mutual

theorem reads_readValue : ∀ fuel, Reads Good (readValue fuel)
  | 0 => by rintro s v rest _ ⟨⟩
  | fuel + 1 => by
    intro s v rest hs h
    rw [readValue.eq_def] at h
    dsimp only at h
    split at h
    · obtain ⟨⟨t, left⟩, hscan, heq⟩ := Option.map_eq_some_iff.mp h
      cases heq
      obtain ⟨hplain, hleft⟩ := plainText_of_scanString hs.tail hscan
      exact ⟨⟨rfl, hplain⟩, hleft⟩
    · have hskip := hs.tail.skip
      split at h
      · next heq =>
        cases h
        rw [heq] at hskip
        exact ⟨⟨rfl, trivial⟩, hskip.tail⟩
      · obtain ⟨⟨pairs, left⟩, hread, heq⟩ := Option.map_eq_some_iff.mp h
        cases heq
        obtain ⟨hpairs, hleft⟩ := reads_readMembers fuel _ _ _ hskip hread
        exact ⟨good_members hpairs, hleft⟩
    · have hskip := hs.tail.skip
      split at h
      · next heq =>
        cases h
        rw [heq] at hskip
        exact ⟨⟨rfl, trivial⟩, hskip.tail⟩
      · obtain ⟨⟨items, left⟩, hread, heq⟩ := Option.map_eq_some_iff.mp h
        cases heq
        obtain ⟨hitems, hleft⟩ := reads_readItems fuel _ _ _ hskip hread
        exact ⟨good_items hitems, hleft⟩
    · cases h
      exact ⟨⟨rfl, trivial⟩, hs.tail.tail.tail.tail⟩
    · cases h
      exact ⟨⟨rfl, trivial⟩, hs.tail.tail.tail.tail⟩
    · cases h
      exact ⟨⟨rfl, trivial⟩, hs.tail.tail.tail.tail.tail⟩
    · obtain ⟨hgood, hpart⟩ := good_of_scanNumber h
      exact ⟨hgood, hs.sublist hpart⟩

theorem reads_readItems : ∀ fuel, Reads (fun items => ∀ v ∈ items, Good v) (readItems fuel)
  | 0 => by rintro s items rest _ ⟨⟩
  | fuel + 1 => by
    intro s items rest hs h
    rw [readItems] at h
    split at h
    · cases h
    · next x left hx =>
      obtain ⟨hgood, hleft⟩ := reads_readValue fuel _ _ _ hs.skip hx
      have hskip := hleft.skip
      split at h
      · next heq =>
        cases h
        rw [heq] at hskip
        exact ⟨by simpa using hgood, hskip.tail⟩
      · next heq =>
        obtain ⟨⟨xs, more⟩, hxs, heq'⟩ := Option.map_eq_some_iff.mp h
        cases heq'
        rw [heq] at hskip
        obtain ⟨hitems, hmore⟩ := reads_readItems fuel _ _ _ hskip.tail hxs
        exact ⟨List.forall_mem_cons.mpr ⟨hgood, hitems⟩, hmore⟩
      · cases h

theorem reads_readMembers :
  ∀ fuel, Reads (fun pairs => ∀ q ∈ pairs, PlainText q.1 ∧ Good q.2) (readMembers fuel)
  | 0 => by rintro s pairs rest _ ⟨⟩
  | fuel + 1 => by
    intro s pairs rest hs h
    have hstart := hs.skip
    rw [readMembers] at h
    split at h
    · next hquote =>
      rw [hquote] at hstart
      split at h
      · cases h
      · next k left hk =>
        obtain ⟨hplain, hleft⟩ := plainText_of_scanString hstart.tail hk
        have hcolon := hleft.skip
        split at h
        · next heq =>
          rw [heq] at hcolon
          split at h
          · cases h
          · next x after hx =>
            obtain ⟨hgood, hafter⟩ := reads_readValue fuel _ _ _ hcolon.tail.skip hx
            have hend := hafter.skip
            split at h
            · next heq' =>
              cases h
              rw [heq'] at hend
              exact ⟨by simpa using ⟨hplain, hgood⟩, hend.tail⟩
            · next heq' =>
              obtain ⟨⟨xs, more⟩, hxs, heq''⟩ := Option.map_eq_some_iff.mp h
              cases heq''
              rw [heq'] at hend
              obtain ⟨hmembers, hmore⟩ := reads_readMembers fuel _ _ _ hend.tail hxs
              exact ⟨List.forall_mem_cons.mpr ⟨⟨hplain, hgood⟩, hmembers⟩, hmore⟩
            · cases h
        · cases h
    · cases h

end

/-- A text that was decoded is of characters. -/
theorem decoded_of_decode {raw : Bytes} (h : raw.decode = some s) :
  Decoded s
  := by
  have hcons : ∀ {rest : Bytes} {c : Nat}, c < 0x110000 → (c < 0xD800 ∨ 0xDFFF < c) →
      (∀ {t}, rest.decode = some t → Decoded t) →
      ∀ {s}, rest.decode.map (c :: ·) = some s → Decoded s := by
    intro rest c hlt hplain ih s h
    obtain ⟨t, ht, rfl⟩ := Option.map_eq_some_iff.mp h
    refine List.forall_mem_cons.mpr ⟨⟨hlt, ?_⟩, ih ht⟩
    simp only [isSurrogate, Bool.and_eq_false_iff, decide_eq_false_iff_not]
    omega
  have hcontinues : ∀ b : UInt8, Bytes.continues b = true → 0x80 ≤ b.toNat ∧ b.toNat ≤ 0xBF := by
    intro b hb
    simp only [Bytes.continues, Bool.and_eq_true, decide_eq_true_eq, UInt8.le_iff_toNat_le] at hb
    exact hb
  induction raw using Bytes.decode.induct generalizing s with
  | case1 =>
    cases h
    rintro c ⟨⟩
  | case2 a rest hlow ih =>
    rw [Bytes.decode.eq_def] at h
    dsimp only at h
    rw [if_pos hlow] at h
    have hlow := UInt8.lt_iff_toNat_lt.mp hlow
    have hlow : a.toNat < 128 := hlow
    exact hcons (by omega) (by omega) ih h
  | case3 a hhigh =>
    rw [Bytes.decode.eq_def] at h
    dsimp only at h
    rw [if_neg hhigh] at h
    cases h
  | case4 a hhigh b rest htwo ih =>
    rw [Bytes.decode.eq_def] at h
    dsimp only at h
    rw [if_neg hhigh, if_pos htwo] at h
    obtain ⟨hlow, hup, hb⟩ := htwo
    have hlow : 0xC2 ≤ a.toNat := UInt8.le_iff_toNat_le.mp hlow
    have hup : a.toNat ≤ 0xDF := UInt8.le_iff_toNat_le.mp hup
    have hb := hcontinues b hb
    exact hcons (by omega) (by omega) ih h
  | case5 a hhigh b htwo =>
    rw [Bytes.decode.eq_def] at h
    dsimp only at h
    rw [if_neg hhigh, if_neg htwo] at h
    cases h
  | case6 a hhigh b htwo c rest hthree ih =>
    rw [Bytes.decode.eq_def] at h
    dsimp only at h
    rw [if_neg hhigh, if_neg htwo, if_pos hthree] at h
    obtain ⟨hlow, hup, hb, hc, -, hsurrogate⟩ := hthree
    have hlow : 0xE0 ≤ a.toNat := UInt8.le_iff_toNat_le.mp hlow
    have hup : a.toNat ≤ 0xEF := UInt8.le_iff_toNat_le.mp hup
    have hsurrogate : a.toNat = 0xED → b.toNat ≤ 0x9F := by
      intro ha
      exact UInt8.le_iff_toNat_le.mp (hsurrogate (UInt8.toNat_inj.mp ha))
    have hb := hcontinues b hb
    have hc := hcontinues c hc
    exact hcons (by omega) (by omega) ih h
  | case7 a hhigh b htwo c hthree =>
    rw [Bytes.decode.eq_def] at h
    dsimp only at h
    rw [if_neg hhigh, if_neg htwo, if_neg hthree] at h
    cases h
  | case8 a hhigh b htwo c hthree d rest hfour ih =>
    rw [Bytes.decode.eq_def] at h
    dsimp only at h
    rw [if_neg hhigh, if_neg htwo, if_neg hthree, if_pos hfour] at h
    obtain ⟨hlow, hup, hb, hc, hd, hfirst, hlast⟩ := hfour
    have hlow : 0xF0 ≤ a.toNat := UInt8.le_iff_toNat_le.mp hlow
    have hup : a.toNat ≤ 0xF4 := UInt8.le_iff_toNat_le.mp hup
    have hfirst : a.toNat = 0xF0 → 0x90 ≤ b.toNat := by
      intro ha
      exact UInt8.le_iff_toNat_le.mp (hfirst (UInt8.toNat_inj.mp ha))
    have hlast : a.toNat = 0xF4 → b.toNat ≤ 0x8F := by
      intro ha
      exact UInt8.le_iff_toNat_le.mp (hlast (UInt8.toNat_inj.mp ha))
    have hb := hcontinues b hb
    have hc := hcontinues c hc
    have hd := hcontinues d hd
    exact hcons (by omega) (by omega) ih h
  | case9 a hhigh b htwo c hthree d rest hfour =>
    rw [Bytes.decode.eq_def] at h
    dsimp only at h
    rw [if_neg hhigh, if_neg htwo, if_neg hthree, if_neg hfour] at h
    cases h

theorem good_of_loads {v : Json} (hs : Decoded s) (h : loads s = some v) :
  Good v
  := by
  unfold loads at h
  split at h
  · cases h
  · next x rest hread =>
    split_ifs at h
    cases h
    exact (reads_readValue _ _ _ _ hs.skip hread).1

end Json
