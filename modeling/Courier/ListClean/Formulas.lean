import Courier.Library.Parts
import Courier.ListClean.Reported

/-!
# Formulas of a cleaned list

A cell that starts with an equals sign is a formula, and it is left as it is.  A formula is only made of a name
with an equals sign after its comma, and only changed where values past the header are joined
(`formulasKept_iff`). -/

namespace Courier.ListClean

open Text hiding upper lower isDigit
open CharTables

/-! ### First characters -/

section Formulas

variable [CharTables]

/-- No mapping makes an equals sign of something else or changes it, and it is no digit. -/
structure EqualsKept : Prop where
  upper_equals : upper [61] = [61]
  mem_upper : ∀ s, 61 ∈ upper s → 61 ∈ s
  mem_lower : ∀ s, 61 ∈ lower s → 61 ∈ s
  not_decimal : isDecimal 61 = false

theorem titledToken_eq (token : Str) :
  titledToken token = if token.any isDigit then token else mapParts 45 titled token
  := rfl

theorem titleCaseDe_eq_mapParts (s : Str) :
  titleCaseDe s = mapParts 32 titledToken s
  := rfl

theorem titledToken_ne_nil {token : Str} (h : token ≠ []) :
  titledToken token ≠ []
  := by
  rw [titledToken_eq]
  split
  · exact h
  · exact mapParts_ne_nil (fun _ => titled_ne_nil) h

theorem titleCaseDe_ne_nil {s : Str} (h : s ≠ []) :
  titleCaseDe s ≠ []
  := mapParts_ne_nil (fun _ => titledToken_ne_nil) h

theorem headFrom_titleCaseDe {P : Nat → Prop} (h : ∀ c d t, upper [c] = d :: t → P d → P c) :
  HeadFrom P titleCaseDe
  := by
  have htitled : HeadFrom P titled := by
    rintro (_ | ⟨c, rest⟩) d t heq hd
    · cases heq
    · obtain ⟨d', t', hupper⟩ := List.exists_cons_of_ne_nil (upper_ne_nil [c] (by simp))
      rw [titled, hupper] at heq
      obtain ⟨rfl, -⟩ := List.cons.inj heq
      exact ⟨c, rest, rfl, h c d' t' hupper hd⟩
  refine HeadFrom.mapParts (fun _ => titledToken_ne_nil) fun token c t heq hc => ?_
  rw [titledToken_eq] at heq
  split at heq
  · exact ⟨c, t, heq, hc⟩
  · exact htitled.mapParts (fun _ => titled_ne_nil) token c t heq hc

def startsEquals (s : Str) : Bool :=
  (text "=").isPrefixOf s

section

omit [CharTables]

theorem startsEquals_cons {c : Nat} {s : Str} :
  startsEquals (c :: s) = true ↔ c = 61
  := by
  have htext : text "=" = [61] := rfl
  rw [startsEquals, htext, List.isPrefixOf_cons_cons, List.isPrefixOf_nil_left, Bool.and_true, beq_iff_eq,
    eq_comm]

theorem formula_of_starts {s : Str} (h : startsEquals s = true) :
  Formula s
  := by
  cases s with
  | nil => cases h
  | cons c t =>
    obtain rfl := startsEquals_cons.mp h
    exact startsEquals_cons.mpr rfl

theorem formula_iff {s : Str} :
  Formula s ↔ startsEquals (collapse s) = true
  := by
  change startsEquals (s.dropWhile isSpace) = true ↔ _
  rw [← collapse_dropWhile]
  cases hdrop : s.dropWhile isSpace with
  | nil => rfl
  | cons c t =>
    have hc : isSpace c = false := by
      by_contra hspace
      have hhead := List.head_dropWhile_not isSpace (l := s) (by simp [hdrop])
      simp [hdrop] at hhead
      exact hspace (by simp [hhead])
    obtain ⟨t', hcollapse⟩ := collapse_cons hc t
    rw [hcollapse, startsEquals_cons, startsEquals_cons]

end

/-! ### Values of each kind -/

variable {s : Str}

theorem EqualsKept.titleCaseDe_iff (h : EqualsKept) (s : Str) :
  startsEquals (titleCaseDe s) = true ↔ startsEquals s = true
  := by
  cases s with
  | nil => rfl
  | cons a s =>
    obtain ⟨c, t, htitle⟩ := List.exists_cons_of_ne_nil (titleCaseDe_ne_nil (List.cons_ne_nil a s))
    rw [htitle, startsEquals_cons, startsEquals_cons]
    constructor
    · rintro rfl
      have hfrom : HeadFrom (· = 61) titleCaseDe := by
        refine headFrom_titleCaseDe fun c d t hupper hd => ?_
        have hmem : 61 ∈ upper [c] := by simp [hupper, hd]
        exact (List.mem_singleton.mp (h.mem_upper [c] hmem)).symm
      obtain ⟨d, u, hdu, hd⟩ := hfrom _ _ _ htitle rfl
      rwa [(List.cons.inj hdu).1]
    · intro ha
      by_contra hc
      have hfrom : HeadFrom (· ≠ 61) titleCaseDe := by
        refine headFrom_titleCaseDe fun c d t hupper hd => ?_
        rintro rfl
        rw [h.upper_equals] at hupper
        exact hd (List.cons.inj hupper).1.symm
      obtain ⟨d, u, hdu, hd⟩ := hfrom _ _ _ htitle hc
      exact hd ((List.cons.inj hdu).1 ▸ ha)

theorem formatGerman_starts {national formatted : Str} (h : formatGerman national = some formatted) :
  startsEquals formatted = false
  := by
  have hplus : ∀ rest, startsEquals (text "+49 " ++ rest) = false := fun rest => rfl
  unfold formatGerman at h
  obtain ⟨-, h⟩ := Option.ite_none_left_eq_some.mp h
  dsimp only at h
  split at h
  · cases h
    exact hplus national
  · obtain ⟨-, h⟩ := Option.ite_none_left_eq_some.mp h
    cases h
    rw [List.append_assoc]
    exact hplus _

theorem normalizePhone_starts (h : startsEquals s = false) :
  startsEquals (normalizePhone s).value = false
  := by
  unfold normalizePhone
  split
  · rfl
  · dsimp only
    split
    · exact h
    · next formatted hformatted =>
      obtain ⟨national, -, hgerman⟩ := Option.bind_eq_some_iff.mp hformatted
      split
      · exact formatGerman_starts hgerman
      · exact formatGerman_starts hgerman

section

omit [CharTables]

theorem matchesEmail_cases (h : matchesEmail s = true) :
  ∃ before domain, s.splitOn 64 = [before, domain] ∧ (∀ c ∈ before, isLocalPoint c = true) ∧
    ∀ c ∈ domain, isDomainPoint c = true
  := by
  unfold matchesEmail at h
  split at h
  · next before domain hsplit =>
    simp only [Bool.and_eq_true, List.all_eq_true] at h
    obtain ⟨⟨⟨⟨⟨-, hbefore⟩, -⟩, htop⟩, -⟩, hrest⟩ := h
    refine ⟨before, domain, hsplit, hbefore, fun c hc => ?_⟩
    generalize htop' : domain.rtakeWhile (fun c => c ≠ 46) = top at htop hrest
    have hsuffix : top = domain.drop (domain.length - top.length) := by
      rw [← htop']
      exact List.suffix_iff_eq_drop.mp (List.rtakeWhile_suffix _ _)
    rw [← List.take_append_drop (domain.length - top.length) domain, ← hsuffix] at hc
    rcases List.mem_append.mp hc with hc | hc
    · exact hrest c hc
    · simp [isDomainPoint, htop c hc]
  · cases h

theorem mem_email (h : matchesEmail s = true) {c : Nat} (hc : c ∈ s) :
  isLocalPoint c = true ∨ c = 64
  := by
  obtain ⟨before, domain, hsplit, hbefore, hdomain⟩ := matchesEmail_cases h
  obtain ⟨heq, -, -⟩ := eq_of_splitOn hsplit
  rw [heq] at hc
  rcases List.mem_append.mp hc with hc | hc
  · exact .inl (hbefore c hc)
  · rcases List.mem_cons.mp hc with hc | hc
    · exact .inr hc
    · exact .inl (by simp [isLocalPoint, hdomain c hc])

theorem equals_notMem_email (h : matchesEmail s = true) :
  61 ∉ s
  := by
  intro hmem
  rcases mem_email h hmem with hlocal | heq
  · exact absurd hlocal (by decide)
  · cases heq

end

theorem normalizeEmail_starts (hequals : EqualsKept) (h : startsEquals s = false) :
  startsEquals (normalizeEmail s).value = false
  := by
  unfold normalizeEmail
  split
  · rfl
  · split
    · exact h
    · next hissue =>
      split
      · exact h
      · have hmatches : matchesEmail s = true := by
          by_contra hnot
          unfold emailIssue at hissue
          rw [if_neg hnot] at hissue
          repeat' split at hissue
          all_goals cases hissue
        cases hlower : lower s with
        | nil => rfl
        | cons c t =>
          by_contra hstarts
          obtain rfl := startsEquals_cons.mp (Bool.not_eq_false _ ▸ hstarts)
          exact equals_notMem_email hmatches (hequals.mem_lower s (by simp [hlower]))

theorem normalizePlz_starts (hequals : EqualsKept) (h : startsEquals s = false) :
  startsEquals (normalizePlz s).value = false
  := by
  unfold normalizePlz
  split
  · rfl
  · split
    · next digits hdigits =>
      have hfive : fiveDigits digits = true := by
        unfold prefixedPlz at hdigits
        repeat' split at hdigits
        all_goals cases hdigits
        all_goals tauto
      simp only [fiveDigits, Bool.and_eq_true] at hfive
      cases digits with
      | nil => rfl
      | cons c t =>
        by_contra hstarts
        obtain rfl := startsEquals_cons.mp (Bool.not_eq_false _ ▸ hstarts)
        have hdecimal := List.all_eq_true.mp hfive.2 61 (by simp)
        rw [hequals.not_decimal] at hdecimal
        cases hdecimal
    · split
      · exact h
      · split
        · exact h
        · exact h

theorem streetName_starts {P : Nat → Prop} (h : ∀ c d t, upper [c] = d :: t → P d → P c)
    (hword : ¬ P 115 ∧ ¬ P 83) {name : Str} {c : Nat} {t : Str} (heq : (streetName name).value = c :: t)
    (hc : P c) :
  ∃ d u, name = d :: u ∧ P d
  := by
  have hstem : ∀ {suffix stem} (ending : Str), streetSuffix name suffix = some stem →
      (∃ d u, ending = d :: u ∧ ¬ P d) → titleCaseDe stem ++ ending = c :: t → ∃ d u, name = d :: u ∧ P d := by
    rintro suffix stem ending hsuffix ⟨e, rest, rfl, he⟩ hvalue
    cases htitle : titleCaseDe stem with
    | nil =>
      rw [htitle] at hvalue
      obtain ⟨rfl, -⟩ := List.cons.inj hvalue
      exact absurd hc he
    | cons c' t' =>
      rw [htitle] at hvalue
      obtain ⟨rfl, -⟩ := List.cons.inj hvalue
      obtain ⟨d, u, hdu, hd⟩ := headFrom_titleCaseDe h stem c' t' htitle hc
      have htake : stem <+: name := by
        obtain ⟨-, htake⟩ := Option.ite_none_left_eq_some.mp hsuffix
        rw [← Option.some.inj htake]
        exact List.take_prefix _ _
      obtain ⟨more, rfl⟩ := htake
      exact ⟨d, u ++ more, by rw [hdu]; rfl, hd⟩
  have hfinish : ∀ {suffix stem}, streetSuffix name suffix = some stem → finishAbbreviation stem = c :: t →
      ∃ d u, name = d :: u ∧ P d := by
    intro suffix stem hsuffix hvalue
    unfold finishAbbreviation at hvalue
    dsimp only at hvalue
    split at hvalue
    · exact hstem (text "Straße") hsuffix ⟨83, _, rfl, hword.2⟩ hvalue
    · exact hstem (text "straße") hsuffix ⟨115, _, rfl, hword.1⟩ hvalue
  unfold streetName at heq
  split at heq
  · next hsuffix => exact hstem (text "straße") hsuffix ⟨115, _, rfl, hword.1⟩ heq
  · split at heq
    · next hsuffix => exact hstem (text "straße") hsuffix ⟨115, _, rfl, hword.1⟩ heq
    · split at heq
      · next hsuffix => exact hfinish hsuffix heq
      · split at heq
        · next hsuffix => exact hfinish (Option.filter_eq_some_iff.mp hsuffix).1 heq
        · exact headFrom_titleCaseDe h name c t heq hc

theorem streetName_ne_nil {name : Str} (h : name ≠ []) :
  (streetName name).value ≠ []
  := by
  have hfinish : ∀ stem, finishAbbreviation stem ≠ [] := by
    intro stem
    unfold finishAbbreviation
    dsimp only
    split <;> simp [text]
  unfold streetName
  split
  · simp [respelled, text]
  · split
    · simp [respelled, text]
    · split
      · exact hfinish _
      · split
        · exact hfinish _
        · exact titleCaseDe_ne_nil h

omit [CharTables] in
theorem strip_cons {c : Nat} (hc : isSpace c = false) (t : Str) :
  ∃ t', strip (c :: t) = c :: t'
  := by
  rw [strip, List.dropWhile_cons_of_neg (by simp [hc])]
  obtain ⟨⟨gap, heq, hgap⟩, -⟩ := rdropWhile_space (c :: t)
  cases hstrip : (c :: t).rdropWhile isSpace with
  | nil =>
    rw [hstrip, List.nil_append] at heq
    rw [hgap c (by simp [← heq])] at hc
    cases hc
  | cons d t' =>
    rw [hstrip] at heq
    exact ⟨t', by rw [(List.cons.inj heq).1]⟩

theorem normalizeStreet_starts (hequals : EqualsKept) (hsame : collapse s = s)
    (h : startsEquals s = false) :
  startsEquals (normalizeStreet s).value = false
  := by
  by_cases hne : s = []
  · rw [normalizeStreet, if_pos hne]
    rfl
  · rw [normalizeStreet_value hne]
    obtain ⟨a, rest, hs⟩ := List.exists_cons_of_ne_nil hne
    have ha : isSpace a = false ∧ a ≠ 61 := by
      have hwords : words s ≠ [] := by
        intro hnil
        rw [collapse, hnil] at hsame
        exact hne hsame.symm
      obtain ⟨d, t, hhead, hd⟩ := head_spaced (fun w => isWord_of_mem_words) hwords
      rw [← collapse, hsame, hs] at hhead
      obtain ⟨rfl, -⟩ := List.cons.inj hhead
      refine ⟨hd, ?_⟩
      rintro rfl
      rw [hs, startsEquals_cons.mpr rfl] at h
      cases h
    obtain ⟨u, hname⟩ : ∃ u, (splitHouseNumber s).1 = a :: u := by
      obtain hsplit | ⟨name, house, hsplit, hne', -, -, hjoined⟩ := splitHouseNumber_cases hsame
      · exact ⟨rest, by rw [hsplit, ← hs]⟩
      · obtain ⟨d, u, rfl⟩ := List.exists_cons_of_ne_nil hne'
        refine ⟨u, ?_⟩
        rw [hsplit]
        rw [hs] at hjoined
        rcases hjoined with hjoined | hjoined
        · rw [(List.cons.inj hjoined).1]
        · rw [(List.cons.inj hjoined).1]
    have hne' : (splitHouseNumber s).1 ≠ [] := by simp [hname]
    obtain ⟨c, t, hvalue⟩ := List.exists_cons_of_ne_nil (streetName_ne_nil hne')
    have hc : isSpace c = false ∧ c ≠ 61 := by
      constructor
      · by_contra hspace
        obtain ⟨d, u', hdu, hd⟩ := streetName_starts (P := fun c => isSpace c = true) (fun c d t hupper hd => by
          have hmem := mem_upper [c] d (by simp [hupper]) (.inl hd)
          rwa [List.mem_singleton.mp hmem] at hd) (by decide) hvalue (by simpa using hspace)
        rw [hname] at hdu
        rw [← (List.cons.inj hdu).1, ha.1] at hd
        cases hd
      · rintro rfl
        obtain ⟨d, u', hdu, rfl⟩ := streetName_starts (P := (· = 61)) (fun c d t hupper hd => by
          have hmem := hequals.mem_upper [c] (by simp [hupper, hd])
          exact (List.mem_singleton.mp hmem).symm) (by decide) hvalue rfl
        rw [hname] at hdu
        exact ha.2 (List.cons.inj hdu).1
    rw [hvalue]
    split
    · obtain ⟨t', hstrip⟩ := strip_cons hc.1 (t ++ 32 :: (splitHouseNumber s).2)
      rw [List.cons_append, hstrip, Bool.eq_false_iff]
      exact fun hstarts => hc.2 (startsEquals_cons.mp hstarts)
    · rw [Bool.eq_false_iff]
      exact fun hstarts => hc.2 (startsEquals_cons.mp hstarts)

/-! ### Cells -/

def CellKept (input output : Str) : Prop :=
  (Formula input → output = input) ∧ (¬ Formula input → startsEquals output = false)

/-- A name without a digit whose part after its comma starts with an equals sign. -/
def MadeFormula (kind : Kind) (s : Str) : Prop :=
  kind = .name ∧ ¬ Formula s ∧ ∃ left right, (collapse s).splitOn 44 = [left, right] ∧ strip left ≠ [] ∧
    startsEquals (strip right) = true ∧ (collapse s).any isDigit = false

theorem normalizeName_starts (hequals : EqualsKept) (h : startsEquals s = false) :
  startsEquals (normalizeName s).1 = true ↔ ∃ left right, s.splitOn 44 = [left, right] ∧
    strip left ≠ [] ∧ startsEquals (strip right) = true ∧ s.any isDigit = false
  := by
  unfold normalizeName
  split
  · next left right hsplit =>
    split
    · next hboth =>
      obtain ⟨c, t, hright⟩ := List.exists_cons_of_ne_nil hboth.2.1
      dsimp only
      rw [hequals.titleCaseDe_iff, hright, List.cons_append, startsEquals_cons]
      constructor
      · rintro rfl
        exact ⟨left, right, hsplit, hboth.1, by rw [hright, startsEquals_cons], hboth.2.2⟩
      · rintro ⟨left', right', hsplit', -, hstarts, -⟩
        rw [hsplit] at hsplit'
        cases hsplit'
        rwa [hright, startsEquals_cons] at hstarts
    · next hnot =>
      rw [hequals.titleCaseDe_iff, h]
      refine ⟨fun hfalse => absurd hfalse Bool.false_ne_true, ?_⟩
      rintro ⟨left', right', hsplit', hleft, hstarts, hdigit⟩
      rw [hsplit] at hsplit'
      cases hsplit'
      refine absurd ⟨hleft, ?_, hdigit⟩ hnot
      intro hnil
      rw [hnil] at hstarts
      cases hstarts
  · next hnot =>
    rw [hequals.titleCaseDe_iff, h]
    refine ⟨fun hfalse => absurd hfalse Bool.false_ne_true, ?_⟩
    rintro ⟨left, right, hsplit, -⟩
    exact absurd hsplit (hnot left right)

theorem cellKept_iff (hequals : EqualsKept) (kind : Kind) (s : Str) :
  CellKept s (normalizeCell kind s).value ↔ ¬ MadeFormula kind s
  := by
  by_cases hformula : Formula s
  · have hvalue : (normalizeCell kind s).value = s := by
      unfold normalizeCell
      unfold Formula at hformula
      rw [if_pos hformula]
    exact iff_of_true ⟨fun _ => hvalue, fun hnot => absurd hformula hnot⟩ fun hmade => hmade.2.1 hformula
  · have hstarts : startsEquals (collapse s) = false := by
      rw [Bool.eq_false_iff]
      exact fun hstarts => hformula (formula_iff.mpr hstarts)
    have hkept : CellKept s (normalizeCell kind s).value ↔
        startsEquals (normalizeKind kind (collapse s)).value = false := by
      rw [CellKept, normalizeCell_value hformula]
      exact ⟨fun h => h.2 hformula, fun h => ⟨fun hf => absurd hf hformula, fun _ => h⟩⟩
    rw [hkept]
    have hother : startsEquals (normalizeKind kind (collapse s)).value = false → kind ≠ .name →
        (startsEquals (normalizeKind kind (collapse s)).value = false ↔ ¬ MadeFormula kind s) :=
      fun hfalse hne => iff_of_true hfalse fun hmade => hne hmade.1
    cases kind with
    | name =>
      rw [← Bool.not_eq_true, not_iff_not]
      exact (normalizeName_starts hequals hstarts).trans ⟨fun h => ⟨rfl, hformula, h⟩, fun h => h.2.2⟩
    | phone => exact hother (normalizePhone_starts hstarts) (by decide)
    | email => exact hother (normalizeEmail_starts hequals hstarts) (by decide)
    | street =>
      exact hother (normalizeStreet_starts hequals (collapse_collapse s) hstarts) (by decide)
    | plz => exact hother (normalizePlz_starts hequals hstarts) (by decide)
    | city =>
      refine hother ?_ (by decide)
      rw [← Bool.not_eq_true]
      exact fun h => absurd ((hequals.titleCaseDe_iff _).mp h) (by simp [hstarts])
    | other => exact hother hstarts (by decide)

/-! ### Values past the header -/

def OverflowKept (values : List Str) (output : Str) : Prop :=
  (∀ value ∈ values, Formula value → output = value) ∧
    ((∀ value ∈ values, ¬ Formula value) → startsEquals output = false)

def unpadded (values : List Str) : List Str :=
  values.rdropWhile fun cell => strip cell = []

def JoinedFormula (values : List Str) : Prop :=
  (∃ value ∈ values, Formula value) ∧ (unpadded values).length ≠ 1

section

omit [CharTables]

theorem length_lt_intercalate {sep part : Str} (hsep : sep ≠ []) :
  ∀ {parts : List Str}, part ∈ parts → 2 ≤ parts.length → part.length < (sep.intercalate parts).length
  | [], _, h => by simp at h
  | [_], _, h => by simp at h
  | first :: second :: more, hmem, _ => by
    have hpos := List.length_pos_of_ne_nil hsep
    rw [List.intercalate_cons_of_ne_nil (List.cons_ne_nil second more)]
    simp only [List.length_append]
    rcases List.mem_cons.mp hmem with rfl | hmem
    · omega
    · have hinfix : part <:+: sep.intercalate (second :: more) := infix_intercalate hmem
      have hle := hinfix.length_le
      omega

theorem Formula.not_blank {s : Str} (h : Formula s) :
  strip s ≠ []
  := by
  intro hnil
  change startsEquals (s.dropWhile isSpace) = true at h
  cases hdrop : s.dropWhile isSpace with
  | nil =>
    rw [hdrop] at h
    cases h
  | cons c t =>
    rw [hdrop, startsEquals_cons] at h
    subst h
    rw [strip, hdrop, List.rdropWhile_eq_nil_iff] at hnil
    exact absurd (hnil 61 (by simp)) (by decide)

theorem overflowKept_iff (values : List Str) :
  OverflowKept values (overflowText values) ↔ ¬ JoinedFormula values
  := by
  obtain ⟨dropped, heq, hdropped⟩ := rdropWhile_blank (fun cell => strip cell = []) values
  change values = unpadded values ++ dropped at heq
  have hmem : ∀ value ∈ values, Formula value → value ∈ unpadded values := by
    intro value hvalue hformula
    rw [heq] at hvalue
    rcases List.mem_append.mp hvalue with hvalue | hvalue
    · exact hvalue
    · exact absurd (by simpa using hdropped value hvalue) hformula.not_blank
  have htext : (∃ value ∈ values, Formula value) →
      overflowText values = (text " | ").intercalate (unpadded values) := by
    rintro ⟨value, hvalue, hformula⟩
    refine if_neg fun hall => ?_
    have hblank := List.all_eq_true.mp hall value (hmem value hvalue hformula)
    exact hformula.not_blank (by simpa using hblank)
  constructor
  · rintro ⟨hkept, -⟩ ⟨⟨value, hvalue, hformula⟩, hlength⟩
    have hin := hmem value hvalue hformula
    have hpos := List.length_pos_of_mem hin
    have hsep : text " | " ≠ [] := by decide
    have hlt := length_lt_intercalate hsep hin (by omega)
    rw [← htext ⟨value, hvalue, hformula⟩, hkept value hvalue hformula] at hlt
    exact Nat.lt_irrefl _ hlt
  · intro hnot
    constructor
    · intro value hvalue hformula
      have hlength : (unpadded values).length = 1 := by
        by_contra hlength
        exact hnot ⟨⟨value, hvalue, hformula⟩, hlength⟩
      obtain ⟨only, honly⟩ := List.length_eq_one_iff.mp hlength
      have hin := hmem value hvalue hformula
      rw [honly] at hin
      obtain rfl := List.mem_singleton.mp hin
      rw [htext ⟨value, hvalue, hformula⟩, honly, List.intercalate_singleton]
    · intro hnone
      unfold overflowText
      dsimp only
      split
      · rfl
      · change startsEquals ((text " | ").intercalate (unpadded values)) = false
        cases hcells : unpadded values with
        | nil => rfl
        | cons cell more =>
          have hcell : startsEquals cell = false := by
            rw [Bool.eq_false_iff]
            refine fun hstarts => hnone cell ?_ (formula_of_starts hstarts)
            rw [heq, hcells]
            simp
          by_cases hmore : more = []
          · rw [hmore, List.intercalate_singleton]
            exact hcell
          · rw [List.intercalate_cons_of_ne_nil hmore, List.append_assoc]
            cases cell with
            | nil => rfl
            | cons c t =>
              rw [← Bool.not_eq_true, startsEquals_cons] at hcell
              rwa [List.cons_append, ← Bool.not_eq_true, startsEquals_cons]

end

/-! ### Tables -/

structure FormulasKept (headers : List Str) (rows : List (List Str)) (result : CleanResult) : Prop where
  cells : ∀ (r i : Nat) (row output : List Str) (cell : Str), rows[r]? = some row →
    result.rows[r]? = some output → i < headers.length → output[i]? = some cell →
    CellKept (row.getD i []) cell
  overflow : ∀ (r : Nat) (row output : List Str) (cell : Str), rows[r]? = some row →
    result.rows[r]? = some output → result.headers.length = headers.length + 3 →
    output[headers.length]? = some cell → OverflowKept (row.drop headers.length) cell

/-- No name of a table becomes a formula, and no formula is joined with other values. -/
def NoneMade (headers : List Str) (rows : List (List Str)) : Prop :=
  ∀ row ∈ rows, (∀ (i : Nat) (header : Str), headers[i]? = some header →
    ¬ MadeFormula (fieldForHeader (collapse header)) (row.getD i [])) ∧
    ¬ JoinedFormula (row.drop headers.length)

section Table

variable {headers : List Str} {rows : List (List Str)} {numbers : List Int}

theorem overflow_of_report (row : List Str) (number : Int) :
  (reportOf headers row number).overflow = overflowText (row.drop headers.length)
  := by
  simp only [reportOf, cleanRow, length_columnsOf]

theorem length_headers_iff :
  (cleanRows headers rows numbers).headers.length = headers.length + 3 ↔ Overflows headers rows numbers
  := by
  rw [← any_overflow_iff]
  simp only [cleanRows]
  generalize (rowReports headers rows numbers).any (fun report => report.overflow ≠ []) = keep
  cases keep with
  | false => simp
  | true => simp

theorem overflow_get (hlength : numbers.length = rows.length) {r : Nat} {row : List Str} {number : Int}
    (hover : Overflows headers rows numbers) (hrow : rows[r]? = some row)
    (hnumber : numbers[r]? = some number) :
  ∃ output, (cleanRows headers rows numbers).rows[r]? = some output ∧
    output[headers.length]? = some (overflowText (row.drop headers.length))
  := by
  obtain ⟨rest, hget, hmore⟩ := rows_get headers hlength hrow hnumber
  obtain ⟨more, rfl⟩ := hmore hover
  refine ⟨_, hget, ?_⟩
  rw [List.getElem?_append_right (by rw [length_output]), length_output, Nat.sub_self,
    ← overflow_of_report row number]
  rfl

theorem cleanRows_formulas (hequals : EqualsKept) (hlength : numbers.length = rows.length) :
  FormulasKept headers rows (cleanRows headers rows numbers) ↔ NoneMade headers rows
  := by
  have hnumbers : ∀ {r : Nat} {row : List Str}, rows[r]? = some row → ∃ number, numbers[r]? = some number := by
    intro r row hrow
    have hr : r < numbers.length := by
      rw [hlength]
      exact (List.getElem?_eq_some_iff.mp hrow).1
    exact ⟨_, List.getElem?_eq_getElem hr⟩
  constructor
  · intro hkept row hmem
    obtain ⟨r, hrow⟩ := List.mem_iff_getElem?.mp hmem
    obtain ⟨number, hnumber⟩ := hnumbers hrow
    refine ⟨fun i header hheader => ?_, fun hjoined => ?_⟩
    · obtain ⟨output, houtput, hcell⟩ := cell_get hlength hrow hnumber hheader
      rw [← cellKept_iff hequals]
      exact hkept.cells r i row output _ hrow houtput (List.getElem?_eq_some_iff.mp hheader).1 hcell
    · obtain ⟨value, hvalue, hformula⟩ := hjoined.1
      obtain ⟨start, rest, hdrop⟩ := List.append_of_mem hvalue
      have hne := (infix_overflowText hdrop ⟨value, by simp, hformula.not_blank⟩).1
      rw [← overflow_of_report row number] at hne
      have hover : Overflows headers rows numbers :=
        ⟨_, List.mem_of_getElem? (rowReports_get.mpr ⟨row, number, hrow, hnumber, rfl⟩), hne⟩
      obtain ⟨output, houtput, hcell⟩ := overflow_get hlength hover hrow hnumber
      exact (overflowKept_iff _).mp
        (hkept.overflow r row output _ hrow houtput (length_headers_iff.mpr hover) hcell) hjoined
  · intro hnone
    constructor
    · intro r i row output cell hrow houtput hi hcell
      obtain ⟨number, hnumber⟩ := hnumbers hrow
      have hheader := List.getElem?_eq_getElem hi
      obtain ⟨output', houtput', hcell'⟩ := cell_get hlength hrow hnumber hheader
      rw [houtput] at houtput'
      cases houtput'
      rw [hcell] at hcell'
      cases hcell'
      rw [cellKept_iff hequals]
      exact (hnone row (List.mem_of_getElem? hrow)).1 i _ hheader
    · intro r row output cell hrow houtput hover hcell
      obtain ⟨number, hnumber⟩ := hnumbers hrow
      obtain ⟨output', houtput', hcell'⟩ := overflow_get hlength (length_headers_iff.mp hover) hrow hnumber
      rw [houtput] at houtput'
      cases houtput'
      rw [hcell] at hcell'
      cases hcell'
      rw [overflowKept_iff]
      exact (hnone row (List.mem_of_getElem? hrow)).2

end Table

theorem formulasKept_iff (hequals : EqualsKept) :
  (∀ kind s, CellKept s (normalizeCell kind s).value ↔ ¬ MadeFormula kind s) ∧
    ∀ headers rows rowNumbers maxRows result, cleanTable headers rows rowNumbers maxRows = .ok result →
      (FormulasKept headers rows result ↔ NoneMade headers rows)
  := by
  refine ⟨cellKept_iff hequals, fun headers rows rowNumbers maxRows result h => ?_⟩
  simp only [cleanTable, Except.bind_unit_eq_ok, Except.check_eq_ok] at h
  obtain ⟨-, -, -, hlength, heq⟩ := h
  cases heq
  exact cleanRows_formulas hequals hlength

end Formulas

section Example

local instance formulaTables : CharTables := CharTables.ascii

theorem equalsKept_ascii :
  EqualsKept
  where
  upper_equals := rfl
  mem_upper s h := by
    obtain ⟨c, hc, heq⟩ := List.mem_map.mp h
    split at heq
    · omega
    · rwa [← heq]
  mem_lower s h := by
    obtain ⟨c, hc, heq⟩ := List.mem_map.mp h
    split at heq
    · omega
    · rwa [← heq]
  not_decimal := rfl

/-- A name with a comma becomes no formula. -/
theorem formulasKept_name :
  CellKept (text "Kern, Eva") (normalizeCell .name (text "Kern, Eva")).value ∧
    FormulasKept [text "Name"] [[text "Kern, Eva"]] (cleanRows [text "Name"] [[text "Kern, Eva"]] [2])
  := by
  have hnot : ¬ MadeFormula .name (text "Kern, Eva") := by
    rintro ⟨-, -, left, right, hsplit, -, hstarts, -⟩
    have hparts : (collapse (text "Kern, Eva")).splitOn 44 = [text "Kern", text " Eva"] := by
      decide +kernel
    rw [hparts] at hsplit
    cases hsplit
    exact absurd hstarts (by decide +kernel)
  have hclean : cleanTable [text "Name"] [[text "Kern, Eva"]] none 2000 =
      .ok (cleanRows [text "Name"] [[text "Kern, Eva"]] [2]) := by
    decide +kernel
  refine ⟨((formulasKept_iff equalsKept_ascii).1 .name (text "Kern, Eva")).mpr hnot,
    ((formulasKept_iff equalsKept_ascii).2 _ _ _ _ _ hclean).mpr fun row hrow => ?_⟩
  obtain rfl := List.mem_singleton.mp hrow
  constructor
  · rintro (_ | i) header hheader
    · cases hheader
      have hkind : fieldForHeader (collapse (text "Name")) = .name := by decide +kernel
      rw [hkind]
      exact hnot
    · cases hheader
  · rintro ⟨⟨value, hvalue, -⟩, -⟩
    cases hvalue

theorem formulas_made :
  ¬ Formula (text "Kern, =Eva") ∧ (normalizeCell .name (text "Kern, =Eva")).value = text "=eva Kern" ∧
    ∃ result output, cleanTable [text "Ort"] [[text "Berlin", text "=1+1", text "x"]] none 2000 = .ok result ∧
      result.rows = [output] ∧ output[1]? = some (text "=1+1 | x") ∧
      ¬ FormulasKept [text "Ort"] [[text "Berlin", text "=1+1", text "x"]] result
  := by
  have hclean : cleanTable [text "Ort"] [[text "Berlin", text "=1+1", text "x"]] none 2000 =
      .ok (cleanRows [text "Ort"] [[text "Berlin", text "=1+1", text "x"]] [2]) := by
    decide +kernel
  have hrows : (cleanRows [text "Ort"] [[text "Berlin", text "=1+1", text "x"]] [2]).rows =
      [[text "Berlin", text "=1+1 | x",
        text "⚠ Zusätzliche Spaltenwerte bleiben erhalten: =1+1 | x", text "2"]] := by
    decide +kernel
  refine ⟨?_, by decide +kernel, _, _, hclean, hrows, rfl, fun hkept => ?_⟩
  · unfold Formula
    decide +kernel
  · have hover := hkept.overflow 0 _ _ _ rfl (by rw [hrows]; rfl) (by decide +kernel) rfl
    have hsame := hover.1 (text "=1+1") (by simp) rfl
    exact absurd hsame (by decide +kernel)

end Example

end Courier.ListClean
