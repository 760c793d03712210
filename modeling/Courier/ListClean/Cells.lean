import Courier.ListClean

/-!
# Cells that change silently

A cell changes silently if it is changed and no reason is given: names, cities and streets whose letters are in title
case while a part of a word is not, and streets with a house number that is not separated from the name
(`silent_iff`).
-/

namespace Courier.ListClean

open Text hiding upper lower isDigit
open CharTables

variable [CharTables]

/-! ### Title case -/

variable {part : Str}

theorem titled_ne_nil (h : part ≠ []) :
  titled part ≠ []
  := by
  obtain ⟨c, rest, rfl⟩ := List.exists_cons_of_ne_nil h
  simp [titled, upper_ne_nil [c] (by simp)]

variable {c : Nat}

theorem mem_titled (h : c ∈ titled part) (hc : isSpace c = true ∨ c = 45) :
  c ∈ part
  := by
  cases part with
  | nil => exact h
  | cons d rest =>
    rcases List.mem_append.mp h with h | h
    · have hmem := mem_upper [d] c h hc
      simp only [List.mem_singleton] at hmem
      simp [hmem]
    · exact List.mem_cons_of_mem d (mem_lower rest c h hc)

variable {token : Str}

section

omit [CharTables]

theorem hyphen_notMem (h : part ∈ token.splitOn 45) :
  45 ∉ part
  := by
  intro hmem
  rw [List.splitOn_eq_splitOnP] at h
  have hsep := Flavour.not_separator_of_mem_splitOnP token part h 45 hmem
  simp at hsep

theorem mem_of_mem_splitOn (h : part ∈ token.splitOn 45) (hc : c ∈ part) :
  c ∈ token
  := by
  rw [← @List.intercalate_splitOn _ token _ _ 45]
  exact mem_intercalate h hc

end

theorem titledToken_eq_iff (hdigit : token.any isDigit = false) :
  titledToken token = token ↔ ∀ part ∈ token.splitOn 45, titled part = part
  := by
  rw [titledToken, hdigit, if_neg (by simp)]
  have hne : (token.splitOn 45).map titled ≠ [] := by
    simp [List.splitOn_ne_nil]
  have hparts : ∀ part ∈ (token.splitOn 45).map titled, 45 ∉ part := by
    intro part hpart hmem
    obtain ⟨old, hold, rfl⟩ := List.mem_map.mp hpart
    exact hyphen_notMem hold (mem_titled hmem (.inr rfl))
  constructor
  · intro heq part hpart
    have hsplit := congrArg (List.splitOn 45) heq
    rw [List.splitOn_intercalate 45 hparts hne] at hsplit
    exact map_eq_self.mp hsplit part hpart
  · intro hall
    rw [map_eq_self.mpr hall, List.intercalate_splitOn]

theorem isWord_titledToken (h : IsWord token) :
  IsWord (titledToken token)
  := by
  rw [titledToken]
  split
  · exact h
  · constructor
    · intro hnil
      have hparts : ∀ part ∈ (token.splitOn 45).map titled, 45 ∉ part := by
        intro part hpart hmem
        obtain ⟨old, hold, rfl⟩ := List.mem_map.mp hpart
        exact hyphen_notMem hold (mem_titled hmem (.inr rfl))
      have hne : (token.splitOn 45).map titled ≠ [] := by simp [List.splitOn_ne_nil]
      have hsplit := List.splitOn_intercalate 45 hparts hne
      rw [hnil, List.splitOn_nil] at hsplit
      obtain ⟨part, hpart, htitled⟩ := List.map_eq_singleton_iff.mp hsplit.symm
      have hpartNil : part = [] := by
        by_contra hpartNe
        exact titled_ne_nil hpartNe htitled
      have htoken := @List.intercalate_splitOn _ token _ _ 45
      rw [hpart, hpartNil, List.intercalate_singleton] at htoken
      exact h.1 htoken.symm
    · intro c hc
      by_contra hspace
      have hspace : isSpace c = true := by simpa using hspace
      rcases of_mem_intercalate hc with hc | ⟨part, hpart, hc⟩
      · rw [List.mem_singleton.mp hc] at hspace
        cases hspace
      · obtain ⟨old, hold, rfl⟩ := List.mem_map.mp hpart
        have hmem := mem_of_mem_splitOn hold (mem_titled hc (.inl hspace))
        rw [h.2 c hmem] at hspace
        cases hspace

def Untidy (s : Str) : Prop :=
  ∃ token ∈ words s, token.any isDigit = false ∧ ∃ part ∈ token.splitOn 45, titled part ≠ part

variable {s : Str}

theorem isWord_titledTokens :
  ∀ w ∈ (words s).map titledToken, IsWord w
  := by
  intro w hw
  obtain ⟨old, hold, rfl⟩ := List.mem_map.mp hw
  exact isWord_titledToken (isWord_of_mem_words hold)

theorem titleCaseDe_eq (h : collapse s = s) (hne : s ≠ []) :
  titleCaseDe s = spaced ((words s).map titledToken)
  := by
  rw [titleCaseDe, splitOn_collapse h hne]

theorem titleCaseDe_eq_self_iff (h : collapse s = s) :
  titleCaseDe s = s ↔ ∀ token ∈ words s, titledToken token = token
  := by
  by_cases hne : s = []
  · subst hne
    exact iff_of_true rfl (by simp [words])
  · rw [← map_eq_self, titleCaseDe_eq h hne]
    constructor
    · intro heq
      rw [← words_spaced isWord_titledTokens, heq]
    · intro heq
      rw [heq]
      exact h

theorem titleCaseDe_eq_iff (h : collapse s = s) :
  titleCaseDe s = s ↔ ¬ Untidy s
  := by
  rw [titleCaseDe_eq_self_iff h]
  constructor
  · rintro hall ⟨token, htoken, hdigit, part, hpart, hodd⟩
    exact hodd ((titledToken_eq_iff hdigit).mp (hall token htoken) part hpart)
  · intro htidy token htoken
    by_cases hdigit : token.any isDigit = true
    · rw [titledToken, if_pos hdigit]
    · have hnone : token.any isDigit = false := by simpa using hdigit
      apply (titledToken_eq_iff hnone).mpr
      intro part hpart
      by_contra hodd
      exact htidy ⟨token, htoken, hnone, part, hpart, hodd⟩

theorem head_titleCaseDe (h : collapse s = s) (hne : s ≠ []) :
  ∃ c t, titleCaseDe s = c :: t ∧ isSpace c = false
  := by
  rw [titleCaseDe_eq h hne]
  apply head_spaced isWord_titledTokens
  intro hnil
  rw [List.map_eq_nil_iff] at hnil
  rw [collapse, hnil] at h
  exact hne h.symm

theorem strip_titleCaseDe (h : collapse s = s) (hne : s ≠ []) :
  strip (titleCaseDe s) ≠ []
  := by
  obtain ⟨c, t, heq, -⟩ := head_titleCaseDe h hne
  have hstrip : strip (titleCaseDe s) = titleCaseDe s := by
    rw [titleCaseDe_eq h hne]
    exact strip_spaced isWord_titledTokens
  rw [hstrip, heq]
  exact List.cons_ne_nil c t

/-! ### House numbers -/

variable {house : Str}

theorem houseNumber_eq (h : houseNumber s = some house) :
  ∃ gap, s = gap ++ house ∧ (∀ c ∈ gap, isSpace c = true) ∧ IsWord house
  := by
  have hsplit := List.takeWhile_append_dropWhile (p := isSpace) (l := s)
  have hgap : ∀ c ∈ s.takeWhile isSpace, isSpace c = true := fun c hc => List.mem_takeWhile_imp hc
  unfold houseNumber at h
  cases hrest : s.dropWhile isSpace with
  | nil =>
    rw [hrest] at h
    cases h
  | cons c rest =>
    rw [hrest] at h hsplit
    simp only at h
    split at h
    · next hdigit =>
      cases h
      refine ⟨s.takeWhile isSpace, hsplit.symm, hgap, by simp, ?_⟩
      intro d hd
      rcases List.mem_cons.mp hd with rfl | hd
      · have hhead := List.head_dropWhile_not isSpace (l := s) (by simp [hrest])
        simpa [hrest] using hhead
      · simpa using List.all_eq_true.mp hdigit.2 d hd
    · cases h

theorem scanHouseNumber_eq {before start : Str}
    (h : scanHouseNumber before s = some (start, house)) :
  ∃ gap, before ++ s = start ++ gap ++ house ∧ (∀ c ∈ gap, isSpace c = true) ∧ IsWord house
  := by
  induction s generalizing before with
  | nil => simp [scanHouseNumber] at h
  | cons c rest ih =>
    rw [scanHouseNumber, Option.or_eq_some_iff] at h
    rcases h with h | ⟨-, h⟩
    · obtain ⟨found, hhouse, heq⟩ := Option.map_eq_some_iff.mp h
      cases heq
      obtain ⟨gap, hsplit, hgap, hword⟩ := houseNumber_eq hhouse
      exact ⟨gap, by rw [List.append_assoc, ← hsplit], hgap, hword⟩
    · obtain ⟨gap, heq, hgap, hword⟩ := ih h
      exact ⟨gap, by rw [← heq]; simp, hgap, hword⟩

section

omit [CharTables]

theorem gap_cases {gap : Str} (hgap : ∀ c ∈ gap, isSpace c = true) (hword : IsWord house)
    (h : gap ++ house = [] ∨ (∃ c t, gap ++ house = c :: t ∧ isSpace c = false) ∨
      ∃ c t, gap ++ house = 32 :: c :: t ∧ isSpace c = false) :
  gap = [] ∨ gap = [32]
  := by
  obtain ⟨d, more, rfl⟩ := List.exists_cons_of_ne_nil hword.1
  have hd : isSpace d = false := hword.2 d (by simp)
  rcases h with hnil | ⟨c, t, hcons, hc⟩ | ⟨c, t, hcons, hc⟩
  · simp at hnil
  · cases gap with
    | nil => exact .inl rfl
    | cons e rest =>
      obtain rfl := (List.cons.inj hcons).1
      rw [hgap e (by simp)] at hc
      cases hc
  · cases gap with
    | nil => exact .inl rfl
    | cons e rest =>
      obtain ⟨rfl, htail⟩ := List.cons.inj hcons
      cases rest with
      | nil => exact .inr rfl
      | cons e' rest =>
        obtain rfl := (List.cons.inj htail).1
        rw [hgap e' (by simp)] at hc
        cases hc

theorem rdropWhile_space (s : Str) :
  (∃ gap, s = s.rdropWhile isSpace ++ gap ∧ ∀ c ∈ gap, isSpace c = true) ∧
    (s.rdropWhile isSpace ≠ [] → EndsInWord (s.rdropWhile isSpace))
  := by
  induction s using List.reverseRecOn with
  | nil => exact ⟨⟨[], rfl, by simp⟩, fun h => absurd rfl h⟩
  | append_singleton s c ih =>
    by_cases hc : isSpace c = true
    · rw [List.rdropWhile_concat_pos _ _ _ hc]
      obtain ⟨⟨gap, heq, hgap⟩, hends⟩ := ih
      refine ⟨⟨gap ++ [c], ?_, ?_⟩, hends⟩
      · rw [← List.append_assoc, ← heq]
      · intro d hd
        rcases List.mem_append.mp hd with hd | hd
        · exact hgap d hd
        · rwa [List.mem_singleton.mp hd]
    · rw [List.rdropWhile_concat_neg _ _ _ hc]
      exact ⟨⟨[], by simp, by simp⟩, fun _ => ⟨s, c, rfl, by simpa using hc⟩⟩

end

/-- A street is split into its name and house number, with one space or none between them, or has no house
number. -/
theorem splitHouseNumber_cases (h : collapse s = s) :
  splitHouseNumber s = (s, []) ∨ ∃ name house, splitHouseNumber s = (name, house) ∧ name ≠ [] ∧
    collapse name = name ∧ IsWord house ∧ (s = name ++ house ∨ s = name ++ 32 :: house)
  := by
  unfold splitHouseNumber
  cases hscan : scanHouseNumber [] s with
  | none => exact .inl rfl
  | some found =>
    obtain ⟨start, house⟩ := found
    simp only
    by_cases hname : start.rdropWhile isSpace = []
    · exact .inl (if_pos hname)
    · right
      obtain ⟨gap, heq, hgap, hword⟩ := scanHouseNumber_eq hscan
      obtain ⟨⟨gap', hstart, hgap'⟩, hends⟩ := rdropWhile_space start
      have hs : spaced (words s) = start.rdropWhile isSpace ++ (gap' ++ gap ++ house) := by
        change collapse s = _
        rw [h]
        rw [List.nil_append] at heq
        conv_lhs => rw [heq, hstart]
        simp only [List.append_assoc]
      have hspaces : ∀ c ∈ gap' ++ gap, isSpace c = true := by
        intro c hc
        rcases List.mem_append.mp hc with hc | hc
        · exact hgap' c hc
        · exact hgap c hc
      obtain ⟨hcollapse, hrest⟩ :=
        collapse_before (fun w => isWord_of_mem_words) (hends hname) hs
      refine ⟨start.rdropWhile isSpace, house, if_neg hname, hname, hcollapse, hword, ?_⟩
      have hs' : s = start.rdropWhile isSpace ++ (gap' ++ gap ++ house) := by
        rw [← hs]
        exact h.symm
      rw [hs']
      rcases gap_cases hspaces hword hrest with hgap | hgap
      · left
        rw [hgap]
        rfl
      · right
        rw [hgap]
        rfl

/-! ### Cells that change silently -/

def Formula (s : Str) : Prop :=
  (text "=").isPrefixOf (s.dropWhile isSpace) = true

def Reordered (s : Str) : Prop :=
  ∃ left right, s.splitOn 44 = [left, right] ∧ strip left ≠ [] ∧ strip right ≠ [] ∧ s.any isDigit = false

def Suffixed (name : Str) : Prop :=
  streetSuffix name (text "sstrasse") ≠ none ∨ streetSuffix name (text "strasse") ≠ none ∨
    streetSuffix name (text "str.") ≠ none ∨ streetSuffix name (text "str") ≠ none ∧ 3 < name.length

def Glued (s : Str) : Prop :=
  ∃ name house, splitHouseNumber s = (name, house) ∧ house ≠ [] ∧ s = name ++ house

/-- A cell without superfluous white space that is changed, and whose letters are in title case. -/
def Silent (kind : Kind) (s : Str) : Prop :=
  collapse s = s ∧ ¬ Formula s ∧
    match kind with
    | .name => ¬ Reordered s ∧ inconsistentTitle s = false ∧ Untidy s
    | .city => inconsistentTitle s = false ∧ Untidy s
    | .street => ¬ Suffixed (splitHouseNumber s).1 ∧ inconsistentTitle (splitHouseNumber s).1 = false ∧
        (Untidy (splitHouseNumber s).1 ∨ Glued s)
    | _ => False

omit [CharTables] in
theorem unique_eq_nil {α : Type} [DecidableEq α] {items : List α} :
  unique items = [] ↔ items = []
  := by
  constructor
  · intro h
    cases items with
    | nil => rfl
    | cons item items =>
      have hgrows : ∀ (rest ordered : List α), ordered ≠ [] →
          rest.foldl (fun ordered item => if item ∈ ordered then ordered else ordered ++ [item]) ordered ≠
            [] := by
        intro rest
        induction rest with
        | nil => exact fun ordered hne => hne
        | cons a rest ih =>
          intro ordered hne
          rw [List.foldl_cons]
          apply ih
          split
          · exact hne
          · simp
      exact absurd h (hgrows items _ (by simp))
  · rintro rfl
    rfl

variable {kind : Kind}

theorem reasons_eq_nil :
  (normalizeCell kind s).reasons = [] ↔ ¬ Formula s ∧ collapse s = s ∧
    (normalizeKind kind s).reasons = [] ∧ oddCase kind s (normalizeKind kind s).value = false
  := by
  unfold normalizeCell Formula
  split
  · next hformula => simp [hformula]
  · next hformula =>
    simp only [unique_eq_nil, List.append_eq_nil_iff]
    constructor
    · rintro ⟨⟨hrules, hcase⟩, hspace⟩
      have hsame : collapse s = s := by
        by_contra hne
        rw [hrules, List.nil_append, hcase] at hspace
        simp [hne] at hspace
      rw [hsame] at hrules hcase
      refine ⟨hformula, hsame, hrules, ?_⟩
      by_contra hodd
      simp [hodd] at hcase
    · rintro ⟨-, hsame, hrules, hcase⟩
      rw [hsame]
      simp [hrules, hcase]

theorem normalizeCell_value (hformula : ¬ Formula s) :
  (normalizeCell kind s).value = (normalizeKind kind (collapse s)).value
  := by
  unfold normalizeCell
  unfold Formula at hformula
  rw [if_neg hformula]

/-! ### The rules of each kind -/

theorem normalizeName_cases (s : Str) :
  Reordered s ∧ (normalizeName s).2 ≠ [] ∨ ¬ Reordered s ∧ normalizeName s = (titleCaseDe s, [])
  := by
  unfold normalizeName Reordered
  split
  · next left right hsplit =>
    by_cases hboth : strip left ≠ [] ∧ strip right ≠ [] ∧ s.any isDigit = false
    · rw [if_pos hboth]
      exact .inl ⟨⟨left, right, hsplit, hboth⟩, by simp⟩
    · rw [if_neg hboth]
      refine .inr ⟨?_, rfl⟩
      rintro ⟨left', right', hsplit', hboth'⟩
      rw [hsplit] at hsplit'
      cases hsplit'
      exact hboth hboth'
  · next hnot =>
    refine .inr ⟨?_, rfl⟩
    rintro ⟨left, right, hsplit, -⟩
    exact hnot left right hsplit

theorem normalizePhone_value (h : (normalizePhone s).reasons = []) :
  (normalizePhone s).value = s
  := by
  unfold normalizePhone at h ⊢
  by_cases hnil : s = []
  · rw [if_pos hnil, hnil]
  · simp only [if_neg hnil] at h ⊢
    split at h
    · cases h
    · next formatted _ =>
      by_cases hsame : formatted = s
      · rw [if_pos hsame, hsame]
      · rw [if_neg hsame] at h
        cases h

theorem normalizeEmail_value (h : (normalizeEmail s).reasons = []) :
  (normalizeEmail s).value = s
  := by
  unfold normalizeEmail at h ⊢
  by_cases hnil : s = []
  · rw [if_pos hnil, hnil]
  · simp only [if_neg hnil] at h ⊢
    split at h
    · cases h
    · by_cases hsame : lower s = s
      · rw [if_pos hsame]
      · rw [if_neg hsame] at h
        cases h

theorem normalizePlz_value (h : (normalizePlz s).reasons = []) :
  (normalizePlz s).value = s
  := by
  unfold normalizePlz at h ⊢
  by_cases hnil : s = []
  · rw [if_pos hnil, hnil]
  · simp only [if_neg hnil] at h ⊢
    split at h
    · cases h
    · by_cases hfive : fiveDigits s = true
      · rw [if_pos hfive]
      · rw [if_neg hfive] at h
        split at h
        · cases h
        · cases h

theorem streetName_cases (name : Str) :
  Suffixed name ∧ (streetName name).reasons ≠ [] ∨
    ¬ Suffixed name ∧ streetName name = { value := titleCaseDe name }
  := by
  unfold streetName Suffixed
  cases hfirst : streetSuffix name (text "sstrasse") with
  | some stem => exact .inl ⟨.inl (by simp), by simp [respelled]⟩
  | none =>
  cases hsecond : streetSuffix name (text "strasse") with
  | some stem => exact .inl ⟨.inr (.inl (by simp)), by simp [respelled]⟩
  | none =>
  cases hthird : streetSuffix name (text "str.") with
  | some stem => exact .inl ⟨.inr (.inr (.inl (by simp))), by simp⟩
  | none =>
  cases hfourth : streetSuffix name (text "str") with
  | none => exact .inr ⟨by simp, rfl⟩
  | some stem =>
    by_cases hlength : 3 < name.length
    · exact .inl ⟨.inr (.inr (.inr ⟨by simp, hlength⟩)), by simp [hlength, Option.filter]⟩
    · exact .inr ⟨by simp [hlength], by simp [hlength]⟩

theorem splitHouseNumber_nil :
  splitHouseNumber [] = ([], [])
  := by
  simp [splitHouseNumber, scanHouseNumber]

theorem normalizeStreet_reasons (hne : s ≠ []) :
  (normalizeStreet s).reasons = (streetName (splitHouseNumber s).1).reasons
  := by
  rw [normalizeStreet, if_neg hne]

theorem normalizeStreet_value (hne : s ≠ []) :
  (normalizeStreet s).value = if (splitHouseNumber s).2 ≠ [] then
      strip ((streetName (splitHouseNumber s).1).value ++ 32 :: (splitHouseNumber s).2)
    else (streetName (splitHouseNumber s).1).value
  := by
  rw [normalizeStreet, if_neg hne]

omit [CharTables] in
theorem strip_joined {t : Str} (hc : isSpace c = false) (hhouse : IsWord house) :
  strip (c :: t ++ 32 :: house) = c :: t ++ 32 :: house
  := by
  have hlast : isSpace (house.getLast hhouse.1) = false := hhouse.2 _ (List.getLast_mem hhouse.1)
  have heq : c :: t ++ 32 :: house = c :: ((t ++ 32 :: house.dropLast) ++ [house.getLast hhouse.1]) := by
    have hsplit := (List.dropLast_append_getLast hhouse.1).symm
    simpa using hsplit
  rw [heq]
  exact strip_between hc hlast

theorem normalizeStreet_changed (hsame : collapse s = s) (hne : s ≠ [])
    (hsuffix : ¬ Suffixed (splitHouseNumber s).1) :
  strip (normalizeStreet s).value ≠ [] ∧
    ((normalizeStreet s).value ≠ s ↔ Untidy (splitHouseNumber s).1 ∨ Glued s)
  := by
  obtain ⟨hsuffixed, -⟩ | ⟨-, hstreet⟩ := streetName_cases (splitHouseNumber s).1
  · exact absurd hsuffixed hsuffix
  · rw [normalizeStreet_value hne, hstreet]
    obtain hsplit | ⟨name, house, hsplit, hname, hcollapse, hword, hjoined⟩ := splitHouseNumber_cases hsame
    · rw [hsplit, if_neg (by simp)]
      refine ⟨strip_titleCaseDe hsame hne, ?_⟩
      rw [ne_eq, titleCaseDe_eq_iff hsame, not_not]
      constructor
      · exact .inl
      · rintro (huntidy | ⟨name, house, hglued, hhouse, -⟩)
        · exact huntidy
        · rw [hsplit] at hglued
          cases hglued
          exact absurd rfl hhouse
    · rw [hsplit, if_pos hword.1]
      obtain ⟨c, t, htitled, hc⟩ := head_titleCaseDe hcollapse hname
      have hstrip : strip (titleCaseDe name ++ 32 :: house) = titleCaseDe name ++ 32 :: house := by
        rw [htitled]
        exact strip_joined hc hword
      simp only [hstrip]
      refine ⟨by simp, ?_⟩
      rcases hjoined with hjoined | hjoined
      · have hglued : Glued s := ⟨name, house, hsplit, hword.1, hjoined⟩
        refine ⟨fun _ => .inr hglued, fun _ heq => ?_⟩
        rw [hjoined, List.append_cons] at heq
        have hnameEq := List.append_cancel_right heq
        have hwords : words name ≠ [] := by
          intro hnil
          rw [collapse, hnil] at hcollapse
          exact hname hcollapse.symm
        obtain ⟨t', d, hlast, hd⟩ := last_spaced (fun w => isWord_of_mem_words) hwords
        have hname' : name = t' ++ [d] := by
          rw [← hlast]
          exact hcollapse.symm
        rw [hname'] at hnameEq
        obtain rfl := List.singleton_inj.mp (List.append_inj_right' hnameEq rfl)
        cases hd
      · have hglued : ¬ Glued s := by
          rintro ⟨name', house', hsplit', -, heq⟩
          rw [hsplit] at hsplit'
          cases hsplit'
          rw [hjoined] at heq
          have hlength := congrArg List.length heq
          simp at hlength
        rw [or_iff_left hglued, ← not_not (a := Untidy name), ← titleCaseDe_eq_iff hcollapse]
        rw [hjoined, ne_eq, List.append_left_inj]

theorem not_untidy_nil :
  ¬ Untidy []
  := by
  rintro ⟨token, htoken, -⟩
  cases htoken

theorem silentStreet_iff (hsame : collapse s = s) :
  (¬ Suffixed (splitHouseNumber s).1 ∧ inconsistentTitle (splitHouseNumber s).1 = false ∧
      (Untidy (splitHouseNumber s).1 ∨ Glued s)) ↔
    (normalizeStreet s).value ≠ s ∧ (normalizeStreet s).reasons = [] ∧
      inconsistentTitle (splitHouseNumber s).1 = false
  := by
  by_cases hne : s = []
  · subst hne
    rw [splitHouseNumber_nil, normalizeStreet, if_pos rfl]
    constructor
    · rintro ⟨-, -, huntidy | ⟨name, house, hsplit, hhouse, -⟩⟩
      · exact absurd huntidy not_untidy_nil
      · rw [splitHouseNumber_nil] at hsplit
        cases hsplit
        exact absurd rfl hhouse
    · rintro ⟨hchanged, -⟩
      exact absurd rfl hchanged
  · rw [normalizeStreet_reasons hne]
    obtain ⟨hsuffixed, hreasons⟩ | ⟨hsuffix, hstreet⟩ := streetName_cases (splitHouseNumber s).1
    · constructor
      · rintro ⟨hnot, -⟩
        exact absurd hsuffixed hnot
      · rintro ⟨-, hnone, -⟩
        exact absurd hnone hreasons
    · rw [(normalizeStreet_changed hsame hne hsuffix).2, hstreet]
      constructor
      · rintro ⟨-, hcase, hchanged⟩
        exact ⟨hchanged, rfl, hcase⟩
      · rintro ⟨hchanged, -, hcase⟩
        exact ⟨hsuffix, hcase, hchanged⟩

/-- A cell changes silently exactly if it is changed and no reason is given. -/
theorem silent_iff :
  Silent kind s ↔ (normalizeCell kind s).value ≠ s ∧ (normalizeCell kind s).reasons = []
  := by
  rw [reasons_eq_nil]
  constructor
  · rintro ⟨hsame, hformula, hkind⟩
    have hvalue : (normalizeCell kind s).value = (normalizeKind kind s).value := by
      rw [normalizeCell_value hformula, hsame]
    rw [hvalue]
    cases kind with
    | name =>
      obtain ⟨hreordered, -⟩ | ⟨-, hname⟩ := normalizeName_cases s
      · exact absurd hreordered hkind.1
      · simp only [normalizeKind, hname]
        exact ⟨fun heq => (titleCaseDe_eq_iff hsame).mp heq hkind.2.2, hformula, hsame, trivial, hkind.2.1⟩
    | street =>
      obtain ⟨hchanged, hreasons, hcase⟩ := (silentStreet_iff hsame).mp hkind
      exact ⟨hchanged, hformula, hsame, hreasons, hcase⟩
    | city =>
      exact ⟨fun heq => (titleCaseDe_eq_iff hsame).mp heq hkind.2, hformula, hsame, rfl, hkind.1⟩
    | phone => cases hkind
    | email => cases hkind
    | plz => cases hkind
    | other => cases hkind
  · rintro ⟨hchanged, hformula, hsame, hreasons, hcase⟩
    rw [normalizeCell_value hformula, hsame] at hchanged
    refine ⟨hsame, hformula, ?_⟩
    cases kind with
    | name =>
      obtain ⟨-, hreordered⟩ | ⟨hnot, hname⟩ := normalizeName_cases s
      · exact absurd hreasons hreordered
      · simp only [normalizeKind, hname] at hchanged
        refine ⟨hnot, hcase, ?_⟩
        by_contra hneat
        exact hchanged ((titleCaseDe_eq_iff hsame).mpr hneat)
    | street => exact (silentStreet_iff hsame).mpr ⟨hchanged, hreasons, hcase⟩
    | city =>
      refine ⟨hcase, ?_⟩
      by_contra hneat
      exact hchanged ((titleCaseDe_eq_iff hsame).mpr hneat)
    | phone => exact hchanged (normalizePhone_value hreasons)
    | email => exact hchanged (normalizeEmail_value hreasons)
    | plz => exact hchanged (normalizePlz_value hreasons)
    | other => exact hchanged rfl

theorem Silent.not_blank (h : Silent kind s) :
  strip (normalizeCell kind s).value ≠ []
  := by
  obtain ⟨hchanged, -⟩ := silent_iff.mp h
  obtain ⟨hsame, hformula, hkind⟩ := h
  rw [normalizeCell_value hformula, hsame] at hchanged ⊢
  cases kind with
  | name =>
    obtain ⟨hreordered, -⟩ | ⟨-, hname⟩ := normalizeName_cases s
    · exact absurd hreordered hkind.1
    · simp only [normalizeKind, hname]
      apply strip_titleCaseDe hsame
      rintro rfl
      exact not_untidy_nil hkind.2.2
  | street =>
    have hne : s ≠ [] := by
      rintro rfl
      exact hchanged rfl
    exact (normalizeStreet_changed hsame hne hkind.1).1
  | city =>
    apply strip_titleCaseDe hsame
    rintro rfl
    exact not_untidy_nil hkind.2
  | phone => cases hkind
  | email => cases hkind
  | plz => cases hkind
  | other => cases hkind

end Courier.ListClean
