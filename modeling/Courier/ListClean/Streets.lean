import Courier.ListClean.Names

/-!
# Streets that are cleaned twice

The word for a street is written out at the end of its name.  The second time it is left as it is, unless it
stands alone or behind a hyphen in lower case (`streetName_twice_iff`); and the house number is found again at the
same place (`normalizeStreet_twice_iff`). -/

namespace Courier.ListClean

open Text hiding upper lower isDigit
open CharTables

/-! ### Hyphens at the end -/

variable {d : Nat} {s : Str}

theorem singleton_suffix_iff {c : Nat} :
  [c] <:+ s ++ [d] ↔ d = c
  := by
  constructor
  · rintro ⟨t, heq⟩
    exact (List.singleton_inj.mp (List.append_inj_right' heq rfl)).symm
  · rintro rfl
    exact List.suffix_append s [d]

theorem endsWith_hyphen_iff :
  endsWith s (text "-") = true ↔ s ≠ [] ∧ (s.splitOn 45).getLast? = some []
  := by
  have htext : text "-" = [45] := rfl
  rw [endsWith, htext, List.isSuffixOf_iff_suffix]
  cases s using List.reverseRecOn with
  | nil => simp
  | append_singleton s c _ =>
    rw [singleton_suffix_iff]
    obtain ⟨init, last, first, rest, -, hc, hsplit⟩ := splitOn_append 45 s [c]
    constructor
    · rintro rfl
      have hnil : [45].splitOn 45 = [[], []] := by decide
      rw [hnil] at hc
      obtain ⟨rfl, rfl⟩ := List.cons.inj hc
      exact ⟨by simp, by simp [hsplit]⟩
    · rintro ⟨-, hlast⟩
      by_contra hne
      have hone : [c].splitOn 45 = [[c]] := List.splitOn_eq_singleton (by simpa using Ne.symm hne)
      rw [hone] at hc
      obtain ⟨rfl, rfl⟩ := List.cons.inj hc
      simp [hsplit] at hlast

variable [CharTables]

theorem titledToken_eq_nil {token : Str} :
  titledToken token = [] ↔ token = []
  := by
  constructor
  · intro hnil
    by_contra hne
    exact titledToken_ne_nil hne hnil
  · rintro rfl
    rfl

theorem endsWith_hyphen_titledToken (token : Str) :
  endsWith (titledToken token) (text "-") = true ↔ endsWith token (text "-") = true
  := by
  by_cases hdigit : token.any isDigit = true
  · rw [titledToken, if_pos hdigit]
  · have hparts : (titledToken token).splitOn 45 = (token.splitOn 45).map titled := by
      rw [titledToken_eq, if_neg hdigit]
      exact splitOn_mapParts (fun _ => hyphen_notMem_titled) token
    have hlast : ((token.splitOn 45).map titled).getLast? = some [] ↔ (token.splitOn 45).getLast? = some [] := by
      rw [List.getLast?_map, Option.map_eq_some_iff]
      constructor
      · rintro ⟨part, hpart, hnil⟩
        rw [hpart]
        by_contra hne
        exact titled_ne_nil (fun hempty => hne (by rw [hempty])) hnil
      · intro hnil
        exact ⟨[], hnil, rfl⟩
    rw [endsWith_hyphen_iff, endsWith_hyphen_iff, hparts, hlast, ne_eq, titledToken_eq_nil]

variable {stem : Str}

theorem endsWith_hyphen_titleCaseDe {last : Str} {init : List Str}
    (hsplit : stem.splitOn 32 = init ++ [last]) :
  endsWith (titleCaseDe stem) (text "-") = true ↔ endsWith last (text "-") = true
  := by
  rw [← endsWith_hyphen_titledToken last, titleCaseDe_eq_mapParts, mapParts, hsplit, List.map_append,
    List.map_singleton]
  have htext : text "-" = [45] := rfl
  rw [endsWith, endsWith, htext, List.isSuffixOf_iff_suffix, List.isSuffixOf_iff_suffix]
  generalize titledToken last = token
  generalize init.map titledToken = tokens
  by_cases hnil : tokens = []
  · simp [hnil]
  · obtain ⟨start, hstart⟩ := @intercalate_concat_of_ne_nil [32] tokens hnil token
    rw [hstart, List.append_assoc, List.singleton_append]
    cases token using List.reverseRecOn with
    | nil =>
      rw [singleton_suffix_iff]
      simp
    | append_singleton token c _ =>
      rw [← List.cons_append, ← List.append_assoc, singleton_suffix_iff, singleton_suffix_iff]

/-! ### Names without their ending -/

def respelledStem (name : Str) : Option Str :=
  (streetSuffix name (text "sstrasse")).or (streetSuffix name (text "strasse"))

def abbreviatedStem (name : Str) : Option Str :=
  (streetSuffix name (text "str.")).or ((streetSuffix name (text "str")).filter fun _ => 3 < name.length)

theorem streetName_value (name : Str) :
  (streetName name).value = match respelledStem name with
    | some stem => titleCaseDe stem ++ text "straße"
    | none => match abbreviatedStem name with
      | some stem => finishAbbreviation stem
      | none => titleCaseDe name
  := by
  unfold streetName respelledStem abbreviatedStem
  cases streetSuffix name (text "sstrasse") with
  | some stem => rfl
  | none =>
  cases streetSuffix name (text "strasse") with
  | some stem => rfl
  | none =>
  cases streetSuffix name (text "str.") with
  | some stem => rfl
  | none =>
  cases (streetSuffix name (text "str")).filter fun _ => decide (3 < name.length) with
  | some stem => rfl
  | none => rfl

variable {name : Str}

theorem suffixed_iff :
  Suffixed name ↔ respelledStem name ≠ none ∨ abbreviatedStem name ≠ none
  := by
  have hfilter : (streetSuffix name (text "str")).filter (fun _ => decide (3 < name.length)) ≠ none ↔
      streetSuffix name (text "str") ≠ none ∧ 3 < name.length := by
    cases streetSuffix name (text "str") <;> simp
  rw [Suffixed, respelledStem, abbreviatedStem, ← hfilter]
  simp only [ne_eq, Option.or_eq_none_iff, not_and_or, or_assoc]

theorem streetSuffix_eq {suffix : Str} (h : streetSuffix name suffix = some stem)
    (hne : suffix ≠ []) :
  ∃ cut, cut ≠ [] ∧ name = stem ++ cut
  := by
  obtain ⟨hnot, htake⟩ := Option.ite_none_left_eq_some.mp h
  rw [not_or, not_not, Bool.not_eq_false, endsWith, List.isSuffixOf_iff_suffix] at hnot
  have hle := hnot.2.length_le
  have hpos := List.length_pos_of_ne_nil hne
  refine ⟨name.drop (name.length - suffix.length), ?_, ?_⟩
  · intro hnil
    rw [List.drop_eq_nil_iff] at hnil
    omega
  · rw [← Option.some.inj htake, List.take_append_drop]

theorem respelledStem_eq (h : respelledStem name = some stem) :
  ∃ cut, cut ≠ [] ∧ name = stem ++ cut
  := by
  rcases Option.or_eq_some_iff.mp h with h | ⟨-, h⟩
  · exact streetSuffix_eq h (by decide)
  · exact streetSuffix_eq h (by decide)

theorem abbreviatedStem_eq (h : abbreviatedStem name = some stem) :
  ∃ cut, cut ≠ [] ∧ name = stem ++ cut
  := by
  rcases Option.or_eq_some_iff.mp h with h | ⟨-, h⟩
  · exact streetSuffix_eq h (by decide)
  · exact streetSuffix_eq (Option.filter_eq_some_iff.mp h).1 (by decide)

omit [CharTables] in
theorem stem_tokens {cut : Str} (hcut : cut ≠ []) (hsame : collapse (stem ++ cut) = stem ++ cut) :
  ∃ init last, stem.splitOn 32 = init ++ [last] ∧ (∀ w ∈ init, IsWord w) ∧ ∀ c ∈ last, isSpace c = false
  := by
  obtain ⟨init, last, first, rest, hsplit, -, hall⟩ := splitOn_append 32 stem cut
  have hwords := isWord_of_mem_splitOn hsame (by simp [hcut])
  rw [hall] at hwords
  refine ⟨init, last, hsplit, fun w hw => hwords w (List.mem_append_left _ hw), fun c hc => ?_⟩
  exact (hwords (last ++ first) (by simp)).2 c (List.mem_append_left first hc)

/-! ### Names twice -/

theorem lower_ending (h : UnicodeFacts) :
  ∀ c ∈ text "straße", lower [c] = [c]
  := by
  have htext : text "straße" = [115, 116, 114, 97, 0xDF, 101] := rfl
  rw [htext]
  simp [h.lower_sharp, h.lower_ascii, asciiLower]

theorem digit_ending (h : UnicodeFacts) :
  (∀ c ∈ text "straße", isDigit c = false) ∧ ∀ c ∈ text "Straße", isDigit c = false
  := by
  have htext : text "straße" = [115, 116, 114, 97, 0xDF, 101] := rfl
  have htext' : text "Straße" = [83, 116, 114, 97, 0xDF, 101] := rfl
  rw [htext, htext']
  constructor
  · simp [h.digit_sharp, h.digit_ascii, Text.isDigit]
  · simp [h.digit_sharp, h.digit_ascii, Text.isDigit]

theorem titled_ending (h : UnicodeFacts) :
  titled (text "straße") = text "Straße" ∧ titled (text "Straße") = text "Straße"
  := by
  have htext : text "straße" = 115 :: text "traße" := rfl
  have htext' : text "Straße" = 83 :: text "traße" := rfl
  have hlower : lower (text "traße") = text "traße" :=
    (h.lower_eq_self _).mpr fun c hc => lower_ending h c (by rw [htext]; exact List.mem_cons_of_mem _ hc)
  rw [htext, htext', titled, titled, hlower, h.upper_ascii 115 (by decide), h.upper_ascii 83 (by decide)]
  exact ⟨rfl, rfl⟩

theorem not_suffixed_ending (h : UnicodeFacts) (s : Str) :
  ¬ Suffixed (s ++ text "aße")
  := by
  have hfixed : ∀ c ∈ text "aße", lower [c] = [c] := by
    have htext : text "straße" = text "str" ++ text "aße" := rfl
    exact fun c hc => lower_ending h c (by rw [htext]; exact List.mem_append_right _ hc)
  obtain ⟨s', hlower⟩ := h.lower_append s (text "aße") hfixed
  have hnone : ∀ suffix, 3 ≤ suffix.length → ¬ text "aße" <:+ suffix →
      streetSuffix (s ++ text "aße") suffix = none := by
    intro suffix hlength hnot
    refine if_pos (.inr ?_)
    rw [Bool.eq_false_iff, hlower, endsWith]
    intro hsuffix
    rw [List.isSuffixOf_iff_suffix] at hsuffix
    exact hnot (List.suffix_of_suffix_length_le (List.suffix_append s' (text "aße")) hsuffix hlength)
  rw [Suffixed, hnone (text "sstrasse") (by decide) (by decide), hnone (text "strasse") (by decide) (by decide),
    hnone (text "str.") (by decide) (by decide), hnone (text "str") (by decide) (by decide)]
  simp

/-- The words of a name are steady, its ending does not become a word in lower case, and title case brings none about.
-/
def SteadyStreet (name : Str) : Prop :=
  match respelledStem name with
  | some stem => Steady stem ∧ ¬ Open (lastToken stem)
  | none => match abbreviatedStem name with
    | some stem => Steady stem ∧ lastToken stem ≠ []
    | none => Steady name ∧ ¬ Suffixed (titleCaseDe name)

theorem streetName_of_ending (h : UnicodeFacts) (s : Str) :
  (streetName (s ++ text "aße")).value = titleCaseDe (s ++ text "aße")
  := by
  obtain ⟨hsuffixed, -⟩ | ⟨-, hvalue⟩ := streetName_cases (s ++ text "aße")
  · exact absurd hsuffixed (not_suffixed_ending h s)
  · rw [hvalue]

theorem streetName_suffixed (h : Suffixed name) :
  ∃ start, (streetName name).value = start ++ text "aße"
  := by
  have hword : ∀ s, s ++ text "straße" = (s ++ text "str") ++ text "aße" := fun s =>
    (List.append_assoc s (text "str") (text "aße")).symm
  have hcapital : ∀ s, s ++ text "Straße" = (s ++ text "Str") ++ text "aße" := fun s =>
    (List.append_assoc s (text "Str") (text "aße")).symm
  rw [streetName_value]
  cases hrespelled : respelledStem name with
  | some stem => exact ⟨_, hword _⟩
  | none =>
  cases habbreviated : abbreviatedStem name with
  | some stem =>
    simp only [finishAbbreviation]
    split
    · exact ⟨_, hcapital _⟩
    · exact ⟨_, hword _⟩
  | none =>
    rw [suffixed_iff, hrespelled, habbreviated] at h
    simp at h

theorem ending_twice_iff (h : UnicodeFacts) {stem cut start ending : Str} (hcut : cut ≠ [])
    (hsame : collapse (stem ++ cut) = stem ++ cut) (hending : ending = start ++ text "aße")
    (hdigit : ∀ c ∈ ending, isDigit c = false) (hhyphen : 45 ∉ ending)
    (hspace : ∀ c ∈ ending, isSpace c = false)
    (hfixed : ((lastToken stem).splitOn 45).getLast? = some [] ∨ ∀ c ∈ ending, lower [c] = [c]) :
  collapse (titleCaseDe stem ++ ending) = titleCaseDe stem ++ ending ∧
    ((streetName (titleCaseDe stem ++ ending)).value = titleCaseDe stem ++ ending ↔
      Steady stem ∧ (Open (lastToken stem) → titled ending = ending))
  := by
  obtain ⟨init, last, hsplit, hinit, hlast⟩ := stem_tokens hcut hsame
  have hlastToken : lastToken stem = last := by
    simp [lastToken, hsplit]
  have hne : ending ≠ [] := by
    rw [hending]
    simp [text]
  have hspaces : ∀ c ∈ last ++ ending, isSpace c = false := by
    intro c hc
    rcases List.mem_append.mp hc with hc | hc
    · exact hlast c hc
    · exact hspace c hc
  rw [hlastToken] at hfixed
  obtain ⟨hcollapse, htwice⟩ := titleCaseDe_append_iff h hsplit hinit hspaces (by simp [hne]) hdigit hhyphen
    hfixed
  refine ⟨hcollapse, ?_⟩
  rw [← htwice, hending, ← List.append_assoc, streetName_of_ending h]

theorem streetName_twice_iff (h : UnicodeFacts) (hsame : collapse name = name) :
  collapse (streetName name).value = (streetName name).value ∧
    ((streetName (streetName name).value).value = (streetName name).value ↔ SteadyStreet name)
  := by
  have hopen : Open [] := ⟨rfl, rfl⟩
  have hword : ∀ stem cut : Str, cut ≠ [] → collapse (stem ++ cut) = stem ++ cut →
      collapse (titleCaseDe stem ++ text "straße") = titleCaseDe stem ++ text "straße" ∧
        ((streetName (titleCaseDe stem ++ text "straße")).value = titleCaseDe stem ++ text "straße" ↔
          Steady stem ∧ ¬ Open (lastToken stem)) := by
    intro stem cut hcut hstem
    obtain ⟨hcollapse, htwice⟩ := @ending_twice_iff _ h stem cut (text "str") (text "straße") hcut hstem rfl
      (digit_ending h).1 (by decide) (by decide) (.inr (lower_ending h))
    refine ⟨hcollapse, htwice.trans (and_congr_right fun _ => ?_)⟩
    rw [(titled_ending h).1]
    exact ⟨fun himp hopen => absurd (himp hopen) (by decide), fun hnot hopen => absurd hopen hnot⟩
  rw [streetName_value name]
  unfold SteadyStreet
  cases hrespelled : respelledStem name with
  | some stem =>
    obtain ⟨cut, hcut, rfl⟩ := respelledStem_eq hrespelled
    exact hword stem cut hcut hsame
  | none =>
  cases habbreviated : abbreviatedStem name with
  | some stem =>
    obtain ⟨cut, hcut, rfl⟩ := abbreviatedStem_eq habbreviated
    obtain ⟨init, last, hsplit, -⟩ := stem_tokens hcut hsame
    have hlastToken : lastToken stem = last := by
      simp [lastToken, hsplit]
    have hhyphen := (endsWith_hyphen_titleCaseDe hsplit).trans endsWith_hyphen_iff
    rw [← hlastToken] at hhyphen
    simp only [finishAbbreviation]
    by_cases hends : endsWith (titleCaseDe stem) (text "-") = true
    · obtain ⟨hne, hlast⟩ := hhyphen.mp hends
      rw [if_pos hends]
      obtain ⟨hcollapse, htwice⟩ := @ending_twice_iff _ h stem cut (text "Str") (text "Straße") hcut hsame rfl
        (digit_ending h).2 (by decide) (by decide) (.inl hlast)
      refine ⟨hcollapse, htwice.trans (and_congr_right fun _ => ?_)⟩
      exact iff_of_true (fun _ => (titled_ending h).2) hne
    · rw [if_neg hends]
      obtain ⟨hcollapse, htwice⟩ := hword stem cut hcut hsame
      refine ⟨hcollapse, htwice.trans (and_congr_right fun _ => ?_)⟩
      constructor
      · intro hnot hnil
        rw [hnil] at hnot
        exact hnot hopen
      · intro hne hopenLast
        exact hends (hhyphen.mpr ⟨hne, hopenLast.2⟩)
  | none =>
    obtain ⟨hcollapse, htwice⟩ := titleCaseDe_twice_iff h hsame
    refine ⟨hcollapse, ?_⟩
    obtain ⟨hsuffixed, -⟩ | ⟨hnot, hvalue⟩ := streetName_cases (titleCaseDe name)
    · refine iff_of_false (fun heq => ?_) (fun hsteady => hsteady.2 hsuffixed)
      obtain ⟨start, hstart⟩ := streetName_suffixed hsuffixed
      rw [hstart] at heq
      have hname : start ++ text "aße" = titleCaseDe name := heq
      rw [← hname] at hsuffixed
      exact not_suffixed_ending h start hsuffixed
    · simp only [hvalue]
      rw [htwice]
      exact (and_iff_left hnot).symm

/-! ### House numbers twice -/

variable {house : Str}

theorem houseNumber_cases (h : houseNumber s = some house) :
  ∃ gap d rest, s = gap ++ d :: rest ∧ (∀ c ∈ gap, isSpace c = true) ∧ isDecimal d = true ∧
    house = d :: rest ∧ IsWord house
  := by
  obtain ⟨gap, heq, hgap, hword⟩ := houseNumber_eq h
  obtain ⟨d, rest, rfl⟩ := List.exists_cons_of_ne_nil hword.1
  refine ⟨gap, d, rest, heq, hgap, ?_, rfl, hword⟩
  have hd : isSpace d = false := hword.2 d (by simp)
  rw [houseNumber, heq, List.dropWhile_append_of_pos hgap, List.dropWhile_cons_of_neg (by simp [hd])] at h
  simp only at h
  split at h
  · next hboth => exact hboth.1
  · cases h

theorem houseNumber_of {gap rest : Str} {d : Nat} (hgap : ∀ c ∈ gap, isSpace c = true)
    (hd : isDecimal d = true) (hword : IsWord (d :: rest)) :
  houseNumber (gap ++ d :: rest) = some (d :: rest)
  := by
  have hspace : isSpace d = false := hword.2 d (by simp)
  rw [houseNumber, List.dropWhile_append_of_pos hgap, List.dropWhile_cons_of_neg (by simp [hspace])]
  refine if_pos ⟨hd, ?_⟩
  rw [List.all_eq_true]
  intro c hc
  simp [hword.2 c (List.mem_cons_of_mem d hc)]

theorem scanHouseNumber_append {a t : Str} (h : ∀ x y, a = x ++ y → y ≠ [] → houseNumber (y ++ t) = none)
    (before : Str) :
  scanHouseNumber before (a ++ t) = scanHouseNumber (before ++ a) t
  := by
  induction a generalizing before with
  | nil => simp
  | cons c a ih =>
    have hnone := h [] (c :: a) rfl (by simp)
    rw [List.cons_append] at hnone
    rw [List.cons_append, scanHouseNumber, hnone, Option.map_none, Option.none_or]
    have hrest := ih (fun x y heq hy => h (c :: x) y (by rw [heq]; rfl) hy) (before ++ [c])
    rw [hrest, List.append_assoc]
    rfl

theorem scanHouseNumber_eq_none {before : Str} :
  scanHouseNumber before s = none ↔ ∀ t, t <:+ s → houseNumber t = none
  := by
  induction s generalizing before with
  | nil =>
    refine iff_of_true rfl fun t ht => ?_
    rw [List.suffix_nil.mp ht]
    rfl
  | cons c s ih =>
    rw [scanHouseNumber, Option.or_eq_none_iff, Option.map_eq_none_iff, ih]
    constructor
    · rintro ⟨hone, hrest⟩ t ht
      rcases List.suffix_cons_iff.mp ht with rfl | ht
      · exact hone
      · exact hrest t ht
    · exact fun hall => ⟨hall _ (List.suffix_refl _), fun t ht => hall t (ht.trans (List.suffix_cons c s))⟩

omit [CharTables] in
theorem lastToken_suffix (s : Str) :
  lastToken s <:+ s
  := by
  obtain ⟨init, last, hsplit⟩ : ∃ init last, s.splitOn 32 = init ++ [last] :=
    ⟨_, _, (List.dropLast_append_getLast (List.splitOn_ne_nil 32 s)).symm⟩
  have hspaced : [32].intercalate (s.splitOn 32) = s := List.intercalate_splitOn 32
  rw [hsplit] at hspaced
  obtain ⟨start, hstart⟩ := intercalate_concat [32] init last
  refine ⟨start, ?_⟩
  rw [lastToken, hsplit, ← hspaced, hstart]
  simp

theorem no_houseNumber_iff (hlast : ∀ c ∈ lastToken s, isSpace c = false) :
  (∀ t, t <:+ s → houseNumber t = none) ↔ ∀ d ∈ lastToken s, isDecimal d = false
  := by
  constructor
  · intro hnone d hd
    by_contra hdecimal
    obtain ⟨a, b, heq⟩ := List.append_of_mem hd
    have hsuffix : d :: b <:+ s := by
      refine List.IsSuffix.trans ?_ (lastToken_suffix s)
      rw [heq]
      exact List.suffix_append a (d :: b)
    have hword : IsWord (d :: b) := by
      refine ⟨by simp, fun c hc => hlast c ?_⟩
      rw [heq]
      exact List.mem_append_right a hc
    have hhouse := @houseNumber_of _ [] b d (by simp) (by simpa using hdecimal) hword
    rw [List.nil_append, hnone _ hsuffix] at hhouse
    cases hhouse
  · rintro hall t ⟨x, rfl⟩
    by_contra hsome
    obtain ⟨house, hhouse⟩ := Option.ne_none_iff_exists'.mp hsome
    obtain ⟨gap, d, rest, heq, -, hdecimal, rfl, hword⟩ := houseNumber_cases hhouse
    have hspace : 32 ∉ d :: rest := by
      intro hmem
      cases hword.2 32 hmem
    obtain ⟨init, last, -, hsplit⟩ := splitOn_append_of_notMem hspace (x ++ gap)
    have hmem : d ∈ lastToken (x ++ t) := by
      rw [heq, lastToken, ← List.append_assoc, hsplit]
      simp
    rw [hall d hmem] at hdecimal
    cases hdecimal

theorem scanHouseNumber_some {before start : Str}
    (h : scanHouseNumber before s = some (start, house)) :
  ∃ t, before ++ s = start ++ t ∧ houseNumber t = some house
  := by
  induction s generalizing before with
  | nil => cases h
  | cons c s ih =>
    rw [scanHouseNumber, Option.or_eq_some_iff] at h
    rcases h with h | ⟨-, h⟩
    · obtain ⟨found, hhouse, heq⟩ := Option.map_eq_some_iff.mp h
      cases heq
      exact ⟨c :: s, rfl, hhouse⟩
    · obtain ⟨t, heq, hhouse⟩ := ih h
      exact ⟨t, by rw [← heq]; simp, hhouse⟩

theorem splitHouseNumber_joined {rest : Str} (hne : name ≠ []) (hsame : collapse name = name)
    (hd : isDecimal d = true) (hword : IsWord (d :: rest)) :
  splitHouseNumber (name ++ 32 :: d :: rest) = (name, d :: rest)
  := by
  obtain ⟨-, init, c, heq, hc⟩ := collapsed_ends hsame hne
  have hscan : scanHouseNumber [] (name ++ 32 :: d :: rest) = some (name, d :: rest) := by
    rw [scanHouseNumber_append, List.nil_append, scanHouseNumber,
      show 32 :: d :: rest = [32] ++ d :: rest from rfl, houseNumber_of (by decide) hd hword]
    · rfl
    · intro x y hname hy
      -- A house number would have the space before the true one in it.
      by_contra hsome
      obtain ⟨house, hhouse⟩ := Option.ne_none_iff_exists'.mp hsome
      obtain ⟨gap, d', rest', hsplit, hgap, -, rfl, hword'⟩ := houseNumber_cases hhouse
      rcases List.append_eq_append_iff.mp hsplit with ⟨more, hmore, -⟩ | ⟨more, -, hmore⟩
      · obtain ⟨y', rfl⟩ : ∃ y', y = y' ++ [c] := by
          cases y using List.reverseRecOn with
          | nil => exact absurd rfl hy
          | append_singleton y' e _ =>
            rw [heq, ← List.append_assoc] at hname
            exact ⟨y', by rw [List.singleton_inj.mp (List.append_inj_right' hname rfl)]⟩
        rw [hgap c (by simp [hmore])] at hc
        cases hc
      · have hmem : 32 ∈ d' :: rest' := by
          rw [hmore]
          simp
        cases hword'.2 32 hmem
  have hname : name.rdropWhile isSpace = name := by
    rw [heq, List.rdropWhile_concat_neg _ _ _ (by simp [hc])]
  simp only [splitHouseNumber, hscan, hname]
  rw [if_neg hne]

theorem splitHouseNumber_none (h : ∀ t, t <:+ s → houseNumber t = none) :
  splitHouseNumber s = (s, [])
  := by
  have hscan : scanHouseNumber [] s = none := scanHouseNumber_eq_none.mpr h
  simp only [splitHouseNumber, hscan]

theorem splitHouseNumber_word {rest : Str} (hd : isDecimal d = true) (hword : IsWord (d :: rest)) :
  splitHouseNumber (d :: rest) = (d :: rest, [])
  := by
  have hhouse := @houseNumber_of _ [] rest d (by simp) hd hword
  rw [List.nil_append] at hhouse
  have hscan : scanHouseNumber [] (d :: rest) = some ([], d :: rest) := by
    rw [scanHouseNumber, hhouse]
    rfl
  simp only [splitHouseNumber, hscan]
  rfl

/-- A street without a house number has no digit in its last word, or is a word that starts with a digit. -/
theorem splitHouseNumber_inv (hsame : collapse s = s) (hne : s ≠ [])
    (h : splitHouseNumber s = (name, house)) :
  (∃ d rest, house = d :: rest ∧ isDecimal d = true) ∨ house = [] ∧
    ((∀ d ∈ lastToken s, isDecimal d = false) ∨ ∃ d rest, s = d :: rest ∧ isDecimal d = true ∧ IsWord s)
  := by
  have hlast : ∀ c ∈ lastToken s, isSpace c = false := by
    have hmem : lastToken s ∈ s.splitOn 32 := by
      rw [lastToken, List.getLastD_eq_getLast?, List.getLast?_eq_getLast_of_ne_nil (List.splitOn_ne_nil 32 s)]
      exact List.getLast_mem _
    exact (isWord_of_mem_splitOn hsame hne _ hmem).2
  unfold splitHouseNumber at h
  cases hscan : scanHouseNumber [] s with
  | none =>
    rw [hscan] at h
    cases h
    exact .inr ⟨rfl, .inl ((no_houseNumber_iff hlast).mp (scanHouseNumber_eq_none.mp hscan))⟩
  | some found =>
    obtain ⟨start, house'⟩ := found
    obtain ⟨t, heq, hhouse⟩ := scanHouseNumber_some hscan
    obtain ⟨gap, d, rest, rfl, hgap, hd, rfl, hword⟩ := houseNumber_cases hhouse
    rw [hscan] at h
    simp only at h
    split at h
    · next hnil =>
      obtain ⟨⟨c, u, hhead, hc⟩, -⟩ := collapsed_ends hsame hne
      have hspaces : ∀ e ∈ start ++ gap, isSpace e = true := by
        intro e he
        rcases List.mem_append.mp he with he | he
        · exact List.rdropWhile_eq_nil_iff.mp hnil e he
        · exact hgap e he
      rw [List.nil_append, ← List.append_assoc] at heq
      have hempty : start ++ gap = [] := by
        cases hgaps : start ++ gap with
        | nil => rfl
        | cons e more =>
          rw [heq, hgaps] at hhead
          obtain ⟨rfl, -⟩ := List.cons.inj hhead
          rw [hspaces e (by simp [hgaps])] at hc
          cases hc
      rw [hempty, List.nil_append] at heq
      cases h
      exact .inr ⟨rfl, .inr ⟨d, rest, heq, hd, heq ▸ hword⟩⟩
    · cases h
      exact .inl ⟨d, rest, rfl, hd⟩

/-! ### Streets twice -/

theorem space_notMem_cut (h : UnicodeFacts) {suffix : Str}
    (hstem : streetSuffix name suffix = some stem) (hsuffix : 32 ∉ suffix) :
  ∃ cut, name = stem ++ cut ∧ 32 ∉ cut
  := by
  obtain ⟨hnot, htake⟩ := Option.ite_none_left_eq_some.mp hstem
  rw [not_or, not_not, Bool.not_eq_false, endsWith, List.isSuffixOf_iff_suffix] at hnot
  obtain ⟨hlength, hends⟩ := hnot
  have hname : name = stem ++ name.drop (name.length - suffix.length) := by
    rw [← Option.some.inj htake, List.take_append_drop]
  refine ⟨_, hname, fun hmem => ?_⟩
  have hcutLength : (name.drop (name.length - suffix.length)).length ≤ suffix.length := by
    rw [List.length_drop]
    omega
  generalize name.drop (name.length - suffix.length) = cut at hname hmem hcutLength
  obtain ⟨a, b, rfl⟩ := List.append_of_mem hmem
  have hlower : lower name = lower (stem ++ a) ++ 32 :: lower b := by
    rw [hname, ← List.append_assoc, h.lower_space]
  have hb : (lower b).length = b.length := by
    have hstart := h.length_le_lower (stem ++ a)
    have hrest := h.length_le_lower b
    rw [hlower, hname] at hlength
    simp only [List.length_append, List.length_cons] at hlength hstart
    omega
  simp only [List.length_append, List.length_cons] at hcutLength
  have hspace : 32 :: lower b <:+ suffix := by
    refine List.suffix_of_suffix_length_le ?_ hends (by simp [hb]; omega)
    rw [hlower]
    exact List.suffix_append _ _
  exact hsuffix (hspace.subset List.mem_cons_self)

theorem streetName_form (h : UnicodeFacts) (name : Str) :
  ∃ stem cut ending, name = stem ++ cut ∧ 32 ∉ cut ∧ (streetName name).value = titleCaseDe stem ++ ending ∧
    ∀ c ∈ ending, isDigit c = false ∧ isSpace c = false
  := by
  have hword : ∀ c ∈ text "straße", isDigit c = false ∧ isSpace c = false :=
    fun c hc => ⟨(digit_ending h).1 c hc, by revert c; decide⟩
  have hcapital : ∀ c ∈ text "Straße", isDigit c = false ∧ isSpace c = false :=
    fun c hc => ⟨(digit_ending h).2 c hc, by revert c; decide⟩
  rw [streetName_value]
  cases hrespelled : respelledStem name with
  | some stem =>
    obtain ⟨cut, hname, hcut⟩ : ∃ cut, name = stem ++ cut ∧ 32 ∉ cut := by
      rcases Option.or_eq_some_iff.mp hrespelled with hstem | ⟨-, hstem⟩
      · exact space_notMem_cut h hstem (by decide)
      · exact space_notMem_cut h hstem (by decide)
    exact ⟨stem, cut, _, hname, hcut, rfl, hword⟩
  | none =>
  cases habbreviated : abbreviatedStem name with
  | some stem =>
    obtain ⟨cut, hname, hcut⟩ : ∃ cut, name = stem ++ cut ∧ 32 ∉ cut := by
      rcases Option.or_eq_some_iff.mp habbreviated with hstem | ⟨-, hstem⟩
      · exact space_notMem_cut h hstem (by decide)
      · exact space_notMem_cut h (Option.filter_eq_some_iff.mp hstem).1 (by decide)
    simp only [finishAbbreviation]
    split
    · exact ⟨stem, cut, _, hname, hcut, rfl, hcapital⟩
    · exact ⟨stem, cut, _, hname, hcut, rfl, hword⟩
  | none => exact ⟨name, [], [], by simp, by simp, by simp, by simp⟩

theorem mem_titledToken_of_digit (h : UnicodeFacts) {token : Str} (hd : d ∈ titledToken token)
    (hdigit : isDigit d = true) :
  d ∈ token
  := by
  have hany : (titledToken token).any isDigit = true := List.any_eq_true.mpr ⟨d, hd, hdigit⟩
  rw [any_isDigit_titledToken h] at hany
  rwa [titledToken, if_pos hany] at hd

/-- A street without a house number has none after its name is corrected. -/
theorem splitHouseNumber_streetName (h : UnicodeFacts) (hsame : collapse name = name)
    (hne : name ≠ []) (hnone : splitHouseNumber name = (name, [])) :
  splitHouseNumber (streetName name).value = ((streetName name).value, [])
  := by
  have hcollapse := (streetName_twice_iff h hsame).1
  have hvalueNe := streetName_ne_nil hne
  obtain ⟨stem, cut, ending, hname, hcut, hvalue, hending⟩ := streetName_form h name
  have hspace : 32 ∉ ending := by
    intro hmem
    cases (hending 32 hmem).2
  obtain ⟨init, last, hstem, hall⟩ := splitOn_append_of_notMem hcut stem
  have htokens : (titleCaseDe stem).splitOn 32 = init.map titledToken ++ [titledToken last] := by
    rw [titleCaseDe_eq_mapParts, splitOn_mapParts (fun _ => space_notMem_titledToken), hstem]
    simp
  obtain ⟨init', last', htitle, hmore⟩ := splitOn_append_of_notMem hspace (titleCaseDe stem)
  rw [htokens] at htitle
  obtain ⟨rfl, hlast'⟩ := List.append_inj' htitle rfl
  obtain rfl := List.singleton_inj.mp hlast'
  have hlastName : lastToken name = last ++ cut := by
    rw [lastToken, hname, hall]
    simp
  have hlastValue : lastToken (streetName name).value = titledToken last ++ ending := by
    rw [lastToken, hvalue, hmore]
    simp
  have hlastSpaces : ∀ c ∈ lastToken (streetName name).value, isSpace c = false := by
    refine (isWord_of_mem_splitOn hcollapse hvalueNe _ ?_).2
    rw [hlastValue, hvalue, hmore]
    simp
  have hnone' : (∀ d ∈ last, isDecimal d = false) →
      splitHouseNumber (streetName name).value = ((streetName name).value, []) := by
    intro hdigits
    apply splitHouseNumber_none
    rw [no_houseNumber_iff hlastSpaces, hlastValue]
    intro d hd
    by_contra hdecimal
    have hdecimal : isDecimal d = true := by simpa using hdecimal
    rcases List.mem_append.mp hd with hd | hd
    · rw [hdigits d (mem_titledToken_of_digit h hd (h.digit_of_decimal d hdecimal))] at hdecimal
      cases hdecimal
    · have hdigit := h.digit_of_decimal d hdecimal
      rw [(hending d hd).1] at hdigit
      cases hdigit
  rcases splitHouseNumber_inv hsame hne hnone with
    ⟨d, rest, hhouse, -⟩ | ⟨-, hdigits | ⟨d, rest, heq, hd, hword⟩⟩
  · cases hhouse
  · apply hnone'
    intro d hd
    exact hdigits d (by rw [hlastName]; exact List.mem_append_left cut hd)
  · cases stem with
    | nil =>
      obtain ⟨-, hlast⟩ := @List.append_inj' _ [] [[]] _ _ hstem rfl
      apply hnone'
      intro e he
      rw [← List.singleton_inj.mp hlast] at he
      cases he
    | cons d' r =>
      rw [heq, List.cons_append] at hname
      obtain ⟨rfl, hrest⟩ := List.cons.inj hname
      rw [heq, hrest] at hword
      have hstemSpace : 32 ∉ d :: r := by
        intro hmem
        cases hword.2 32 (List.mem_append_left cut hmem)
      have htitled : titleCaseDe (d :: r) = d :: r := by
        rw [titleCaseDe_eq_mapParts, mapParts, List.splitOn_eq_singleton hstemSpace, List.map_singleton,
          List.intercalate_singleton, titledToken, if_pos]
        rw [List.any_cons, h.digit_of_decimal d hd, Bool.true_or]
      rw [hvalue, htitled, List.cons_append]
      apply splitHouseNumber_word hd
      refine ⟨by simp, fun c hc => ?_⟩
      rw [← List.cons_append] at hc
      rcases List.mem_append.mp hc with hc | hc
      · exact hword.2 c (List.mem_append_left cut hc)
      · exact (hending c hc).2

theorem steadyStreet_nil (h : UnicodeFacts) :
  SteadyStreet []
  := by
  have hcut : ∀ {stem : Str}, ¬ ∃ cut, cut ≠ [] ∧ [] = stem ++ cut := by
    rintro stem ⟨cut, hcut, heq⟩
    exact hcut (List.append_eq_nil_iff.mp heq.symm).2
  have hrespelled : respelledStem [] = none := by
    by_contra hsome
    obtain ⟨stem, hstem⟩ := Option.ne_none_iff_exists'.mp hsome
    exact hcut (respelledStem_eq hstem)
  have habbreviated : abbreviatedStem [] = none := by
    by_contra hsome
    obtain ⟨stem, hstem⟩ := Option.ne_none_iff_exists'.mp hsome
    exact hcut (abbreviatedStem_eq hstem)
  have hnot : ¬ Suffixed [] := by
    rw [suffixed_iff, hrespelled, habbreviated]
    simp
  rw [SteadyStreet, hrespelled, habbreviated]
  exact ⟨(titleCaseDe_twice_iff h rfl).2.mp rfl, hnot⟩

/-- A street that is cleaned twice is left as it is exactly if its name is. -/
theorem normalizeStreet_twice_iff (h : UnicodeFacts) (hsame : collapse s = s) :
  collapse (normalizeStreet s).value = (normalizeStreet s).value ∧
    ((normalizeStreet (normalizeStreet s).value).value = (normalizeStreet s).value ↔
      SteadyStreet (splitHouseNumber s).1)
  := by
  by_cases hne : s = []
  · subst hne
    rw [splitHouseNumber_nil, normalizeStreet, if_pos rfl, normalizeStreet, if_pos rfl]
    exact ⟨rfl, iff_of_true rfl (steadyStreet_nil h)⟩
  · obtain hnone | ⟨name, house, hsplit, hname, hcollapse, hword, -⟩ := splitHouseNumber_cases hsame
    · have hvalue : (normalizeStreet s).value = (streetName s).value := by
        rw [normalizeStreet_value hne, hnone]
        exact if_neg (by simp)
      obtain ⟨hcollapse, htwice⟩ := streetName_twice_iff h hsame
      have hsecond : (normalizeStreet (streetName s).value).value = (streetName (streetName s).value).value := by
        rw [normalizeStreet_value (streetName_ne_nil hne), splitHouseNumber_streetName h hsame hne hnone]
        exact if_neg (by simp)
      rw [hvalue, hsecond, hnone]
      exact ⟨hcollapse, htwice⟩
    · obtain ⟨d, rest, rfl, hd⟩ : ∃ d rest, house = d :: rest ∧ isDecimal d = true := by
        rcases splitHouseNumber_inv hsame hne hsplit with hhouse | ⟨hnil, -⟩
        · exact hhouse
        · exact absurd hnil hword.1
      have hjoin : ∀ value : Str, value ≠ [] → collapse value = value →
          strip (value ++ 32 :: d :: rest) = value ++ 32 :: d :: rest := by
        intro value hvalueNe hvalue
        obtain ⟨⟨c, t, heq, hc⟩, -⟩ := collapsed_ends hvalue hvalueNe
        rw [heq]
        exact strip_joined hc hword
      obtain ⟨hvalueSame, htwice⟩ := streetName_twice_iff h hcollapse
      have hvalueNe := streetName_ne_nil hname
      have hvalue : (normalizeStreet s).value = (streetName name).value ++ 32 :: d :: rest := by
        rw [normalizeStreet_value hne, hsplit, if_pos hword.1]
        exact hjoin _ hvalueNe hvalueSame
      have hsecond : (normalizeStreet ((streetName name).value ++ 32 :: d :: rest)).value =
          (streetName (streetName name).value).value ++ 32 :: d :: rest := by
        rw [normalizeStreet_value (by simp), splitHouseNumber_joined hvalueNe hvalueSame hd hword,
          if_pos hword.1]
        exact hjoin _ (streetName_ne_nil hvalueNe) (streetName_twice_iff h hvalueSame).1
      rw [hvalue, hsecond, hsplit, List.append_left_inj]
      refine ⟨collapse_joined hvalueSame hvalueNe ?_ hword.1, htwice⟩
      rw [collapse, words_of_isWord hword, spaced_singleton]

end Courier.ListClean
