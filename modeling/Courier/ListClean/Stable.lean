import Courier.ListClean.Duplicates
import Courier.ListClean.Streets

/-!
# Lists that are cleaned twice

A cell that was cleaned is left as it is by cleaning it again, unless it is a name, a city or a street with a word
that is not steady, or a street whose ending is corrected in a way that is corrected again (`stable_iff`). -/

namespace Courier.ListClean

open Text hiding upper lower isDigit
open CharTables

section Twice

variable [CharTables] {s : Str}

/-! ### Phone numbers -/

theorem isDigits_iff {s : Str} :
  isDigits s = true ↔ s ≠ [] ∧ ∀ c ∈ s, isDigit c = true
  := by
  simp [isDigits]

theorem formatGerman_eq {national formatted : Str} (h : formatGerman national = some formatted) :
  isDigits national = true ∧ ((formatted = text "+49 " ++ national) ∨ ∃ area rest, national = area ++ rest ∧
    area ≠ [] ∧ rest ≠ [] ∧ formatted = text "+49 " ++ area ++ 32 :: rest)
  := by
  unfold formatGerman at h
  obtain ⟨hnot, h⟩ := Option.ite_none_left_eq_some.mp h
  simp only [not_or, Bool.not_eq_false] at hnot
  obtain ⟨hdigits, hlength, -⟩ := hnot
  refine ⟨hdigits, ?_⟩
  dsimp only at h
  split at h
  · cases h
    exact .inl rfl
  · next length harea =>
    obtain ⟨hle, h⟩ := Option.ite_none_left_eq_some.mp h
    cases h
    have hpos : 0 < length := by
      split at harea
      · cases harea
        decide
      · split at harea
        · cases harea
          decide
        · cases harea
    refine .inr ⟨national.take length, national.drop length, (List.take_append_drop _ _).symm, ?_, ?_, rfl⟩
    · rw [ne_eq, List.take_eq_nil_iff]
      rintro (hzero | hnil)
      · omega
      · simp [hnil] at hlength
    · rw [ne_eq, List.drop_eq_nil_iff]
      omega

theorem isWord_of_digits (h : UnicodeFacts) (hne : s ≠ []) (hdigits : ∀ c ∈ s, isDigit c = true) :
  IsWord s
  := by
  refine ⟨hne, fun c hc => ?_⟩
  by_contra hspace
  have hseparator : isPhoneSeparator c = true := by
    simp [isPhoneSeparator, show isSpace c = true by simpa using hspace]
  have hdigit := h.digit_separator c hseparator
  rw [hdigits c hc] at hdigit
  cases hdigit

/-- A formatted number is the number of its digits, with single spaces. -/
theorem formatted_number (h : UnicodeFacts) {national formatted : Str}
    (hformat : formatGerman national = some formatted) :
  collapse formatted = formatted ∧ formatted ≠ [] ∧
    germanNational (formatted.filter fun c => !isPhoneSeparator c) = some national
  := by
  obtain ⟨hdigits, hcases⟩ := formatGerman_eq hformat
  obtain ⟨hne, hall⟩ := isDigits_iff.mp hdigits
  have hcountry : text "+49 " = [43, 52, 57, 32] := rfl
  have hword : IsWord [43, 52, 57] := ⟨by simp, by decide⟩
  have hcollapse : ∀ w, IsWord w → collapse w = w := by
    intro w hw
    rw [collapse, words_of_isWord hw, spaced_singleton]
  have hkeep : ∀ t : Str, (∀ c ∈ t, isDigit c = true) → t.filter (fun c => !isPhoneSeparator c) = t := by
    intro t ht
    rw [List.filter_eq_self]
    intro c hc
    by_contra hseparator
    have hdigit := h.digit_separator c (by simpa using hseparator)
    rw [ht c hc] at hdigit
    cases hdigit
  have hgerman : germanNational (43 :: 52 :: 57 :: national) = some national := by
    have hplus : (text "+").isPrefixOf (43 :: 52 :: 57 :: national) = true := rfl
    have hcode : (text "+49").isPrefixOf (43 :: 52 :: 57 :: national) = true := by
      have htext : text "+49" = [43, 52, 57] := rfl
      rw [htext]
      simp
    have hnumber : isDigits ((43 :: 52 :: 57 :: national).drop 1) = true := by
      rw [isDigits_iff]
      refine ⟨by simp, fun c hc => ?_⟩
      simp only [List.drop_one, List.tail_cons, List.mem_cons] at hc
      rcases hc with rfl | rfl | hc
      · rw [h.digit_ascii 52 (by decide)]
        rfl
      · rw [h.digit_ascii 57 (by decide)]
        rfl
      · exact hall c hc
    rw [germanNational, if_pos hplus, if_neg]
    · rfl
    · rw [hnumber, hcode]
      simp
  rcases hcases with rfl | ⟨area, rest, rfl, hareaNe, hrestNe, rfl⟩
  · refine ⟨?_, by simp [hcountry], ?_⟩
    · exact collapse_joined (hcollapse _ hword) hword.1 (hcollapse _ (isWord_of_digits h hne hall)) hne
    · rw [hcountry, List.filter_append, hkeep national hall]
      exact hgerman
  · have harea : ∀ c ∈ area, isDigit c = true := fun c hc => hall c (List.mem_append_left rest hc)
    have hrest : ∀ c ∈ rest, isDigit c = true := fun c hc => hall c (List.mem_append_right area hc)
    refine ⟨?_, by simp [hcountry], ?_⟩
    · have hstart := collapse_joined (hcollapse _ hword) hword.1
        (hcollapse _ (isWord_of_digits h hareaNe harea)) hareaNe
      exact collapse_joined hstart (List.cons_ne_nil 43 _) (hcollapse _ (isWord_of_digits h hrestNe hrest))
        hrestNe
    · have hgroup : (32 :: rest).filter (fun c => !isPhoneSeparator c) = rest := by
        rw [List.filter_cons_of_neg (by decide), hkeep rest hrest]
      rw [hcountry, List.filter_append, List.filter_append, hkeep area harea, hgroup, List.append_assoc]
      exact hgerman

theorem normalizePhone_twice (h : UnicodeFacts) (hsame : collapse s = s) :
  collapse (normalizePhone s).value = (normalizePhone s).value ∧
    (normalizePhone (normalizePhone s).value).value = (normalizePhone s).value
  := by
  by_cases hne : s = []
  · subst hne
    exact ⟨rfl, rfl⟩
  · cases hformat : (germanNational (s.filter fun c => !isPhoneSeparator c)).bind formatGerman with
    | none =>
      have hvalue : (normalizePhone s).value = s := by
        rw [normalizePhone, if_neg hne]
        simp only [hformat]
        rfl
      rw [hvalue, hvalue]
      exact ⟨hsame, rfl⟩
    | some formatted =>
      have hvalue : ∀ t : Str, t ≠ [] →
          (germanNational (t.filter fun c => !isPhoneSeparator c)).bind formatGerman = some formatted →
          (normalizePhone t).value = formatted := by
        intro t ht hsome
        rw [normalizePhone, if_neg ht]
        simp only [hsome]
        split <;> rfl
      obtain ⟨national, -, hnational⟩ := Option.bind_eq_some_iff.mp hformat
      obtain ⟨hcollapse, hformattedNe, hgerman⟩ := formatted_number h hnational
      rw [hvalue s hne hformat, hvalue formatted hformattedNe (by rw [hgerman]; exact hnational)]
      exact ⟨hcollapse, rfl⟩

/-! ### Mail addresses -/

section

omit [CharTables]

theorem asciiLower_eq_iff {c d : Nat} (hd : d < 65 ∨ 122 < d) :
  asciiLower c = d ↔ c = d
  := by
  unfold asciiLower
  split <;> omega

theorem isAsciiLetter_asciiLower {c : Nat} (hc : isAsciiLetter c = true) :
  isAsciiLetter (asciiLower c) = true
  := by
  unfold asciiLower
  split
  · simp [isAsciiLetter]
    omega
  · exact hc

theorem isDomainPoint_asciiLower {c : Nat} (hc : isDomainPoint c = true) :
  isDomainPoint (asciiLower c) = true
  := by
  by_cases hcapital : 65 ≤ c ∧ c ≤ 90
  · have hletter : isAsciiLetter c = true := by simp [isAsciiLetter, hcapital]
    simp [isDomainPoint, isAsciiLetter_asciiLower hletter]
  · rwa [asciiLower, if_neg hcapital]

theorem isLocalPoint_asciiLower {c : Nat} (hc : isLocalPoint c = true) :
  isLocalPoint (asciiLower c) = true
  := by
  by_cases hcapital : 65 ≤ c ∧ c ≤ 90
  · have hletter : isAsciiLetter c = true := by simp [isAsciiLetter, hcapital]
    simp [isLocalPoint, isDomainPoint, isAsciiLetter_asciiLower hletter]
  · rwa [asciiLower, if_neg hcapital]

theorem isLocalPoint_lt {c : Nat} (hc : isLocalPoint c = true ∨ c = 64) :
  c < 128 ∧ isSpace c = false
  := by
  have hlt : c < 128 := by
    simp only [isLocalPoint, isDomainPoint, isAsciiLetter, Bool.or_eq_true, Bool.and_eq_true,
      decide_eq_true_eq] at hc
    omega
  refine ⟨hlt, ?_⟩
  revert hc
  interval_cases c <;> decide

theorem matchesEmail_asciiLower (hmatch : matchesEmail s = true) :
  matchesEmail (s.map asciiLower) = true
  := by
  obtain ⟨before, domain, hsplit, hbefore, hdomain⟩ := matchesEmail_cases hmatch
  obtain ⟨rfl, hnl, hnr⟩ := eq_of_splitOn hsplit
  have hnot : ∀ t : Str, 64 ∉ t → 64 ∉ t.map asciiLower := by
    intro t ht hmem
    obtain ⟨c, hc, heq⟩ := List.mem_map.mp hmem
    rw [asciiLower_eq_iff (.inl (by decide))] at heq
    exact ht (heq ▸ hc)
  have hlower : (before ++ 64 :: domain).map asciiLower = before.map asciiLower ++ 64 :: domain.map asciiLower := by
    rw [List.map_append, List.map_cons]
    rfl
  have htop : (domain.map asciiLower).rtakeWhile (fun c => decide (c ≠ 46)) =
      (domain.rtakeWhile fun c => decide (c ≠ 46)).map asciiLower := by
    have hsame : (fun c => decide (c ≠ 46)) ∘ asciiLower = fun c => decide (c ≠ 46) := by
      funext c
      have hiff : asciiLower c = 46 ↔ c = 46 := asciiLower_eq_iff (.inl (by decide))
      simp [hiff]
    rw [List.rtakeWhile, List.rtakeWhile, ← List.map_reverse, List.takeWhile_map, hsame, List.map_reverse]
  unfold matchesEmail at hmatch ⊢
  rw [hsplit] at hmatch
  rw [hlower, splitOn_pair (hnot _ hnl) (hnot _ hnr)]
  simp only [Bool.and_eq_true, decide_eq_true_eq, List.all_eq_true] at hmatch ⊢
  obtain ⟨⟨⟨⟨⟨hne, -⟩, hlength⟩, hletters⟩, hrestLength⟩, -⟩ := hmatch
  rw [htop, List.length_map, List.length_map, ← List.map_take, List.length_map]
  refine ⟨⟨⟨⟨⟨by simpa using hne, ?_⟩, hlength⟩, ?_⟩, hrestLength⟩, ?_⟩
  · intro c hc
    obtain ⟨d, hd, rfl⟩ := List.mem_map.mp hc
    exact isLocalPoint_asciiLower (hbefore d hd)
  · intro c hc
    obtain ⟨d, hd, rfl⟩ := List.mem_map.mp hc
    exact isAsciiLetter_asciiLower (hletters d hd)
  · intro c hc
    obtain ⟨d, hd, rfl⟩ := List.mem_map.mp hc
    exact isDomainPoint_asciiLower (hdomain d (List.mem_of_mem_take hd))

end

/-- A mail address without a fault has none in lower case. -/
theorem emailIssue_lower (h : UnicodeFacts) (hissue : emailIssue s = none) :
  IsWord (lower s) ∧ emailIssue (lower s) = none ∧ lower (lower s) = lower s
  := by
  have hmatch : matchesEmail s = true := by
    by_contra hnot
    unfold emailIssue at hissue
    rw [if_neg hnot] at hissue
    repeat' split at hissue
    all_goals cases hissue
  have hascii : ∀ c ∈ s, c < 128 := fun c hc => (isLocalPoint_lt (mem_email hmatch hc)).1
  have hlower : lower s = s.map asciiLower := h.lower_ascii s hascii
  have hmatch' : matchesEmail (lower s) = true := by
    rw [hlower]
    exact matchesEmail_asciiLower hmatch
  have hpoints : ∀ c ∈ lower s, isLocalPoint c = true ∨ c = 64 := fun c hc => mem_email hmatch' hc
  refine ⟨⟨?_, fun c hc => (isLocalPoint_lt (hpoints c hc)).2⟩, ?_, ?_⟩
  · intro hnil
    rw [hnil] at hmatch'
    cases hmatch'
  · have hfolded : 40 ∉ casefold (lower s) := by
      rw [h.casefold_ascii _ fun c hc => (isLocalPoint_lt (hpoints c hc)).1]
      intro hmem
      obtain ⟨c, hc, heq⟩ := List.mem_map.mp hmem
      rw [asciiLower_eq_iff (.inl (by decide))] at heq
      rcases hpoints c hc with hlocal | hsign
      · rw [heq] at hlocal
        exact absurd hlocal (by decide)
      · omega
    have hoccurs : ∀ rest, occurs (40 :: rest) (casefold (lower s)) = false := by
      intro rest
      rw [occurs, decide_eq_false_iff_not]
      exact fun hpart => hfolded (hpart.subset List.mem_cons_self)
    have hcount : (lower s).count 64 = 1 := by
      obtain ⟨before, domain, hsplit, -⟩ := matchesEmail_cases hmatch'
      obtain ⟨heq, hnl, hnr⟩ := eq_of_splitOn hsplit
      rw [heq, List.count_append, List.count_cons_self, List.count_eq_zero.mpr hnl,
        List.count_eq_zero.mpr hnr]
    have hcomma : 44 ∉ lower s := by
      intro hmem
      rcases hpoints 44 hmem with hlocal | hsign
      · exact absurd hlocal (by decide)
      · omega
    have hat : ¬ (occurs (text "(at)") (casefold (lower s)) = true ∨
        occurs (text "(ät)") (casefold (lower s)) = true) := by
      have htext : text "(at)" = 40 :: text "at)" := rfl
      have htext' : text "(ät)" = 40 :: text "ät)" := rfl
      rw [htext, htext', hoccurs, hoccurs]
      simp
    rw [emailIssue, if_neg hat, if_neg (by omega), if_neg hcomma, if_pos hmatch']
  · exact (h.lower_eq_self _).mpr (h.lower_lower s)

theorem normalizeEmail_twice (h : UnicodeFacts) (hsame : collapse s = s) :
  collapse (normalizeEmail s).value = (normalizeEmail s).value ∧
    (normalizeEmail (normalizeEmail s).value).value = (normalizeEmail s).value
  := by
  by_cases hne : s = []
  · subst hne
    exact ⟨rfl, rfl⟩
  · cases hissue : emailIssue s with
    | some issue =>
      have hvalue : (normalizeEmail s).value = s := by
        rw [normalizeEmail, if_neg hne]
        simp only [hissue]
        rfl
      rw [hvalue, hvalue]
      exact ⟨hsame, rfl⟩
    | none =>
      have hvalue : ∀ t : Str, t ≠ [] → emailIssue t = none → (normalizeEmail t).value = lower t := by
        intro t ht hnone
        rw [normalizeEmail, if_neg ht]
        simp only [hnone]
        split
        · next hlower => exact hlower.symm
        · rfl
      obtain ⟨hword, hnone, hlower⟩ := emailIssue_lower h hissue
      rw [hvalue s hne hissue, hvalue _ hword.1 hnone, hlower]
      refine ⟨?_, rfl⟩
      rw [collapse, words_of_isWord hword, spaced_singleton]

/-! ### Postal codes -/

/-- A postal code that is cleaned twice is left as it is. -/
theorem normalizePlz_twice (h : UnicodeFacts) (hsame : collapse s = s) :
  collapse (normalizePlz s).value = (normalizePlz s).value ∧
    (normalizePlz (normalizePlz s).value).value = (normalizePlz s).value
  := by
  by_cases hne : s = []
  · subst hne
    exact ⟨rfl, rfl⟩
  · cases hpref : prefixedPlz s with
    | none =>
      have hvalue : (normalizePlz s).value = s := by
        rw [normalizePlz, if_neg hne]
        simp only [hpref]
        split
        · rfl
        · split <;> rfl
      rw [hvalue, hvalue]
      exact ⟨hsame, rfl⟩
    | some digits =>
      have hvalue : (normalizePlz s).value = digits := by
        rw [normalizePlz, if_neg hne]
        simp only [hpref]
      have hfive : fiveDigits digits = true := by
        unfold prefixedPlz at hpref
        repeat' split at hpref
        all_goals cases hpref
        all_goals tauto
      have hdecimal : ∀ c ∈ digits, isDecimal c = true := by
        simp only [fiveDigits, Bool.and_eq_true, List.all_eq_true] at hfive
        exact hfive.2
      have hnotHyphen : isDecimal 45 = false := by
        by_contra hyes
        have hdigit := h.digit_of_decimal 45 (by simpa using hyes)
        rw [h.digit_ascii 45 (by decide)] at hdigit
        cases hdigit
      have hdigitsNe : digits ≠ [] := by
        rintro rfl
        cases hfive
      have hnone : prefixedPlz digits = none := by
        have hyphen : 45 ∉ digits := by
          intro hmem
          rw [hdecimal 45 hmem] at hnotHyphen
          cases hnotHyphen
        unfold prefixedPlz
        split
        · simp at hyphen
        · simp at hyphen
        · rfl
      have hsecond : (normalizePlz digits).value = digits := by
        rw [normalizePlz, if_neg hdigitsNe]
        simp only [hnone]
        rw [if_pos hfive]
      rw [hvalue, hsecond]
      refine ⟨?_, rfl⟩
      rw [collapse, words_of_isWord (isWord_of_digits h hdigitsNe fun c hc => h.digit_of_decimal c (hdecimal c hc)),
        spaced_singleton]

/-! ### Cells twice -/

def SettlesBy (kind : Kind) (s : Str) : Prop :=
  match kind with
  | .name => startsEquals (arrange s) = true ∨ Steady (arrange s)
  | .city => Steady s
  | .street => SteadyStreet (splitHouseNumber s).1
  | _ => True

def Settles (kind : Kind) (s : Str) : Prop :=
  Formula s ∨ SettlesBy kind (collapse s)

theorem collapse_normalizeKind (h : UnicodeFacts) (kind : Kind) (hsame : collapse s = s) :
  collapse (normalizeKind kind s).value = (normalizeKind kind s).value
  := by
  cases kind with
  | name => exact (normalizeName_twice_iff h hsame).1
  | phone => exact (normalizePhone_twice h hsame).1
  | email => exact (normalizeEmail_twice h hsame).1
  | street => exact (normalizeStreet_twice_iff h hsame).1
  | plz => exact (normalizePlz_twice h hsame).1
  | city => exact (titleCaseDe_twice_iff h hsame).1
  | other => exact hsame

/-- A cell that is cleaned twice is left as it is exactly if it settles. -/
theorem stable_iff (h : UnicodeFacts) (kind : Kind) (s : Str) :
  (normalizeCell kind (normalizeCell kind s).value).value = (normalizeCell kind s).value ↔ Settles kind s
  := by
  have hkept : ∀ t, Formula t → (normalizeCell kind t).value = t := by
    intro t ht
    unfold normalizeCell
    unfold Formula at ht
    rw [if_pos ht]
  by_cases hformula : Formula s
  · rw [hkept s hformula, hkept s hformula]
    exact iff_of_true rfl (.inl hformula)
  · have hsame := collapse_collapse s
    have hcollapse := collapse_normalizeKind h kind hsame
    have hstarts : startsEquals (collapse s) = false := by
      rw [Bool.eq_false_iff]
      exact fun hstarts => hformula (formula_iff.mpr hstarts)
    rw [normalizeCell_value hformula, Settles, or_iff_right hformula]
    have hsecond : startsEquals (normalizeKind kind (collapse s)).value = false →
        (normalizeCell kind (normalizeKind kind (collapse s)).value).value =
          (normalizeKind kind (normalizeKind kind (collapse s)).value).value := by
      intro hnot
      have hformula' : ¬ Formula (normalizeKind kind (collapse s)).value := by
        rw [formula_iff, hcollapse, hnot]
        exact Bool.false_ne_true
      rw [normalizeCell_value hformula', hcollapse]
    cases kind with
    | name =>
      have hname : startsEquals (normalizeName (collapse s)).1 = startsEquals (arrange (collapse s)) := by
        rw [normalizeName_eq, Bool.eq_iff_iff]
        exact h.equals.titleCaseDe_iff _
      cases hequals : startsEquals (arrange (collapse s)) with
      | true =>
        have hformula' : Formula (normalizeKind .name (collapse s)).value := by
          rw [formula_iff, hcollapse]
          exact hname.trans hequals
        rw [hkept _ hformula']
        exact iff_of_true rfl (.inl hequals)
      | false =>
        rw [hsecond (hname.trans hequals)]
        exact (normalizeName_twice_iff h hsame).2.trans
          ⟨.inr, fun hsteady => hsteady.resolve_left (by simp [hequals])⟩
    | phone =>
      rw [hsecond (normalizePhone_starts hstarts)]
      exact iff_of_true (normalizePhone_twice h hsame).2 trivial
    | email =>
      rw [hsecond (normalizeEmail_starts h.equals hstarts)]
      exact iff_of_true (normalizeEmail_twice h hsame).2 trivial
    | street =>
      rw [hsecond (normalizeStreet_starts h.equals hsame hstarts)]
      exact (normalizeStreet_twice_iff h hsame).2
    | plz =>
      rw [hsecond (normalizePlz_starts h.equals hstarts)]
      exact iff_of_true (normalizePlz_twice h hsame).2 trivial
    | city =>
      have hcity : startsEquals (titleCaseDe (collapse s)) = false := by
        rw [Bool.eq_false_iff]
        exact fun heq => absurd ((h.equals.titleCaseDe_iff _).mp heq) (by simp [hstarts])
      rw [hsecond hcity]
      exact (titleCaseDe_twice_iff h hsame).2
    | other =>
      rw [hsecond hstarts]
      exact iff_of_true rfl trivial

/-! ### Tables twice -/

/-- No data cell of a cleaned table is changed when it is cleaned again. -/
def Repeatable (headers : List Str) (result : CleanResult) : Prop :=
  ∀ rowNumbers maxRows result', cleanTable result.headers result.rows rowNumbers maxRows = .ok result' →
    ∀ (r i : Nat) (output output' : List Str), result.rows[r]? = some output →
      result'.rows[r]? = some output' → i < headers.length → output'[i]? = output[i]?

/-- All cells of a table settle. -/
def AllSettle (headers : List Str) (rows : List (List Str)) : Prop :=
  ∀ row ∈ rows, ∀ (i : Nat) (header : Str), headers[i]? = some header →
    Settles (fieldForHeader (collapse header)) (row.getD i [])

theorem any_header (headers : List Str) (rows : List (List Str)) (numbers : List Int) :
  (cleanRows headers rows numbers).headers.any (fun cell => strip cell ≠ []) = true
  := by
  rw [List.any_eq_true]
  refine ⟨idHeader (headers.map collapse), by simp [cleanRows], ?_⟩
  unfold idHeader
  split <;> decide

section Table

variable {headers : List Str} {rows : List (List Str)} {numbers numbers' : List Int}

theorem cell_twice (h : UnicodeFacts) (hlength : numbers.length = rows.length)
    (hlength' : numbers'.length = (cleanRows headers rows numbers).rows.length) {r i : Nat} {row : List Str}
    {header : Str} (hrow : rows[r]? = some row) (hheader : headers[i]? = some header) :
  ∃ output output', (cleanRows headers rows numbers).rows[r]? = some output ∧
    (cleanRows (cleanRows headers rows numbers).headers (cleanRows headers rows numbers).rows
      numbers').rows[r]? = some output' ∧
    (output'[i]? = output[i]? ↔ Settles (fieldForHeader (collapse header)) (row.getD i []))
  := by
  have hr : r < numbers.length := by
    rw [hlength]
    exact (List.getElem?_eq_some_iff.mp hrow).1
  obtain ⟨output, houtput, hcell⟩ := cell_get hlength hrow (List.getElem?_eq_getElem hr) hheader
  have hr' : r < numbers'.length := by
    rw [hlength']
    exact (List.getElem?_eq_some_iff.mp houtput).1
  obtain ⟨output', houtput', hcell'⟩ := cell_get hlength' houtput (List.getElem?_eq_getElem hr')
    (headers_get hheader)
  refine ⟨output, output', houtput, houtput', ?_⟩
  rw [hcell', hcell, Option.some.injEq, collapse_collapse, List.getD_eq_getElem?_getD (i := i) (l := output), hcell,
    Option.getD_some]
  exact stable_iff h _ _

theorem cleanRows_repeatable (h : UnicodeFacts) (hlength : numbers.length = rows.length) :
  Repeatable headers (cleanRows headers rows numbers) ↔ AllSettle headers rows
  := by
  constructor
  · intro hrepeat row hmem i header hheader
    obtain ⟨r, hrow⟩ := List.mem_iff_getElem?.mp hmem
    have hnumbers : (rowIds (cleanRows headers rows numbers).rows none).length =
        (cleanRows headers rows numbers).rows.length := by
      simp [rowIds]
    obtain ⟨output, output', houtput, houtput', hiff⟩ := cell_twice h hlength hnumbers hrow hheader
    have hclean : cleanTable (cleanRows headers rows numbers).headers (cleanRows headers rows numbers).rows none
        ((cleanRows headers rows numbers).rows.length + 1) = .ok (cleanRows (cleanRows headers rows numbers).headers
          (cleanRows headers rows numbers).rows (rowIds (cleanRows headers rows numbers).rows none)) := by
      simp only [cleanTable, Except.bind_unit_eq_ok, Except.check_eq_ok]
      exact ⟨by omega, any_header headers rows numbers, by omega, hnumbers, rfl⟩
    exact hiff.mp (hrepeat _ _ _ hclean r i output output' houtput houtput'
      (List.getElem?_eq_some_iff.mp hheader).1)
  · intro hall rowNumbers maxRows result' hclean r i output output' houtput houtput' hi
    simp only [cleanTable, Except.bind_unit_eq_ok, Except.check_eq_ok] at hclean
    obtain ⟨-, -, -, hlength', heq⟩ := hclean
    cases heq
    have hr : r < rows.length := by
      have hrows := (List.getElem?_eq_some_iff.mp houtput).1
      rwa [length_cleanRows hlength] at hrows
    have hrow := List.getElem?_eq_getElem hr
    have hheader := List.getElem?_eq_getElem hi
    obtain ⟨first, second, hfirst, hsecond, hiff⟩ := cell_twice h hlength hlength' hrow hheader
    rw [houtput] at hfirst
    cases hfirst
    have hsecond : second = output' := Option.some.inj (hsecond.symm.trans houtput')
    rw [← hsecond]
    exact hiff.mpr (hall _ (List.mem_of_getElem? hrow) i _ hheader)

end Table

theorem repeatable_iff (h : UnicodeFacts) :
  (∀ kind s, (normalizeCell kind (normalizeCell kind s).value).value = (normalizeCell kind s).value ↔
      Settles kind s) ∧
    ∀ headers rows rowNumbers maxRows result, cleanTable headers rows rowNumbers maxRows = .ok result →
      (Repeatable headers result ↔ AllSettle headers rows)
  := by
  refine ⟨stable_iff h, fun headers rows rowNumbers maxRows result hclean => ?_⟩
  simp only [cleanTable, Except.bind_unit_eq_ok, Except.check_eq_ok] at hclean
  obtain ⟨-, -, -, hlength, heq⟩ := hclean
  cases heq
  exact cleanRows_repeatable h hlength

end Twice

/-! ### A street that is cleaned three times -/

section Example

local instance stableTables : CharTables := CharTables.ascii

theorem isDigit_ascii {c : Nat} (h : CharTables.isDigit c = true) :
  48 ≤ c ∧ c ≤ 57
  := by
  change Text.isDigit c = true at h
  simpa [Text.isDigit] using h

theorem unicodeFacts_ascii :
  UnicodeFacts
  where
  equals := equalsKept_ascii
  lower_eq_self s := map_eq_self.trans <| forall₂_congr fun c _ => List.singleton_inj.symm
  lower_lower s c hc := by
    obtain ⟨d, -, rfl⟩ := List.mem_map.mp hc
    change [asciiLower (asciiLower d)] = [asciiLower d]
    congr 1
    unfold asciiLower
    split_ifs <;> omega
  lower_append s t ht := by
    have hfixed : t.map asciiLower = t := map_eq_self.mpr fun c hc => List.singleton_inj.mp (ht c hc)
    exact ⟨s.map asciiLower, List.map_append.trans (congrArg (s.map asciiLower ++ ·) hfixed)⟩
  lower_comma s t := List.map_append
  lower_space s t := List.map_append
  length_le_lower s := (List.length_map _).ge
  upper_head c d t h := by
    obtain ⟨rfl, -⟩ := List.cons.inj h
    change [_] = [_]
    congr 1
    dsimp only
    split_ifs <;> omega
  upper_comma := rfl
  mem_upper s c hc hspecial := by
    obtain ⟨d, hd, heq⟩ := List.mem_map.mp hc
    have hlow : c ≤ 57 := by
      rcases hspecial with rfl | hdigit
      · decide
      · exact (isDigit_ascii hdigit).2
    split at heq
    · omega
    · rwa [← heq]
  mem_lower s c hc hspecial := by
    obtain ⟨d, hd, heq⟩ := List.mem_map.mp hc
    have hlow : c ≤ 57 := by
      rcases hspecial with rfl | hdigit
      · decide
      · exact (isDigit_ascii hdigit).2
    split at heq
    · omega
    · rwa [← heq]
  upper_ascii c _ := rfl
  lower_ascii s _ := rfl
  casefold_ascii s _ := rfl
  lower_sharp := rfl
  digit_ascii c _ := rfl
  digit_separator c hc := by
    by_contra hdigit
    obtain ⟨hlow, hhigh⟩ := isDigit_ascii (by simpa using hdigit)
    revert hc
    interval_cases c <;> decide
  digit_sharp := rfl
  digit_of_decimal c hc := hc

theorem not_splits_ascii (c : Nat) :
  ¬ Splits c
  := by
  rintro ⟨d, hd, -⟩
  cases hd

/-- A city is left as it is when it is cleaned twice. -/
theorem repeatable_city :
  (normalizeCell .city (normalizeCell .city (text "berlin")).value).value =
      (normalizeCell .city (text "berlin")).value ∧
    Repeatable [text "Ort"] (cleanRows [text "Ort"] [[text "berlin"]] [2])
  := by
  have hsettles : Settles .city (text "berlin") := by
    right
    rintro token - - part - ⟨c, rest, -, hsplits⟩
    exact not_splits_ascii c hsplits
  have hclean : cleanTable [text "Ort"] [[text "berlin"]] none 2000 =
      .ok (cleanRows [text "Ort"] [[text "berlin"]] [2]) := by
    decide +kernel
  refine ⟨((repeatable_iff unicodeFacts_ascii).1 .city (text "berlin")).mpr hsettles,
    ((repeatable_iff unicodeFacts_ascii).2 _ _ _ _ _ hclean).mpr fun row hrow i header hheader => ?_⟩
  obtain rfl := List.mem_singleton.mp hrow
  cases i with
  | zero =>
    cases hheader
    have hkind : fieldForHeader (collapse (text "Ort")) = .city := by decide +kernel
    rw [hkind]
    exact hsettles
  | succ i => cases hheader

/-- The word for a street that is written out gets a capital when the street is cleaned again, and the street is
changed in the list. -/
theorem not_repeatable_street :
  (normalizeCell .street (text "Berliner Str. 5")).value = text "Berliner straße 5" ∧
    (normalizeCell .street (text "Berliner straße 5")).value = text "Berliner Straße 5" ∧
    ∃ result, cleanTable [text "Strasse"] [[text "Berliner Str. 5"]] none 2000 = .ok result ∧
      ¬ Repeatable [text "Strasse"] result
  := by
  have hfirst : (normalizeCell .street (text "Berliner Str. 5")).value = text "Berliner straße 5" := by
    decide +kernel
  have hsecond : (normalizeCell .street (text "Berliner straße 5")).value = text "Berliner Straße 5" := by
    decide +kernel
  have hclean : cleanTable [text "Strasse"] [[text "Berliner Str. 5"]] none 2000 =
      .ok (cleanRows [text "Strasse"] [[text "Berliner Str. 5"]] [2]) := by
    decide +kernel
  refine ⟨hfirst, hsecond, _, hclean, fun hrepeat => ?_⟩
  have hagain : cleanTable (cleanRows [text "Strasse"] [[text "Berliner Str. 5"]] [2]).headers
      (cleanRows [text "Strasse"] [[text "Berliner Str. 5"]] [2]).rows none 2000 =
      .ok (cleanRows [text "Strasse", text "Hinweis", text "original_row_id"]
        [[text "Berliner straße 5", [], text "2"]] [2]) := by
    decide +kernel
  have hcell := hrepeat _ _ _ hagain 0 0 [text "Berliner straße 5", [], text "2"] _ (by decide +kernel) rfl
    (by decide)
  exact absurd hcell (by decide +kernel)

end Example

end Courier.ListClean
