import Courier.ListClean.Formulas

/-!
# Title case of title case

A text in title case is left as it is by title case, unless a part of one of its words starts with a letter whose
capital has further letters that lower case changes (`Splits`).  This is still so if a text without such letters is
appended, as long as it does not become a word or a part of a word by itself (`titleCaseDe_append_iff`). -/

namespace Courier.ListClean

open Text hiding upper lower isDigit
open CharTables

variable [CharTables]

omit [CharTables] in
def asciiLower (c : Nat) : Nat :=
  if 65 ≤ c ∧ c ≤ 90 then c + 32 else c

/-- What is true of the case mappings and the digits of Unicode. -/
structure UnicodeFacts : Prop where
  equals : EqualsKept
  lower_eq_self : ∀ s, lower s = s ↔ ∀ c ∈ s, lower [c] = [c]
  lower_lower : ∀ s, ∀ c ∈ lower s, lower [c] = [c]
  lower_append : ∀ s t, (∀ c ∈ t, lower [c] = [c]) → ∃ s', lower (s ++ t) = s' ++ t
  lower_comma : ∀ s t, lower (s ++ 44 :: t) = lower s ++ 44 :: lower t
  lower_space : ∀ s t, lower (s ++ 32 :: t) = lower s ++ 32 :: lower t
  length_le_lower : ∀ s, s.length ≤ (lower s).length
  upper_head : ∀ c d t, upper [c] = d :: t → upper [d] = [d]
  upper_comma : upper [44] = [44]
  mem_upper : ∀ s c, c ∈ upper s → c = 44 ∨ isDigit c = true → c ∈ s
  mem_lower : ∀ s c, c ∈ lower s → c = 44 ∨ isDigit c = true → c ∈ s
  upper_ascii : ∀ c, c < 128 → upper [c] = [if 97 ≤ c ∧ c ≤ 122 then c - 32 else c]
  lower_ascii : ∀ s, (∀ c ∈ s, c < 128) → lower s = s.map asciiLower
  casefold_ascii : ∀ s, (∀ c ∈ s, c < 128) → casefold s = s.map asciiLower
  lower_sharp : lower [0xDF] = [0xDF]
  digit_ascii : ∀ c, c < 128 → isDigit c = Text.isDigit c
  digit_separator : ∀ c, isPhoneSeparator c = true → isDigit c = false
  digit_sharp : isDigit 0xDF = false
  digit_of_decimal : ∀ c, isDecimal c = true → isDigit c = true

/-! ### Parts of words -/

def Splits (c : Nat) : Prop :=
  ∃ d ∈ (upper [c]).tail, lower [d] ≠ [d]

def SplitStart (part : Str) : Prop :=
  ∃ c rest, part = c :: rest ∧ Splits c

theorem titled_append_iff (h : UnicodeFacts) {part ending : Str} (hpart : part ≠ [])
    (hending : ∀ c ∈ ending, lower [c] = [c]) :
  titled (titled part ++ ending) = titled part ++ ending ↔ ¬ SplitStart part
  := by
  obtain ⟨c, rest, rfl⟩ := List.exists_cons_of_ne_nil hpart
  obtain ⟨u, us, hupper⟩ := List.exists_cons_of_ne_nil (upper_ne_nil [c] (by simp))
  have htitled : titled (c :: rest) ++ ending = u :: (us ++ lower rest ++ ending) := by
    simp [titled, hupper]
  have htwice : titled (u :: (us ++ lower rest ++ ending)) = u :: lower (us ++ lower rest ++ ending) := by
    rw [titled, h.upper_head c u us hupper]
    rfl
  rw [htitled, htwice, List.cons_inj_right, h.lower_eq_self]
  constructor
  · rintro hfixed ⟨c', rest', heq, d, hd, hlower⟩
    obtain ⟨rfl, rfl⟩ := List.cons.inj heq
    rw [hupper] at hd
    exact hlower (hfixed d (by simp [show d ∈ us from hd]))
  · intro hnot d hd
    simp only [List.mem_append] at hd
    rcases hd with (hd | hd) | hd
    · by_contra hlower
      exact hnot ⟨c, rest, rfl, d, by rw [hupper]; exact hd, hlower⟩
    · exact h.lower_lower rest d hd
    · exact hending d hd

/-! ### Words -/

def SteadyToken (token : Str) : Prop :=
  token.any isDigit = false → ∀ part ∈ token.splitOn 45, ¬ SplitStart part

def Open (token : Str) : Prop :=
  token.any isDigit = false ∧ (token.splitOn 45).getLast? = some []

theorem hyphen_notMem_titled {part : Str} (h : 45 ∉ part) :
  45 ∉ titled part
  := fun hmem => h (mem_titled hmem (.inr rfl))

theorem space_notMem_titledToken {token : Str} (h : 32 ∉ token) :
  32 ∉ titledToken token
  := by
  intro hmem
  by_cases hnil : token = []
  · subst hnil
    cases hmem
  · rw [titledToken_eq] at hmem
    split at hmem
    · exact h hmem
    · rcases of_mem_intercalate hmem with hmem | ⟨part, hpart, hmem⟩
      · cases List.mem_singleton.mp hmem
      · obtain ⟨old, hold, rfl⟩ := List.mem_map.mp hpart
        exact h (mem_of_mem_splitOn hold (mem_titled hmem (.inl rfl)))

theorem any_digit_titled (h : UnicodeFacts) {part : Str} {c : Nat} (hc : c ∈ titled part)
    (hdigit : isDigit c = true) :
  c ∈ part
  := by
  cases part with
  | nil => exact hc
  | cons d rest =>
    rcases List.mem_append.mp hc with hc | hc
    · have hmem := h.mem_upper [d] c hc (.inr hdigit)
      rw [List.mem_singleton.mp hmem]
      exact List.mem_cons_self
    · exact List.mem_cons_of_mem d (h.mem_lower rest c hc (.inr hdigit))

theorem any_isDigit_titledToken (h : UnicodeFacts) (token : Str) :
  (titledToken token).any isDigit = token.any isDigit
  := by
  rw [titledToken_eq]
  split
  · rfl
  · next hdigit =>
    rw [Bool.not_eq_true] at hdigit
    rw [hdigit, List.any_eq_false]
    intro c hc hcdigit
    rcases of_mem_intercalate hc with hc | ⟨part, hpart, hc⟩
    · rw [List.mem_singleton.mp hc, h.digit_ascii 45 (by decide)] at hcdigit
      cases hcdigit
    · obtain ⟨old, hold, rfl⟩ := List.mem_map.mp hpart
      have hmem := mem_of_mem_splitOn hold (any_digit_titled h hc hcdigit)
      exact List.any_eq_false.mp hdigit c hmem hcdigit

theorem titledToken_append_iff (h : UnicodeFacts) {token ending : Str}
    (hending : ∀ c ∈ ending, isDigit c = false) (hhyphen : 45 ∉ ending)
    (hfixed : (token.splitOn 45).getLast? = some [] ∨ ∀ c ∈ ending, lower [c] = [c]) :
  titledToken (titledToken token ++ ending) = titledToken token ++ ending ↔
    SteadyToken token ∧ (Open token → titled ending = ending)
  := by
  by_cases hdigit : token.any isDigit = true
  · have htitled : titledToken token = token := by
      rw [titledToken, if_pos hdigit]
    have hmore : (token ++ ending).any isDigit = true := by
      rw [List.any_append, hdigit, Bool.true_or]
    rw [htitled, titledToken, if_pos hmore]
    refine iff_of_true rfl ⟨fun hnone => ?_, fun hopen => ?_⟩
    · rw [hdigit] at hnone
      cases hnone
    · rw [Open, hdigit] at hopen
      cases hopen.1
  · rw [Bool.not_eq_true] at hdigit
    have hnone : (titledToken token ++ ending).any isDigit = false := by
      rw [List.any_append, any_isDigit_titledToken h, hdigit, Bool.false_or, List.any_eq_false]
      intro c hc
      simp [hending c hc]
    obtain ⟨init, last, hsplit, hmore⟩ := splitOn_append_of_notMem hhyphen (titledToken token)
    have hparts : (titledToken token).splitOn 45 = (token.splitOn 45).map titled := by
      rw [titledToken_eq, hdigit, if_neg (by simp)]
      exact splitOn_mapParts (fun _ => hyphen_notMem_titled) token
    obtain ⟨init', last', htoken⟩ : ∃ init' last', token.splitOn 45 = init' ++ [last'] :=
      ⟨_, _, (List.dropLast_append_getLast (List.splitOn_ne_nil 45 token)).symm⟩
    rw [hparts, htoken, List.map_append, List.map_singleton] at hsplit
    obtain ⟨rfl, hlast⟩ := List.append_inj' hsplit rfl
    obtain rfl := List.singleton_inj.mp hlast
    have hopen : Open token ↔ last' = [] := by
      simp [Open, hdigit, htoken]
    have hfixed : last' ≠ [] → ∀ c ∈ ending, lower [c] = [c] := by
      intro hne
      refine hfixed.resolve_left fun hempty => hne ?_
      simpa [htoken] using hempty
    rw [titledToken_eq_iff hnone, hmore, hopen]
    have hone : ∀ part, titled (titled part) = titled part ↔ ¬ SplitStart part := by
      intro part
      by_cases hpart : part = []
      · subst hpart
        refine iff_of_true rfl ?_
        rintro ⟨c, rest, heq, -⟩
        cases heq
      · have hiff := @titled_append_iff _ h part [] hpart (by simp)
        simpa using hiff
    simp only [SteadyToken, hdigit, true_implies, htoken, List.mem_append, List.mem_map, List.mem_singleton]
    constructor
    · intro hall
      refine ⟨fun part hpart => ?_, fun hnil => ?_⟩
      · rcases hpart with hpart | rfl
        · exact (hone part).mp (hall _ (.inl ⟨part, hpart, rfl⟩))
        · by_cases hnil : part = []
          · rintro ⟨c, rest, heq, -⟩
            rw [hnil] at heq
            cases heq
          · exact (titled_append_iff h hnil (hfixed hnil)).mp (hall _ (.inr rfl))
      · have hlast := hall _ (.inr rfl)
        rw [hnil] at hlast
        exact hlast
    · rintro ⟨hsteady, hnil⟩ part (⟨old, hold, rfl⟩ | rfl)
      · exact (hone old).mpr (hsteady old (.inl hold))
      · by_cases hempty : last' = []
        · rw [hempty]
          exact hnil hempty
        · exact (titled_append_iff h hempty (hfixed hempty)).mpr (hsteady last' (.inr rfl))

/-! ### Texts -/

def Steady (s : Str) : Prop :=
  ∀ token ∈ s.splitOn 32, SteadyToken token

def lastToken (s : Str) : Str :=
  (s.splitOn 32).getLastD []

theorem titleCaseDe_append_iff (h : UnicodeFacts) {stem ending last : Str} {init : List Str}
    (hsplit : stem.splitOn 32 = init ++ [last]) (hinit : ∀ w ∈ init, IsWord w)
    (hlast : ∀ c ∈ last ++ ending, isSpace c = false) (hne : last ++ ending ≠ [])
    (hending : ∀ c ∈ ending, isDigit c = false) (hhyphen : 45 ∉ ending)
    (hfixed : (last.splitOn 45).getLast? = some [] ∨ ∀ c ∈ ending, lower [c] = [c]) :
  collapse (titleCaseDe stem ++ ending) = titleCaseDe stem ++ ending ∧
    (titleCaseDe (titleCaseDe stem ++ ending) = titleCaseDe stem ++ ending ↔
      Steady stem ∧ (Open (lastToken stem) → titled ending = ending))
  := by
  have hspace : 32 ∉ ending := by
    intro hmem
    cases hlast 32 (List.mem_append_right last hmem)
  have htokens : (titleCaseDe stem).splitOn 32 = init.map titledToken ++ [titledToken last] := by
    rw [titleCaseDe_eq_mapParts, splitOn_mapParts (fun _ => space_notMem_titledToken), hsplit]
    simp
  obtain ⟨init', last', hsplit', hmore⟩ := splitOn_append_of_notMem hspace (titleCaseDe stem)
  rw [htokens] at hsplit'
  obtain ⟨rfl, hlast'⟩ := List.append_inj' hsplit' rfl
  obtain rfl := List.singleton_inj.mp hlast'
  have hword : IsWord (titledToken last ++ ending) := by
    by_cases hnil : last = []
    · subst hnil
      exact ⟨hne, hlast⟩
    · have hword := isWord_titledToken ⟨hnil, fun c hc => hlast c (List.mem_append_left ending hc)⟩
      refine ⟨by simp [hword.1], fun c hc => ?_⟩
      rcases List.mem_append.mp hc with hc | hc
      · exact hword.2 c hc
      · exact hlast c (List.mem_append_right last hc)
  have hwords : ∀ w ∈ init.map titledToken ++ [titledToken last ++ ending], IsWord w := by
    intro w hw
    rcases List.mem_append.mp hw with hw | hw
    · obtain ⟨old, hold, rfl⟩ := List.mem_map.mp hw
      exact isWord_titledToken (hinit old hold)
    · rwa [List.mem_singleton.mp hw]
  have hspaced : titleCaseDe stem ++ ending =
      spaced (init.map titledToken ++ [titledToken last ++ ending]) := by
    rw [← hmore, spaced, List.intercalate_splitOn]
  have hcollapse : collapse (titleCaseDe stem ++ ending) = titleCaseDe stem ++ ending := by
    rw [hspaced]
    exact collapse_spaced hwords
  have hone : ∀ token, titledToken (titledToken token) = titledToken token ↔ SteadyToken token := by
    intro token
    have hiff := @titledToken_append_iff _ h token [] (by simp) (by simp) (by simp)
    rw [List.append_nil] at hiff
    exact hiff.trans (and_iff_left fun _ => rfl)
  have hlastToken : lastToken stem = last := by
    simp [lastToken, hsplit]
  refine ⟨hcollapse, ?_⟩
  rw [titleCaseDe_eq_self_iff hcollapse, hlastToken]
  conv_lhs => rw [hspaced, words_spaced hwords]
  rw [Steady, hsplit]
  simp only [List.mem_append, List.mem_map, List.mem_singleton]
  constructor
  · intro hall
    obtain ⟨hsteady, hopen⟩ := (titledToken_append_iff h hending hhyphen hfixed).mp (hall _ (.inr rfl))
    refine ⟨?_, hopen⟩
    rintro token (htoken | rfl)
    · exact (hone token).mp (hall _ (.inl ⟨token, htoken, rfl⟩))
    · exact hsteady
  · rintro ⟨hsteady, hopen⟩ token (⟨old, hold, rfl⟩ | rfl)
    · exact (hone old).mpr (hsteady old (.inl hold))
    · exact (titledToken_append_iff h hending hhyphen hfixed).mpr ⟨hsteady last (.inr rfl), hopen⟩

theorem titleCaseDe_twice_iff (h : UnicodeFacts) {s : Str} (hsame : collapse s = s) :
  collapse (titleCaseDe s) = titleCaseDe s ∧
    (titleCaseDe (titleCaseDe s) = titleCaseDe s ↔ Steady s)
  := by
  by_cases hne : s = []
  · subst hne
    refine ⟨rfl, iff_of_true rfl fun token htoken _ part hpart => ?_⟩
    obtain rfl := List.mem_singleton.mp htoken
    obtain rfl := List.mem_singleton.mp hpart
    rintro ⟨c, rest, heq, -⟩
    cases heq
  · have htokens := splitOn_collapse hsame hne
    obtain ⟨init, last, hsplit⟩ : ∃ init last, s.splitOn 32 = init ++ [last] :=
      ⟨_, _, (List.dropLast_append_getLast (List.splitOn_ne_nil 32 s)).symm⟩
    have hall : ∀ w ∈ init ++ [last], IsWord w := by
      rw [← hsplit, htokens]
      exact fun w => isWord_of_mem_words
    have hlast := hall last (by simp)
    obtain ⟨hcollapse, hiff⟩ := @titleCaseDe_append_iff _ h s [] last init hsplit
      (fun w hw => hall w (List.mem_append_left _ hw)) (by simpa using hlast.2) (by simpa using hlast.1)
      (by simp) (by simp) (by simp)
    rw [List.append_nil] at hcollapse hiff
    exact ⟨hcollapse, hiff.trans (and_iff_left fun _ => rfl)⟩

end Courier.ListClean
