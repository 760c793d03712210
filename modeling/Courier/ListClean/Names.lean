import Courier.ListClean.TitleCase

/-!
# Names that are cleaned twice

A name with its surname first is turned around before it is set in title case (`arrange`).  A name in title case
is not turned around again, so that it is left as it is if its words are steady (`normalizeName_twice_iff`). -/

namespace Courier.ListClean

open Text hiding upper lower isDigit
open CharTables

variable [CharTables]

/-- The name as it is before title case. -/
def arrange (s : Str) : Str :=
  match s.splitOn 44 with
  | [left, right] =>
      if strip left ≠ [] ∧ strip right ≠ [] ∧ s.any isDigit = false then strip right ++ 32 :: strip left else s
  | _ => s

theorem normalizeName_eq (s : Str) :
  (normalizeName s).1 = titleCaseDe (arrange s)
  := by
  unfold normalizeName arrange
  rcases s.splitOn 44 with _ | ⟨left, _ | ⟨right, _ | ⟨other, rest⟩⟩⟩
  · rfl
  · rfl
  · dsimp only
    split <;> rfl
  · rfl

theorem arrange_cases (s : Str) :
  (∃ left right, s.splitOn 44 = [left, right] ∧ strip left ≠ [] ∧ strip right ≠ [] ∧ s.any isDigit = false ∧
      arrange s = strip right ++ 32 :: strip left) ∨
    ¬ Reordered s ∧ arrange s = s
  := by
  unfold arrange Reordered
  split
  · next left right hsplit =>
    split
    · next hboth => exact .inl ⟨left, right, hsplit, hboth.1, hboth.2.1, hboth.2.2, rfl⟩
    · next hnot =>
      refine .inr ⟨?_, rfl⟩
      rintro ⟨left', right', hsplit', hboth⟩
      rw [hsplit] at hsplit'
      cases hsplit'
      exact hnot hboth
  · next hnot =>
    refine .inr ⟨?_, rfl⟩
    rintro ⟨left, right, hsplit, -⟩
    exact hnot left right hsplit

/-! ### Commas and digits -/

theorem count_comma_lower (h : UnicodeFacts) :
  ∀ (n : Nat) (s : Str), s.length ≤ n → (lower s).count 44 = s.count 44
  | n, s, hlength => by
    by_cases hmem : 44 ∈ s
    · obtain ⟨a, b, rfl⟩ := List.append_of_mem hmem
      match n with
      | 0 => simp at hlength
      | n + 1 =>
        simp only [List.length_append, List.length_cons] at hlength
        rw [h.lower_comma, List.count_append, List.count_append, List.count_cons, List.count_cons,
          count_comma_lower h n a (by omega), count_comma_lower h n b (by omega)]
    · have hlower : 44 ∉ lower s := fun hin => hmem (h.mem_lower s 44 hin (.inl rfl))
      rw [List.count_eq_zero.mpr hmem, List.count_eq_zero.mpr hlower]

theorem count_comma_titled (h : UnicodeFacts) (part : Str) :
  (titled part).count 44 = part.count 44
  := by
  cases part with
  | nil => rfl
  | cons c rest =>
    have hupper : (upper [c]).count 44 = [c].count 44 := by
      by_cases hc : c = 44
      · rw [hc, h.upper_comma]
      · have hnot : 44 ∉ upper [c] := by
          intro hmem
          exact hc (List.mem_singleton.mp (h.mem_upper [c] 44 hmem (.inl rfl))).symm
        rw [List.count_eq_zero.mpr hnot, List.count_eq_zero.mpr (by simpa using Ne.symm hc)]
    rw [titled, List.count_append, hupper, count_comma_lower h _ rest (Nat.le_refl _), ← List.count_append]
    rfl

theorem count_comma_titleCaseDe (h : UnicodeFacts) (s : Str) :
  (titleCaseDe s).count 44 = s.count 44
  := by
  rw [titleCaseDe_eq_mapParts]
  refine count_mapParts (by decide) (fun token => ?_) s
  rw [titledToken_eq]
  split
  · rfl
  · exact count_mapParts (by decide) (count_comma_titled h) token

theorem any_isDigit_titleCaseDe (h : UnicodeFacts) (s : Str) :
  (titleCaseDe s).any isDigit = s.any isDigit
  := by
  rw [titleCaseDe_eq_mapParts]
  refine any_mapParts ?_ (any_isDigit_titledToken h) s
  rw [h.digit_ascii 32 (by decide)]
  rfl

theorem titleCaseDe_comma (h : UnicodeFacts) (s : Str) :
  ∃ start, titleCaseDe (s ++ [44]) = start ++ [44]
  := by
  have hnil : lower [] = [] := (h.lower_eq_self []).mpr (by simp)
  have htitled : ∀ part, ∃ start, titled (part ++ [44]) = start ++ [44] := by
    rintro (_ | ⟨c, rest⟩)
    · refine ⟨[], ?_⟩
      rw [List.nil_append, titled, h.upper_comma, hnil]
      rfl
    · refine ⟨upper [c] ++ lower rest, ?_⟩
      rw [List.cons_append, titled, h.lower_comma, hnil, List.append_assoc]
  have htoken : ∀ token, ∃ start, titledToken (token ++ [44]) = start ++ [44] := by
    intro token
    rw [titledToken_eq]
    split
    · exact ⟨token, rfl⟩
    · obtain ⟨start, part, heq⟩ := @mapParts_concat 45 titled 44 (by decide) token
      obtain ⟨start', heq'⟩ := htitled part
      exact ⟨start ++ start', by rw [heq, heq', List.append_assoc]⟩
  obtain ⟨start, token, heq⟩ := @mapParts_concat 32 titledToken 44 (by decide) s
  obtain ⟨start', heq'⟩ := htoken token
  exact ⟨start ++ start', by rw [titleCaseDe_eq_mapParts, heq, heq', List.append_assoc]⟩

theorem comma_of_titleCaseDe (h : UnicodeFacts) (t : Str) :
  ∃ t', titleCaseDe (44 :: t) = 44 :: t'
  := by
  obtain ⟨c, t', heq⟩ := List.exists_cons_of_ne_nil (titleCaseDe_ne_nil (List.cons_ne_nil 44 t))
  have hfrom : HeadFrom (· ≠ 44) titleCaseDe := by
    refine headFrom_titleCaseDe fun c d t hupper hd => ?_
    rintro rfl
    rw [h.upper_comma] at hupper
    exact hd (List.cons.inj hupper).1.symm
  by_cases hc : c = 44
  · exact ⟨t', by rw [heq, hc]⟩
  · obtain ⟨d, u, hdu, hd⟩ := hfrom _ _ _ heq hc
    exact absurd (List.cons.inj hdu).1.symm hd

/-! ### Names with a comma -/

section

omit [CharTables]

theorem collapsed_ends {s : Str} (hsame : collapse s = s) (hne : s ≠ []) :
  (∃ c t, s = c :: t ∧ isSpace c = false) ∧ ∃ t c, s = t ++ [c] ∧ isSpace c = false
  := by
  have hwords : words s ≠ [] := by
    intro hnil
    rw [collapse, hnil] at hsame
    exact hne hsame.symm
  obtain ⟨c, t, hhead, hc⟩ := head_spaced (fun w => isWord_of_mem_words) hwords
  obtain ⟨t', c', hlast, hc'⟩ := last_spaced (fun w => isWord_of_mem_words) hwords
  rw [← collapse, hsame] at hhead hlast
  exact ⟨⟨c, t, hhead, hc⟩, t', c', hlast, hc'⟩

theorem strip_of_spaces {s : Str} (h : strip s = []) :
  ∀ c ∈ s, isSpace c = true
  := by
  rw [← List.dropWhile_eq_nil_iff]
  cases hdrop : s.dropWhile isSpace with
  | nil => rfl
  | cons c t =>
    have hhead := List.head_dropWhile_not isSpace (l := s) (by simp [hdrop])
    rw [strip, hdrop, List.rdropWhile_eq_nil_iff] at h
    simp only [hdrop, List.head_cons] at hhead
    rw [h c (by simp)] at hhead
    cases hhead

end

/-- A name in title case is not turned around. -/
theorem not_reordered_titleCaseDe (h : UnicodeFacts) {s : Str} (hsame : collapse s = s)
    (hnot : ¬ Reordered s) :
  ¬ Reordered (titleCaseDe s)
  := by
  rintro ⟨left', right', hsplit', hleft', hright', hdigit'⟩
  obtain ⟨heq', hnl, hnr⟩ := eq_of_splitOn hsplit'
  have hcount : s.count 44 = 1 := by
    rw [← count_comma_titleCaseDe h, heq', List.count_append, List.count_cons_self,
      List.count_eq_zero.mpr hnl, List.count_eq_zero.mpr hnr]
  obtain ⟨left, right, rfl, hsplit⟩ := splitOn_of_count hcount
  rw [any_isDigit_titleCaseDe h] at hdigit'
  obtain ⟨⟨c, t, hhead, hc⟩, t', c', hlast, hc'⟩ := collapsed_ends hsame (by simp)
  by_cases hleft : strip left = []
  · have hnil : left = [] := by
      cases left with
      | nil => rfl
      | cons d left =>
        obtain ⟨rfl, -⟩ := List.cons.inj hhead
        rw [strip_of_spaces hleft d (by simp)] at hc
        cases hc
    subst hnil
    obtain ⟨u, hu⟩ := comma_of_titleCaseDe h right
    rw [List.nil_append, hu] at heq'
    cases left' with
    | nil => exact hleft' rfl
    | cons d left' =>
      obtain ⟨rfl, -⟩ := List.cons.inj heq'
      simp at hnl
  · by_cases hright : strip right = []
    · have hnil : right = [] := by
        cases right using List.reverseRecOn with
        | nil => rfl
        | append_singleton right d _ =>
          rw [← List.cons_append, ← List.append_assoc] at hlast
          obtain rfl := List.singleton_inj.mp (List.append_inj_right' hlast rfl)
          rw [strip_of_spaces hright d (by simp)] at hc'
          cases hc'
      subst hnil
      obtain ⟨start, hstart⟩ := titleCaseDe_comma h left
      rw [hstart] at heq'
      cases right' using List.reverseRecOn with
      | nil => exact hright' rfl
      | append_singleton right' d _ =>
        rw [← List.cons_append, ← List.append_assoc] at heq'
        obtain rfl := List.singleton_inj.mp (List.append_inj_right' heq' rfl)
        simp at hnr
    · exact hnot ⟨left, right, hsplit, hleft, hright, hdigit'⟩

section

omit [CharTables]

theorem strip_collapsed {s : Str} (hsame : collapse s = s) :
  strip s = s
  := by
  rw [← hsame]
  exact strip_spaced fun w => isWord_of_mem_words

theorem collapse_strip_parts {left right : Str} {c : Nat} (hsame : collapse (left ++ c :: right) = left ++ c :: right)
    (hleft : strip left ≠ []) (hright : strip right ≠ []) :
  collapse (strip left) = strip left ∧ collapse (strip right) = strip right
  := by
  constructor
  · obtain ⟨⟨d, t, hhead, hd⟩, -⟩ := collapsed_ends hsame (by simp)
    have hdrop : left.dropWhile isSpace = left := by
      cases left with
      | nil => rfl
      | cons e left =>
        obtain ⟨rfl, -⟩ := List.cons.inj hhead
        rw [List.dropWhile_cons_of_neg (by simp [hd])]
    rw [strip, hdrop] at hleft ⊢
    obtain ⟨⟨gap, hgap, -⟩, hends⟩ := rdropWhile_space left
    have hspaced : spaced (words (left ++ c :: right)) = left.rdropWhile isSpace ++ (gap ++ c :: right) := by
      rw [← List.append_assoc, ← hgap]
      exact hsame
    exact (collapse_before (fun w => isWord_of_mem_words) (hends hleft) hspaced).1
  · cases hdrop : right.dropWhile isSpace with
    | nil =>
      rw [strip, hdrop] at hright
      exact absurd rfl hright
    | cons d t =>
      have hhead := List.head_dropWhile_not isSpace (l := right) (by simp [hdrop])
      simp only [hdrop, List.head_cons] at hhead
      have hrest : left ++ c :: right = (left ++ c :: right.takeWhile isSpace) ++ d :: t := by
        rw [← hdrop, List.append_assoc, List.cons_append, List.takeWhile_append_dropWhile]
      rw [hrest] at hsame
      have htail := collapse_suffix hhead hsame
      have hstrip : strip right = strip (d :: t) := by
        rw [strip, strip, hdrop, List.dropWhile_cons_of_neg (by simp [hhead])]
      rw [hstrip, strip_collapsed htail, htail]

theorem arrange_reordered {s left right : Str} (hsame : collapse s = s) (hsplit : s.splitOn 44 = [left, right])
    (hleft : strip left ≠ []) (hright : strip right ≠ []) :
  collapse (strip right ++ 32 :: strip left) = strip right ++ 32 :: strip left ∧
    44 ∉ strip right ++ 32 :: strip left
  := by
  obtain ⟨heq, hnl, hnr⟩ := eq_of_splitOn hsplit
  rw [heq] at hsame
  obtain ⟨hl, hr⟩ := collapse_strip_parts hsame hleft hright
  constructor
  · exact collapse_joined hr hright hl hleft
  · intro hmem
    rcases List.mem_append.mp hmem with hmem | hmem
    · exact hnr (mem_of_mem_strip hmem)
    · rcases List.mem_cons.mp hmem with hmem | hmem
      · cases hmem
      · exact hnl (mem_of_mem_strip hmem)

end

theorem collapse_arrange {s : Str} (hsame : collapse s = s) :
  collapse (arrange s) = arrange s
  := by
  obtain ⟨left, right, hsplit, hleft, hright, -, heq⟩ | ⟨-, heq⟩ := arrange_cases s
  · rw [heq]
    exact (arrange_reordered hsame hsplit hleft hright).1
  · rw [heq]
    exact hsame

theorem arrange_titleCaseDe (h : UnicodeFacts) {s : Str} (hsame : collapse s = s) :
  arrange (titleCaseDe (arrange s)) = titleCaseDe (arrange s)
  := by
  have hnot : ¬ Reordered (titleCaseDe (arrange s)) := by
    obtain ⟨left, right, hsplit, hleft, hright, -, heq⟩ | ⟨hnot, heq⟩ := arrange_cases s
    · rintro ⟨left', right', hsplit', -⟩
      obtain ⟨heq', -, -⟩ := eq_of_splitOn hsplit'
      have hcount := count_comma_titleCaseDe h (arrange s)
      rw [heq', heq, List.count_eq_zero.mpr (arrange_reordered hsame hsplit hleft hright).2,
        List.count_append, List.count_cons_self] at hcount
      omega
    · rw [heq]
      exact not_reordered_titleCaseDe h hsame hnot
  obtain ⟨left, right, hsplit, hleft, hright, hdigit, -⟩ | ⟨-, heq⟩ := arrange_cases (titleCaseDe (arrange s))
  · exact absurd ⟨left, right, hsplit, hleft, hright, hdigit⟩ hnot
  · exact heq

theorem normalizeName_twice_iff (h : UnicodeFacts) {s : Str} (hsame : collapse s = s) :
  collapse (normalizeName s).1 = (normalizeName s).1 ∧
    ((normalizeName (normalizeName s).1).1 = (normalizeName s).1 ↔ Steady (arrange s))
  := by
  rw [normalizeName_eq, normalizeName_eq, arrange_titleCaseDe h hsame]
  exact titleCaseDe_twice_iff h (collapse_arrange hsame)

end Courier.ListClean
