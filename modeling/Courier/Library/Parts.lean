import Courier.Library.Words

/-!
# Parts of a text

A text is split at every separator, its parts are changed, and they are joined again (`mapParts`).  How the text
starts then depends only on how its first part starts (`HeadFrom.mapParts`).
-/

namespace Text

/-- The first character of a text that a function makes has a property only if the first character of the text
it is made of has. -/
def HeadFrom (P : Nat → Prop) (f : Str → Str) : Prop :=
  ∀ s c t, f s = c :: t → P c → ∃ d u, s = d :: u ∧ P d

/-- The parts of a text between separators are changed, and joined again. -/
def mapParts (sep : Nat) (f : Str → Str) (s : Str) : Str :=
  [sep].intercalate ((s.splitOn sep).map f)

variable {s : Str} {sep : Nat} {f : Str → Str} {P : Nat → Prop}

theorem mapParts_nil :
  mapParts sep f [] = f []
  := by
  simp [mapParts]

/-- The first part of a text is changed, and there may be more. -/
theorem mapParts_cons (sep : Nat) (f : Str → Str) (c : Nat) (s : Str) :
  (c = sep ∧ mapParts sep f (c :: s) = f [] ++ sep :: mapParts sep f s) ∨
    ∃ part rest, c ≠ sep ∧ mapParts sep f (c :: s) = f (c :: part) ++ rest
  := by
  by_cases hc : c = sep
  · subst hc
    refine .inl ⟨rfl, ?_⟩
    have hsplit : (c :: s).splitOn c = [] :: s.splitOn c := by
      simp [List.splitOn, List.splitOnP_cons_eq_if_modifyHead]
    have hne : (s.splitOn c).map f ≠ [] := by simp [List.splitOn]
    rw [mapParts, hsplit, List.map_cons, List.intercalate_cons_of_ne_nil hne, List.append_assoc]
    rfl
  · refine .inr ?_
    obtain ⟨part, more, hparts⟩ := List.exists_cons_of_ne_nil (List.splitOnP_ne_nil (· == sep) s)
    have hsplit : (c :: s).splitOn sep = (c :: part) :: more := by
      simp [List.splitOn, List.splitOnP_cons_eq_if_modifyHead, hc, hparts]
    rw [mapParts, hsplit, List.map_cons]
    cases more with
    | nil => exact ⟨part, [], hc, by simp⟩
    | cons other more =>
      refine ⟨part, [sep] ++ [sep].intercalate ((other :: more).map f), hc, ?_⟩
      rw [List.intercalate_cons_of_ne_nil (by simp), List.append_assoc]

theorem mapParts_ne_nil (hne : ∀ s, s ≠ [] → f s ≠ []) {s : Str} (h : s ≠ []) :
  mapParts sep f s ≠ []
  := by
  obtain ⟨c, t, rfl⟩ := List.exists_cons_of_ne_nil h
  obtain ⟨-, heq⟩ | ⟨part, rest, -, heq⟩ := mapParts_cons sep f c t
  · simp [heq]
  · rw [heq]
    simp [hne (c :: part) (by simp)]

theorem HeadFrom.mapParts (hne : ∀ s, s ≠ [] → f s ≠ []) (h : HeadFrom P f) :
  HeadFrom P (mapParts sep f)
  := by
  intro s c t heq hc
  cases s with
  | nil =>
    rw [mapParts_nil] at heq
    exact h [] c t heq hc
  | cons a s =>
    obtain ⟨rfl, hcons⟩ | ⟨part, rest, -, hcons⟩ := mapParts_cons sep f a s
    · rw [hcons] at heq
      cases hnil : f [] with
      | nil =>
        rw [hnil] at heq
        obtain ⟨rfl, -⟩ := List.cons.inj heq
        exact ⟨a, s, rfl, hc⟩
      | cons c' t' =>
        rw [hnil] at heq
        obtain ⟨rfl, -⟩ := List.cons.inj heq
        obtain ⟨d, u, hdu, -⟩ := h [] c' t' hnil hc
        cases hdu
    · obtain ⟨c', t', hpart⟩ := List.exists_cons_of_ne_nil (hne (a :: part) (by simp))
      rw [hcons, hpart] at heq
      obtain ⟨rfl, -⟩ := List.cons.inj heq
      obtain ⟨d, u, hdu, hd⟩ := h _ c' t' hpart hc
      obtain ⟨rfl, -⟩ := List.cons.inj hdu
      exact ⟨a, s, rfl, hd⟩

/-! ### Parts of a longer text -/

/-- The parts of two texts in a row: the last part of the first goes on in the second. -/
theorem splitOn_append (sep : Nat) (s t : Str) :
  ∃ init last first rest, s.splitOn sep = init ++ [last] ∧ t.splitOn sep = first :: rest ∧
    (s ++ t).splitOn sep = init ++ (last ++ first) :: rest
  := by
  induction s with
  | nil =>
    obtain ⟨first, rest, ht⟩ := List.exists_cons_of_ne_nil (List.splitOn_ne_nil sep t)
    exact ⟨[], [], first, rest, by simp, ht, by simp [ht]⟩
  | cons c s ih =>
    obtain ⟨init, last, first, rest, hs, ht, hst⟩ := ih
    by_cases hc : c = sep
    · have hcons : ∀ u : Str, (c :: u).splitOn sep = [] :: u.splitOn sep := by
        intro u
        simp [List.splitOn, List.splitOnP_cons_eq_if_modifyHead, hc]
      refine ⟨[] :: init, last, first, rest, ?_, ht, ?_⟩
      · rw [hcons, hs]
        rfl
      · rw [List.cons_append, hcons, hst]
        rfl
    · have hcons : ∀ u : Str, (c :: u).splitOn sep = (u.splitOn sep).modifyHead (c :: ·) := by
        intro u
        simp [List.splitOn, List.splitOnP_cons_eq_if_modifyHead, hc]
      rw [List.cons_append, hcons, hcons, hs, hst]
      cases init with
      | nil => exact ⟨[], c :: last, first, rest, rfl, ht, rfl⟩
      | cons part init => exact ⟨(c :: part) :: init, last, first, rest, rfl, ht, rfl⟩

theorem splitOn_append_of_notMem {t : Str} (h : sep ∉ t) (s : Str) :
  ∃ init last, s.splitOn sep = init ++ [last] ∧ (s ++ t).splitOn sep = init ++ [last ++ t]
  := by
  obtain ⟨init, last, first, rest, hs, ht, hst⟩ := splitOn_append sep s t
  rw [List.splitOn_eq_singleton h] at ht
  obtain ⟨rfl, rfl⟩ := List.cons.inj ht
  exact ⟨init, last, hs, hst⟩

theorem notMem_of_mem_splitOn {part s : Str} (h : part ∈ s.splitOn sep) :
  sep ∉ part
  := by
  intro hmem
  rw [List.splitOn_eq_splitOnP] at h
  have hsep := Flavour.not_separator_of_mem_splitOnP s part h sep hmem
  simp at hsep

theorem splitOn_mapParts (h : ∀ part, sep ∉ part → sep ∉ f part) (s : Str) :
  (mapParts sep f s).splitOn sep = (s.splitOn sep).map f
  := by
  rw [mapParts, List.splitOn_intercalate sep]
  · intro part hpart
    obtain ⟨old, hold, rfl⟩ := List.mem_map.mp hpart
    exact h old (notMem_of_mem_splitOn hold)
  · simp [List.splitOn_ne_nil]

theorem intercalate_concat_of_ne_nil {sep : Str} {parts : List Str} (hne : parts ≠ []) (last : Str) :
  ∃ start, sep.intercalate (parts ++ [last]) = start ++ sep ++ last
  := by
  induction parts with
  | nil => exact absurd rfl hne
  | cons part parts ih =>
    rw [List.cons_append, List.intercalate_cons_of_ne_nil (by simp)]
    by_cases hparts : parts = []
    · exact ⟨part, by simp [hparts]⟩
    · obtain ⟨start, heq⟩ := ih hparts
      exact ⟨part ++ sep ++ start, by simp [heq]⟩

theorem intercalate_concat (sep : Str) (parts : List Str) (last : Str) :
  ∃ start, sep.intercalate (parts ++ [last]) = start ++ last
  := by
  by_cases hne : parts = []
  · exact ⟨[], by simp [hne]⟩
  · obtain ⟨start, heq⟩ := intercalate_concat_of_ne_nil hne last
    exact ⟨start ++ sep, heq⟩

theorem count_intercalate {c : Nat} (hc : c ≠ sep) (parts : List Str) :
  ([sep].intercalate parts).count c = (parts.map (List.count c)).sum
  := by
  induction parts with
  | nil => rfl
  | cons part parts ih =>
    by_cases hparts : parts = []
    · simp [hparts]
    · rw [List.intercalate_cons_of_ne_nil hparts]
      simp [ih, List.count_append, hc.symm]

theorem count_mapParts {c : Nat} (hc : c ≠ sep) (h : ∀ part, (f part).count c = part.count c) (s : Str) :
  (mapParts sep f s).count c = s.count c
  := by
  have hsplit : [sep].intercalate (s.splitOn sep) = s := List.intercalate_splitOn sep
  conv_rhs => rw [← hsplit]
  rw [mapParts, count_intercalate hc, count_intercalate hc, List.map_map]
  congr 1
  exact List.map_congr_left fun part _ => h part

theorem any_intercalate {p : Nat → Bool} (hsep : p sep = false) (parts : List Str) :
  ([sep].intercalate parts).any p = parts.any (List.any · p)
  := by
  induction parts with
  | nil => rfl
  | cons part parts ih =>
    by_cases hparts : parts = []
    · simp [hparts]
    · rw [List.intercalate_cons_of_ne_nil hparts, List.any_append, List.any_append, ih]
      simp [hsep]

theorem any_mapParts {p : Nat → Bool} (hsep : p sep = false) (h : ∀ part, (f part).any p = part.any p)
    (s : Str) :
  (mapParts sep f s).any p = s.any p
  := by
  have hsplit : [sep].intercalate (s.splitOn sep) = s := List.intercalate_splitOn sep
  conv_rhs => rw [← hsplit]
  rw [mapParts, any_intercalate hsep, any_intercalate hsep, List.any_map]
  congr 1
  exact funext h

theorem mapParts_concat {c : Nat} (hc : c ≠ sep) (s : Str) :
  ∃ start part, mapParts sep f (s ++ [c]) = start ++ f (part ++ [c])
  := by
  have hnot : sep ∉ [c] := by simpa using hc.symm
  obtain ⟨init, last, -, hmore⟩ := splitOn_append_of_notMem hnot s
  rw [mapParts, hmore, List.map_append, List.map_singleton]
  obtain ⟨start, heq⟩ := intercalate_concat [sep] (init.map f) (f (last ++ [c]))
  exact ⟨start, last, heq⟩

theorem splitOn_pair {left right : Str} (hleft : sep ∉ left) (hright : sep ∉ right) :
  (left ++ sep :: right).splitOn sep = [left, right]
  := by
  have hjoined : ([sep].intercalate [left, right]).splitOn sep = [left, right] :=
    List.splitOn_intercalate sep (by simp [hleft, hright]) (by simp)
  rw [List.intercalate_cons_of_ne_nil (by simp), List.intercalate_singleton] at hjoined
  simpa using hjoined

theorem splitOn_of_count (h : s.count sep = 1) :
  ∃ left right, s = left ++ sep :: right ∧ s.splitOn sep = [left, right]
  := by
  have hmem : sep ∈ s := List.count_pos_iff.mp (by rw [h]; exact Nat.one_pos)
  obtain ⟨left, right, rfl⟩ := List.append_of_mem hmem
  have hcount : left.count sep = 0 ∧ right.count sep = 0 := by
    simp only [List.count_append, List.count_cons_self] at h
    omega
  exact ⟨left, right, rfl, splitOn_pair (List.count_eq_zero.mp hcount.1) (List.count_eq_zero.mp hcount.2)⟩

theorem eq_of_splitOn {left right : Str} (h : s.splitOn sep = [left, right]) :
  s = left ++ sep :: right ∧ sep ∉ left ∧ sep ∉ right
  := by
  have hsplit : [sep].intercalate (s.splitOn sep) = s := List.intercalate_splitOn sep
  rw [h, List.intercalate_cons_of_ne_nil (by simp), List.intercalate_singleton] at hsplit
  refine ⟨by simpa using hsplit.symm, ?_, ?_⟩
  · exact notMem_of_mem_splitOn (s := s) (by simp [h])
  · exact notMem_of_mem_splitOn (s := s) (by simp [h])

/-! ### Collapsed texts -/

theorem collapse_of_splitOn (h : ∀ w ∈ s.splitOn 32, IsWord w) :
  collapse s = s
  := by
  have hspaced : s = spaced (s.splitOn 32) := (List.intercalate_splitOn 32).symm
  rw [hspaced]
  exact collapse_spaced h

theorem isWord_of_mem_splitOn (h : collapse s = s) (hne : s ≠ []) :
  ∀ w ∈ s.splitOn 32, IsWord w
  := by
  rw [splitOn_collapse h hne]
  exact fun w => isWord_of_mem_words

theorem collapse_suffix {t : Str} {c : Nat} (hc : isSpace c = false) (h : collapse (s ++ c :: t) = s ++ c :: t) :
  collapse (c :: t) = c :: t
  := by
  have hne : s ++ c :: t ≠ [] := by simp
  obtain ⟨init, last, first, rest, -, htail, hall⟩ := splitOn_append 32 s (c :: t)
  have hwords := isWord_of_mem_splitOn h hne
  rw [hall] at hwords
  apply collapse_of_splitOn
  rw [htail]
  intro w hw
  rcases List.mem_cons.mp hw with rfl | hw
  · have hword := hwords (last ++ w) (by simp)
    refine ⟨?_, fun d hd => hword.2 d (List.mem_append_right last hd)⟩
    rintro rfl
    have hspaced : [32].intercalate ((c :: t).splitOn 32) = c :: t := List.intercalate_splitOn 32
    rw [htail] at hspaced
    by_cases hrest : rest = []
    · simp [hrest] at hspaced
    · rw [List.intercalate_cons_of_ne_nil hrest] at hspaced
      obtain ⟨rfl, -⟩ := List.cons.inj hspaced
      cases hc
  · exact hwords w (by simp [hw])

theorem collapse_joined {t : Str} (hs : collapse s = s) (hsne : s ≠ []) (ht : collapse t = t)
    (htne : t ≠ []) :
  collapse (s ++ 32 :: t) = s ++ 32 :: t
  := by
  apply collapse_of_splitOn
  obtain ⟨init, last, first, rest, hsplit, htail, hall⟩ := splitOn_append 32 s (32 :: t)
  have hcons : (32 :: t).splitOn 32 = [] :: t.splitOn 32 := by
    simp [List.splitOn, List.splitOnP_cons_eq_if_modifyHead]
  rw [hcons] at htail
  obtain ⟨rfl, rfl⟩ := List.cons.inj htail
  rw [hall, List.append_nil]
  intro w hw
  rcases List.mem_append.mp hw with hw | hw
  · exact isWord_of_mem_splitOn hs hsne w (by simp [hsplit, hw])
  · rcases List.mem_cons.mp hw with rfl | hw
    · exact isWord_of_mem_splitOn hs hsne w (by simp [hsplit])
    · exact isWord_of_mem_splitOn ht htne w hw

theorem collapse_dropWhile (s : Str) :
  collapse (s.dropWhile isSpace) = collapse s
  := by
  induction s with
  | nil => rfl
  | cons c s ih =>
    by_cases hc : isSpace c = true
    · have hwords : words (c :: s) = words s := by
        rw [words, List.splitOnP_cons_eq_if_modifyHead, if_pos hc]
        simp [words]
      rw [List.dropWhile_cons_of_pos hc, ih, collapse, collapse, hwords]
    · rw [List.dropWhile_cons_of_neg hc]

theorem collapse_cons {c : Nat} (hc : isSpace c = false) (s : Str) :
  ∃ t, collapse (c :: s) = c :: t
  := by
  obtain ⟨part, more, hparts⟩ := List.exists_cons_of_ne_nil (List.splitOnP_ne_nil isSpace s)
  have hwords : words (c :: s) = (c :: part) :: more.filter fun w => w ≠ [] := by
    rw [words, List.splitOnP_cons_eq_if_modifyHead, if_neg (by simp [hc]), hparts]
    simp
  rw [collapse, hwords]
  by_cases hmore : (more.filter fun w => w ≠ []) = []
  · exact ⟨part, by rw [hmore, spaced_singleton]⟩
  · exact ⟨_, spaced_cons (c :: part) hmore⟩

end Text
