import Courier.Library.Paths

/-!
# Words

A text is split at its white space into words, and words are joined with single spaces.  Words that are joined
are split into the same words again (`words_spaced`).  What comes before the last character of a word in such a
text is again such a text (`collapse_before`).
-/

namespace Text

/-- `s.split()`. -/
def words (s : Str) : List Str :=
  (s.splitOnP isSpace).filter fun w => w ≠ []

/-- `" ".join(ws)`. -/
def spaced (ws : List Str) : Str :=
  [32].intercalate ws

/-- `" ".join(s.split())`. -/
def collapse (s : Str) : Str :=
  spaced (words s)

/-- A word is not empty, and has no white space. -/
def IsWord (w : Str) : Prop :=
  w ≠ [] ∧ ∀ c ∈ w, isSpace c = false

variable {s t w : Str} {ws : List Str}

theorem isWord_of_mem_words (h : w ∈ words s) :
  IsWord w
  := by
  obtain ⟨hmem, hne⟩ := List.mem_filter.mp h
  exact ⟨by simpa using hne, Flavour.not_separator_of_mem_splitOnP s w hmem⟩

/-! ### Joining words -/

@[simp]
theorem spaced_nil :
  spaced [] = []
  := rfl

@[simp]
theorem spaced_singleton (w : Str) :
  spaced [w] = w
  := List.intercalate_singleton

theorem spaced_cons (w : Str) (h : ws ≠ []) :
  spaced (w :: ws) = w ++ 32 :: spaced ws
  := by
  rw [spaced, List.intercalate_cons_of_ne_nil h]
  simp [spaced]

theorem head_spaced (hall : ∀ w ∈ ws, IsWord w) (hne : ws ≠ []) :
  ∃ c t, spaced ws = c :: t ∧ isSpace c = false
  := by
  obtain ⟨w, rest, rfl⟩ := List.exists_cons_of_ne_nil hne
  obtain ⟨hword, hspace⟩ := hall w (by simp)
  obtain ⟨c, t, rfl⟩ := List.exists_cons_of_ne_nil hword
  have hc : isSpace c = false := hspace c (by simp)
  by_cases hrest : rest = []
  · subst hrest
    exact ⟨c, t, spaced_singleton _, hc⟩
  · exact ⟨c, _, spaced_cons (c :: t) hrest, hc⟩

theorem last_spaced (hall : ∀ w ∈ ws, IsWord w) (hne : ws ≠ []) :
  ∃ t c, spaced ws = t ++ [c] ∧ isSpace c = false
  := by
  induction ws with
  | nil => exact absurd rfl hne
  | cons w rest ih =>
    by_cases hrest : rest = []
    · subst hrest
      obtain ⟨hword, hspace⟩ := hall w (by simp)
      refine ⟨w.dropLast, w.getLast hword, ?_, hspace _ (List.getLast_mem hword)⟩
      rw [spaced_singleton, List.dropLast_append_getLast]
    · obtain ⟨t, c, heq, hc⟩ := ih (fun v hv => hall v (List.mem_cons_of_mem _ hv)) hrest
      refine ⟨w ++ 32 :: t, c, ?_, hc⟩
      rw [spaced_cons w hrest, heq]
      simp

/-! ### Joined texts -/

theorem mem_intercalate {sep : Str} {c : Nat} :
  ∀ {parts : List Str}, w ∈ parts → c ∈ w → c ∈ sep.intercalate parts
  | [], h, _ => nomatch h
  | part :: parts, h, hc => by
    by_cases hparts : parts = []
    · subst hparts
      obtain rfl := List.mem_singleton.mp h
      rwa [List.intercalate_singleton]
    · rw [List.intercalate_cons_of_ne_nil hparts]
      rcases List.mem_cons.mp h with rfl | h
      · simp [hc]
      · simp [mem_intercalate h hc]

theorem of_mem_intercalate {sep : Str} {c : Nat} :
  ∀ {parts : List Str}, c ∈ sep.intercalate parts → c ∈ sep ∨ ∃ part ∈ parts, c ∈ part
  | [], h => nomatch h
  | part :: parts, h => by
    by_cases hparts : parts = []
    · subst hparts
      rw [List.intercalate_singleton] at h
      exact .inr ⟨part, by simp, h⟩
    · rw [List.intercalate_cons_of_ne_nil hparts, List.mem_append, List.mem_append] at h
      rcases h with (h | h) | h
      · exact .inr ⟨part, by simp, h⟩
      · exact .inl h
      · rcases of_mem_intercalate h with h | ⟨other, hother, h⟩
        · exact .inl h
        · exact .inr ⟨other, List.mem_cons_of_mem _ hother, h⟩

theorem map_eq_self {α : Type} {f : α → α} {l : List α} :
  l.map f = l ↔ ∀ a ∈ l, f a = a
  := by
  conv_lhs => rhs; rw [← List.map_id' l]
  exact List.map_inj_left

/-! ### Splitting -/

theorem words_of_isWord (h : IsWord w) :
  words w = [w]
  := by
  rw [words, List.splitOnP_eq_singleton h.2]
  simp [h.1]

theorem words_append_space (h : IsWord w) (s : Str) :
  words (w ++ 32 :: s) = w :: words s
  := by
  rw [words, List.splitOnP_append_cons_of_forall_mem h.2 32 (by decide)]
  simp [words, h.1]

theorem words_spaced (hall : ∀ w ∈ ws, IsWord w) :
  words (spaced ws) = ws
  := by
  induction ws with
  | nil => rfl
  | cons w rest ih =>
    have hword := hall w (by simp)
    by_cases hrest : rest = []
    · subst hrest
      rw [spaced_singleton, words_of_isWord hword]
    · rw [spaced_cons w hrest, words_append_space hword,
        ih fun v hv => hall v (List.mem_cons_of_mem _ hv)]

theorem collapse_spaced (hall : ∀ w ∈ ws, IsWord w) :
  collapse (spaced ws) = spaced ws
  := by
  rw [collapse, words_spaced hall]

@[simp]
theorem collapse_collapse (s : Str) :
  collapse (collapse s) = collapse s
  := collapse_spaced fun _ => isWord_of_mem_words

theorem splitOn_collapse (h : collapse s = s) (hne : s ≠ []) :
  s.splitOn 32 = words s
  := by
  have hwords : words s ≠ [] := by
    intro hnil
    rw [collapse, hnil] at h
    exact hne h.symm
  conv_lhs => rw [← h]
  apply List.splitOn_intercalate 32 _ hwords
  intro w hw hmem
  cases (isWord_of_mem_words hw).2 32 hmem

theorem strip_spaced (hall : ∀ w ∈ ws, IsWord w) :
  strip (spaced ws) = spaced ws
  := by
  by_cases hne : ws = []
  · subst hne
    rfl
  · obtain ⟨c, t, hhead, hc⟩ := head_spaced hall hne
    obtain ⟨t', d, hlast, hd⟩ := last_spaced hall hne
    rw [strip]
    conv_lhs => rw [hhead, List.dropWhile_cons_of_neg (by simp [hc]), ← hhead, hlast,
      List.rdropWhile_concat_neg _ _ _ (by simp [hd])]
    exact hlast.symm

/-! ### Parts of a collapsed text -/

/-- The text does not end with white space. -/
def EndsInWord (s : Str) : Prop :=
  ∃ t c, s = t ++ [c] ∧ isSpace c = false

theorem IsWord.of_append_left (h : IsWord (s ++ t)) (hs : s ≠ []) :
  IsWord s
  := ⟨hs, fun c hc => h.2 c (List.mem_append_left t hc)⟩

/-- What comes before a place in joined words is made of joined words, if it does not end with a space; and
at most one space comes next. -/
theorem collapse_before (hall : ∀ w ∈ ws, IsWord w) {before rest : Str} (hends : EndsInWord before)
    (h : spaced ws = before ++ rest) :
  collapse before = before ∧
    (rest = [] ∨ (∃ c t, rest = c :: t ∧ isSpace c = false) ∨ ∃ c t, rest = 32 :: c :: t ∧ isSpace c = false)
  := by
  induction ws generalizing before with
  | nil =>
    obtain ⟨t, c, rfl, -⟩ := hends
    simp at h
  | cons w ws ih =>
    have hword := hall w (by simp)
    have hmore : ∀ v ∈ ws, IsWord v := fun v hv => hall v (List.mem_cons_of_mem _ hv)
    have hne : before ≠ [] := by
      obtain ⟨t, c, rfl, -⟩ := hends
      simp
    have hinside : ∀ more, w = before ++ more → collapse before = before := by
      rintro more rfl
      rw [collapse, words_of_isWord (hword.of_append_left hne), spaced_singleton]
    by_cases hws : ws = []
    · subst hws
      rw [spaced_singleton] at h
      refine ⟨hinside rest h, ?_⟩
      cases rest with
      | nil => exact .inl rfl
      | cons c t => exact .inr (.inl ⟨c, t, rfl, hword.2 c (by simp [h])⟩)
    · obtain ⟨c, t, hhead, hc⟩ := head_spaced hmore hws
      rw [spaced_cons w hws] at h
      obtain ⟨more, hbefore, hrest⟩ | ⟨more, hw, hrest⟩ := List.append_eq_append_iff.mp h
      · cases more with
        | nil =>
          rw [List.append_nil] at hbefore
          refine ⟨hinside [] (by simp [hbefore]), .inr (.inr ⟨c, t, ?_, hc⟩)⟩
          rw [← hhead]
          exact hrest.symm
        | cons d more =>
          obtain ⟨rfl, hspaced⟩ := List.cons.inj hrest
          have hmoreEnds : EndsInWord more := by
            obtain ⟨t', c', heq, hc'⟩ := hends
            rw [hbefore] at heq
            cases more using List.reverseRecOn with
            | nil =>
              have hlast := List.append_inj_right' heq rfl
              cases hlast
              cases hc'
            | append_singleton init e _ =>
              refine ⟨init, e, rfl, ?_⟩
              rw [← List.cons_append, ← List.append_assoc] at heq
              obtain rfl := List.singleton_inj.mp (List.append_inj_right' heq rfl)
              exact hc'
          obtain ⟨hcollapse, hnext⟩ := ih hmore hmoreEnds hspaced
          refine ⟨?_, hnext⟩
          have hwords : words more ≠ [] := by
            intro hnil
            rw [collapse, hnil] at hcollapse
            obtain ⟨t', c', rfl, -⟩ := hmoreEnds
            simp at hcollapse
          rw [hbefore, collapse, words_append_space hword, spaced_cons w hwords]
          exact congrArg (fun s => w ++ 32 :: s) hcollapse
      · refine ⟨hinside more hw, ?_⟩
        cases more with
        | nil =>
          right
          right
          refine ⟨c, t, ?_, hc⟩
          rw [← hhead]
          exact hrest
        | cons d more => exact .inr (.inl ⟨d, _, hrest, hword.2 d (by simp [hw])⟩)

end Text
