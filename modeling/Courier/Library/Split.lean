import Courier.Library.Text

/-!
# Splitting at a separator

A text is split at every occurrence of a separator, from the left.  No part has the separator in it, and
every part but the first starts behind an occurrence.
-/

namespace Text

/-- `s.split(sep)`, at so many separators at most. -/
def splitFrom (sep : Str) : Nat → Str → List Str
  | 0, s => [s]
  | fuel + 1, s =>
      match s.dropInfix? sep with
      | none => [s]
      | some (before, rest) => before :: splitFrom sep fuel rest

/-- `s.split(sep)`, of a separator that is not empty. -/
def split (sep s : Str) : List Str :=
  splitFrom sep s.length s

variable {sep s : Str}

/-! ### Occurrences -/

theorem dropInfix_some_iff {before rest : Str} :
  s.dropInfix? sep = some (before, rest) ↔
    s = before ++ sep ++ rest ∧ ∀ p t, s = p ++ sep ++ t → before.length ≤ p.length
  := by
  rw [List.dropInfix?_eq_some_iff]
  constructor
  · rintro ⟨⟨i, heq, hi⟩, hfirst⟩
    obtain rfl := eq_of_beq hi
    exact ⟨heq, fun p t h => hfirst p i t h (beq_self_eq_true i)⟩
  · rintro ⟨heq, hfirst⟩
    refine ⟨⟨sep, heq, beq_self_eq_true sep⟩, ?_⟩
    intro p i t h hi
    obtain rfl := eq_of_beq hi
    exact hfirst p t h

theorem dropInfix_none_iff :
  s.dropInfix? sep = none ↔ ¬sep <:+: s
  := by
  constructor
  · rintro hnone ⟨p, t, heq⟩
    -- Of all occurrences there is a first one.
    have hex : ∃ n, ∃ p t, s = p ++ sep ++ t ∧ p.length = n := ⟨_, p, t, heq.symm, rfl⟩
    classical
    obtain ⟨p, t, heq, hlength⟩ := Nat.find_spec hex
    have hfirst : s.dropInfix? sep = some (p, t) := by
      refine dropInfix_some_iff.mpr ⟨heq, ?_⟩
      intro q u hq
      rw [hlength]
      exact Nat.find_min' hex ⟨q, u, hq, rfl⟩
    rw [hfirst] at hnone
    cases hnone
  · intro hoccurs
    rw [Option.eq_none_iff_forall_ne_some]
    rintro ⟨before, rest⟩ hsome
    obtain ⟨rfl, -⟩ := dropInfix_some_iff.mp hsome
    exact hoccurs ⟨before, rest, rfl⟩

/-- An occurrence lies on one side of a character that is not in it. -/
theorem infix_iff_of_notMem {a b : Str} {c : Nat} (hc : c ∉ sep) :
  sep <:+: a ++ c :: b ↔ sep <:+: a ∨ sep <:+: b
  := by
  constructor
  · rintro ⟨p, t, heq⟩
    rcases List.append_eq_append_iff.mp heq with ⟨x, rfl, -⟩ | ⟨x, hp, hb⟩
    · exact .inl ⟨p, x, rfl⟩
    · cases x with
      | nil => exact .inl ⟨p, [], by simpa using hp⟩
      | cons d x =>
        obtain ⟨rfl, rfl⟩ := List.cons.inj hb
        rcases List.append_eq_append_iff.mp hp with ⟨y, -, rfl⟩ | ⟨y, -, hy⟩
        · simp at hc
        · cases y with
          | nil =>
            obtain rfl := hy
            simp at hc
          | cons e y =>
            obtain ⟨-, rfl⟩ := List.cons.inj hy
            exact .inr ⟨y, t, by simp⟩
  · rintro (⟨p, t, rfl⟩ | ⟨p, t, rfl⟩)
    · exact ⟨p, t ++ c :: b, by simp⟩
    · exact ⟨a ++ c :: p, t, by simp⟩

/-! ### Parts -/

/-- The first part is what comes before the first occurrence, and every other part is found behind one. -/
theorem splitFrom_cases (hsep : sep ≠ []) (fuel : Nat) (hfuel : s.length ≤ fuel) :
  ∃ first more, splitFrom sep fuel s = first :: more ∧ first <+: s ∧ ¬sep <:+: first ∧
    ∀ part ∈ more, ∃ a b, s = a ++ sep ++ b ∧ part <+: b
  := by
  induction fuel generalizing s with
  | zero =>
    obtain rfl := List.length_eq_zero_iff.mp (Nat.le_zero.mp hfuel)
    refine ⟨[], [], rfl, List.prefix_refl _, ?_, by simp⟩
    rwa [List.infix_nil]
  | succ fuel ih =>
    rw [splitFrom]
    cases hdrop : s.dropInfix? sep with
    | none => exact ⟨s, [], rfl, List.prefix_refl _, dropInfix_none_iff.mp hdrop, by simp⟩
    | some found =>
      obtain ⟨before, rest⟩ := found
      obtain ⟨rfl, hfirst⟩ := dropInfix_some_iff.mp hdrop
      have hlength := List.length_pos_iff.mpr hsep
      obtain ⟨first, more, heq, hstart, -, hmore⟩ := ih (s := rest) (by
        simp only [List.length_append] at hfuel
        omega)
      refine ⟨before, splitFrom sep fuel rest, rfl, ?_, ?_, ?_⟩
      · rw [List.append_assoc]
        exact List.prefix_append ..
      · rintro ⟨p, t, rfl⟩
        have hle := hfirst p (t ++ sep ++ rest) (by simp)
        simp only [List.length_append] at hle
        omega
      · intro part hpart
        rw [heq] at hpart
        rcases List.mem_cons.mp hpart with rfl | hpart
        · exact ⟨before, rest, rfl, hstart⟩
        · obtain ⟨a, b, rfl, hb⟩ := hmore part hpart
          exact ⟨before ++ sep ++ a, b, by simp, hb⟩

theorem split_cases (hsep : sep ≠ []) (s : Str) :
  ∃ first more, split sep s = first :: more ∧ first <+: s ∧ ¬sep <:+: first ∧
    ∀ part ∈ more, ∃ a b, s = a ++ sep ++ b ∧ part <+: b
  := splitFrom_cases hsep s.length le_rfl

theorem split_of_not_infix (h : ¬sep <:+: s) :
  split sep s = [s]
  := by
  rw [split]
  cases s.length with
  | zero => rfl
  | succ n => rw [splitFrom, dropInfix_none_iff.mpr h]

/-- Any fuel that is enough gives the same parts. -/
theorem splitFrom_congr (hsep : sep ≠ []) (fuel more : Nat) (hfuel : s.length ≤ fuel) (hmore : s.length ≤ more) :
  splitFrom sep fuel s = splitFrom sep more s
  := by
  have hnil : ∀ n, splitFrom sep n [] = [[]] := by
    intro n
    cases n with
    | zero => rfl
    | succ n => rw [splitFrom, dropInfix_none_iff.mpr (by rwa [List.infix_nil])]
  induction fuel generalizing s more with
  | zero =>
    obtain rfl := List.length_eq_zero_iff.mp (Nat.le_zero.mp hfuel)
    rw [hnil, hnil]
  | succ fuel ih =>
    cases more with
    | zero =>
      obtain rfl := List.length_eq_zero_iff.mp (Nat.le_zero.mp hmore)
      rw [hnil, hnil]
    | succ more =>
      rw [splitFrom, splitFrom]
      cases hdrop : s.dropInfix? sep with
      | none => rfl
      | some found =>
        obtain ⟨before, rest⟩ := found
        obtain ⟨rfl, -⟩ := dropInfix_some_iff.mp hdrop
        have hlength := List.length_pos_iff.mpr hsep
        simp only [List.length_append] at hfuel hmore
        exact congrArg (before :: ·) (ih (s := rest) more (by omega) (by omega))

/-- A text is split at its first separator. -/
theorem split_first {before : Str} (hsep : sep ≠ []) (h : ¬sep <:+: before ++ sep.dropLast) (rest : Str) :
  split sep (before ++ sep ++ rest) = before :: split sep rest
  := by
  have hlength := List.length_pos_iff.mpr hsep
  have hdrop : (before ++ sep ++ rest).dropInfix? sep = some (before, rest) := by
    refine dropInfix_some_iff.mpr ⟨rfl, ?_⟩
    intro p t heq
    by_contra hlt
    have hwhole : before ++ sep.dropLast <+: before ++ sep ++ rest :=
      ((List.prefix_append_right_inj before).mpr (List.dropLast_prefix sep)).trans (List.prefix_append ..)
    have hearlier : p ++ sep <+: before ++ sep ++ rest := ⟨t, heq.symm⟩
    have hinside := List.prefix_of_prefix_length_le hearlier hwhole (by
      simp only [List.length_append, List.length_dropLast]
      omega)
    exact h ((List.suffix_append p sep).isInfix.trans hinside.isInfix)
  obtain ⟨n, hn⟩ := Nat.exists_eq_add_one.mpr (show 0 < (before ++ sep ++ rest).length by
    simp only [List.length_append]
    omega)
  rw [split, hn, splitFrom, hdrop, split]
  simp only [List.length_append] at hn
  exact congrArg (before :: ·) (splitFrom_congr hsep n rest.length (by omega) le_rfl)

theorem split_lines {c : Nat} {lines : List Str} (h : ∀ l ∈ lines, c ∉ l) :
  split [c] (lines.flatMap (· ++ [c])) = lines ++ [[]]
  := by
  induction lines with
  | nil => exact split_of_not_infix (by simp)
  | cons l lines ih =>
    obtain ⟨hl, hlines⟩ := List.forall_mem_cons.mp h
    have hnone : ¬[c] <:+: l ++ [c].dropLast := by
      intro hoccurs
      exact hl (by simpa using hoccurs.subset (List.mem_singleton_self c))
    rw [List.flatMap_cons, split_first (List.cons_ne_nil _ _) hnone, ih hlines, List.cons_append]

end Text
