import Courier.Library.Text
import Mathlib.Data.List.Basic

/-!
# Relative paths

A relative path is split at its separators; empty parts and single dots are dropped.  POSIX has one
separator, Windows has two.  Parts that are joined with slashes are split into the same parts again
(`components_joined`).
-/

/-- The paths of an operating system. -/
inductive Flavour where
  | posix
  | windows
  deriving DecidableEq

namespace Flavour

/-- The character separates the parts of a path. -/
def isSeparator : Flavour → Nat → Bool
  | .posix, c => c = 47
  | .windows, c => c = 47 || c = 92

/-- The part counts: it is not empty, and not a single dot. -/
def counts (part : Str) : Bool :=
  part ≠ [] && part ≠ text "."

/-- The parts of a relative path. -/
def components (flavour : Flavour) (s : Str) : List Str :=
  (s.splitOnP flavour.isSeparator).filter counts

def joined : List Str → Str
  | [] => []
  | [part] => part
  | part :: next :: rest => part ++ 47 :: joined (next :: rest)

/-- `PurePosixPath(s).as_posix()`, for a relative path. -/
def asPosix (s : Str) : Str :=
  if components .posix s = [] then text "." else joined (components .posix s)

variable {flavour : Flavour} {s t : Str} {parts : List Str}

@[simp]
theorem isSeparator_slash :
  flavour.isSeparator 47 = true
  := by
  cases flavour <;> rfl

@[simp]
theorem components_nil :
  flavour.components [] = []
  := by
  simp [components, counts]

theorem components_append_slash (s t : Str) :
  flavour.components (s ++ 47 :: t) = flavour.components s ++ flavour.components t
  := by
  rw [components, List.splitOnP_append_cons s t isSeparator_slash, List.filter_append]
  rfl

theorem joined_cons (part : Str) (hparts : parts ≠ []) :
  joined (part :: parts) = part ++ 47 :: joined parts
  := by
  cases parts with
  | nil => exact absurd rfl hparts
  | cons next rest => rfl

/-- What holds of a text without separators, and of a text after which a separator and another
text follow, holds of every text. -/
theorem separated_induction {p : Nat → Bool} {P : Str → Prop}
    (hpart : ∀ s, (∀ c ∈ s, p c = false) → P s)
    (hnext : ∀ s c t, (∀ c ∈ s, p c = false) → p c = true → P t → P (s ++ c :: t)) (s : Str) :
  P s
  := by
  induction hn : s.length using Nat.strong_induction_on generalizing s with
  | h n ih =>
    have hsplit := List.takeWhile_append_dropWhile (p := fun c => !p c) (l := s)
    have hfirst : ∀ c ∈ s.takeWhile fun c => !p c, p c = false := by
      intro c hc
      simpa using List.mem_takeWhile_imp hc
    cases hrest : s.dropWhile fun c => !p c with
    | nil =>
      rw [hrest, List.append_nil] at hsplit
      rw [← hsplit]
      exact hpart _ hfirst
    | cons c t =>
      have hc : p c = true := by
        have hhead := List.head_dropWhile_not (fun c => !p c) (l := s) (by simp [hrest])
        simpa [hrest] using hhead
      rw [hrest] at hsplit
      rw [← hsplit]
      have hlength := congrArg List.length hsplit
      simp only [List.length_append, List.length_cons] at hlength
      exact hnext _ c t hfirst hc (ih t.length (by omega) t rfl)

theorem not_separator_of_mem_splitOnP {p : Nat → Bool} (s : Str) :
  ∀ part ∈ s.splitOnP p, ∀ c ∈ part, p c = false
  := by
  induction s using separated_induction (p := p) with
  | hpart s h =>
    rw [List.splitOnP_eq_singleton h]
    intro part hpart
    obtain rfl := List.mem_singleton.mp hpart
    exact h
  | hnext s c t h hc ih =>
    rw [List.splitOnP_append_cons s t hc, List.splitOnP_eq_singleton h]
    intro part hpart
    rcases List.mem_cons.mp hpart with rfl | hpart
    · exact h
    · exact ih part hpart

theorem components_joined_flatMap (parts : List Str) :
  flavour.components (joined parts) = parts.flatMap flavour.components
  := by
  induction parts with
  | nil => exact components_nil
  | cons part parts ih =>
    cases parts with
    | nil => simp [joined]
    | cons next rest =>
      rw [joined_cons part (by simp), components_append_slash, ih, ← List.flatMap_cons]

theorem mem_components {part : Str} (h : part ∈ flavour.components s) :
  counts part = true ∧ ∀ c ∈ part, flavour.isSeparator c = false
  := by
  obtain ⟨hmem, hcounts⟩ := List.mem_filter.mp h
  exact ⟨hcounts, not_separator_of_mem_splitOnP s part hmem⟩

theorem mem_of_mem_components {part : Str} {c : Nat} (h : part ∈ flavour.components s) (hc : c ∈ part) :
  c ∈ s
  := by
  have hsplit : ∀ part ∈ s.splitOnP flavour.isSeparator, c ∈ part → c ∈ s := by
    clear h hc part
    induction s using separated_induction (p := flavour.isSeparator) with
    | hpart s hnone =>
      rw [List.splitOnP_eq_singleton hnone]
      intro part hpart hc
      obtain rfl := List.mem_singleton.mp hpart
      exact hc
    | hnext s d t hnone hd ih =>
      rw [List.splitOnP_append_cons s t hd, List.splitOnP_eq_singleton hnone]
      intro part hpart hc
      rcases List.mem_cons.mp hpart with rfl | hpart
      · exact List.mem_append_left _ hc
      · exact List.mem_append_right _ (List.mem_cons_of_mem d (ih part hpart hc))
  exact hsplit part (List.mem_filter.mp h).1 hc

theorem components_of_not_separator {part : Str} (h : ∀ c ∈ part, flavour.isSeparator c = false) :
  flavour.components part = if counts part then [part] else []
  := by
  rw [components, List.splitOnP_eq_singleton h, List.filter_singleton]
  cases counts part <;> rfl

theorem components_flatMap_part {part : Str} (h : ∀ c ∈ part, posix.isSeparator c = false) :
  (posix.components part).flatMap flavour.components = flavour.components part
  := by
  rw [components_of_not_separator h]
  split
  · simp
  next hnot =>
    simp only [counts, Bool.and_eq_true, decide_eq_true_eq, not_and_or, not_not] at hnot
    rcases hnot with rfl | rfl
    · simp
    · cases flavour <;> decide

theorem components_flatMap_posix (s : Str) :
  (posix.components s).flatMap flavour.components = flavour.components s
  := by
  induction s using separated_induction (p := posix.isSeparator) with
  | hpart s h => exact components_flatMap_part h
  | hnext s c t h hc ih =>
    obtain rfl : c = 47 := by simpa [isSeparator] using hc
    rw [components_append_slash, components_append_slash, List.flatMap_append, ih,
      components_flatMap_part h]

theorem components_joined_posix (s : Str) :
  flavour.components (joined (posix.components s)) = flavour.components s
  := by
  rw [components_joined_flatMap, components_flatMap_posix]

theorem components_joined_windows (s : Str) :
  flavour.components (joined (windows.components s)) = windows.components s
  := by
  rw [components_joined_flatMap]
  have hpart : ∀ part ∈ windows.components s, flavour.components part = [part] := by
    intro part hpart
    obtain ⟨hcounts, hnone⟩ := mem_components hpart
    have hnone' : ∀ c ∈ part, flavour.isSeparator c = false := by
      intro c hc
      have hwindows := hnone c hc
      cases flavour <;> simp_all [isSeparator]
    rw [components_of_not_separator hnone', if_pos hcounts]
  rw [List.flatMap_congr hpart, List.flatMap_singleton']

theorem components_joined (s : Str) :
  flavour.components (joined (flavour.components s)) = flavour.components s
  := by
  cases flavour with
  | posix => exact components_joined_posix s
  | windows => exact components_joined_windows s

theorem not_mem_components_joined {part : Str} (h : ∀ flavour, part ∉ components flavour s)
    (flavour flavour' : Flavour) :
  part ∉ components flavour (joined (components flavour' s))
  := by
  cases flavour' with
  | posix =>
    rw [components_joined_posix]
    exact h flavour
  | windows =>
    rw [components_joined_windows]
    exact h .windows

theorem mem_joined {c : Nat} (hc : c ≠ 47) :
  c ∈ joined parts ↔ ∃ part ∈ parts, c ∈ part
  := by
  induction parts with
  | nil => simp [joined]
  | cons part parts ih =>
    cases parts with
    | nil => simp [joined]
    | cons next rest =>
      rw [joined_cons part (by simp), List.mem_append, List.mem_cons, ih]
      simp [hc]

theorem components_windows_part {part : Str} (h : ∀ c ∈ part, posix.isSeparator c = false)
    (hback : 92 ∉ part) :
  windows.components part = posix.components part
  := by
  have hwindows : ∀ c ∈ part, windows.isSeparator c = false := by
    intro c hc
    have hslash : c ≠ 47 := by simpa [isSeparator] using h c hc
    have hne : c ≠ 92 := by
      rintro rfl
      exact hback hc
    simp [isSeparator, hslash, hne]
  rw [components_of_not_separator h, components_of_not_separator hwindows]

theorem components_windows (h : 92 ∉ s) :
  windows.components s = posix.components s
  := by
  induction s using separated_induction (p := posix.isSeparator) with
  | hpart s hnone => exact components_windows_part hnone h
  | hnext s c t hnone hc ih =>
    obtain rfl : c = 47 := by simpa [isSeparator] using hc
    simp only [List.mem_append, List.mem_cons, not_or] at h
    rw [components_append_slash, components_append_slash, ih h.2.2,
      components_windows_part hnone h.1]

/-- A backslash stays in a path that is split at its slashes. -/
theorem exists_mem_components_posix (h : 92 ∈ s) :
  ∃ part ∈ posix.components s, 92 ∈ part
  := by
  have hfirst : ∀ part : Str, (∀ c ∈ part, posix.isSeparator c = false) → 92 ∈ part →
      part ∈ posix.components part := by
    intro part hnone hmem
    have hcounts : counts part = true := by
      simp only [counts, Bool.and_eq_true, decide_eq_true_eq]
      constructor
      · rintro rfl
        cases hmem
      · rintro rfl
        exact absurd hmem (by decide)
    rw [components_of_not_separator hnone, if_pos hcounts]
    exact List.mem_singleton_self part
  induction s using separated_induction (p := posix.isSeparator) with
  | hpart s hnone => exact ⟨s, hfirst s hnone h, h⟩
  | hnext s c t hnone hc ih =>
    obtain rfl : c = 47 := by simpa [isSeparator] using hc
    rw [components_append_slash]
    rcases List.mem_append.mp h with h | h
    · exact ⟨s, List.mem_append_left _ (hfirst s hnone h), h⟩
    · obtain ⟨part, hpart, hmem⟩ := ih (by simpa using h)
      exact ⟨part, List.mem_append_right _ hpart, hmem⟩

theorem components_ne_nil (hback : 92 ∉ s) (hparts : ∀ part ∈ s.splitOnP (· = 47), counts part = true) :
  flavour.components s ≠ []
  := by
  have hposix : posix.components s ≠ [] := by
    have hne : s.splitOnP (· = 47) ≠ [] := List.splitOnP_ne_nil _ _
    have hall : posix.components s = s.splitOnP (· = 47) := List.filter_eq_self.mpr hparts
    rw [hall]
    exact hne
  cases flavour with
  | posix => exact hposix
  | windows =>
    rw [components_windows hback]
    exact hposix

theorem joined_windows_eq_iff (s : Str) :
  joined (windows.components s) = joined (posix.components s) ↔ 92 ∉ s
  := by
  constructor
  · intro heq hmem
    have hposix := (mem_joined (by decide)).mpr (exists_mem_components_posix hmem)
    rw [← heq, mem_joined (by decide)] at hposix
    obtain ⟨part, hpart, hback⟩ := hposix
    have hnone := (mem_components hpart).2 92 hback
    simp [isSeparator] at hnone
  · intro hnone
    rw [components_windows hnone]

end Flavour
