import Mathlib.Data.List.Basic

/-!
# Patterns

A pattern is a list of tokens: a star, which stands for any list, an arbitrary point, and points that stand for
themselves.  A list that starts with a given one is matched in one of two ways (`Matches.split`), and every pattern
matches what it is filled to (`matches_filled`).
-/

namespace Patterns

/-- A token of a pattern. -/
inductive Token (α : Type*) where
  | star
  | any
  | point (c : α)
  deriving DecidableEq

variable {α : Type*} {p q : List (Token α)} {s t : List α} {c : α}

inductive Matches : List (Token α) → List α → Prop where
  | nil : Matches [] []
  | star (s : List α) {p : List (Token α)} {t : List α} : Matches p t → Matches (.star :: p) (s ++ t)
  | any (c : α) {p : List (Token α)} {t : List α} : Matches p t → Matches (.any :: p) (c :: t)
  | point (c : α) {p : List (Token α)} {t : List α} : Matches p t → Matches (.point c :: p) (c :: t)

/-! ### The tokens one by one -/

@[simp]
theorem matches_nil_iff :
  Matches [] s ↔ s = []
  := by
  constructor
  · rintro ⟨⟩
    rfl
  · rintro rfl
    exact Matches.nil

theorem matches_star_iff :
  Matches (.star :: p) s ↔ ∃ u t, s = u ++ t ∧ Matches p t
  := by
  constructor
  · rintro ⟨⟩
    exact ⟨_, _, rfl, ‹_›⟩
  · rintro ⟨u, t, rfl, h⟩
    exact Matches.star u h

theorem matches_any_iff :
  Matches (.any :: p) s ↔ ∃ c t, s = c :: t ∧ Matches p t
  := by
  constructor
  · rintro ⟨⟩
    exact ⟨_, _, rfl, ‹_›⟩
  · rintro ⟨c, t, rfl, h⟩
    exact Matches.any c h

theorem matches_point_iff :
  Matches (.point c :: p) s ↔ ∃ t, s = c :: t ∧ Matches p t
  := by
  constructor
  · rintro ⟨⟩
    exact ⟨_, rfl, ‹_›⟩
  · rintro ⟨t, rfl, h⟩
    exact Matches.point c h

/-! ### Patterns that follow one another -/

theorem Matches.append (hp : Matches p s) (hq : Matches q t) :
  Matches (p ++ q) (s ++ t)
  := by
  induction hp with
  | nil => exact hq
  | star u _ ih =>
    rw [List.append_assoc]
    exact Matches.star u ih
  | any c _ ih => exact Matches.any c ih
  | point c _ ih => exact Matches.point c ih

theorem Matches.of_append (h : Matches (p ++ q) s) :
  ∃ u v, s = u ++ v ∧ Matches p u ∧ Matches q v
  := by
  induction p generalizing s with
  | nil => exact ⟨[], s, rfl, Matches.nil, h⟩
  | cons token p ih =>
    cases h with
    | star w h =>
      obtain ⟨u, v, rfl, hu, hv⟩ := ih h
      exact ⟨w ++ u, v, by simp, Matches.star w hu, hv⟩
    | any c h =>
      obtain ⟨u, v, rfl, hu, hv⟩ := ih h
      exact ⟨c :: u, v, rfl, Matches.any c hu, hv⟩
    | point c h =>
      obtain ⟨u, v, rfl, hu, hv⟩ := ih h
      exact ⟨c :: u, v, rfl, Matches.point c hu, hv⟩

theorem matches_points_append (u : List α) :
  Matches (u.map .point ++ p) s ↔ ∃ t, s = u ++ t ∧ Matches p t
  := by
  induction u generalizing s with
  | nil => simp
  | cons c u ih =>
    rw [List.map_cons, List.cons_append, matches_point_iff]
    constructor
    · rintro ⟨_, rfl, h⟩
      obtain ⟨t, rfl, ht⟩ := ih.mp h
      exact ⟨t, rfl, ht⟩
    · rintro ⟨t, rfl, ht⟩
      exact ⟨u ++ t, rfl, ih.mpr ⟨t, rfl, ht⟩⟩

theorem matches_points (u : List α) :
  Matches (u.map .point) s ↔ s = u
  := by
  have happend := matches_points_append (p := []) (s := s) u
  simpa using happend

theorem Matches.absorb (h : Matches (p ++ [.star]) s) (t : List α) :
  Matches (p ++ [.star]) (s ++ t)
  := by
  induction p generalizing s with
  | nil =>
    obtain ⟨u, v, rfl, hv⟩ := matches_star_iff.mp h
    rw [List.append_assoc, matches_nil_iff.mp hv, List.nil_append]
    have hstar := Matches.star (u ++ t) (Matches.nil (α := α))
    rwa [List.append_nil] at hstar
  | cons token p ih =>
    cases h with
    | star u hp =>
      rw [List.append_assoc]
      exact Matches.star u (ih hp)
    | any c hp => exact Matches.any c (ih hp)
    | point c hp => exact Matches.point c (ih hp)

/-- A list that starts with another is matched by the parts of a pattern, which share a star if the cut lies within it.
-/
theorem Matches.split (h : Matches p (s ++ t)) :
  ∃ u v, p = u ++ v ∧ Matches v t ∧
    (Matches u s ∨ v.head? = some .star ∧ Matches (u ++ [.star]) s)
  := by
  induction p generalizing s with
  | nil =>
    obtain ⟨rfl, rfl⟩ := List.append_eq_nil_iff.mp (matches_nil_iff.mp h)
    exact ⟨[], [], rfl, Matches.nil, .inl Matches.nil⟩
  | cons token p ih =>
    cases s with
    | nil => exact ⟨[], token :: p, rfl, h, .inl Matches.nil⟩
    | cons c s =>
      cases token with
      | star =>
        obtain ⟨w, r, heq, hr⟩ := matches_star_iff.mp h
        rcases List.append_eq_append_iff.mp heq with ⟨w', rfl, rfl⟩ | ⟨r', hs, rfl⟩
        · -- The star goes on behind the start.
          refine ⟨[], .star :: p, rfl, Matches.star w' hr, .inr ⟨rfl, ?_⟩⟩
          have hstar := Matches.star (c :: s) (Matches.nil (α := α))
          rwa [List.append_nil] at hstar
        · obtain ⟨u, v, rfl, hv, hu | ⟨hhead, hu⟩⟩ := ih hr
          · rw [hs]
            exact ⟨.star :: u, v, rfl, hv, .inl (Matches.star w hu)⟩
          · rw [hs]
            exact ⟨.star :: u, v, rfl, hv, .inr ⟨hhead, Matches.star w hu⟩⟩
      | any =>
        obtain ⟨d, r, heq, hr⟩ := matches_any_iff.mp h
        obtain ⟨rfl, rfl⟩ := List.cons.inj heq
        obtain ⟨u, v, rfl, hv, hu | ⟨hhead, hu⟩⟩ := ih hr
        · exact ⟨.any :: u, v, rfl, hv, .inl (Matches.any c hu)⟩
        · exact ⟨.any :: u, v, rfl, hv, .inr ⟨hhead, Matches.any c hu⟩⟩
      | point d =>
        obtain ⟨r, heq, hr⟩ := matches_point_iff.mp h
        obtain ⟨rfl, rfl⟩ := List.cons.inj heq
        obtain ⟨u, v, rfl, hv, hu | ⟨hhead, hu⟩⟩ := ih hr
        · exact ⟨.point c :: u, v, rfl, hv, .inl (Matches.point c hu)⟩
        · exact ⟨.point c :: u, v, rfl, hv, .inr ⟨hhead, Matches.point c hu⟩⟩

/-! ### Filling in -/

def Token.filled (x : α) : Token α → α
  | point c => c
  | _ => x

theorem matches_filled (x : α) (p : List (Token α)) :
  Matches p (p.map (Token.filled x))
  := by
  induction p with
  | nil => exact Matches.nil
  | cons token p ih =>
    cases token with
    | star => exact Matches.star [x] ih
    | any => exact Matches.any x ih
    | point c => exact Matches.point c ih

theorem Matches.getLast? (h : Matches p s) (hlast : p.getLast? = some (.point c)) :
  s.getLast? = some c
  := by
  obtain ⟨p, rfl⟩ := List.getLast?_eq_some_iff.mp hlast
  obtain ⟨u, v, rfl, -, hv⟩ := h.of_append
  obtain ⟨t, rfl, ht⟩ := matches_point_iff.mp hv
  rw [matches_nil_iff.mp ht]
  simp

end Patterns
