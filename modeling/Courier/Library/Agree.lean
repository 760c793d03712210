import Mathlib.Data.List.Infix

/-!
# Common prefixes

`agree xs ys` is the length of the longest common prefix of two lists.  A list is tiled by another one if
it can be cut into prefixes of it that are not empty, each as long as it can be.
-/

namespace Agree

variable {α : Type} [DecidableEq α]

/-- On how many elements two lists agree from their start on. -/
def agree : List α → List α → Nat
  | x :: xs, y :: ys => if x = y then agree xs ys + 1 else 0
  | _, _ => 0

theorem take_agree :
  ∀ xs ys : List α, xs.take (agree xs ys) = ys.take (agree xs ys)
  | [], ys => by simp [agree]
  | x :: xs, [] => by simp [agree]
  | x :: xs, y :: ys => by
    rw [agree]
    split_ifs with heq
    · rw [List.take_succ_cons, List.take_succ_cons, take_agree xs ys, heq]
    · rfl

theorem agree_le_left :
  ∀ xs ys : List α, agree xs ys ≤ xs.length
  | [], ys => by simp [agree]
  | x :: xs, [] => by simp [agree]
  | x :: xs, y :: ys => by
    rw [agree, List.length_cons]
    split_ifs
    · exact Nat.succ_le_succ (agree_le_left xs ys)
    · exact Nat.zero_le _

theorem head_drop_agree :
  ∀ (xs ys : List α) (x : α), (xs.drop (agree xs ys)).head? = some x →
    (ys.drop (agree xs ys)).head? ≠ some x
  | [], ys, x, h => by simp [agree] at h
  | x :: xs, [], _, _ => by simp [agree]
  | x :: xs, y :: ys, z, h => by
    rw [agree] at h ⊢
    split_ifs at h ⊢ with heq
    · exact head_drop_agree xs ys z h
    · simp only [List.drop_zero, List.head?_cons, Option.some.injEq, ne_eq] at h ⊢
      rintro rfl
      exact heq h

theorem agree_append {rest : List α} :
  ∀ {p base : List α}, p <+: base → (∀ x, rest.head? = some x → (base.drop p.length).head? ≠ some x) →
    agree (p ++ rest) base = p.length
  | [], base, _, h => by
    cases rest with
    | nil => simp [agree]
    | cons x rest =>
      cases base with
      | nil => simp [agree]
      | cons y base =>
        have hne : y ≠ x := by simpa using h x rfl
        rw [List.nil_append, agree, if_neg hne.symm, List.length_nil]
  | x :: p, [], hp, _ => by simp at hp
  | x :: p, y :: base, hp, h => by
    obtain ⟨rfl, hrest⟩ := List.cons_prefix_cons.mp hp
    have hagree : agree (p ++ rest) base = p.length := agree_append hrest h
    rw [List.cons_append, agree, if_pos rfl, hagree, List.length_cons]

/-- The list is cut into prefixes of `base` that are not empty, each as long as it can be. -/
inductive Tiled (base : List α) : List α → Prop
  | nil : Tiled base []
  | tile {p rest : List α} : p ≠ [] → p <+: base →
      (∀ x, rest.head? = some x → (base.drop p.length).head? ≠ some x) → Tiled base rest →
      Tiled base (p ++ rest)

theorem tiled_of_drop {base xs : List α} (hne : agree xs base ≠ 0) (h : Tiled base (xs.drop (agree xs base))) :
  Tiled base xs
  := by
  have htile := Tiled.tile (p := xs.take (agree xs base)) ?_ ?_ ?_ h
  · rwa [List.take_append_drop] at htile
  · intro hnil
    have hlength := congrArg List.length hnil
    rw [List.length_take, Nat.min_eq_left (agree_le_left xs base)] at hlength
    exact hne hlength
  · rw [take_agree]
    exact List.take_prefix _ _
  · rw [List.length_take, Nat.min_eq_left (agree_le_left xs base)]
    exact head_drop_agree xs base

theorem Tiled.drop {base xs : List α} (h : Tiled base xs) (hne : xs ≠ []) :
  agree xs base ≠ 0 ∧ Tiled base (xs.drop (agree xs base))
  := by
  cases h with
  | nil => exact absurd rfl hne
  | tile hp hbase hhead hrest =>
    rw [agree_append hbase hhead, List.drop_left]
    exact ⟨fun hzero => hp (List.length_eq_zero_iff.mp hzero), hrest⟩

end Agree
