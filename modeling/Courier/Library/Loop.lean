import Mathlib.Order.Basic

/-!
# Loops

A loop takes steps until its state is done, so many at most.  It ends with one state, whatever more steps it may take
(`run_of_le`); what every step keeps holds then (`run_invariant`), and it ends if every step makes a measure smaller
(`run_of_measure`).
-/

namespace Loop

variable {S : Type} (done : S → Bool) (step : S → S)

/-- The state in which the loop ends, if it does so in `fuel` steps. -/
def run : Nat → S → Option S
  | 0, s => if done s then some s else none
  | fuel + 1, s => if done s then some s else run fuel (step s)

variable {done step}

theorem run_of_done {s : S} (h : done s = true) (fuel : Nat) :
  run done step fuel s = some s
  := by
  cases fuel with
  | zero => rw [run, if_pos h]
  | succ fuel => rw [run, if_pos h]

theorem run_succ {s : S} (h : done s = false) (fuel : Nat) :
  run done step (fuel + 1) s = run done step fuel (step s)
  := by
  rw [run, if_neg (by simp [h])]

theorem run_of_le {fuel more : Nat} (hle : fuel ≤ more) {s t : S} (h : run done step fuel s = some t) :
  run done step more s = some t
  := by
  induction fuel generalizing more s with
  | zero =>
    rw [run] at h
    split_ifs at h with hdone
    cases h
    exact run_of_done hdone more
  | succ fuel ih =>
    by_cases hdone : done s = true
    · rw [run_of_done hdone] at h ⊢
      exact h
    · rw [Bool.not_eq_true] at hdone
      obtain ⟨more, rfl⟩ := Nat.exists_eq_add_of_le' (Nat.one_le_of_lt hle)
      rw [run_succ hdone] at h ⊢
      exact ih (by omega) h

variable {I : S → Prop} (hstep : ∀ s, I s → done s = false → I (step s))

include hstep

theorem run_invariant {fuel : Nat} {s t : S} (hs : I s) (h : run done step fuel s = some t) :
  I t ∧ done t = true
  := by
  induction fuel generalizing s with
  | zero =>
    rw [run] at h
    split_ifs at h with hdone
    cases h
    exact ⟨hs, hdone⟩
  | succ fuel ih =>
    cases hdone : done s with
    | true =>
      rw [run_of_done hdone] at h
      cases h
      exact ⟨hs, hdone⟩
    | false =>
      rw [run_succ hdone] at h
      exact ih (hstep s hs hdone) h

theorem run_of_measure (size : S → Nat) (hsize : ∀ s, I s → done s = false → size (step s) < size s)
    {fuel : Nat} {s : S} (hs : I s) (hfuel : size s ≤ fuel) :
  ∃ t, run done step fuel s = some t
  := by
  induction fuel generalizing s with
  | zero =>
    cases hdone : done s with
    | true => exact ⟨s, run_of_done hdone 0⟩
    | false =>
      have hless := hsize s hs hdone
      omega
  | succ fuel ih =>
    cases hdone : done s with
    | true => exact ⟨s, run_of_done hdone _⟩
    | false =>
      rw [run_succ hdone]
      have hless := hsize s hs hdone
      exact ih (hstep s hs hdone) (by omega)

end Loop
