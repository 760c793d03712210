import Mathlib.Logic.ExistsUnique
import Mathlib.Logic.Function.Basic
import Mathlib.Tactic.SplitIfs

/-!
# Holders and what they hold

Each holder holds at most one thing, and each thing has a record of its holder, or none.  The two are
linked if they agree and no thing has two holders.  A thing is taken, dropped and taken anew; each step
keeps the two sides linked.
-/

namespace Holders

variable {S K C : Type} [DecidableEq S] [DecidableEq K]

/-- What the holders hold, with a mark, agrees with the marks that are recorded of the things. -/
structure Linked (holds : S → Option (K × C)) (held : K → Option C) : Prop where
  recorded : ∀ {s k c}, holds s = some (k, c) → held k = some c
  holder : ∀ {k c}, held k = some c → ∃ s, holds s = some (k, c)
  alone : ∀ {s s' k c c'}, holds s = some (k, c) → holds s' = some (k, c') → s = s'

variable {holds : S → Option (K × C)} {held : K → Option C}

section

omit [DecidableEq S] [DecidableEq K]

theorem linked_empty :
  Linked (fun _ : S => (none : Option (K × C))) fun _ => none
  where
  recorded := by
    intro s k c h
    cases h
  holder := by
    intro k c h
    cases h
  alone := by
    intro s s' k c c' h
    cases h

theorem Linked.isSome_iff (h : Linked holds held) (k : K) :
  (held k).isSome ↔ ∃! s, ∃ c, holds s = some (k, c)
  := by
  constructor
  · intro hsome
    obtain ⟨c, hc⟩ := Option.isSome_iff_exists.mp hsome
    obtain ⟨s, hs⟩ := h.holder hc
    refine ⟨s, ⟨c, hs⟩, ?_⟩
    rintro s' ⟨c', hs'⟩
    exact h.alone hs' hs
  · rintro ⟨s, ⟨c, hs⟩, -⟩
    rw [h.recorded hs]
    rfl

theorem Linked.ne_of_none (h : Linked holds held) {k l : K} (hk : held k = none) {s : S} {c : C}
    (hs : holds s = some (l, c)) :
  l ≠ k
  := by
  rintro rfl
  rw [h.recorded hs] at hk
  cases hk

end

/-- A holder that holds nothing takes a thing that nobody holds. -/
theorem Linked.take (h : Linked holds held) {s : S} {k : K} (hs : holds s = none) (hk : held k = none)
    (c : C) :
  Linked (Function.update holds s (some (k, c))) (Function.update held k (some c))
  where
  recorded := by
    intro s' k' c' hs'
    rw [Function.update_apply] at hs'
    split_ifs at hs' with heq
    · cases hs'
      exact Function.update_self ..
    · rw [Function.update_of_ne (h.ne_of_none hk hs')]
      exact h.recorded hs'
  holder := by
    intro k' c' hk'
    rw [Function.update_apply] at hk'
    split_ifs at hk' with heq
    · cases hk'
      exact ⟨s, by rw [Function.update_self, heq]⟩
    · obtain ⟨s', hs'⟩ := h.holder hk'
      refine ⟨s', ?_⟩
      rw [Function.update_of_ne _, hs']
      rintro rfl
      rw [hs] at hs'
      cases hs'
  alone := by
    intro s₁ s₂ k' c₁ c₂ h₁ h₂
    rw [Function.update_apply] at h₁ h₂
    split_ifs at h₁ with heq₁
    · cases h₁
      split_ifs at h₂ with heq₂
      · rw [heq₁, heq₂]
      · exact absurd rfl (h.ne_of_none hk h₂)
    · split_ifs at h₂ with heq₂
      · cases h₂
        exact absurd rfl (h.ne_of_none hk h₁)
      · exact h.alone h₁ h₂

theorem Linked.drop (h : Linked holds held) {s : S} {k : K} {c : C} (hs : holds s = some (k, c)) :
  Linked (Function.update holds s none) (Function.update held k none)
  where
  recorded := by
    intro s' k' c' hs'
    rw [Function.update_apply] at hs'
    split_ifs at hs' with heq
    rw [Function.update_of_ne _, h.recorded hs']
    rintro rfl
    exact heq (h.alone hs' hs)
  holder := by
    intro k' c' hk'
    rw [Function.update_apply] at hk'
    split_ifs at hk' with heq
    obtain ⟨s', hs'⟩ := h.holder hk'
    refine ⟨s', ?_⟩
    rw [Function.update_of_ne _, hs']
    rintro rfl
    rw [hs] at hs'
    exact heq (Prod.mk.inj (Option.some.inj hs')).1.symm
  alone := by
    intro s₁ s₂ k' c₁ c₂ h₁ h₂
    rw [Function.update_apply] at h₁ h₂
    split_ifs at h₁
    split_ifs at h₂
    exact h.alone h₁ h₂

theorem Linked.renew (h : Linked holds held) {s : S} {k : K} {c : C} (hs : holds s = some (k, c))
    (c' : C) :
  Linked (Function.update holds s (some (k, c'))) (Function.update held k (some c'))
  := by
  have hdropped := h.drop hs
  have htaken := hdropped.take (Function.update_self ..) (Function.update_self ..) c'
  rwa [Function.update_idem, Function.update_idem] at htaken

omit [DecidableEq S] [DecidableEq K] in
/-- The marks are changed on both sides. -/
theorem Linked.map {D : Type} (h : Linked holds held) (f : C → D) :
  Linked (fun s => (holds s).map fun p => (p.1, f p.2)) fun k => (held k).map f
  where
  recorded := by
    intro s k d hs
    obtain ⟨⟨l, c⟩, hc, heq⟩ := Option.map_eq_some_iff.mp hs
    cases heq
    rw [h.recorded hc]
    rfl
  holder := by
    intro k d hk
    obtain ⟨c, hc, rfl⟩ := Option.map_eq_some_iff.mp hk
    obtain ⟨s, hs⟩ := h.holder hc
    exact ⟨s, by rw [hs]; rfl⟩
  alone := by
    intro s s' k d d' hs hs'
    obtain ⟨⟨l, c⟩, hc, heq⟩ := Option.map_eq_some_iff.mp hs
    obtain ⟨⟨l', c'⟩, hc', heq'⟩ := Option.map_eq_some_iff.mp hs'
    cases heq
    cases heq'
    exact h.alone hc hc'

end Holders
