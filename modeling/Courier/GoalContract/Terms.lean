import Courier.GoalContract.Record

/-!
# Terms and fingerprints

A fingerprint is taken of the normalised terms.  Values that differ only in their representation come to
the same terms (`build_of_alike`), so they have one fingerprint.
-/

namespace Courier.Goals

open Except Text Json

/-! ### Values that come to the same terms -/

def SameItems (v w : Json) : Prop :=
  ∃ items items', v = .arr items ∧ w = .arr items' ∧ ∀ a, a ∈ items ↔ a ∈ items'

/-- The values differ at most in the order and number of the entries of their lists, and in their confirmations. -/
structure Draft.Alike (x y : Draft) : Prop where
  goalId : x.goalId = y.goalId
  endResult : x.endResult = y.endResult
  allowedScope : SameItems x.allowedScope y.allowedScope
  forbiddenScope : SameItems x.forbiddenScope y.forbiddenScope
  constraints : SameItems x.constraints y.constraints
  acceptanceCriteria : x.acceptanceCriteria.Perm y.acceptanceCriteria
  sideEffectLimits : SameItems x.sideEffectLimits y.sideEffectLimits
  gates : x.gates = y.gates

theorem normList_congr {v w : Json} {label : Str} {texts : List Str} (hsame : SameItems v w)
    (h : normList v label = .ok texts) :
  normList w label = .ok texts
  := by
  obtain ⟨items, items', rfl, rfl, hmem⟩ := hsame
  rw [normList, asList, ok_bind] at h ⊢
  obtain ⟨found, hfound, htexts⟩ := bind_eq_ok.mp h
  have hall := exists_mapM_iff.mp ⟨found, hfound⟩
  obtain ⟨found', hfound'⟩ := exists_mapM_iff.mpr fun a ha => hall a ((hmem a).mpr ha)
  have hfounds : ∀ s, s ∈ found ↔ s ∈ found' := by
    intro s
    rw [mem_mapM_iff hfound, mem_mapM_iff hfound']
    simp only [hmem]
  have hperm : found'.dedup.Perm found.dedup := by
    rw [List.perm_ext_iff_of_nodup (List.nodup_dedup _) (List.nodup_dedup _)]
    intro s
    rw [List.mem_dedup, List.mem_dedup, hfounds]
  have hsorted : found'.dedup.insertionSort (· ≤ ·) = found.dedup.insertionSort (· ≤ ·) := by
    apply List.Perm.eq_of_pairwise' (List.pairwise_insertionSort _ _) (List.pairwise_insertionSort _ _)
    exact (List.perm_insertionSort _ _).trans (hperm.trans (List.perm_insertionSort _ _).symm)
  rw [hfound', ok_bind, hsorted]
  exact htexts

theorem criteria_congr {l m : List AcceptanceCriterion} (h : l.Perm m)
    (hunique : ((l.insertionSort fun a b => a.id ≤ b.id).map (·.id)).Nodup) :
  (m.insertionSort fun a b => a.id ≤ b.id) = l.insertionSort fun a b => a.id ≤ b.id
  := by
  have hperm := (List.perm_insertionSort (fun a b : AcceptanceCriterion => a.id ≤ b.id) m).trans
    (h.symm.trans (List.perm_insertionSort (fun a b : AcceptanceCriterion => a.id ≤ b.id) l).symm)
  apply hperm.eq_of_pairwise ?_ (List.pairwise_insertionSort _ _) (List.pairwise_insertionSort _ _)
  intro a b ha hb hab hba
  exact List.inj_on_of_nodup_map hunique (hperm.mem_iff.mp ha) hb (le_antisymm hab hba)

theorem build_of_alike {x y : Draft} {c : GoalContract} (h : x.build = .ok c) (halike : x.Alike y) :
  ∃ d, y.build = .ok d ∧ d.termsRecord = c.termsRecord
  := by
  obtain ⟨hgoal, hend, hallowed, hforbidden, hconstraints, hlimits, -⟩ := build_eq_ok h
  obtain ⟨hcriteria, hgates⟩ := criteria_of_build h
  have hunique := c.unique
  rw [hcriteria] at hunique
  rw [halike.goalId] at hgoal
  rw [halike.endResult] at hend
  obtain ⟨d, hd, h₁, h₂, h₃, h₄, h₅, h₆, h₇, h₈, -⟩ := exists_build y hgoal hend
    (normList_congr halike.allowedScope hallowed) (normList_congr halike.forbiddenScope hforbidden)
    (normList_congr halike.constraints hconstraints) (normList_congr halike.sideEffectLimits hlimits) c.apart
    ((criteria_congr halike.acceptanceCriteria hunique).trans hcriteria.symm)
  refine ⟨d, hd, ?_⟩
  rw [GoalContract.termsRecord, GoalContract.termsRecord, h₁, h₂, h₃, h₄, h₅, h₆, h₇, h₈, ← halike.gates, hgates]

end Courier.Goals
