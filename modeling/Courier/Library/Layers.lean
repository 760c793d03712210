import Mathlib.Data.Fintype.Card
import Mathlib.Data.Fintype.EquivFin
import Mathlib.Data.List.Nodup
import Mathlib.Logic.Relation

/-!
# Layers of a relation

`dep d n` says that `n` depends on `d`.  Layers are peeled off if all that the elements of a layer depend on lies in
earlier ones, and some of it just before.  Then the place of an element is the length of the longest chain that leads
to it, and there are no cycles.
-/

namespace Layers

variable {α : Type} {dep : α → α → Prop}

/-- An element depends on itself over a chain. -/
def Cyclic (dep : α → α → Prop) : Prop :=
  ∃ n, Relation.TransGen dep n n

theorem cyclic_of_stuck {s : List α} (hne : s ≠ []) (hstuck : ∀ n ∈ s, ∃ d ∈ s, dep d n) :
  Cyclic dep
  := by
  by_contra hacyclic
  classical
  have : Finite {n // n ∈ s} := inferInstance
  let chain : {n // n ∈ s} → {n // n ∈ s} → Prop := fun d n => Relation.TransGen dep d.1 n.1
  have : IsTrans _ chain := ⟨fun _ _ _ hab hbc => Relation.TransGen.trans hab hbc⟩
  have : Std.Irrefl chain := ⟨fun n hn => hacyclic ⟨n.1, hn⟩⟩
  have hnone : ∀ n : {n // n ∈ s}, False := by
    intro n
    induction n using (Finite.wellFounded_of_trans_of_irrefl chain).induction with
    | _ n ih =>
      obtain ⟨d, hd, hdep⟩ := hstuck n.1 n.2
      exact ih ⟨d, hd⟩ (.single hdep)
  obtain ⟨n, hn⟩ := List.exists_mem_of_ne_nil s hne
  exact hnone ⟨n, hn⟩

theorem not_cyclic_of_rank (rank : α → Nat) (h : ∀ d n, dep d n → rank d < rank n) :
  ¬ Cyclic dep
  := by
  rintro ⟨n, hn⟩
  have hgrows : ∀ m, Relation.TransGen dep n m → rank n < rank m := by
    intro m hm
    induction hm with
    | single hdep => exact h _ _ hdep
    | tail _ hdep ih => exact ih.trans (h _ _ hdep)
  exact lt_irrefl _ (hgrows n hn)

/-- The layers are peeled off the relation one after the other. -/
inductive Layered (dep : α → α → Prop) : List (List α) → Prop where
  | nil : Layered dep []
  | concat {stages : List (List α)} {stage : List α}
      (earlier : Layered dep stages)
      (nodup : stage.Nodup)
      (new : ∀ n ∈ stage, n ∉ stages.flatten)
      (met : ∀ n ∈ stage, ∀ d, dep d n → d ∈ stages.flatten)
      (tight : ∀ n ∈ stage, ∀ last ∈ stages.getLast?, ∃ d ∈ last, dep d n) :
      Layered dep (stages ++ [stage])

variable [DecidableEq α] {stages : List (List α)}

/-- The place of the layer of an element. -/
def stageOf (stages : List (List α)) (n : α) : Nat :=
  stages.findIdx fun stage => n ∈ stage

theorem stageOf_append_of_mem {n : α} (h : n ∈ stages.flatten) (more : List (List α)) :
  stageOf (stages ++ more) n = stageOf stages n
  := by
  obtain ⟨stage, hstage, hn⟩ := List.mem_flatten.mp h
  rw [stageOf, List.findIdx_append, if_pos]
  · rfl
  · exact List.findIdx_lt_length_of_exists ⟨stage, hstage, by simpa using hn⟩

theorem stageOf_lt (h : n ∈ stages.flatten) :
  stageOf stages n < stages.length
  := by
  obtain ⟨stage, hstage, hn⟩ := List.mem_flatten.mp h
  exact List.findIdx_lt_length_of_exists ⟨stage, hstage, by simpa using hn⟩

theorem stageOf_concat {stage : List α} {n : α} (hnew : n ∉ stages.flatten) (hn : n ∈ stage) :
  stageOf (stages ++ [stage]) n = stages.length
  := by
  have hnone : stages.findIdx (fun stage => n ∈ stage) = stages.length := by
    rw [List.findIdx_eq_length]
    intro earlier hearlier
    simpa using fun hmem => hnew (List.mem_flatten.mpr ⟨earlier, hearlier, hmem⟩)
  rw [stageOf, List.findIdx_append, hnone, if_neg (lt_irrefl _)]
  simp [hn]

section

omit [DecidableEq α]

theorem Layered.nodup (h : Layered dep stages) :
  stages.flatten.Nodup
  := by
  induction h with
  | nil => exact List.nodup_nil
  | concat _ hstage hnew _ _ ih =>
    rw [List.flatten_concat, List.nodup_append]
    refine ⟨ih, hstage, ?_⟩
    rintro n hn _ hstage' rfl
    exact hnew n hstage' hn

theorem Layered.closed (h : Layered dep stages) {d n : α} (hn : n ∈ stages.flatten) (hdep : dep d n) :
  d ∈ stages.flatten
  := by
  induction h with
  | nil => cases hn
  | concat _ _ _ hmet _ ih =>
    rw [List.flatten_concat, List.mem_append] at hn ⊢
    left
    rcases hn with hn | hn
    · exact ih hn
    · exact hmet n hn d hdep

end

theorem Layered.stageOf_lt_stageOf (h : Layered dep stages) {d n : α} (hn : n ∈ stages.flatten)
    (hdep : dep d n) :
  stageOf stages d < stageOf stages n
  := by
  induction h with
  | nil => cases hn
  | concat hearlier _ hnew hmet _ ih =>
    rw [List.flatten_concat, List.mem_append] at hn
    rcases hn with hn | hn
    · rw [stageOf_append_of_mem hn, stageOf_append_of_mem (hearlier.closed hn hdep)]
      exact ih hn
    · have hd := hmet n hn d hdep
      rw [stageOf_append_of_mem hd, stageOf_concat (hnew n hn) hn]
      exact stageOf_lt hd

/-- An element that is not in the first layer depends on one of the layer just before. -/
theorem Layered.exists_dep (h : Layered dep stages) {n : α} (hn : n ∈ stages.flatten)
    (hlater : stageOf stages n ≠ 0) :
  ∃ d, dep d n ∧ stageOf stages n = stageOf stages d + 1
  := by
  induction h with
  | nil => cases hn
  | @concat stages stage hearlier _ hnew hmet htight ih =>
    rw [List.flatten_concat, List.mem_append] at hn
    rcases hn with hn | hn
    · rw [stageOf_append_of_mem hn] at hlater ⊢
      obtain ⟨d, hdep, hstage⟩ := ih hn hlater
      refine ⟨d, hdep, ?_⟩
      rw [stageOf_append_of_mem (hearlier.closed hn hdep)]
      exact hstage
    · rw [stageOf_concat (hnew n hn) hn] at hlater ⊢
      obtain ⟨before, last, rfl⟩ := List.eq_nil_or_concat stages |>.resolve_left
        fun hnil => hlater (by rw [hnil]; rfl)
      obtain ⟨d, hd, hdep⟩ := htight n hn last (by simp)
      refine ⟨d, hdep, ?_⟩
      have hmem := hmet n hn d hdep
      have hbefore : d ∉ before.flatten := by
        have hnodup := hearlier.nodup
        rw [List.concat_eq_append, List.flatten_concat, List.nodup_append] at hnodup
        intro hd'
        exact hnodup.2.2 d hd' d hd rfl
      rw [stageOf_append_of_mem hmem, List.concat_eq_append, stageOf_concat hbefore hd,
        List.length_append, List.length_singleton]

theorem Layered.not_cyclic (h : Layered dep stages) (hall : ∀ d n, dep d n → n ∈ stages.flatten) :
  ¬ Cyclic dep
  := not_cyclic_of_rank (stageOf stages) fun _ _ hdep => h.stageOf_lt_stageOf (hall _ _ hdep) hdep

theorem Layered.idxOf_lt (h : Layered dep stages) {d n : α} (hn : n ∈ stages.flatten)
    (hdep : dep d n) :
  stages.flatten.idxOf d < stages.flatten.idxOf n
  := by
  induction h with
  | nil => cases hn
  | @concat stages stage hearlier _ hnew hmet _ ih =>
    rw [List.flatten_concat, List.mem_append] at hn
    rw [List.flatten_concat]
    rcases hn with hn | hn
    · rw [List.idxOf_append_of_mem hn, List.idxOf_append_of_mem (hearlier.closed hn hdep)]
      exact ih hn
    · have hd := hmet n hn d hdep
      rw [List.idxOf_append_of_mem hd, List.idxOf_append_of_notMem (hnew n hn)]
      exact Nat.lt_add_right _ (List.idxOf_lt_length_of_mem hd)

end Layers
