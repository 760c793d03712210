import Courier.GoalContract.Acceptance

/-!
# What a task reads as

A task is accepted for its acceptance ids without the white space around them, but read for the ids as they are
written.  So the reading is right exactly if each id stands there without white space (`names_iff`).
-/

namespace Courier.Goals

open Except Text Json

structure TaskReading where
  verdict : Verdict
  done : List Str
  blocked : List Str
  deriving DecidableEq

def listed (items : List Str) : Str :=
  (text ", ").intercalate (items.insertionSort (· ≤ ·))

def doneLine (item : AcceptanceCriterion) : Str :=
  text "Done: " ++ item.id ++ text " — " ++ item.check ++ text "."

def anchored (taskSpec : Json) : List Json :=
  (get taskSpec.asMembers (text "acceptance_ids")).asItems

namespace GoalContract

def blockedLine (c : GoalContract) (reason : Reason) (taskSpec : Json) : Str :=
  let spec := taskSpec.asMembers
  let scope := ((taskScope (get spec (text "scope"))).getD []).dedup
  match reason with
  | .unconfirmed => text "Blocked: a person has not confirmed these terms."
  | .staleFingerprint => text "Blocked: the task fingerprint does not match the current terms."
  | .forbiddenScope =>
      text "Blocked: scope includes forbidden " ++
        listed (scope.filter fun item => item ∈ c.forbiddenScope) ++ text "."
  | .scopeWidened =>
      text "Blocked: scope adds " ++ listed (scope.filter fun item => item ∉ c.allowedScope) ++
        text ", which is outside the allowed scope."
  | .criteriaChanged =>
      let anchors := (taskIds (get spec (text "acceptance_ids"))).getD []
      text "Blocked: acceptance id " ++
        listed (anchors.filter fun item => item ∉ c.acceptanceCriteria.map (·.id)) ++
        text " is not in the contract."
  | .missingAcceptanceAnchor => text "Blocked: the task has no acceptance criterion to check."
  | .missingEvidenceClass => text "Blocked: the task names no evidence class."
  | .evidenceClassMismatch =>
      text "Blocked: evidence class " ++ strip (get spec (text "evidence_class")).asStr ++
        text " does not match the criterion."
  | .goalIdMismatch => text "Blocked: the task names a different goal."
  | .missingGoalId => text "Blocked: the task names no goal."
  | .missingFingerprint => text "Blocked: the task names no fingerprint."
  | .unknownField => text "Blocked: the task has a field the contract does not accept."
  | .taskSpecInvalid => text "Blocked: the task is not a record."
  | .scopeInvalid => text "Blocked: the task scope is not a list of phrases."
  | .missingContract => text "Blocked: " ++ reason.value ++ text "."

def readTask [Platform] (c : GoalContract) (taskSpec : Json) : TaskReading :=
  let validation := c.validateTask taskSpec
  if validation.verdict ≠ .accepted then
    ⟨validation.verdict, [], validation.reasons.map fun reason => c.blockedLine reason taskSpec⟩
  else
    ⟨validation.verdict,
      (c.acceptanceCriteria.filter fun item => .str item.id ∈ anchored taskSpec).map doneLine, []⟩

def resolved (c : GoalContract) (taskSpec : Json) : List AcceptanceCriterion :=
  let ids := (taskIds (get taskSpec.asMembers (text "acceptance_ids"))).getD []
  c.acceptanceCriteria.filter fun item => item ∈ ids.filterMap c.criterion

def NamesCriteria [Platform] (c : GoalContract) (taskSpec : Json) : Prop :=
  (c.readTask taskSpec).done ≠ [] ∧
    (c.readTask taskSpec).done = (c.resolved taskSpec).map doneLine

end GoalContract

/-! ### Acceptance ids -/

variable {c : GoalContract}

theorem strip_id_of_made (hc : c.Made) {k : AcceptanceCriterion}
    (hk : k ∈ c.acceptanceCriteria) :
  strip k.id = k.id
  := by
  obtain ⟨id, check, evidenceClass, hmake⟩ := hc.criteria k hk
  obtain ⟨id', hid, hmake⟩ := bind_eq_ok.mp hmake
  obtain ⟨check', -, hmake⟩ := bind_eq_ok.mp hmake
  obtain ⟨evidenceClass', -, hmake⟩ := bind_eq_ok.mp hmake
  cases hmake
  obtain ⟨t, -, rfl⟩ := textOf_eq_ok hid
  exact strip_strip t

theorem phrase_eq_some {item : Json} {id : Str} (h : phrase item = some id) :
  ∃ s, item = .str s ∧ id = strip s
  := by
  unfold phrase at h
  cases item with
  | str s =>
    dsimp only at h
    split_ifs at h
    cases h
    exact ⟨s, rfl, rfl⟩
  | _ => cases h

theorem taskIds_eq_some {value : Json} {ids : List Str} (h : taskIds value = some ids) :
  ∃ written : List Str, value = .arr (written.map .str) ∧ ids = written.map strip
  := by
  unfold taskIds at h
  cases value with
  | arr items =>
    dsimp only at h
    split_ifs at h
    have hpairs := Option.mapM_eq_some.mp h
    clear * - hpairs
    induction hpairs with
    | nil => exact ⟨[], rfl, rfl⟩
    | cons hhead _ ih =>
      obtain ⟨s, rfl, rfl⟩ := phrase_eq_some hhead
      obtain ⟨written, hvalue, rfl⟩ := ih
      refine ⟨s :: written, ?_, rfl⟩
      rw [Json.arr.injEq] at hvalue
      rw [hvalue, List.map_cons]
  | _ => cases h

theorem anchored_of_accepted [Platform] {taskSpec : Json}
    (h : (c.validateTask taskSpec).verdict = .accepted) :
  ∃ written : List Str, written ≠ [] ∧
    anchored taskSpec = written.map .str ∧
    taskIds (get taskSpec.asMembers (text "acceptance_ids")) = some (written.map strip) ∧
    ∀ s ∈ written, ∃ k ∈ c.acceptanceCriteria, k.id = strip s
  := by
  obtain ⟨task, rfl, hfits⟩ := accepted_iff.mp h
  obtain ⟨ids, evidence, hids, hne, -, -, hclass⟩ := hfits.anchored
  obtain ⟨written, hvalue, rfl⟩ := taskIds_eq_some hids
  refine ⟨written, ?_, ?_, hids, ?_⟩
  · rintro rfl
    exact hne rfl
  · rw [anchored, asMembers_obj, hvalue]
    rfl
  · intro s hs
    obtain ⟨k, hk, hid, -⟩ := hclass (strip s) (List.mem_map_of_mem hs)
    exact ⟨k, hk, hid⟩

/-! ### Contracts of the constructors -/

theorem made_of_build {draft : Draft} (h : draft.build = .ok c)
    (hcriteria : ∀ k ∈ draft.acceptanceCriteria,
      ∃ id check evidenceClass, AcceptanceCriterion.make id check evidenceClass = .ok k)
    (hconfirmations : ∀ f ∈ draft.confirmations,
      ∃ actorKind actorRef at_, Confirmation.make actorKind actorRef at_ = .ok f) :
  c.Made
  := by
  obtain ⟨-, -, -, -, -, -, hsame, hconfirmed⟩ := build_eq_ok h
  exact {
    built := ⟨draft, h⟩
    criteria := fun k hk => hcriteria k ((hsame k).mp hk)
    confirmations := hconfirmed ▸ hconfirmations }

theorem GoalContract.Made.confirm {c' : GoalContract} {actorRef at_ actorKind : Json} (hc : c.Made)
    (h : c.confirm actorRef at_ actorKind = .ok c') :
  c'.Made
  := by
  obtain ⟨confirmation, hmake, hbuild⟩ := bind_eq_ok.mp h
  apply made_of_build hbuild hc.criteria
  intro f hf
  rcases List.mem_append.mp hf with hold | hnew
  · exact hc.confirmations f hold
  · rw [List.mem_singleton] at hnew
    exact ⟨actorKind, actorRef, at_, hnew ▸ hmake⟩

/-! ### The reading of an accepted task -/

theorem mem_filterMap_criterion {ids : List Str} {k : AcceptanceCriterion} :
  k ∈ ids.filterMap c.criterion ↔ k ∈ c.acceptanceCriteria ∧ k.id ∈ ids
  := by
  simp only [List.mem_filterMap, criterion_eq_some]
  constructor
  · rintro ⟨id, hid, hk, rfl⟩
    exact ⟨hk, hid⟩
  · rintro ⟨hk, hid⟩
    exact ⟨k.id, hid, hk, rfl⟩

/-- The reading of an accepted task names its criteria exactly if each acceptance id without its white space is one of
them. -/
theorem names_iff [Platform] {c : GoalContract} {taskSpec : Json} (hc : c.Made)
    (h : (c.validateTask taskSpec).verdict = .accepted) :
  c.NamesCriteria taskSpec ↔
    ∀ s, .str s ∈ anchored taskSpec → .str (strip s) ∈ anchored taskSpec
  := by
  obtain ⟨written, hne, hanchored, hids, hknown⟩ := anchored_of_accepted h
  have hdone : (c.readTask taskSpec).done =
      (c.acceptanceCriteria.filter fun item => item.id ∈ written).map doneLine := by
    simp [GoalContract.readTask, h, hanchored]
  have hresolved : c.resolved taskSpec =
      c.acceptanceCriteria.filter fun item => item.id ∈ written.map strip := by
    rw [GoalContract.resolved, hids, Option.getD_some]
    apply List.filter_congr
    intro k hk
    rw [decide_eq_decide, mem_filterMap_criterion]
    exact and_iff_right hk
  have hstripped : ∀ k ∈ c.acceptanceCriteria, k.id ∈ written → k.id ∈ written.map strip := by
    intro k hk hid
    exact List.mem_map.mpr ⟨k.id, hid, strip_id_of_made hc hk⟩
  simp only [GoalContract.NamesCriteria, hdone, hresolved, hanchored, List.mem_map, Json.str.injEq,
    exists_eq_right]
  constructor
  · rintro ⟨-, heq⟩ s hs
    have hsub : (c.acceptanceCriteria.filter fun item => item.id ∈ written).Sublist
        (c.acceptanceCriteria.filter fun item => item.id ∈ written.map strip) := by
      have hboth : (c.acceptanceCriteria.filter fun item => item.id ∈ written) =
          (c.acceptanceCriteria.filter fun item => item.id ∈ written.map strip).filter
            fun item => item.id ∈ written := by
        rw [List.filter_filter]
        apply List.filter_congr
        intro k hk
        rw [Bool.eq_iff_iff, Bool.and_eq_true]
        simp only [decide_eq_true_eq]
        exact (and_iff_left_of_imp (hstripped k hk)).symm
      rw [hboth]
      exact List.filter_sublist
    have hfilter := hsub.eq_of_length (by simpa using congrArg List.length heq)
    obtain ⟨k, hk, hid⟩ := hknown s hs
    have hmem : k ∈ c.acceptanceCriteria.filter fun item => item.id ∈ written.map strip := by
      simpa [hk, hid] using ⟨s, hs, rfl⟩
    rw [← hfilter, List.mem_filter, hid] at hmem
    simpa using hmem.2
  · intro hall
    have hfilter : (c.acceptanceCriteria.filter fun item => item.id ∈ written) =
        c.acceptanceCriteria.filter fun item => item.id ∈ written.map strip := by
      apply List.filter_congr
      intro k hk
      rw [decide_eq_decide]
      constructor
      · exact hstripped k hk
      · intro hid
        obtain ⟨s, hs, hsame⟩ := List.mem_map.mp hid
        exact hsame ▸ hall s hs
    obtain ⟨s, hs⟩ := List.exists_mem_of_ne_nil written hne
    obtain ⟨k, hk, hid⟩ := hknown s hs
    refine ⟨?_, by simp only [List.mem_map] at hfilter; rw [hfilter]⟩
    apply List.ne_nil_of_mem
    apply List.mem_map_of_mem
    exact List.mem_filter.mpr ⟨hk, by simpa [hid] using hall s hs⟩

/-! ### An id with a space -/

section Example

local instance platformRead : Platform :=
  digestOf (canonicalTerms (sample (text "ship the report"))) reportDigest

def anchoredTask (id : Str) : Json :=
  .obj [(text "acceptance_ids", ofTexts [id]),
    (text "evidence_class", .str (text "deterministic")),
    (text "goal_fingerprint", .str reportDigest),
    (text "goal_id", .str (text "g1")),
    (text "scope", ofTexts [text "docs"])]

def confirmedSample : Except GoalContractError GoalContract := do
  let c ← (sample (text "ship the report")).build
  c.confirm (.str (text "alice")) (.str (text "2026-10-07T12:00:00Z")) (.str (text "human"))

theorem made_of_confirmedSample (h : confirmedSample = .ok c) :
  c.Made
  := by
  obtain ⟨c₀, hbuild, hconfirm⟩ := bind_eq_ok.mp h
  apply GoalContract.Made.confirm (made_of_build hbuild ?_ ?_) hconfirm
  · intro k hk
    rw [sample, List.mem_singleton] at hk
    subst hk
    exact ⟨.str (text "c1"), .str (text "report exists"), .str (text "deterministic"), by decide⟩
  · intro f hf
    cases hf

theorem exists_confirmedSample {p : GoalContract → Prop} [DecidablePred p]
    (h : (match confirmedSample with
      | .ok c => decide (p c)
      | .error _ => false) = true) :
  ∃ c : GoalContract, c.Made ∧ p c
  := by
  cases hsample : confirmedSample with
  | ok c =>
    rw [hsample] at h
    exact ⟨c, made_of_confirmedSample hsample, of_decide_eq_true h⟩
  | error e =>
    rw [hsample] at h
    cases h

theorem names_of_anchored :
  ∃ c : GoalContract, c.Made ∧
    (c.validateTask (anchoredTask (text "c1"))).verdict = .accepted ∧
    c.NamesCriteria (anchoredTask (text "c1"))
  := by
  obtain ⟨c, hmade, haccepted⟩ := exists_confirmedSample
    (p := fun c => (c.validateTask (anchoredTask (text "c1"))).verdict = .accepted)
    (by decide +kernel)
  refine ⟨c, hmade, haccepted, (names_iff hmade haccepted).mpr ?_⟩
  intro s hs
  have hanchored : anchored (anchoredTask (text "c1")) = [.str (text "c1")] := by decide
  rw [hanchored, List.mem_singleton, Json.str.injEq] at hs ⊢
  rw [hs]
  decide

theorem names_nothing_of_spaced :
  ∃ c : GoalContract, c.Made ∧
    (c.validateTask (anchoredTask (text " c1"))).verdict = .accepted ∧
    (c.resolved (anchoredTask (text " c1"))).map (·.id) = [text "c1"] ∧
    (c.readTask (anchoredTask (text " c1"))).done = [] ∧
    ¬ c.NamesCriteria (anchoredTask (text " c1"))
  := by
  obtain ⟨c, hmade, haccepted, hresolved, hdone⟩ := exists_confirmedSample
    (p := fun c => (c.validateTask (anchoredTask (text " c1"))).verdict = .accepted ∧
      (c.resolved (anchoredTask (text " c1"))).map (·.id) = [text "c1"] ∧
      (c.readTask (anchoredTask (text " c1"))).done = [])
    (by decide +kernel)
  exact ⟨c, hmade, haccepted, hresolved, hdone, fun hnames => hnames.1 hdone⟩

end Example

end Courier.Goals
