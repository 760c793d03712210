import Courier.GoalContract.Reading

/-!
# Records of contracts

A contract is kept as a record of its values.  A record is read by the constructors, which check and
normalise the values again; what they accepted once they leave as it is, so every contract is read back
from its record (`fromRecord_toRecord`).
-/

namespace Courier.Goals

open Except Text Json

/-! ### Reading records -/

/-- `_object`. -/
def objectOf (value : Json) (label : Str) (fields : List Str) : Except GoalContractError Members :=
  match value with
  | .obj data =>
      let unknown := (data.map Prod.fst).filter fun k => k ∉ fields
      let missing := fields.filter fun k => !hasKey data k
      if unknown ≠ [] then
        .error (label ++ text " has unknown field: " ++
          (text ", ").intercalate (unknown.insertionSort (· ≤ ·)))
      else if missing ≠ [] then
        .error (label ++ text " is missing " ++ (text ", ").intercalate (missing.insertionSort (· ≤ ·)))
      else .ok data
  | _ => .error (label ++ text " must be an object")

def AcceptanceCriterion.fromRecord (record : Json) : Except GoalContractError AcceptanceCriterion := do
  let data ← objectOf record (text "acceptance criterion") [text "id", text "check", text "evidence_class"]
  AcceptanceCriterion.make (get data (text "id")) (get data (text "check")) (get data (text "evidence_class"))

def Confirmation.toRecord (f : Confirmation) : Json :=
  .obj [(text "actor_kind", .str f.actorKind), (text "actor_ref", .str f.actorRef), (text "at", .str f.at_)]

def Confirmation.fromRecord (record : Json) : Except GoalContractError Confirmation := do
  let data ← objectOf record (text "confirmation") [text "actor_kind", text "actor_ref", text "at"]
  Confirmation.make (get data (text "actor_kind")) (get data (text "actor_ref")) (get data (text "at"))

def gateOf (value : Json) (name : Str) : Except GoalContractError Bool :=
  match value with
  | .bool b => .ok b
  | _ => .error (text "gate " ++ name ++ text " must be true or false")

/-- Gates of the given values. -/
def Gates.make (human money safety : Json) : Except GoalContractError Gates := do
  let human ← gateOf human (text "human")
  let money ← gateOf money (text "money")
  let safety ← gateOf safety (text "safety")
  return ⟨human, money, safety⟩

def Gates.fromRecord (record : Json) : Except GoalContractError Gates := do
  let data ← objectOf record (text "gates") [text "human", text "money", text "safety"]
  Gates.make (get data (text "human")) (get data (text "money")) (get data (text "safety"))

def RECORD_FIELDS : List Str :=
  [text "goal_id", text "end_result", text "allowed_scope", text "forbidden_scope", text "constraints",
    text "acceptance_criteria", text "side_effect_limits", text "gates", text "confirmations"]

namespace GoalContract

def toRecord (c : GoalContract) : Json :=
  .obj [(text "acceptance_criteria", .arr (c.acceptanceCriteria.map AcceptanceCriterion.toRecord)),
    (text "allowed_scope", ofTexts c.allowedScope),
    (text "confirmations", .arr (c.confirmations.map Confirmation.toRecord)),
    (text "constraints", ofTexts c.constraints),
    (text "end_result", .str c.endResult),
    (text "forbidden_scope", ofTexts c.forbiddenScope),
    (text "gates", c.gates.toRecord),
    (text "goal_id", .str c.goalId),
    (text "side_effect_limits", ofTexts c.sideEffectLimits)]

def fromRecord (record : Json) : Except GoalContractError GoalContract := do
  let data ← objectOf record (text "goal contract") RECORD_FIELDS
  let items ← asList (get data (text "acceptance_criteria")) (text "acceptance criteria")
  let criteria ← items.mapM AcceptanceCriterion.fromRecord
  let gates ← Gates.fromRecord (get data (text "gates"))
  let items ← asList (get data (text "confirmations")) (text "confirmations")
  let confirmations ← items.mapM Confirmation.fromRecord
  Draft.build {
    goalId := get data (text "goal_id")
    endResult := get data (text "end_result")
    allowedScope := get data (text "allowed_scope")
    forbiddenScope := get data (text "forbidden_scope")
    constraints := get data (text "constraints")
    acceptanceCriteria := criteria
    sideEffectLimits := get data (text "side_effect_limits")
    gates := gates
    confirmations := confirmations }

end GoalContract

/-! ### What was accepted is accepted again -/

variable {value : Json} {label : Str}

theorem textOf_again {s : Str} (h : textOf value label = .ok s) (label' : Str) :
  textOf (.str s) label' = .ok s
  := by
  unfold textOf at h
  cases value with
  | str t =>
    dsimp only at h
    split_ifs at h with hbad
    cases h
    simp only [not_or, not_lt] at hbad
    obtain ⟨hblank, hlength, hnewline, hreturn⟩ := hbad
    have hgood : ¬(blank (strip t) = true ∨ MAX_TEXT < (strip (strip t)).length ∨ 10 ∈ strip t ∨
        13 ∈ strip t) := by
      rw [strip_strip, blank_strip (by simpa using hblank)]
      simp only [Bool.false_eq_true, false_or, not_or, not_lt]
      exact ⟨hlength, fun hmem => hnewline (mem_of_mem_strip hmem), fun hmem => hreturn (mem_of_mem_strip hmem)⟩
    rw [textOf, if_neg hgood, strip_strip]
  | _ => cases h

theorem normList_spec {texts : List Str} (h : normList value label = .ok texts) :
  texts.Pairwise (· ≤ ·) ∧ texts.Nodup ∧ ∀ s ∈ texts, textOf (.str s) label = .ok s
  := by
  obtain ⟨items, -, hrest⟩ := bind_eq_ok.mp h
  obtain ⟨found, hfound, htexts⟩ := bind_eq_ok.mp hrest
  cases htexts
  refine ⟨List.pairwise_insertionSort _ _, ?_, ?_⟩
  · exact (List.perm_insertionSort _ _).nodup_iff.mpr (List.nodup_dedup _)
  · intro s hs
    rw [List.mem_insertionSort, List.mem_dedup] at hs
    obtain ⟨a, -, ha⟩ := mem_of_mapM_eq_ok hfound hs
    exact textOf_again ha label

theorem normList_again {texts : List Str} (h : normList value label = .ok texts) :
  normList (ofTexts texts) label = .ok texts
  := by
  obtain ⟨hsorted, hnodup, htexts⟩ := normList_spec h
  have hfound : (texts.map Json.str).mapM (fun item => textOf item label) = .ok texts := by
    rw [Except.mapM_eq_ok, List.forall₂_map_left_iff, List.forall₂_same]
    exact htexts
  rw [normList, ofTexts, asList, ok_bind, hfound, ok_bind, hnodup.dedup, hsorted.insertionSort_eq]
  rfl

variable {c : GoalContract}

theorem criteria_of_build {draft : Draft} (h : draft.build = .ok c) :
  c.acceptanceCriteria = draft.acceptanceCriteria.insertionSort (fun a b => a.id ≤ b.id) ∧ c.gates = draft.gates
  := by
  unfold Draft.build at h
  obtain ⟨goalId, -, h⟩ := bind_eq_ok.mp h
  obtain ⟨endResult, -, h⟩ := bind_eq_ok.mp h
  obtain ⟨allowed, -, h⟩ := bind_eq_ok.mp h
  obtain ⟨forbidden, -, h⟩ := bind_eq_ok.mp h
  split_ifs at h with hapart
  obtain ⟨constraints, -, h⟩ := bind_eq_ok.mp h
  obtain ⟨limits, -, h⟩ := bind_eq_ok.mp h
  dsimp only at h
  split_ifs at h with hunique hcheckable
  cases h
  exact ⟨rfl, rfl⟩

theorem exists_build (draft : Draft) {goalId endResult : Str} {allowed forbidden constraints limits : List Str}
    (hgoal : textOf draft.goalId (text "goal_id") = .ok goalId)
    (hend : textOf draft.endResult (text "end result") = .ok endResult)
    (hallowed : normList draft.allowedScope (text "allowed scope") = .ok allowed)
    (hforbidden : normList draft.forbiddenScope (text "forbidden scope") = .ok forbidden)
    (hconstraints : normList draft.constraints (text "constraints") = .ok constraints)
    (hlimits : normList draft.sideEffectLimits (text "side-effect limits") = .ok limits)
    (hapart : ∀ item ∈ allowed, item ∉ forbidden)
    (hcriteria : (draft.acceptanceCriteria.insertionSort fun a b => a.id ≤ b.id) = c.acceptanceCriteria) :
  ∃ d, draft.build = .ok d ∧ d.goalId = goalId ∧ d.endResult = endResult ∧ d.allowedScope = allowed ∧
    d.forbiddenScope = forbidden ∧ d.constraints = constraints ∧
    d.acceptanceCriteria = c.acceptanceCriteria ∧ d.sideEffectLimits = limits ∧ d.gates = draft.gates ∧
    d.confirmations = draft.confirmations
  := by
  have hunique : ((draft.acceptanceCriteria.insertionSort fun a b => a.id ≤ b.id).map (·.id)).Nodup := by
    rw [hcriteria]
    exact c.unique
  have hcheckable : (draft.acceptanceCriteria.insertionSort fun a b => a.id ≤ b.id) ≠ [] := by
    rw [hcriteria]
    exact c.checkable
  refine ⟨⟨goalId, endResult, allowed, forbidden, constraints, _, limits, draft.gates, draft.confirmations,
    hapart, hcheckable, hunique⟩, ?_, rfl, rfl, rfl, rfl, rfl, hcriteria, rfl, rfl, rfl⟩
  simp only [Draft.build, hgoal, hend, hallowed, hforbidden, hconstraints, hlimits, ok_bind, dif_pos hapart,
    dif_pos hunique, dif_pos hcheckable]

theorem GoalContract.ext_fields {d : GoalContract} (hgoal : d.goalId = c.goalId)
    (hend : d.endResult = c.endResult) (hallowed : d.allowedScope = c.allowedScope)
    (hforbidden : d.forbiddenScope = c.forbiddenScope) (hconstraints : d.constraints = c.constraints)
    (hcriteria : d.acceptanceCriteria = c.acceptanceCriteria)
    (hlimits : d.sideEffectLimits = c.sideEffectLimits) (hgates : d.gates = c.gates)
    (hconfirmations : d.confirmations = c.confirmations) :
  d = c
  := by
  cases c
  cases d
  simp_all

theorem build_draft (hc : c.Made) :
  c.draft.build = .ok c
  := by
  obtain ⟨draft, hbuild⟩ := hc.built
  obtain ⟨hgoal, hend, hallowed, hforbidden, hconstraints, hlimits, -⟩ := build_eq_ok hbuild
  obtain ⟨hcriteria, -⟩ := criteria_of_build hbuild
  have hsorted : (c.draft.acceptanceCriteria.insertionSort fun a b => a.id ≤ b.id) = c.acceptanceCriteria := by
    rw [GoalContract.draft, hcriteria]
    exact (List.pairwise_insertionSort _ _).insertionSort_eq
  obtain ⟨d, hd, hfields⟩ := exists_build c.draft (textOf_again hgoal _) (textOf_again hend _)
    (normList_again hallowed) (normList_again hforbidden) (normList_again hconstraints) (normList_again hlimits)
    c.apart hsorted
  obtain ⟨h₁, h₂, h₃, h₄, h₅, h₆, h₇, h₈, h₉⟩ := hfields
  rw [hd, GoalContract.ext_fields h₁ h₂ h₃ h₄ h₅ h₆ h₇ h₈ h₉]

theorem criterion_fromRecord {k : AcceptanceCriterion} {id check evidenceClass : Json}
    (h : AcceptanceCriterion.make id check evidenceClass = .ok k) :
  AcceptanceCriterion.fromRecord k.toRecord = .ok k
  := by
  obtain ⟨id', hid, h⟩ := bind_eq_ok.mp h
  obtain ⟨check', hcheck, h⟩ := bind_eq_ok.mp h
  obtain ⟨evidenceClass', hclass, h⟩ := bind_eq_ok.mp h
  cases h
  have hobject : AcceptanceCriterion.fromRecord (AcceptanceCriterion.toRecord ⟨id', check', evidenceClass'⟩) =
      AcceptanceCriterion.make (.str id') (.str check') (.str evidenceClass') := rfl
  rw [hobject, AcceptanceCriterion.make, textOf_again hid, ok_bind, textOf_again hcheck, ok_bind,
    textOf_again hclass]
  rfl

theorem confirmation_fromRecord {f : Confirmation} {actorKind actorRef at_ : Json}
    (h : Confirmation.make actorKind actorRef at_ = .ok f) :
  Confirmation.fromRecord f.toRecord = .ok f
  := by
  unfold Confirmation.make at h
  split_ifs at h with hhuman
  obtain ⟨actorRef', hactor, h⟩ := bind_eq_ok.mp h
  obtain ⟨at', hat, h⟩ := bind_eq_ok.mp h
  cases h
  have hobject : Confirmation.fromRecord (Confirmation.toRecord ⟨text "human", actorRef', at', rfl⟩) =
      Confirmation.make (.str (text "human")) (.str actorRef') (.str at') := rfl
  rw [hobject, Confirmation.make, if_pos rfl, textOf_again hactor, ok_bind, textOf_again hat]
  rfl

theorem fromRecord_toRecord (hc : c.Made) :
  GoalContract.fromRecord c.toRecord = .ok c
  := by
  have hcriteria : (c.acceptanceCriteria.map AcceptanceCriterion.toRecord).mapM AcceptanceCriterion.fromRecord =
      .ok c.acceptanceCriteria := by
    rw [Except.mapM_eq_ok, List.forall₂_map_left_iff, List.forall₂_same]
    intro k hk
    obtain ⟨id, check, evidenceClass, hmake⟩ := hc.criteria k hk
    exact criterion_fromRecord hmake
  have hconfirmations : (c.confirmations.map Confirmation.toRecord).mapM Confirmation.fromRecord =
      .ok c.confirmations := by
    rw [Except.mapM_eq_ok, List.forall₂_map_left_iff, List.forall₂_same]
    intro f hf
    obtain ⟨actorKind, actorRef, at_, hmake⟩ := hc.confirmations f hf
    exact confirmation_fromRecord hmake
  have hgates : Gates.fromRecord c.gates.toRecord = .ok c.gates := rfl
  have hobject : objectOf c.toRecord (text "goal contract") RECORD_FIELDS = .ok c.toRecord.asMembers := rfl
  rw [GoalContract.fromRecord, hobject, ok_bind]
  have hitems : asList (get c.toRecord.asMembers (text "acceptance_criteria")) (text "acceptance criteria") =
      .ok (c.acceptanceCriteria.map AcceptanceCriterion.toRecord) := rfl
  have hrecorded : asList (get c.toRecord.asMembers (text "confirmations")) (text "confirmations") =
      .ok (c.confirmations.map Confirmation.toRecord) := rfl
  have hgate : get c.toRecord.asMembers (text "gates") = c.gates.toRecord := rfl
  rw [hitems, ok_bind, hcriteria, ok_bind, hgate, hgates, ok_bind, hrecorded, ok_bind, hconfirmations, ok_bind]
  exact build_draft hc

end Courier.Goals
