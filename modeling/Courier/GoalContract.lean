import Courier.Library.Escaped
import Courier.Library.Run
import Courier.Platform
import Mathlib.Data.List.Dedup
import Mathlib.Data.List.Sort

/-!
# Goal contracts

A goal contract holds the terms a person confirmed.  An amendment makes a contract with other terms
and no confirmation.  A task fits a contract if it names its goal and the fingerprint of its terms,
stays in its scope, and is anchored in its acceptance criteria.
-/

namespace Courier.Goals

open Except Text Json

/-- The message of a refusal. -/
abbrev GoalContractError := Str

/-- The length of the longest text. -/
def MAX_TEXT : Nat := 4000

/-! ### Texts -/

/-- `_text`. -/
def textOf (value : Json) (label : Str) : Except GoalContractError Str :=
  match value with
  | .str s =>
      if blank s = true ∨ MAX_TEXT < (strip s).length ∨ 10 ∈ s ∨ 13 ∈ s then
        .error (label ++ text " must be a single line")
      else .ok (strip s)
  | _ => .error (label ++ text " must be a single line")

def asList (value : Json) (label : Str) : Except GoalContractError (List Json) :=
  match value with
  | .arr items => .ok items
  | _ => .error (label ++ text " must be a list")

/-- `_norm_list`: the texts in order, each of them once. -/
def normList (value : Json) (label : Str) : Except GoalContractError (List Str) := do
  let items ← asList value label
  let texts ← items.mapM fun item => textOf item label
  return texts.dedup.insertionSort (· ≤ ·)

/-! ### Terms -/

structure AcceptanceCriterion where
  id : Str
  check : Str
  evidenceClass : Str
  deriving DecidableEq

/-- A criterion of the given values. -/
def AcceptanceCriterion.make (id check evidenceClass : Json) :
    Except GoalContractError AcceptanceCriterion := do
  let id ← textOf id (text "criterion id")
  let check ← textOf check (text "criterion check")
  let evidenceClass ← textOf evidenceClass (text "evidence class")
  return ⟨id, check, evidenceClass⟩

/-- A confirmation.  Only a human one can be recorded. -/
structure Confirmation where
  actorKind : Str
  actorRef : Str
  at_ : Str
  human : actorKind = text "human"
  deriving DecidableEq

/-- A confirmation of the given values. -/
def Confirmation.make (actorKind actorRef at_ : Json) : Except GoalContractError Confirmation :=
  if actorKind = .str (text "human") then do
    let actorRef ← textOf actorRef (text "actor_ref")
    let at_ ← textOf at_ (text "confirmation time")
    return ⟨text "human", actorRef, at_, rfl⟩
  else .error (text "only a human confirmation can be recorded")

/-- The gates of a goal. -/
structure Gates where
  human : Bool
  money : Bool
  safety : Bool
  deriving DecidableEq

/-- A contract.  No scope item is both allowed and forbidden, there is a criterion, and the ids of the
criteria differ. -/
structure GoalContract where
  goalId : Str
  endResult : Str
  allowedScope : List Str
  forbiddenScope : List Str
  constraints : List Str
  acceptanceCriteria : List AcceptanceCriterion
  sideEffectLimits : List Str
  gates : Gates
  confirmations : List Confirmation
  apart : ∀ item ∈ allowedScope, item ∉ forbiddenScope
  checkable : acceptanceCriteria ≠ []
  unique : (acceptanceCriteria.map (·.id)).Nodup

/-- The values a contract is made of. -/
structure Draft where
  goalId : Json
  endResult : Json
  allowedScope : Json
  forbiddenScope : Json
  constraints : Json
  acceptanceCriteria : List AcceptanceCriterion
  sideEffectLimits : Json
  gates : Gates
  confirmations : List Confirmation := []

/-- The contract with the given values. -/
def Draft.build (draft : Draft) : Except GoalContractError GoalContract := do
  let goalId ← textOf draft.goalId (text "goal_id")
  let endResult ← textOf draft.endResult (text "end result")
  let allowed ← normList draft.allowedScope (text "allowed scope")
  let forbidden ← normList draft.forbiddenScope (text "forbidden scope")
  if apart : ∀ item ∈ allowed, item ∉ forbidden then
    let constraints ← normList draft.constraints (text "constraints")
    let limits ← normList draft.sideEffectLimits (text "side-effect limits")
    let criteria := draft.acceptanceCriteria.insertionSort fun a b => a.id ≤ b.id
    if unique : (criteria.map (·.id)).Nodup then
      if checkable : criteria ≠ [] then
        .ok {
          goalId
          endResult
          allowedScope := allowed
          forbiddenScope := forbidden
          constraints
          acceptanceCriteria := criteria
          sideEffectLimits := limits
          gates := draft.gates
          confirmations := draft.confirmations
          apart
          checkable
          unique }
      else .error (text "acceptance criteria are required")
    else .error (text "acceptance criterion ids must be unique")
  else .error (text "a scope item cannot be both allowed and forbidden")

def ofTexts (items : List Str) : Json :=
  .arr (items.map .str)

def AcceptanceCriterion.toRecord (c : AcceptanceCriterion) : Json :=
  .obj [(text "check", .str c.check), (text "evidence_class", .str c.evidenceClass),
    (text "id", .str c.id)]

def Gates.toRecord (g : Gates) : Json :=
  .obj [(text "human", .bool g.human), (text "money", .bool g.money),
    (text "safety", .bool g.safety)]

namespace GoalContract

/-- The values of the contract, to make another one from. -/
def draft (c : GoalContract) : Draft where
  goalId := .str c.goalId
  endResult := .str c.endResult
  allowedScope := ofTexts c.allowedScope
  forbiddenScope := ofTexts c.forbiddenScope
  constraints := ofTexts c.constraints
  acceptanceCriteria := c.acceptanceCriteria
  sideEffectLimits := ofTexts c.sideEffectLimits
  gates := c.gates
  confirmations := c.confirmations

def humanConfirmed (c : GoalContract) : Bool :=
  c.confirmations.any fun item => item.actorKind = text "human"

def termsRecord (c : GoalContract) : Json :=
  .obj [(text "acceptance_criteria", .arr (c.acceptanceCriteria.map AcceptanceCriterion.toRecord)),
    (text "allowed_scope", ofTexts c.allowedScope),
    (text "constraints", ofTexts c.constraints),
    (text "end_result", .str c.endResult),
    (text "forbidden_scope", ofTexts c.forbiddenScope),
    (text "gates", c.gates.toRecord),
    (text "goal_id", .str c.goalId),
    (text "side_effect_limits", ofTexts c.sideEffectLimits)]

def fingerprint [Platform] (c : GoalContract) : Str :=
  Platform.sha256 (dumpsAscii c.termsRecord)

def confirm (c : GoalContract) (actorRef at_ actorKind : Json) :
    Except GoalContractError GoalContract := do
  let confirmation ← Confirmation.make actorKind actorRef at_
  Draft.build { c.draft with confirmations := c.confirmations ++ [confirmation] }

structure Made (c : GoalContract) : Prop where
  built : ∃ draft : Draft, draft.build = .ok c
  criteria : ∀ k ∈ c.acceptanceCriteria,
    ∃ id check evidenceClass, AcceptanceCriterion.make id check evidenceClass = .ok k
  confirmations : ∀ f ∈ c.confirmations,
    ∃ actorKind actorRef at_, Confirmation.make actorKind actorRef at_ = .ok f

end GoalContract

/-- What an amendment changes.  `unknown` are the names of the fields it must not have. -/
structure Changes where
  unknown : List Str := []
  endResult : Option Json := none
  allowedScope : Option Json := none
  forbiddenScope : Option Json := none
  constraints : Option Json := none
  acceptanceCriteria : Option (List AcceptanceCriterion) := none
  sideEffectLimits : Option Json := none
  gates : Option Gates := none

/-- The amendment names no field. -/
def Changes.Empty (changes : Changes) : Prop :=
  changes.unknown = [] ∧ changes.endResult = none ∧ changes.allowedScope = none ∧
    changes.forbiddenScope = none ∧ changes.constraints = none ∧
    changes.acceptanceCriteria = none ∧ changes.sideEffectLimits = none ∧ changes.gates = none

instance (changes : Changes) : Decidable changes.Empty :=
  inferInstanceAs (Decidable (_ ∧ _ ∧ _ ∧ _ ∧ _ ∧ _ ∧ _ ∧ _))

namespace GoalContract

/-- The values of the contract with the changes, and without its confirmations. -/
def changed (c : GoalContract) (changes : Changes) : Draft where
  goalId := .str c.goalId
  endResult := changes.endResult.getD c.draft.endResult
  allowedScope := changes.allowedScope.getD c.draft.allowedScope
  forbiddenScope := changes.forbiddenScope.getD c.draft.forbiddenScope
  constraints := changes.constraints.getD c.draft.constraints
  acceptanceCriteria := changes.acceptanceCriteria.getD c.acceptanceCriteria
  sideEffectLimits := changes.sideEffectLimits.getD c.draft.sideEffectLimits
  gates := changes.gates.getD c.gates

def amend [Platform] (c : GoalContract) (changes : Changes) :
    Except GoalContractError GoalContract := do
  if changes.unknown ≠ [] then
    .error (text "unknown amendment field: " ++
      (text ", ").intercalate (changes.unknown.dedup.insertionSort (· ≤ ·)))
  else if changes.Empty then .error (text "amendment changes nothing")
  else
    let amended ← (c.changed changes).build
    if amended.fingerprint = c.fingerprint then
      .error (text "amendment does not change the contract")
    else .ok amended

end GoalContract

/-! ### Tasks -/

/-- The verdict on a task. -/
inductive Verdict where
  | accepted
  | humanConfirmationRequired
  | notVerifiable
  | revalidationRequired
  deriving DecidableEq

/-- The name of a verdict. -/
def Verdict.value : Verdict → Str
  | accepted => text "ACCEPTED"
  | humanConfirmationRequired => text "HUMAN_CONFIRMATION_REQUIRED"
  | notVerifiable => text "NOT_VERIFIABLE"
  | revalidationRequired => text "REVALIDATION_REQUIRED"

/-- Why a task is not accepted. -/
inductive Reason where
  | staleFingerprint
  | unconfirmed
  | taskSpecInvalid
  | unknownField
  | goalIdMismatch
  | missingGoalId
  | missingFingerprint
  | scopeInvalid
  | forbiddenScope
  | scopeWidened
  | missingAcceptanceAnchor
  | criteriaChanged
  | missingEvidenceClass
  | evidenceClassMismatch
  | missingContract
  deriving DecidableEq

/-- The name of a reason. -/
def Reason.value : Reason → Str
  | staleFingerprint => text "stale_fingerprint"
  | unconfirmed => text "unconfirmed"
  | taskSpecInvalid => text "task_spec_invalid"
  | unknownField => text "unknown_field"
  | goalIdMismatch => text "goal_id_mismatch"
  | missingGoalId => text "missing_goal_id"
  | missingFingerprint => text "missing_fingerprint"
  | scopeInvalid => text "scope_invalid"
  | forbiddenScope => text "forbidden_scope"
  | scopeWidened => text "scope_widened"
  | missingAcceptanceAnchor => text "missing_acceptance_anchor"
  | criteriaChanged => text "criteria_changed"
  | missingEvidenceClass => text "missing_evidence_class"
  | evidenceClassMismatch => text "evidence_class_mismatch"
  | missingContract => text "missing_contract"

/-- The answer about a task. -/
structure Validation where
  verdict : Verdict
  reasons : List Reason
  deriving DecidableEq

def TASK_FIELDS : List Str :=
  [text "goal_id", text "goal_fingerprint", text "scope", text "acceptance_ids",
    text "evidence_class"]

def declaredFingerprint (taskSpec : Json) : Option Str :=
  match get taskSpec.asMembers (text "goal_fingerprint") with
  | .str s => if blank s then none else some (strip s)
  | _ => none

/-- A phrase of a task: a text in one line that is not blank. -/
def phrase (item : Json) : Option Str :=
  match item with
  | .str s => if blank s = true ∨ 10 ∈ s then none else some (strip s)
  | _ => none

def taskScope (value : Json) : Option (List Str) :=
  match value with
  | .arr items => items.mapM phrase
  | _ => none

def taskIds (value : Json) : Option (List Str) :=
  match value with
  | .arr items => if items = [] then none else items.mapM phrase
  | _ => none

namespace GoalContract

def criterion (c : GoalContract) (id : Str) : Option AcceptanceCriterion :=
  c.acceptanceCriteria.find? fun item => item.id = id

/-- What is wrong with the evidence class of a task. -/
def evidenceFaults (c : GoalContract) (anchors : Option (List Str)) (evidence : Json) :
    List Reason :=
  match evidence with
  | .str e =>
      if blank e then [.missingEvidenceClass]
      else
        match anchors.bind fun ids => ids.mapM c.criterion with
        | some known =>
            if (known.map (·.evidenceClass)).dedup ≠ [strip e] then [.evidenceClassMismatch]
            else []
        | none => []
  | _ => [.missingEvidenceClass]

/-- Why the task cannot be verified. -/
def unverifiable (c : GoalContract) (task : Members) : List Reason :=
  (if ∃ p ∈ task, p.1 ∉ TASK_FIELDS then [.unknownField] else []) ++
    (if get task (text "goal_id") ≠ .str c.goalId then
      [if hasKey task (text "goal_id") then .goalIdMismatch else .missingGoalId]
    else []) ++
    (if declaredFingerprint (.obj task) = none then [.missingFingerprint] else []) ++
    (if taskScope (get task (text "scope")) = none then [.scopeInvalid] else []) ++
    (if taskIds (get task (text "acceptance_ids")) = none then [.missingAcceptanceAnchor]
    else []) ++
    c.evidenceFaults (taskIds (get task (text "acceptance_ids")))
      (get task (text "evidence_class"))

/-- In what the task goes beyond the terms. -/
def extension (c : GoalContract) (task : Members) : List Reason :=
  (match taskScope (get task (text "scope")) with
    | none => []
    | some items =>
        (if ∃ item ∈ items, item ∈ c.forbiddenScope then [.forbiddenScope] else []) ++
          (if ∃ item ∈ items, item ∉ c.allowedScope then [.scopeWidened] else [])) ++
    (match taskIds (get task (text "acceptance_ids")) with
      | none => []
      | some ids => if ∃ id ∈ ids, c.criterion id = none then [.criteriaChanged] else [])

def validateTask [Platform] (c : GoalContract) (taskSpec : Json) : Validation :=
  if ∃ fingerprint ∈ declaredFingerprint taskSpec, fingerprint ≠ c.fingerprint then
    ⟨.revalidationRequired, [.staleFingerprint]⟩
  else if c.humanConfirmed = false then ⟨.humanConfirmationRequired, [.unconfirmed]⟩
  else
    match taskSpec with
    | .obj task =>
        if c.unverifiable task ≠ [] then ⟨.notVerifiable, c.unverifiable task ++ c.extension task⟩
        else if c.extension task ≠ [] then ⟨.humanConfirmationRequired, c.extension task⟩
        else ⟨.accepted, []⟩
    | _ => ⟨.notVerifiable, [.taskSpecInvalid]⟩

end GoalContract

/-- `validate_task` of the module: without a contract nothing is accepted. -/
def validateTask [Platform] (contract : Option GoalContract) (taskSpec : Json) : Validation :=
  match contract with
  | none => ⟨.notVerifiable, [.missingContract]⟩
  | some c => c.validateTask taskSpec

end Courier.Goals
