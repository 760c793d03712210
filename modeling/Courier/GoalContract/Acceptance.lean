import Courier.GoalContract

/-!
# Acceptance over chains of amendments

A task is accepted exactly if it fits the terms of a confirmed contract (`accepted_iff`), also along chains of
amendments (`accepted_of_chain`).  A fingerprint is taken of an ASCII encoding, in which a surrogate pair is written
like the character it encodes.
-/

namespace Courier.Goals

open Except Text Json

section Chains

variable [Platform]

/-! ### Accepted tasks -/

structure GoalContract.Fits (c : GoalContract) (task : Members) : Prop where
  confirmed : c.humanConfirmed = true
  known : ∀ p ∈ task, p.1 ∈ TASK_FIELDS
  goal : get task (text "goal_id") = .str c.goalId
  fingerprint : declaredFingerprint (.obj task) = some c.fingerprint
  scope : ∃ items, taskScope (get task (text "scope")) = some items ∧
    ∀ item ∈ items, item ∈ c.allowedScope ∧ item ∉ c.forbiddenScope
  anchored : ∃ ids evidence, taskIds (get task (text "acceptance_ids")) = some ids ∧ ids ≠ [] ∧
    get task (text "evidence_class") = .str evidence ∧ blank evidence = false ∧
      ∀ id ∈ ids, ∃ k ∈ c.acceptanceCriteria, k.id = id ∧ k.evidenceClass = strip evidence

variable {value : Json}

omit [Platform] in
theorem taskIds_ne_nil {ids : List Str} (h : taskIds value = some ids) :
  ids ≠ []
  := by
  rintro rfl
  unfold taskIds at h
  cases value with
  | arr items =>
    cases items with
    | nil => cases h
    | cons item items =>
      simp only [reduceCtorEq, if_false, Option.mapM_eq_some] at h
      cases h
  | _ => cases h

variable {c : GoalContract}

section

omit [Platform]

theorem criterion_eq_some {id : Str} {k : AcceptanceCriterion} :
  c.criterion id = some k ↔ k ∈ c.acceptanceCriteria ∧ k.id = id
  := by
  unfold GoalContract.criterion
  constructor
  · intro h
    exact ⟨List.mem_of_find?_eq_some h, by simpa using List.find?_some h⟩
  · rintro ⟨hk, rfl⟩
    cases hfind : c.acceptanceCriteria.find? fun item => item.id = k.id with
    | none => simpa using List.find?_eq_none.mp hfind k hk
    | some found =>
      have hsame : found.id = k.id := by simpa using List.find?_some hfind
      rw [List.inj_on_of_nodup_map c.unique (List.mem_of_find?_eq_some hfind) hk hsame]

theorem dedup_eq_singleton {l : List Str} {x : Str} (h : l ≠ []) :
  l.dedup = [x] ↔ ∀ y ∈ l, y = x
  := by
  constructor
  · intro hdedup y hy
    rw [← List.mem_dedup, hdedup] at hy
    exact List.mem_singleton.mp hy
  · intro hall
    apply List.perm_singleton.mp
    apply (List.perm_ext_iff_of_nodup (List.nodup_dedup l) (List.nodup_singleton x)).mpr
    intro y
    rw [List.mem_dedup, List.mem_singleton]
    constructor
    · exact hall y
    · rintro rfl
      obtain ⟨z, hz⟩ := List.exists_mem_of_ne_nil l h
      rwa [← hall z hz]

/-- Nothing is wrong with the evidence class of known criteria if they all require it. -/
theorem evidenceFaults_eq_nil {ids : List Str} {evidence : Json} (hids : ids ≠ [])
    (hknown : ∀ id ∈ ids, c.criterion id ≠ none) :
  c.evidenceFaults (some ids) evidence = [] ↔
    ∃ e, evidence = .str e ∧ blank e = false ∧
      ∀ id ∈ ids, ∃ k ∈ c.acceptanceCriteria, k.id = id ∧ k.evidenceClass = strip e
  := by
  cases evidence with
  | str e =>
    have hmap : ids.mapM c.criterion = some (ids.filterMap c.criterion) := by
      rw [Option.mapM_eq_some]
      clear hids
      induction ids with
      | nil => exact .nil
      | cons id ids ih =>
        obtain ⟨k, hk⟩ := Option.ne_none_iff_exists'.mp (hknown id (by simp))
        rw [List.filterMap_cons_some hk]
        exact .cons hk (ih fun id hid => hknown id (List.mem_cons_of_mem _ hid))
    have hne : (ids.filterMap c.criterion).map (·.evidenceClass) ≠ [] := by
      obtain ⟨id, hid⟩ := List.exists_mem_of_ne_nil ids hids
      obtain ⟨k, hk⟩ := Option.ne_none_iff_exists'.mp (hknown id hid)
      have hmem : k ∈ ids.filterMap c.criterion := List.mem_filterMap.mpr ⟨id, hid, hk⟩
      exact List.ne_nil_of_mem (List.mem_map.mpr ⟨k, hmem, rfl⟩)
    by_cases hblank : blank e = true
    · simp [GoalContract.evidenceFaults, hblank]
    · have hnot : blank e = false := by simpa using hblank
      simp only [GoalContract.evidenceFaults, hnot, Bool.false_eq_true, if_false,
        Option.bind_some, hmap, Json.str.injEq, exists_eq_left', true_and]
      rw [ite_eq_right_iff]
      simp only [List.cons_ne_nil, imp_false, not_not, dedup_eq_singleton hne]
      constructor
      · intro hall id hid
        obtain ⟨k, hk⟩ := Option.ne_none_iff_exists'.mp (hknown id hid)
        obtain ⟨hmem, hsame⟩ := criterion_eq_some.mp hk
        refine ⟨k, hmem, hsame, hall _ ?_⟩
        exact List.mem_map.mpr ⟨k, List.mem_filterMap.mpr ⟨id, hid, hk⟩, rfl⟩
      · intro hall y hy
        obtain ⟨k, hk, rfl⟩ := List.mem_map.mp hy
        obtain ⟨id, hid, hfound⟩ := List.mem_filterMap.mp hk
        obtain ⟨k', hmem, hsame, hclass⟩ := hall id hid
        rw [criterion_eq_some.mpr ⟨hmem, hsame⟩] at hfound
        cases hfound
        exact hclass
  | _ => simp [GoalContract.evidenceFaults]

end

theorem accepted_iff {taskSpec : Json} :
  (c.validateTask taskSpec).verdict = .accepted ↔ ∃ task, taskSpec = .obj task ∧ c.Fits task
  := by
  unfold GoalContract.validateTask
  constructor
  · intro h
    split_ifs at h with hstale hunconfirmed
    cases taskSpec with
    | obj task =>
      dsimp only at h
      split_ifs at h with hverifiable hinside
      simp only [ne_eq, not_not] at hverifiable hinside
      simp only [GoalContract.unverifiable, List.append_eq_nil_iff, ite_eq_right_iff,
        List.cons_ne_nil, imp_false, not_not] at hverifiable
      obtain ⟨⟨⟨⟨⟨hknown, hgoal⟩, hfingerprint⟩, hscope⟩, hids⟩, hevidence⟩ := hverifiable
      obtain ⟨items, hitems⟩ := Option.ne_none_iff_exists'.mp hscope
      obtain ⟨ids, hids⟩ := Option.ne_none_iff_exists'.mp hids
      obtain ⟨fingerprint, hfingerprint⟩ := Option.ne_none_iff_exists'.mp hfingerprint
      simp only [GoalContract.extension, hitems, hids, List.append_eq_nil_iff, ite_eq_right_iff,
        List.cons_ne_nil, imp_false, not_exists, not_and, not_not] at hinside
      obtain ⟨⟨hforbidden, hallowed⟩, hcriteria⟩ := hinside
      rw [hids] at hevidence
      have hne := taskIds_ne_nil hids
      obtain ⟨e, he, hblank, hclass⟩ := (evidenceFaults_eq_nil hne hcriteria).mp hevidence
      refine ⟨task, rfl, by simpa using hunconfirmed, by simpa using hknown, hgoal, ?_,
        ⟨items, hitems, fun item hitem => ⟨hallowed item hitem, hforbidden item hitem⟩⟩,
        ⟨ids, e, hids, hne, he, hblank, hclass⟩⟩
      rw [hfingerprint]
      by_contra hother
      exact hstale ⟨fingerprint, hfingerprint, fun heq => hother (congrArg some heq)⟩
    | _ => cases h
  · rintro ⟨task, rfl, h⟩
    obtain ⟨items, hitems, hscope⟩ := h.scope
    obtain ⟨ids, e, hids, hne, he, hblank, hclass⟩ := h.anchored
    have hknown : ∀ id ∈ ids, c.criterion id ≠ none := by
      intro id hid
      obtain ⟨k, hk, hsame, -⟩ := hclass id hid
      simp [criterion_eq_some.mpr ⟨hk, hsame⟩]
    have hverifiable : c.unverifiable task = [] := by
      simp only [GoalContract.unverifiable, List.append_eq_nil_iff, ite_eq_right_iff,
        List.cons_ne_nil, imp_false, not_not]
      refine ⟨⟨⟨⟨⟨?_, h.goal⟩, by simp [h.fingerprint]⟩, by simp [hitems]⟩, by simp [hids]⟩, ?_⟩
      · simpa using h.known
      · rw [hids]
        exact (evidenceFaults_eq_nil hne hknown).mpr ⟨e, he, hblank, hclass⟩
    have hinside : c.extension task = [] := by
      simp only [GoalContract.extension, hitems, hids, List.append_eq_nil_iff, ite_eq_right_iff,
        List.cons_ne_nil, imp_false, not_exists, not_and, not_not]
      exact ⟨⟨fun item hitem => (hscope item hitem).2, fun item hitem => (hscope item hitem).1⟩,
        hknown⟩
    rw [if_neg (by simp [h.fingerprint]), if_neg (by simp [h.confirmed])]
    simp [hverifiable, hinside]

/-! ### Contracts that are built -/

variable {label : Str}

section

omit [Platform]

theorem textOf_eq_ok {s : Str} (h : textOf value label = .ok s) :
  ∃ t, value = .str t ∧ s = strip t
  := by
  unfold textOf at h
  cases value with
  | str t =>
    dsimp only at h
    split_ifs at h
    cases h
    exact ⟨t, rfl, rfl⟩
  | _ => cases h

theorem normList_eq_ok {texts : List Str}
    (h : normList value label = .ok texts) :
  ∃ items, value = .arr items ∧ ∀ s ∈ texts, ∃ t, Json.str t ∈ items ∧ s = strip t
  := by
  obtain ⟨items, hitems, hrest⟩ := bind_eq_ok.mp h
  obtain ⟨found, hfound, htexts⟩ := bind_eq_ok.mp hrest
  clear h hrest
  cases htexts
  have hvalue : value = .arr items := by
    unfold asList at hitems
    cases value with
    | arr items' =>
      cases hitems
      rfl
    | _ => cases hitems
  refine ⟨items, hvalue, ?_⟩
  intro s hs
  rw [List.mem_insertionSort, List.mem_dedup] at hs
  have hpairs := Except.mapM_eq_ok.mp hfound
  clear hfound hitems hvalue
  induction hpairs with
  | nil => cases hs
  | cons hhead _ ih =>
    rcases List.mem_cons.mp hs with rfl | hs
    · obtain ⟨t, rfl, rfl⟩ := textOf_eq_ok hhead
      exact ⟨t, by simp, rfl⟩
    · obtain ⟨t, ht, hstrip⟩ := ih hs
      exact ⟨t, List.mem_cons_of_mem _ ht, hstrip⟩

theorem build_eq_ok {draft : Draft} (h : draft.build = .ok c) :
  textOf draft.goalId (text "goal_id") = .ok c.goalId ∧
    textOf draft.endResult (text "end result") = .ok c.endResult ∧
    normList draft.allowedScope (text "allowed scope") = .ok c.allowedScope ∧
    normList draft.forbiddenScope (text "forbidden scope") = .ok c.forbiddenScope ∧
    normList draft.constraints (text "constraints") = .ok c.constraints ∧
    normList draft.sideEffectLimits (text "side-effect limits") = .ok c.sideEffectLimits ∧
    (∀ k, k ∈ c.acceptanceCriteria ↔ k ∈ draft.acceptanceCriteria) ∧
    c.confirmations = draft.confirmations
  := by
  unfold Draft.build at h
  obtain ⟨goalId, hgoal, h⟩ := bind_eq_ok.mp h
  obtain ⟨endResult, hend, h⟩ := bind_eq_ok.mp h
  obtain ⟨allowed, hallowed, h⟩ := bind_eq_ok.mp h
  obtain ⟨forbidden, hforbidden, h⟩ := bind_eq_ok.mp h
  split_ifs at h with hapart
  obtain ⟨constraints, hconstraints, h⟩ := bind_eq_ok.mp h
  obtain ⟨limits, hlimits, h⟩ := bind_eq_ok.mp h
  dsimp only at h
  split_ifs at h with hunique hcheckable
  cases h
  exact ⟨hgoal, hend, hallowed, hforbidden, hconstraints, hlimits,
    fun k => List.mem_insertionSort _, rfl⟩

end

/-! ### Chains -/

inductive Operation where
  | confirm (actorRef at_ actorKind : Json)
  | amend (changes : Changes)

def GoalContract.perform (c : GoalContract) : Operation → Except GoalContractError GoalContract
  | .confirm actorRef at_ actorKind => c.confirm actorRef at_ actorKind
  | .amend changes => c.amend changes

theorem amend_eq_ok {amended : GoalContract} {changes : Changes}
    (h : c.amend changes = .ok amended) :
  (c.changed changes).build = .ok amended ∧ amended.fingerprint ≠ c.fingerprint
  := by
  unfold GoalContract.amend at h
  split_ifs at h
  obtain ⟨amended', hbuild, h⟩ := bind_eq_ok.mp h
  split_ifs at h with hsame
  cases h
  exact ⟨hbuild, hsame⟩

def ConfirmedLast (operations : List Operation) : Prop :=
  ∃ before actorRef at_ actorKind, operations = before ++ [.confirm actorRef at_ actorKind]

theorem confirmedLast_of_chain {c' : GoalContract} {operations : List Operation}
    (hunconfirmed : c.confirmations = [])
    (h : Run.Accepts GoalContract.perform c operations c') (hconfirmed : c'.humanConfirmed = true) :
  ConfirmedLast operations
  := by
  cases operations using List.reverseRecOn with
  | nil =>
    obtain rfl := Run.accepts_nil.mp h
    simp [GoalContract.humanConfirmed, hunconfirmed] at hconfirmed
  | append_singleton before operation =>
    cases operation with
    | confirm actorRef at_ actorKind => exact ⟨before, actorRef, at_, actorKind, rfl⟩
    | amend changes =>
      obtain ⟨t, -, hlast⟩ := Run.accepts_concat.mp h
      obtain ⟨hbuild, -⟩ := amend_eq_ok hlast
      obtain ⟨-, -, -, -, -, -, -, hnone⟩ := build_eq_ok hbuild
      simp [GoalContract.humanConfirmed, hnone, GoalContract.changed] at hconfirmed

/-! ### Terms without surrogate pairs -/

def AcceptanceCriterion.Plain (k : AcceptanceCriterion) : Prop :=
  PlainText k.id ∧ PlainText k.check ∧ PlainText k.evidenceClass

/-- The terms of a contract have no surrogate pair. -/
structure GoalContract.Plain (c : GoalContract) : Prop where
  goalId : PlainText c.goalId
  endResult : PlainText c.endResult
  allowedScope : ∀ item ∈ c.allowedScope, PlainText item
  forbiddenScope : ∀ item ∈ c.forbiddenScope, PlainText item
  constraints : ∀ item ∈ c.constraints, PlainText item
  sideEffectLimits : ∀ item ∈ c.sideEffectLimits, PlainText item
  acceptanceCriteria : ∀ k ∈ c.acceptanceCriteria, k.Plain

/-- The values have no surrogate pair. -/
structure Draft.Plain (draft : Draft) : Prop where
  goalId : draft.goalId.EveryText PlainText
  endResult : draft.endResult.EveryText PlainText
  allowedScope : draft.allowedScope.EveryText PlainText
  forbiddenScope : draft.forbiddenScope.EveryText PlainText
  constraints : draft.constraints.EveryText PlainText
  sideEffectLimits : draft.sideEffectLimits.EveryText PlainText
  acceptanceCriteria : ∀ k ∈ draft.acceptanceCriteria, k.Plain

/-- What an operation brings in has no surrogate pair. -/
def Operation.Plain : Operation → Prop
  | .confirm _ _ _ => True
  | .amend changes =>
      (∀ v ∈ changes.endResult, v.EveryText PlainText) ∧
        (∀ v ∈ changes.allowedScope, v.EveryText PlainText) ∧
        (∀ v ∈ changes.forbiddenScope, v.EveryText PlainText) ∧
        (∀ v ∈ changes.constraints, v.EveryText PlainText) ∧
        (∀ v ∈ changes.sideEffectLimits, v.EveryText PlainText) ∧
        ∀ criteria ∈ changes.acceptanceCriteria, ∀ k ∈ criteria, k.Plain

section

omit [Platform]

theorem everyItem_iff {p : Str → Prop} :
  ∀ {items : List Json}, EveryText.everyItem p items ↔ ∀ v ∈ items, v.EveryText p
  := by
  intro items
  induction items with
  | nil => simp [EveryText.everyItem]
  | cons v items ih => simp [EveryText.everyItem, ih]

theorem everyText_ofTexts {p : Str → Prop} {items : List Str} :
  (ofTexts items).EveryText p ↔ ∀ s ∈ items, p s
  := by
  simp [ofTexts, EveryText, everyItem_iff]

theorem plain_of_textOf {s : Str} (h : textOf value label = .ok s)
    (hvalue : value.EveryText PlainText) :
  PlainText s
  := by
  obtain ⟨t, rfl, rfl⟩ := textOf_eq_ok h
  exact PlainText.strip hvalue

theorem plain_of_normList {texts : List Str}
    (h : normList value label = .ok texts) (hvalue : value.EveryText PlainText) :
  ∀ s ∈ texts, PlainText s
  := by
  obtain ⟨items, rfl, htexts⟩ := normList_eq_ok h
  intro s hs
  obtain ⟨t, ht, rfl⟩ := htexts s hs
  exact PlainText.strip (everyItem_iff.mp hvalue _ ht)

theorem plain_of_build {draft : Draft} (h : draft.build = .ok c)
    (hdraft : draft.Plain) :
  c.Plain
  := by
  obtain ⟨hgoal, hend, hallowed, hforbidden, hconstraints, hlimits, hcriteria, -⟩ := build_eq_ok h
  exact {
    goalId := plain_of_textOf hgoal hdraft.goalId
    endResult := plain_of_textOf hend hdraft.endResult
    allowedScope := plain_of_normList hallowed hdraft.allowedScope
    forbiddenScope := plain_of_normList hforbidden hdraft.forbiddenScope
    constraints := plain_of_normList hconstraints hdraft.constraints
    sideEffectLimits := plain_of_normList hlimits hdraft.sideEffectLimits
    acceptanceCriteria := fun k hk => hdraft.acceptanceCriteria k ((hcriteria k).mp hk) }

theorem GoalContract.Plain.draft (h : c.Plain) :
  c.draft.Plain
  where
  goalId := h.goalId
  endResult := h.endResult
  allowedScope := everyText_ofTexts.mpr h.allowedScope
  forbiddenScope := everyText_ofTexts.mpr h.forbiddenScope
  constraints := everyText_ofTexts.mpr h.constraints
  sideEffectLimits := everyText_ofTexts.mpr h.sideEffectLimits
  acceptanceCriteria := h.acceptanceCriteria

theorem getD_of_plain {p : α → Prop} {o : Option α} {a : α} (h : ∀ b ∈ o, p b) (ha : p a) :
  p (o.getD a)
  := by
  cases o with
  | none => exact ha
  | some b => exact h b rfl

end

theorem plain_of_perform (c : GoalContract) (operation : Operation) (c' : GoalContract)
    (h : c.Plain) (hoperation : operation.Plain) (hperform : c.perform operation = .ok c') :
  c'.Plain
  := by
  have hdraft := h.draft
  cases operation with
  | confirm actorRef at_ actorKind =>
    obtain ⟨confirmation, -, hbuild⟩ := bind_eq_ok.mp hperform
    apply plain_of_build hbuild
    exact ⟨hdraft.goalId, hdraft.endResult, hdraft.allowedScope, hdraft.forbiddenScope,
      hdraft.constraints, hdraft.sideEffectLimits, hdraft.acceptanceCriteria⟩
  | amend changes =>
    obtain ⟨hend, hallowed, hforbidden, hconstraints, hlimits, hcriteria⟩ := hoperation
    apply plain_of_build (amend_eq_ok hperform).1
    exact {
      goalId := hdraft.goalId
      endResult := getD_of_plain hend hdraft.endResult
      allowedScope := getD_of_plain hallowed hdraft.allowedScope
      forbiddenScope := getD_of_plain hforbidden hdraft.forbiddenScope
      constraints := getD_of_plain hconstraints hdraft.constraints
      sideEffectLimits := getD_of_plain hlimits hdraft.sideEffectLimits
      acceptanceCriteria := getD_of_plain hcriteria hdraft.acceptanceCriteria }

/-! ### Fingerprints -/

section

omit [Platform]

theorem wf_ofTexts (items : List Str) :
  (ofTexts items).wf = true
  := by
  rw [ofTexts, wf_arr]
  intro a ha
  obtain ⟨s, -, rfl⟩ := List.mem_map.mp ha
  rfl

theorem wf_termsRecord (c : GoalContract) :
  c.termsRecord.wf = true
  := by
  have hcriteria : (Json.arr (c.acceptanceCriteria.map AcceptanceCriterion.toRecord)).wf = true := by
    rw [wf_arr]
    intro a ha
    obtain ⟨k, -, rfl⟩ := List.mem_map.mp ha
    rfl
  simp only [GoalContract.termsRecord, Json.wf, wf.wfMembers, wf_ofTexts, Bool.and_eq_true,
    Gates.toRecord]
  refine ⟨?_, hcriteria, trivial, trivial, trivial, trivial,
    ⟨?_, trivial, trivial, trivial, trivial⟩, trivial, trivial, trivial⟩
  · simp only [sortedKeys]
    decide
  · simp only [sortedKeys]
    decide

theorem GoalContract.Plain.termsRecord (h : c.Plain) :
  c.termsRecord.EveryText PlainText
  := by
  have hcriteria : (Json.arr (c.acceptanceCriteria.map AcceptanceCriterion.toRecord)).EveryText
      PlainText := by
    apply everyItem_iff.mpr
    intro v hv
    obtain ⟨k, hk, rfl⟩ := List.mem_map.mp hv
    obtain ⟨hid, hcheck, hclass⟩ := h.acceptanceCriteria k hk
    exact ⟨by decide, hcheck, by decide, hclass, by decide, hid, trivial⟩
  refine ⟨by decide, hcriteria, by decide, everyText_ofTexts.mpr h.allowedScope, by decide,
    everyText_ofTexts.mpr h.constraints, by decide, h.endResult, by decide,
    everyText_ofTexts.mpr h.forbiddenScope, by decide, ?_, by decide, h.goalId, by decide,
    everyText_ofTexts.mpr h.sideEffectLimits, trivial⟩
  exact ⟨by decide, trivial, by decide, trivial, by decide, trivial, trivial⟩

end

theorem termsRecord_of_fingerprint (hsha : Function.Injective Platform.sha256) {d : GoalContract}
    (hc : c.Plain) (hd : d.Plain) (h : c.fingerprint = d.fingerprint) :
  c.termsRecord = d.termsRecord
  := dumpsAscii_injective (wf_termsRecord c) (wf_termsRecord d) hc.termsRecord hd.termsRecord
    (hsha h)

/-! ### Acceptance -/

/-- Along a chain, a task is accepted only for confirmed terms that it fits; and without surrogate pairs, a task that is
accepted twice is accepted for the same terms. -/
theorem accepted_of_chain (hsha : Function.Injective Platform.sha256) {draft : Draft}
    {c c' : GoalContract} (hc : draft.build = .ok c) (hunconfirmed : draft.confirmations = [])
    {operations : List Operation} (h : Run.Accepts GoalContract.perform c operations c')
    {taskSpec : Json} (haccepted : (c'.validateTask taskSpec).verdict = .accepted) :
  ConfirmedLast operations ∧ (∃ task, taskSpec = .obj task ∧ c'.Fits task) ∧
    (draft.Plain → (∀ operation ∈ operations, operation.Plain) →
      ∀ first c₁, first <+: operations → Run.Accepts GoalContract.perform c first c₁ →
        (c₁.validateTask taskSpec).verdict = .accepted → c₁.termsRecord = c'.termsRecord)
  := by
  obtain ⟨task, rfl, hfits⟩ := accepted_iff.mp haccepted
  obtain ⟨-, -, -, -, -, -, -, hconfirmations⟩ := build_eq_ok hc
  refine ⟨confirmedLast_of_chain (hconfirmations.trans hunconfirmed) h hfits.confirmed,
    ⟨task, rfl, hfits⟩, ?_⟩
  intro hdraft hoperations first c₁ hfirst hrun haccepted₁
  obtain ⟨task₁, ⟨⟩, hfits₁⟩ := accepted_iff.mp haccepted₁
  have hplain := plain_of_build hc hdraft
  have hplain' := Run.Accepts.invariant plain_of_perform hplain hoperations h
  have hplain₁ := Run.Accepts.invariant plain_of_perform hplain
    (fun operation hmem => hoperations operation (hfirst.subset hmem)) hrun
  apply termsRecord_of_fingerprint hsha hplain₁ hplain'
  exact Option.some.inj (hfits₁.fingerprint.symm.trans hfits.fingerprint)

end Chains

/-! ### Two chains -/

section Example

def sample (endResult : Str) : Draft where
  goalId := .str (text "g1")
  endResult := .str endResult
  allowedScope := ofTexts [text "docs"]
  forbiddenScope := ofTexts []
  constraints := ofTexts []
  acceptanceCriteria := [⟨text "c1", text "report exists", text "deterministic"⟩]
  sideEffectLimits := ofTexts []
  gates := ⟨true, false, false⟩

/-- The encoding of the terms of a goal. -/
def canonicalTerms (draft : Draft) : Str :=
  match draft.build with
  | .ok c => dumpsAscii c.termsRecord
  | .error _ => []

/-- The platform with the digest of one text; the digests of other texts are marked copies of
them. -/
@[reducible]
def digestOf (canonical digest : Str) : Platform where
  sha256 s := if s = canonical then digest else 35 :: s
  repr := Platform.plain.repr
  decodeBytes := Platform.plain.decodeBytes
  tooDeep := Platform.plain.tooDeep

theorem digestOf_injective {canonical digest : Str} (h : digest.head? ≠ some 35) :
  Function.Injective (digestOf canonical digest).sha256
  := by
  intro s t hst
  change (if s = canonical then digest else 35 :: s) =
    if t = canonical then digest else 35 :: t at hst
  by_cases hs : s = canonical
  · by_cases ht : t = canonical
    · rw [hs, ht]
    · rw [if_pos hs, if_neg ht] at hst
      simp [hst] at h
  · by_cases ht : t = canonical
    · rw [if_neg hs, if_pos ht] at hst
      simp [← hst] at h
    · rw [if_neg hs, if_neg ht] at hst
      exact (List.cons.inj hst).2

def sampleTask (fingerprint : Str) : Json :=
  .obj [(text "acceptance_ids", ofTexts [text "c1"]),
    (text "evidence_class", .str (text "deterministic")),
    (text "goal_fingerprint", .str fingerprint),
    (text "goal_id", .str (text "g1")),
    (text "scope", ofTexts [text "docs"])]

def confirmation : Operation :=
  .confirm (.str (text "alice")) (.str (text "2026-10-07T12:00:00Z")) (.str (text "human"))

def restated (endResult : Str) : List Operation :=
  [confirmation,
    .amend { endResult := some (.str (text "ship the summary")) },
    .amend { endResult := some (.str endResult) },
    confirmation]

/-- The contracts after the first operation and after all of them. -/
def along [Platform] (draft : Draft) (operations : List Operation) :
    Option (GoalContract × GoalContract × GoalContract) :=
  (do
    let c ← draft.build
    let c₁ ← (operations.take 1).foldlM GoalContract.perform c
    let c' ← operations.foldlM GoalContract.perform c
    return (c, c₁, c') : Except GoalContractError _).toOption

theorem along_eq_some [Platform] {draft : Draft} {operations : List Operation}
    {c c₁ c' : GoalContract} (h : along draft operations = some (c, c₁, c')) :
  draft.build = .ok c ∧ Run.Accepts GoalContract.perform c (operations.take 1) c₁ ∧
    Run.Accepts GoalContract.perform c operations c'
  := by
  unfold along at h
  cases hc : draft.build with
  | error e =>
    rw [hc] at h
    cases h
  | ok c =>
    cases hc₁ : (operations.take 1).foldlM GoalContract.perform c with
    | error e =>
      rw [hc, ok_bind, hc₁] at h
      cases h
    | ok c₁ =>
      cases hc' : operations.foldlM GoalContract.perform c with
      | error e =>
        rw [hc, ok_bind, hc₁, ok_bind, hc'] at h
        cases h
      | ok c' =>
        rw [hc, ok_bind, hc₁, ok_bind, hc'] at h
        cases h
        exact ⟨rfl, hc₁, hc'⟩

section Restored

def reportDigest : Str :=
  text "4dc8bc0125a8d55eb13123b283e31f5d61ea47c2eb41dad8f0273b99edcef3d9"

local instance platformRestored : Platform :=
  digestOf (canonicalTerms (sample (text "ship the report"))) reportDigest

/-- A task is accepted, the terms are changed and changed back, and it is accepted again. -/
theorem accepted_of_restored :
  ∃ c c₁ c', (sample (text "ship the report")).build = .ok c ∧
    Run.Accepts GoalContract.perform c [confirmation] c₁ ∧
    Run.Accepts GoalContract.perform c (restated (text "ship the report")) c' ∧
    (∃ task, sampleTask reportDigest = .obj task ∧ c'.Fits task) ∧
    c₁.termsRecord = c'.termsRecord
  := by
  have hall : (along (sample (text "ship the report")) (restated (text "ship the report"))).any
      (fun r => (r.2.1.validateTask (sampleTask reportDigest)).verdict = .accepted &&
        (r.2.2.validateTask (sampleTask reportDigest)).verdict = .accepted) = true := by
    decide +kernel
  obtain ⟨⟨c, c₁, c'⟩, halong, haccepted⟩ := (Option.any_eq_true _ _).mp hall
  obtain ⟨hbuild, hfirst, hrun⟩ := along_eq_some halong
  simp only [Bool.and_eq_true, decide_eq_true_eq] at haccepted
  obtain ⟨-, hfits, hterms⟩ := accepted_of_chain (digestOf_injective (by decide)) hbuild rfl hrun
    haccepted.2
  refine ⟨c, c₁, c', hbuild, hfirst, hrun, hfits, ?_⟩
  apply hterms _ _ [confirmation] c₁ ⟨_, rfl⟩ hfirst haccepted.1
  · exact {
      goalId := show PlainText _ by decide
      endResult := show PlainText _ by decide
      allowedScope := everyText_ofTexts.mpr (by decide)
      forbiddenScope := everyText_ofTexts.mpr (by decide)
      constraints := everyText_ofTexts.mpr (by decide)
      sideEffectLimits := everyText_ofTexts.mpr (by decide)
      acceptanceCriteria := by
        simp only [sample, List.mem_singleton, forall_eq]
        exact ⟨by decide, by decide, by decide⟩ }
  · have hplain : ∀ endResult, PlainText endResult →
        (Operation.amend { endResult := some (.str endResult) }).Plain := by
      intro endResult hend
      simp [Operation.Plain, EveryText, hend]
    intro operation hmem
    simp only [restated, List.mem_cons, List.not_mem_nil, or_false] at hmem
    rcases hmem with rfl | rfl | rfl | rfl
    · trivial
    · exact hplain _ (by decide)
    · exact hplain _ (by decide)
    · trivial

end Restored

section Fused

def fusedDigest : Str :=
  text "00bff80b62cd3a792b24bea3b9d90d56c62bb4940691c71744405724ad71f56c"

def pairedResult : Str := text "ship " ++ [0xD83D, 0xDE00]

def fusedResult : Str := text "ship " ++ [0x1F600]

local instance platformFused : Platform :=
  digestOf (canonicalTerms (sample pairedResult)) fusedDigest

theorem accepted_for_other_terms :
  ((along (sample pairedResult) (restated fusedResult)).any fun r =>
    (r.2.1.validateTask (sampleTask fusedDigest)).verdict = .accepted &&
      (r.2.2.validateTask (sampleTask fusedDigest)).verdict = .accepted &&
      r.2.1.termsRecord ≠ r.2.2.termsRecord) = true
  := by
  decide +kernel

end Fused

end Example

end Courier.Goals
