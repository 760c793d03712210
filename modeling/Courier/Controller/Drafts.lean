import Courier.Controller.Written
import Courier.Journal.Outcomes

/-!
# The events the controller drafts

Every event the controller journals on its own account is valid: what it takes from the state
of a task is within the bounds of the events.
-/

namespace Courier

open Except Text
open Json (truthy)

variable [Platform]

/-! ### Proper drafts -/

def Draft.key (d : Draft) : Option Str :=
  d.dedupeKey <|> defaultDedupeKey d.type d.taskId d.attempt d.dispatchId d.resultId

def Draft.bare (d : Draft) : EventFields where
  type := d.type
  taskId := d.taskId
  attempt := d.attempt
  dispatchId := d.dispatchId
  workerId := d.workerId
  resultId := d.resultId
  payload := d.payload
  eventId := []
  tsUtc := []

/-- A draft whose event is valid, whatever its id and its time. -/
structure Draft.Proper (d : Draft) : Prop where
  wf : (Json.obj d.payload).wf = true
  key : ∀ key, d.key = some key → isId key
  required : ∀ f ∈ (REQUIRED d.type).1, d.bare.has f = true
  system : d.type.isSystem = true →
    ∀ f ∈ [Field.taskId, .attempt, .dispatchId, .workerId, .resultId], d.bare.has f = false
  taskId : ∀ id, d.taskId = some id → isId id
  dispatchId : ∀ id, d.dispatchId = some id → isId id
  workerId : ∀ id, d.workerId = some id → isId id
  resultId : ∀ id, d.resultId = some id → isId id
  attempt : ∀ n, d.attempt = some n → 1 ≤ n ∧ n ≤ MAX_ATTEMPTS_LIMIT
  keys : (REQUIRED d.type).2.all (Json.hasKey d.payload) = true
  kind : validateKind d.bare = .ok ()
  actor : (d.type.isHumanDecision || Json.hasKey d.payload (text "actor")) = true →
    ∃ actor, Json.get d.payload (text "actor") = .str actor ∧ isId actor
  reason : d.type.isHumanDecision = true →
    ∃ reason, Json.get d.payload (text "reason") = .str reason ∧ blank reason = false

omit [Platform] in
theorem Uuid.isId_hex (uuid : Uuid) :
  isId uuid.hex
  := by
  constructor
  · intro h
    have hlength := uuid.length
    simp [h] at hlength
  · rw [uuid.length]
    decide

theorem Draft.Proper.valid {d : Draft} (h : d.Proper) (draw : Draw) :
  validate (withDefaultKey (d.fields draw)) = .ok ()
  := by
  apply Event.valid_iff.mpr
  refine ⟨draw.eventId.isId_hex, ?_, h.key, h.required, h.system, ?_, h.attempt, ?_, ?_⟩
  · show (text "Z").isSuffixOf (draw.clock ++ text "Z") = true
    simp
  · rintro ⟨name, id⟩ hp
    simp only [EventFields.ids, withDefaultKey, Draft.fields, List.mem_filterMap, List.mem_cons,
      List.not_mem_nil, or_false, Option.map_eq_some_iff, Prod.mk.injEq] at hp
    obtain ⟨-, rfl | rfl | rfl | rfl, x, hx, -, rfl⟩ := hp
    · apply h.taskId x hx
    · apply h.dispatchId x hx
    · apply h.workerId x hx
    · apply h.resultId x hx
  · apply List.filter_eq_nil_iff.mpr
    intro key hkey
    have hhas := List.all_eq_true.mp h.keys key hkey
    simpa [withDefaultKey, Draft.fields] using hhas
  · have hkind : validateKind (withDefaultKey (d.fields draw)) = .ok () := h.kind
    simp only [validatePayload, hkind, bind_unit_eq_ok, true_and, checkWhen_eq_ok, checkId_eq_ok,
      check_eq_ok]
    refine ⟨h.actor, ?_⟩
    intro hhuman
    obtain ⟨reason, hreason, hblank⟩ := h.reason hhuman
    show ((Json.get d.payload (text "reason")).str?.any fun s => !blank s) = true
    rw [hreason]
    simpa [Json.str?] using hblank

variable {type : EventType}

section

omit [Platform]

theorem isId_defaultDedupeKey {id : Option Str} {n : Option Int}
    {d r : Option Str} {key : Str} (h : defaultDedupeKey type id n d r = some key)
    (hid : (showOption id).length ≤ 37) (hn : (showAttempt n).length ≤ 4)
    (hd : (showOption d).length ≤ 36) (hresult : type ≠ .resultReady) :
  isId key
  := by
  have hlength : ∀ {pre rest : Str}, pre ≠ [] → pre.length ≤ 20 → rest.length ≤ 42 →
      isId (pre ++ rest) := by
    intro pre rest hpre hpre' hrest
    refine ⟨by simp [hpre], ?_⟩
    simp only [List.length_append, MAX_ID_LENGTH]
    omega
  have hpair : ∀ {pre x y : Str}, pre ≠ [] → pre.length ≤ 20 → x.length ≤ 37 → y.length ≤ 4 →
      isId (pre ++ x ++ text ":" ++ y) := by
    intro pre x y hpre hpre' hx hy
    have hcolon : (text ":").length = 1 := rfl
    rw [List.append_assoc, List.append_assoc]
    apply hlength hpre hpre'
    simp only [List.length_append, hcolon]
    omega
  cases type with
  | taskClaimed =>
    cases h
    exact hpair (by decide) (by decide) hid hn
  | retryAuthorized =>
    cases h
    exact hpair (by decide) (by decide) hid hn
  | resultReady => exact absurd rfl hresult
  | _ =>
    cases h <;> exact hlength (by decide) (by decide) (by omega)

theorem length_decimal {n : Int} (hmin : 1 ≤ n) (hmax : n ≤ MAX_ATTEMPTS_LIMIT) :
  (decimal n).length ≤ 4
  := by
  obtain ⟨m, rfl⟩ := Int.eq_ofNat_of_zero_le (show 0 ≤ n by omega)
  simp only [MAX_ATTEMPTS_LIMIT] at hmax
  show (natDecimal m).length ≤ 4
  have hm : m ≠ 0 := by omega
  rw [natDecimal, if_neg hm, List.length_reverse, List.length_map]
  apply (Nat.digits_length_le_iff (by norm_num) m).mpr
  omega

end

theorem proper_note {id : Str} (type : EventType) (payload : Members)
    (htype : type ∈ [EventType.taskBlocked, .taskFailed, .taskCancelRequested, .taskCancelled])
    (hid : isId id) (hwf : (Json.obj payload).wf = true)
    (hkeys : (REQUIRED type).2.all (Json.hasKey payload) = true)
    (hactor : Json.hasKey payload (text "actor") = true →
      ∃ actor, Json.get payload (text "actor") = .str actor ∧ isId actor) :
  Draft.Proper { type := type, taskId := some id, payload := payload }
  := by
  simp only [List.mem_cons, List.not_mem_nil, or_false] at htype
  constructor
  · exact hwf
  · intro key hkey
    rcases htype with rfl | rfl | rfl | rfl <;> cases hkey
  · intro f hf
    rcases htype with rfl | rfl | rfl | rfl <;> obtain rfl := List.mem_singleton.mp hf <;> rfl
  · intro hs
    rcases htype with rfl | rfl | rfl | rfl <;> cases hs
  · rintro _ ⟨⟩
    exact hid
  · simp
  · simp
  · simp
  · simp
  · exact hkeys
  · rcases htype with rfl | rfl | rfl | rfl <;> rfl
  · intro h
    apply hactor
    rcases htype with rfl | rfl | rfl | rfl <;> exact h
  · intro hhuman
    rcases htype with rfl | rfl | rfl | rfl <;> cases hhuman

variable {payload : Members}

/-- A draft about the dispatch a task holds is proper if its payload is. -/
theorem proper_held {s : TaskState} {worker result : Option Str} (hs : s.Lawful)
    (hheld : s.status.isHeld = true)
    (hlength : s.taskId.length ≤ 37 ∧ ∀ d, s.dispatchId = some d → d.length ≤ 36)
    (htype : type ∈ [EventType.taskStarted, .leaseExpired, .resultAccepted, .resultRejected,
      .taskComplete])
    (hworker : worker = s.workerId ∨ worker = none ∧ Field.workerId ∉ (REQUIRED type).1)
    (hresult : Named result ∨ result = none ∧ Field.resultId ∉ (REQUIRED type).1)
    (hwf : (Json.obj payload).wf = true)
    (hkeys : (REQUIRED type).2.all (Json.hasKey payload) = true)
    (hkind : validateKind (Draft.bare { type := type, payload := payload }) = .ok ())
    (hactor : Json.hasKey payload (text "actor") = false) :
  Draft.Proper {
    type := type, taskId := s.taskId, attempt := s.attempt, dispatchId := s.dispatchId
    workerId := worker, resultId := result, payload := payload }
  := by
  obtain ⟨hmin, ⟨d, hd, hdid⟩, w, hw, hwid⟩ := hs.held hheld
  obtain ⟨hid, hdispatch⟩ := hlength
  have hmax := hs.attempts.2
  simp only [List.mem_cons, List.not_mem_nil, or_false] at htype
  constructor
  · exact hwf
  · intro key hkey
    apply isId_defaultDedupeKey hkey hid
    · exact length_decimal hmin hmax
    · rw [hd]
      apply hdispatch d hd
    · rcases htype with rfl | rfl | rfl | rfl | rfl <;> simp
  · intro f hf
    cases f with
    | taskId => rfl
    | attempt => rfl
    | dispatchId => simp [Draft.bare, EventFields.has, hd]
    | workerId =>
      obtain rfl | ⟨-, hnot⟩ := hworker
      · simp [Draft.bare, EventFields.has, hw]
      · exact absurd hf hnot
    | resultId =>
      obtain ⟨r, rfl, -⟩ | ⟨-, hnot⟩ := hresult
      · simp [Draft.bare, EventFields.has]
      · exact absurd hf hnot
  · intro hsystem
    rcases htype with rfl | rfl | rfl | rfl | rfl <;> cases hsystem
  · rintro _ ⟨⟩
    exact hs.id
  · intro id h
    cases hd.symm.trans h
    exact hdid
  · intro id h
    obtain rfl | ⟨rfl, -⟩ := hworker
    · cases hw.symm.trans h
      exact hwid
    · cases h
  · intro id h
    obtain ⟨r, rfl, hr⟩ | ⟨rfl, -⟩ := hresult
    · cases h
      exact hr
    · cases h
  · rintro _ ⟨⟩
    exact ⟨hmin, hmax⟩
  · exact hkeys
  · rcases htype with rfl | rfl | rfl | rfl | rfl <;> exact hkind
  · intro h
    rcases htype with rfl | rfl | rfl | rfl | rfl <;>
      simp [EventType.isHumanDecision, hactor] at h
  · intro hhuman
    rcases htype with rfl | rfl | rfl | rfl | rfl <;> cases hhuman

/-! ### The drafts of the controller -/

section Held

variable {s : TaskState} (hs : s.Lawful) (hheld : s.status.isHeld = true)
  (hlength : s.taskId.length ≤ 37 ∧ ∀ d, s.dispatchId = some d → d.length ≤ 36)

include hs hheld hlength

theorem proper_started :
  Draft.Proper {
    type := .taskStarted, taskId := s.taskId, attempt := s.attempt, dispatchId := s.dispatchId
    workerId := s.workerId }
  := by
  apply proper_held hs hheld hlength (by simp) (.inl rfl) (.inr ⟨rfl, by decide⟩) rfl rfl rfl rfl

theorem proper_expired (lease : Lease) :
  (Controller.expiredDraft s lease).Proper
  := by
  have hkind : validateKind (Draft.bare {
      type := .leaseExpired, payload := [(text "reason", .str lease.reason.value)] }) = .ok () := by
    cases lease.reason <;> rfl
  apply proper_held hs hheld hlength (by simp) (.inl rfl) (.inr ⟨rfl, by decide⟩) rfl rfl hkind rfl

theorem proper_complete (hresult : Named s.acceptedResultId) :
  Draft.Proper {
    type := .taskComplete, taskId := s.taskId, attempt := s.attempt, dispatchId := s.dispatchId
    resultId := s.acceptedResultId }
  := by
  apply proper_held hs hheld hlength (by simp) (.inr ⟨rfl, by decide⟩) (.inl hresult) rfl rfl rfl
    rfl

theorem proper_verdict (verdict : Verdict) (hverifier : (Json.obj verdict.verifier).wf = true)
    (hresult : Named s.pendingResultId) :
  (Controller.verdictDraft s verdict).Proper
  := by
  obtain ⟨accepted, reason, retryable, verifier⟩ := verdict
  cases accepted with
  | true =>
    apply proper_held hs hheld hlength (by simp) (.inr ⟨rfl, by simp [REQUIRED]⟩) (.inl hresult)
      _ rfl rfl rfl
    simp only [Json.wf, Json.wf.wfMembers, Json.sortedKeys, if_true] at hverifier ⊢
    rw [hverifier]
    decide
  | false =>
    apply proper_held hs hheld hlength (by simp) (.inr ⟨rfl, by simp [REQUIRED]⟩) (.inl hresult)
      _ rfl rfl rfl
    simp only [Json.wf, Json.wf.wfMembers, Json.sortedKeys, Bool.false_eq_true,
      if_false] at hverifier ⊢
    rw [hverifier]
    decide

end Held

theorem proper_decision {s : TaskState} (hs : s.Lawful) (hheld : s.status.isHeld = true)
    (decision : Decision) :
  (decisionDraft s decision).Proper
  := by
  cases decision with
  | retry =>
    constructor
    · rfl
    · intro key hkey
      cases hkey
    · intro f hf
      simp only [decisionDraft, REQUIRED, List.mem_cons, List.not_mem_nil, or_false] at hf
      rcases hf with rfl | rfl <;> rfl
    · intro hsystem
      cases hsystem
    · rintro _ ⟨⟩
      exact hs.id
    · rintro _ ⟨⟩
    · rintro _ ⟨⟩
    · rintro _ ⟨⟩
    · rintro _ ⟨⟩
      exact ⟨(hs.held hheld).1, hs.attempts.2⟩
    · rfl
    · rfl
    · rintro ⟨⟩
    · rintro ⟨⟩
  | fail => exact proper_note _ _ (by simp) hs.id rfl rfl (by rintro ⟨⟩)
  | block => exact proper_note _ _ (by simp) hs.id rfl rfl (by rintro ⟨⟩)
  | cancel => exact proper_note _ _ (by simp) hs.id rfl rfl (by rintro ⟨⟩)

theorem wf_verifier (finding : Finding) (s : TaskState) (result : EventFields) :
  (Json.obj (runVerifier finding s result).verifier).wf = true
  := by
  have hrule : ∀ name adapter : Str, (Json.obj (rule name adapter)).wf = true := fun _ _ => rfl
  have hidentity : ∀ identity : VerifierIdentity, (Json.obj identity.record).wf = true := by
    rintro ⟨name, version, source⟩
    cases version <;> cases source <;> rfl
  unfold runVerifier
  split_ifs
  · apply hrule
  · cases finding with
    | loadFailed => apply hrule
    | missing => apply hrule
    | raised identity => apply hidentity
    | invalid identity => apply hidentity
    | verdict identity => apply hidentity

theorem proper_cancel {s : TaskState} (hs : isId s.taskId)
    (htype : type ∈ [EventType.taskBlocked, .taskFailed, .taskCancelRequested, .taskCancelled])
    (hkeys : ∀ actor reason, (REQUIRED type).2.all (Json.hasKey
      (Controller.cancelDraft type s actor reason).payload) = true) {actor : Option Str}
    (hactor : ∀ a, actor = some a → isId a) (reason : Str) :
  (Controller.cancelDraft type s actor reason).Proper
  := by
  apply proper_note _ _ htype hs _ (hkeys _ _)
  · intro h
    cases actor with
    | none => cases h
    | some a => exact ⟨a, rfl, hactor a rfl⟩
  · cases actor <;> rfl

theorem proper_decided {decision : HumanDecision} (hdecision : decision ≠ .cancel) {id : Str}
    (hid : isId id) (hlength : id.length ≤ 37) {attempt : Int}
    (hattempt : 1 ≤ attempt ∧ attempt ≤ MAX_ATTEMPTS_LIMIT) {actor reason : Str}
    (hactor : isId actor) (hreason : blank reason = false) :
  (Controller.decidedDraft decision id attempt actor reason).Proper
  := by
  constructor
  · rfl
  · intro key hkey
    have hkey : defaultDedupeKey decision.eventType (some id) (some attempt) none none = some key :=
      hkey
    apply isId_defaultDedupeKey hkey hlength (length_decimal hattempt.1 hattempt.2)
    · decide
    · cases decision <;> simp [HumanDecision.eventType]
  · intro f hf
    have hfields : (REQUIRED decision.eventType).1 = [.taskId, .attempt] := by
      cases decision <;> first | rfl | exact absurd rfl hdecision
    rw [Controller.decidedDraft, hfields] at hf
    simp only [List.mem_cons, List.not_mem_nil, or_false] at hf
    rcases hf with rfl | rfl <;> rfl
  · cases decision <;> rintro ⟨⟩
  · rintro _ ⟨⟩
    exact hid
  · rintro _ ⟨⟩
  · rintro _ ⟨⟩
  · rintro _ ⟨⟩
  · rintro _ ⟨⟩
    exact hattempt
  · cases decision <;> rfl
  · cases decision <;> rfl
  · intro _
    exact ⟨actor, rfl, hactor⟩
  · intro _
    exact ⟨reason, rfl, hreason⟩

/-! ### Claims -/

theorem isArtifact_ref {a : Json} (h : isArtifact a = true) :
  isArtifact (.obj [(text "path", Json.get a.asMembers (text "path")),
    (text "sha256", Json.get a.asMembers (text "sha256"))]) = true
  := by
  cases a with
  | obj d =>
    simp only [isArtifact, Bool.and_eq_true, Json.asMembers_obj] at h ⊢
    obtain ⟨hpath, hhash⟩ := h
    refine ⟨hpath, ?_⟩
    cases hlookup : d.lookup (text "sha256") with
    | none =>
      rw [hlookup] at hhash
      cases hhash
    | some v =>
      rw [hlookup] at hhash
      have hget : Json.get d (text "sha256") = v := by simp [Json.get, hlookup]
      rw [hget]
      exact hhash
  | _ => cases h

theorem artifacts_of_ready {e : Event} (h : e.type = .resultReady) :
  ∃ items, e.get (text "artifacts") = .arr items ∧ ∀ a ∈ items, isArtifact a = true
  := by
  have hv := Event.validPayload (e := e)
  simp only [validatePayload, validateKind, h, bind_unit_eq_ok] at hv
  obtain ⟨⟨-, hartifacts, -⟩, -⟩ := hv
  cases hget : e.get (text "artifacts") with
  | arr items =>
    rw [hget] at hartifacts
    simp only [checkArtifacts, checkAll_eq_ok, check_eq_ok] at hartifacts
    exact ⟨items, rfl, hartifacts⟩
  | _ =>
    rw [hget] at hartifacts
    cases hartifacts

theorem valid_boundInput {dep : TaskState} (hdep : dep.Lawful) (hverified : dep.verified = true)
    {e : Event} (htype : e.type = .resultReady) (hsome : truthy (e.get (text "artifacts")) = true) :
  (Controller.boundInput dep e.toEventFields).wf = true ∧
    validateInput (Controller.boundInput dep e.toEventFields) = .ok ()
  := by
  obtain ⟨items, hitems, hartifacts⟩ := artifacts_of_ready htype
  obtain ⟨⟨d, hd, hdid⟩, r, hr, hrid⟩ := hdep.accepted (.inr hverified)
  have hrefs : Controller.artifactRefs e.toEventFields = items.map fun a =>
      .obj [(text "path", Json.get a.asMembers (text "path")),
        (text "sha256", Json.get a.asMembers (text "sha256"))] := by
    simp only [Controller.artifactRefs, hitems, Json.asItems]
  have hwfitems : (Json.arr items).wf = true := by
    rw [← hitems]
    apply e.wf_get
  constructor
  · have hwf : (Json.arr (Controller.artifactRefs e.toEventFields)).wf = true := by
      rw [hrefs]
      apply Json.wf_arr.mpr
      intro b hb
      obtain ⟨a, ha, rfl⟩ := List.mem_map.mp hb
      have hawf := Json.wf_arr.mp hwfitems a ha
      have hmembers : (Json.obj a.asMembers).wf = true := by
        cases a with
        | obj d => exact hawf
        | _ => rfl
      simp only [Json.wf, Json.wf.wfMembers, Json.sortedKeys, Json.wf_get hmembers]
      decide
    simp only [Controller.boundInput, hd, hr, Event.optionJson, Json.wf, Json.wf.wfMembers,
      Json.sortedKeys] at hwf ⊢
    rw [hwf]
    decide
  · have hne : items ≠ [] := by
      rw [hitems] at hsome
      simpa [truthy] using hsome
    simp only [validateInput, bind_unit_eq_ok, check_eq_ok, checkId_eq_ok]
    refine ⟨rfl, ⟨dep.taskId, rfl, hdep.id⟩, ⟨d, ?_, hdid⟩, ⟨r, ?_, hrid⟩, ?_, ?_⟩
    · rw [← Event.optionJson, ← hd]
      rfl
    · rw [← Event.optionJson, ← hr]
      rfl
    · show checkArtifacts (.arr (Controller.artifactRefs e.toEventFields)) = .ok ()
      simp only [hrefs, checkArtifacts, checkAll_eq_ok, check_eq_ok]
      intro b hb
      obtain ⟨a, ha, rfl⟩ := List.mem_map.mp hb
      exact isArtifact_ref (hartifacts a ha)
    · show Controller.artifactRefs e.toEventFields ≠ []
      rw [hrefs]
      simpa using hne

theorem proper_claimed {s : TaskState} (hs : s.Lawful) (hqueued : s.status = .queued)
    (hlength : s.taskId.length ≤ 37) {worker : Str} (hworker : isId worker) (uuid : Uuid)
    {bound : Option Json} (hbound : ∀ b, bound = some b → b.wf = true ∧ validateInput b = .ok ()) :
  (Controller.claimedDraft s worker (Controller.newDispatchId uuid) bound).Proper
  := by
  have hattempt : 1 ≤ s.attempt + 1 ∧ s.attempt + 1 ≤ MAX_ATTEMPTS_LIMIT := by
    have hlt := hs.queued hqueued
    have hmax := hs.budget
    have hmin := hs.attempts.1
    omega
  have hdispatch : (Controller.newDispatchId uuid).length = 36 := by
    simp only [Controller.newDispatchId, List.length_append, uuid.length]
    rfl
  have hpayload : (Json.obj (Controller.claimedDraft s worker (Controller.newDispatchId uuid)
      bound).payload).wf = true := by
    cases bound with
    | none => rfl
    | some b =>
      simp only [Controller.claimedDraft, optionalMember, Option.map_some, Option.toList_some,
        List.singleton_append, Json.wf, Json.wf.wfMembers, Json.sortedKeys,
        (hbound b rfl).1]
      decide
  constructor
  · exact hpayload
  · intro key hkey
    have hkey : defaultDedupeKey .taskClaimed (some s.taskId) (some (s.attempt + 1))
        (some (Controller.newDispatchId uuid)) none = some key := hkey
    apply isId_defaultDedupeKey hkey hlength (length_decimal hattempt.1 hattempt.2)
    · exact le_of_eq hdispatch
    · simp
  · intro f hf
    simp only [Controller.claimedDraft, REQUIRED, List.mem_cons, List.not_mem_nil,
      or_false] at hf
    rcases hf with rfl | rfl | rfl | rfl <;> rfl
  · rintro ⟨⟩
  · rintro _ ⟨⟩
    exact hs.id
  · rintro _ ⟨⟩
    refine ⟨?_, ?_⟩
    · intro h
      simp [h] at hdispatch
    · rw [hdispatch]
      decide
  · rintro _ ⟨⟩
    exact hworker
  · rintro _ ⟨⟩
  · rintro _ ⟨⟩
    exact hattempt
  · cases bound <;> rfl
  · have hget : (Controller.claimedDraft s worker (Controller.newDispatchId uuid) bound).bare.get
        (text "ttl_s") = .int s.leaseTtlS := by
      cases bound <;> rfl
    have hinput : (Controller.claimedDraft s worker (Controller.newDispatchId uuid) bound).bare.get
        (text "input") = bound.getD .null := by
      cases bound <;> rfl
    have httl := hs.ttl
    show (checkPositiveInt _ _ none >>= fun _ => unlessNull _ _) = .ok ()
    rw [bind_unit_eq_ok, checkPositiveInt, check_eq_ok, unlessNull, checkWhen_eq_ok, hget, hinput]
    refine ⟨by simpa [isPositiveInt] using httl, ?_⟩
    intro hnull
    cases bound with
    | none => simp at hnull
    | some b => exact (hbound b rfl).2
  · intro h
    cases bound <;> cases h
  · rintro ⟨⟩

/-! ### Late results -/

/-- A late result is kept under a valid event if the result itself would be valid. -/
theorem proper_late {s : TaskState} (claim : Event) (hs : isId s.taskId) {candidate : Event}
    {d r : Str} (hpayload : candidate.payload = payload) (hd : candidate.dispatchId = some d)
    (hr : candidate.resultId = some r)
    (hkey : candidate.dedupeKey = Controller.resultKey (some d) (some r)) :
  (Controller.lateDraft s claim d r payload).Proper
  := by
  have hwf : (Json.obj payload).wf = true := by
    rw [← hpayload]
    exact candidate.canonical
  have hretryable : ∀ v, payload.lookup (text "retryable") = some v → v.wf = true := by
    intro v hv
    simp only [Json.wf, Bool.and_eq_true] at hwf
    exact Json.wf_of_lookup hwf.2 hv
  have hlength : isId (text "result:" ++ d ++ text ":" ++ r) :=
    (Event.valid_iff.mp candidate.valid).2.2.1 _ hkey
  constructor
  · have hattempt : ∀ n, (Event.optionInt n).wf = true := by
      intro n
      cases n <;> rfl
    cases hlookup : payload.lookup (text "retryable") with
    | none =>
      simp only [Controller.lateDraft, hlookup, optionalMember, Option.map_none,
        Option.toList_none, List.append_nil, Json.wf, Json.wf.wfMembers, Json.sortedKeys,
        Json.wf_get hwf, hattempt]
      decide
    | some v =>
      simp only [Controller.lateDraft, hlookup, optionalMember, Option.map_some,
        Option.toList_some, List.cons_append, List.nil_append, Json.wf, Json.wf.wfMembers,
        Json.sortedKeys, Json.wf_get hwf, hattempt, hretryable v hlookup]
      decide
  · rintro _ ⟨⟩
    refine ⟨by simp [text], ?_⟩
    have hlength := hlength.2
    simp only [List.length_append] at hlength ⊢
    have hresult : (text "result:").length = 7 := rfl
    have hlate : (text "late:").length = 5 := rfl
    omega
  · intro f hf
    simp only [Controller.lateDraft, REQUIRED, List.mem_cons, List.not_mem_nil, or_false] at hf
    rcases hf with rfl | rfl | rfl <;> rfl
  · rintro ⟨⟩
  · rintro _ ⟨⟩
    exact hs
  · rintro _ ⟨⟩
    exact Event.isId_dispatchId hd
  · rintro _ ⟨⟩
  · rintro _ ⟨⟩
    exact Event.isId_resultId hr
  · rintro _ ⟨⟩
  · cases hlookup : payload.lookup (text "retryable") <;>
      simp only [Controller.lateDraft, hlookup] <;> rfl
  · rfl
  · intro h
    cases hlookup : payload.lookup (text "retryable") <;>
      simp only [Controller.lateDraft, hlookup] at h <;> cases h
  · rintro ⟨⟩

/-! ### Lifecycle of the controller -/

theorem proper_system (htype : type.isSystem = true)
    (hwf : (Json.obj payload).wf = true)
    (hactor : Json.hasKey payload (text "actor") = false) :
  Draft.Proper { type := type, payload := payload }
  := by
  have hrequired : REQUIRED type = ([], []) := by
    cases type <;> first | rfl | cases htype
  have hhuman : type.isHumanDecision = false := by
    cases type <;> first | rfl | cases htype
  constructor
  · exact hwf
  · intro key hkey
    have hnone : defaultDedupeKey type none none none none = none := by
      cases type <;> first | rfl | cases htype
    have hkey : defaultDedupeKey type none none none none = some key := hkey
    simp [hnone] at hkey
  · simp [hrequired]
  · intro _ f hf
    cases f <;> rfl
  · rintro _ ⟨⟩
  · rintro _ ⟨⟩
  · rintro _ ⟨⟩
  · rintro _ ⟨⟩
  · rintro _ ⟨⟩
  · simp [hrequired]
  · cases type <;> first | rfl | cases htype
  · intro h
    simp [hhuman, hactor] at h
  · intro h
    simp [hhuman] at h

end Courier
