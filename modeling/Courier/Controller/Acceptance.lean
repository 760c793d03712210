import Courier.Controller.Decisions

/-!
# Surroundings that do not fail

When the platform is as it is documented, the next appends do not fail and the ids that are drawn are new, an
event that is a legal next step of its task is journaled.  A decision that the state of a blocked task admits is
taken then.
-/

namespace Courier

open Except Program Run Text Controller

structure Platform.Works [Platform] : Prop where
  digest : ∀ s, ∀ c ∈ Platform.sha256 s, isHexDigit c = true
  shallow : ∀ d : List (Str × Str), Platform.tooDeep (canonicalJson (.obj (Json.texts d))) = false

variable [Platform]

/-- The next draws are good: no append fails, the clock shows a text that has an encoding, and the ids are new. -/
structure Controller.Works (n : Nat) (c : Controller) : Prop where
  fails : ∀ k < n, (c.draws k).fails = false
  clock : ∀ k < n, Encodable (c.draws k).clock
  fresh : ∀ k < n, (c.draws k).eventId.hex ∉ c.journal.events.map fun e => e.eventId
  distinct : ∀ k < n, ∀ l < k, (c.draws k).eventId.hex ≠ (c.draws l).eventId.hex
  room : c.journal.events.length + n < 2 ^ 63

/-! ### Texts -/

omit [Platform] in
theorem encodable_of_hex {s : Str} (h : ∀ c ∈ s, isHexDigit c = true) :
  Encodable s
  := by
  apply encodable_of_lt
  intro c hc
  have hdigit := h c hc
  simp only [isHexDigit, Bool.or_eq_true, Bool.and_eq_true, decide_eq_true_eq] at hdigit
  omega

structure Draft.Textual (d : Draft) : Prop where
  taskId : ∀ s, d.taskId = some s → Encodable s
  dispatchId : ∀ s, d.dispatchId = some s → Encodable s
  workerId : ∀ s, d.workerId = some s → Encodable s
  resultId : ∀ s, d.resultId = some s → Encodable s
  key : ∀ s, d.key = some s → Encodable s
  payload : Encodable (canonicalJson (.obj d.payload))

structure Drawn (d : Draft) (draw : Draw) (e : Event) : Prop extends Drafted d e where
  eventId : e.eventId = draw.eventId.hex
  tsUtc : e.tsUtc = draw.clock ++ text "Z"

theorem Drawn.textual {d : Draft} {draw : Draw} {e : Event} (h : Drawn d draw e) (hd : d.Textual)
    (hclock : Encodable draw.clock) :
  e.Textual
  := by
  refine ⟨?_, ?_, h.taskId ▸ hd.taskId, h.dispatchId ▸ hd.dispatchId, h.workerId ▸ hd.workerId,
    h.resultId ▸ hd.resultId, h.key ▸ hd.key, h.payload ▸ hd.payload⟩
  · rw [h.eventId]
    exact encodable_of_hex draw.eventId.digits
  · rw [h.tsUtc, encodable_append]
    exact ⟨hclock, by decide⟩

omit [Platform] in
theorem encodable_texts {d : List (Str × Str)} (hwf : (Json.obj (Json.texts d)).wf = true)
    (h : ∀ p ∈ d, Encodable p.1 ∧ Encodable p.2) :
  Encodable (canonicalJson (.obj (Json.texts d)))
  := by
  apply Json.encodable_dumps hwf
  show Json.EveryText.everyMember Encodable (Json.texts d)
  clear hwf
  induction d with
  | nil => trivial
  | cons p d ih =>
    obtain ⟨hkey, hvalue⟩ := h p List.mem_cons_self
    exact ⟨hkey, hvalue, ih fun q hq => h q (List.mem_cons_of_mem _ hq)⟩

namespace Controller

variable {α : Type} {c : Controller} {n : Nat}

/-! ### Appends -/

theorem Works.mono {m : Nat} (h : c.Works n) (hmn : m ≤ n) :
  c.Works m
  := by
  have hroom := h.room
  exact ⟨fun k hk => h.fails k (by omega), fun k hk => h.clock k (by omega), fun k hk => h.fresh k (by omega),
    fun k hk => h.distinct k (by omega), by omega⟩

theorem wp_newEvent_works {d : Draft} {normal : Event → Controller → Prop} (hproper : d.Proper)
    (hshallow : Platform.tooDeep (canonicalJson (.obj d.payload)) = false)
    (hnormal : ∀ e, Drawn d (c.draws 0) e → normal e { c with draws := fun k => c.draws (k + 1) }) :
  wp (newEvent d) normal (fun _ _ => False) c
  := by
  simp only [newEvent, nextDraw, wp_bind, wp_get, wp_set, wp_pure, wp_lift]
  constructor
  · intro e he
    have hfields := Event.build_eq_ok.mp he
    exact hnormal e ⟨drafted_of_build he, by rw [hfields]; rfl, by rw [hfields]; rfl⟩
  · intro why hwhy
    rw [Event.build_of_valid hproper.wf hshallow (hproper.valid _)] at hwhy
    cases hwhy

theorem wp_append_works {e : Event} {s s' : TaskState} {normal : AppendResult → Controller → Prop}
    (hplatform : Platform.Works) (hwritten : Written c.journal) (hfits : Fits c.journal e s s') (htexts : e.Textual)
    (hfails : (c.draws 0).fails = false) (hroom : (c.journal.events.length : Int) + 1 < 2 ^ 63)
    (hfresh : e.eventId ∉ c.journal.events.map fun e => e.eventId)
    (hstate : ({ s' with updatedSeq := some ((c.journal.events.length : Int) + 1) } : TaskState).Storable)
    (hnormal : ∀ r c', Stored c e s' c' → c'.draws = (fun k => c.draws (k + 1)) → normal r c') :
  wp (append e) normal (fun _ _ => False) c
  := by
  have hstored := wp_append hwritten hfits
  obtain ⟨r, j', happend⟩ := Journal.append_of_step hfits.known hfits.taskId hfits.step hfits.new hfits.unsealed htexts
    hroom hfresh (fun s => encodable_of_hex (hplatform.digest s)) hstate
  simp only [append, wp_noting, nextDraw, wp_bind, wp_get, wp_set, wp_pure, hfails, Bool.false_eq_true, if_false,
    wp_lift, happend] at hstored ⊢
  refine ⟨?_, by rintro why ⟨⟩⟩
  rintro a ⟨⟩
  exact hnormal _ _ (hstored.1 _ rfl).2.2 rfl

theorem wp_record_works {d : Draft} {s t : TaskState} {normal : AppendResult → Controller → Prop}
    (hplatform : Platform.Works) (hwritten : Written c.journal) (hworks : c.Works (n + 2)) (hproper : d.Proper)
    (hshallow : Platform.tooDeep (canonicalJson (.obj d.payload)) = false) (htexts : d.Textual)
    (hfits : ∀ e, Drafted d e → Fits c.journal e s t)
    (hstate : ({ t with updatedSeq := some ((c.journal.events.length : Int) + 1) } : TaskState).Storable)
    (hnormal : ∀ r e c', Stored c e t c' → Works n c' → normal r c') :
  wp (record d) normal (fun _ _ => False) c
  := by
  have hroom := hworks.room
  rw [record, wp_bind, wp_noting]
  apply wp_newEvent_works hproper hshallow
  intro e he
  refine wp_append_works (c := { c with draws := fun k => c.draws (k + 1) }) hplatform hwritten
    (hfits e he.toDrafted) (he.textual htexts (hworks.clock 0 (by omega))) (hworks.fails 1 (by omega)) ?_ ?_ hstate ?_
  · show (c.journal.events.length : Int) + 1 < 2 ^ 63
    omega
  · rw [he.eventId]
    exact hworks.fresh 0 (by omega)
  · intro r c' hstored hdraws
    have hdraws' : ∀ k, c'.draws k = c.draws (k + 2) := fun k => congrFun hdraws k
    obtain ⟨seq, prevHash, hash, hevents⟩ := hstored.redrawn.events
    refine hnormal r e c' hstored.redrawn ⟨?_, ?_, ?_, ?_, ?_⟩
    · intro k hk
      rw [hdraws']
      exact hworks.fails _ (by omega)
    · intro k hk
      rw [hdraws']
      exact hworks.clock _ (by omega)
    · intro k hk
      rw [hdraws', hevents, List.map_append, List.mem_append, not_or]
      refine ⟨hworks.fresh _ (by omega), ?_⟩
      rw [List.map_singleton, List.mem_singleton]
      exact fun h => hworks.distinct (k + 2) (by omega) 0 (by omega) (h.trans he.eventId)
    · intro k hk l hl
      rw [hdraws', hdraws']
      exact hworks.distinct _ (by omega) _ (by omega)
    · rw [hevents, List.length_append, List.length_singleton]
      omega

end Controller

/-! ### States that are stored -/

namespace TaskState

variable {s : TaskState}

omit [Platform] in
theorem storable_iff :
  s.Storable ↔ Encodable s.taskId ∧ Encodable s.adapter ∧ Encodable (canonicalJson s.params) ∧
    Encodable s.effectClass ∧ SqlValue.fits s.maxAttempts = true ∧ SqlValue.fits s.leaseTtlS = true ∧
    (∀ i, s.timeoutS = some i → SqlValue.fits i = true) ∧ SqlValue.fits s.attempt = true ∧
    (∀ t, s.dispatchId = some t → Encodable t) ∧ (∀ t, s.workerId = some t → Encodable t) ∧
    (∀ t, s.pendingResultId = some t → Encodable t) ∧ (∀ t, s.acceptedResultId = some t → Encodable t) ∧
    (∀ t, s.lastReason = some t → Encodable t) ∧ SqlValue.fits s.lateResults = true ∧
    (∀ t, s.decidedBy = some t → Encodable t) ∧ (∀ t, s.dependsOn = some t → Encodable t) ∧
    Encodable (canonicalJson s.input) ∧ (∀ i, s.createdSeq = some i → SqlValue.fits i = true) ∧
    (∀ i, s.updatedSeq = some i → SqlValue.fits i = true)
  := by
  have hstatus : Encodable s.status.value := by cases s.status <;> decide
  have hkind : (∀ t, s.failureKind.map FailureKind.value = some t → Encodable t) = True := by
    rw [eq_iff_iff, iff_true]
    cases s.failureKind with
    | none => simp
    | some kind =>
      rintro _ ⟨⟩
      cases kind <;> decide
  have hresolution : (∀ t, s.resolution.map Resolution.value = some t → Encodable t) = True := by
    rw [eq_iff_iff, iff_true]
    cases s.resolution with
    | none => simp
    | some resolution =>
      rintro _ ⟨⟩
      cases resolution <;> decide
  have hretryable : (∀ i, s.retryable.map (fun b => if b then (1 : Int) else 0) = some i →
      SqlValue.fits i = true) = True := by
    rw [eq_iff_iff, iff_true]
    cases s.retryable with
    | none => simp
    | some b =>
      rintro _ ⟨⟩
      cases b <;> simp [SqlValue.fits]
  simp only [Storable, toRow, TaskRow.values, List.forall_mem_cons, SqlValue.refusal_text, SqlValue.refusal_integer,
    SqlValue.refusal_ofOption, SqlValue.refusal_ofInt, SqlValue.refusal_ofBool, hstatus, hkind, hresolution,
    hretryable, true_and, implies_true, List.not_mem_nil, false_implies, and_true]

variable {actor reason : Str} {seq : Int}

section

omit [Platform]

theorem Storable.confirmed (h : s.Storable) (hactor : Encodable actor) (hreason : Encodable reason)
    (hseq : SqlValue.fits seq = true) :
  Storable { s with
    status := .complete, resolution := some .effectConfirmed, decidedBy := some actor
    lastReason := some reason, updatedSeq := some seq }
  := by
  rw [storable_iff] at h ⊢
  simp only [Option.some.injEq, forall_eq', hactor, hreason, hseq]
  tauto

theorem Storable.authorized (h : s.Storable) (hactor : Encodable actor) (hreason : Encodable reason)
    (hbudget : SqlValue.fits (max s.maxAttempts (s.attempt + 1)) = true) (hseq : SqlValue.fits seq = true) :
  Storable { s with
    status := .queued, maxAttempts := max s.maxAttempts (s.attempt + 1)
    dispatchId := none, workerId := none, started := false
    failureKind := none, retryable := none
    lastReason := some reason, decidedBy := some actor, updatedSeq := some seq }
  := by
  rw [storable_iff] at h ⊢
  simp only [Option.some.injEq, forall_eq', hactor, hreason, hseq, hbudget, reduceCtorEq, false_implies,
    implies_true]
  tauto

theorem Storable.requested (h : s.Storable) (hseq : SqlValue.fits seq = true) :
  Storable { s with cancelRequested := true, updatedSeq := some seq }
  := by
  rw [storable_iff] at h ⊢
  simp only [Option.some.injEq, forall_eq', hseq]
  tauto

theorem Storable.cancelled (h : s.Storable) (hactor : Encodable actor) (hseq : SqlValue.fits seq = true) :
  Storable { s with
    status := .cancelled, resolution := some .cancelledEffectUnknown, decidedBy := some actor
    updatedSeq := some seq }
  := by
  rw [storable_iff] at h ⊢
  simp only [Option.some.injEq, forall_eq', hactor, hseq]
  tauto

end

end TaskState

/-! ### Decisions -/

def decisionFields (decision : Str) (attempt : Int) (actor reason : Str) : Members :=
  [(text "actor", .str actor), (text "attempt", .int attempt), (text "decision", .str decision),
    (text "reason", .str reason)]

structure Reasoned (actor reason : Str) : Prop where
  id : isId actor
  nonblank : blank reason = false
  length : reason.length ≤ MAX_REASON_CHARS
  encodable : Encodable actor ∧ Encodable reason

def HumanDecision.outcome : HumanDecision → TaskStatus
  | effectConfirmed => .complete
  | retryAuthorized => .queued
  | cancel => .cancelled

def HumanDecision.Admitted (s : TaskState) (decision : HumanDecision) : Prop :=
  decision = .retryAuthorized → s.cancelRequested = false ∧ s.attempt < MAX_ATTEMPTS_LIMIT

section

omit [Platform]

theorem checkResolve_decisionFields (decision : HumanDecision) {attempt : Int} {actor reason : Str}
    (hattempt : 1 ≤ attempt ∧ attempt ≤ MAX_ATTEMPTS_LIMIT) (h : Reasoned actor reason) :
  checkResolve (.obj (decisionFields decision.value attempt actor reason)) = .ok (decision, actor, attempt, reason)
  := by
  have hfields : onlyFields (.obj (decisionFields decision.value attempt actor reason))
      [text "decision", text "actor", text "attempt", text "reason"] =
      .ok (decisionFields decision.value attempt actor reason) := rfl
  have hget : Json.get (decisionFields decision.value attempt actor reason) (text "decision") =
      .str decision.value := rfl
  have hmember : decision.value ∈
      HumanDecision.value <$> [HumanDecision.cancel, .effectConfirmed, .retryAuthorized] := by
    cases decision <;> decide
  have hdecided : ∀ message, requireMember (HumanDecision.value <$> [.cancel, .effectConfirmed, .retryAuthorized])
      (.str decision.value) message = .ok decision.value := fun _ => if_pos hmember
  have hactor : requireId (decisionFields decision.value attempt actor reason) (text "actor") = .ok actor :=
    if_pos h.id
  have hnumber : requireInt (decisionFields decision.value attempt actor reason) (text "attempt") 1
      MAX_ATTEMPTS_LIMIT = .ok attempt := if_pos hattempt
  have hreason : requireReason (decisionFields decision.value attempt actor reason) = .ok reason :=
    if_pos ⟨h.nonblank, h.length⟩
  have hvalue : HumanDecision.ofValue decision.value = some decision := by
    cases decision <;> decide
  rw [checkResolve, hfields, ok_bind, hget, hdecided, ok_bind, hactor, ok_bind, hnumber, ok_bind, hreason, ok_bind,
    hvalue]
  rfl

theorem Reasoned.payload {actor reason : Str} (h : Reasoned actor reason) :
  Encodable (canonicalJson (.obj [(text "actor", .str actor), (text "reason", .str reason)]))
  := by
  have hactor : Encodable (text "actor") := by decide
  have hreason : Encodable (text "reason") := by decide
  apply encodable_texts (d := [(text "actor", actor), (text "reason", reason)]) rfl
  intro p hp
  simp only [List.mem_cons, List.not_mem_nil, or_false] at hp
  rcases hp with rfl | rfl
  · exact ⟨hactor, h.encodable.1⟩
  · exact ⟨hreason, h.encodable.2⟩

theorem textual_decided (decision : HumanDecision) (attempt : Int) {id actor reason : Str} (hid : Encodable id)
    (h : Reasoned actor reason) :
  (decidedDraft decision id attempt actor reason).Textual
  := by
  refine ⟨by rintro s ⟨⟩; exact hid, by rintro s ⟨⟩, by rintro s ⟨⟩, by rintro s ⟨⟩, ?_, ?_⟩
  · intro key hkey
    have hkey : defaultDedupeKey decision.eventType (some id) (some attempt) none none = some key := hkey
    cases decision with
    | effectConfirmed =>
      cases hkey
      exact encodable_append.mpr ⟨by decide, hid⟩
    | retryAuthorized =>
      cases hkey
      simp only [encodable_append]
      exact ⟨⟨⟨by decide, hid⟩, by decide⟩, encodable_decimal attempt⟩
    | cancel => cases hkey
  · exact h.payload

theorem textual_cancel {type : EventType} (htype : type = .taskCancelRequested ∨ type = .taskCancelled)
    {s : TaskState} {actor reason : Str} (hid : Encodable s.taskId) (h : Reasoned actor reason) :
  (cancelDraft type s (some actor) reason).Textual
  := by
  refine ⟨by rintro s ⟨⟩; exact hid, by rintro s ⟨⟩, by rintro s ⟨⟩, by rintro s ⟨⟩, ?_, ?_⟩
  · intro key hkey
    have hkey : defaultDedupeKey type (some s.taskId) none none none = some key := hkey
    rcases htype with rfl | rfl <;> cases hkey
  · exact h.payload

end

namespace Controller

variable {c : Controller} {s : TaskState} {actor reason : Str} {n : Nat}

theorem Works.fits (h : c.Works (n + 1)) :
  SqlValue.fits ((c.journal.events.length : Int) + 1) = true
  := by
  have hroom := h.room
  simp only [SqlValue.fits, Bool.and_eq_true, decide_eq_true_eq]
  omega

theorem wp_readEventByKey_free {key : Option Str} {normal : Option Event → Controller → Prop}
    {raised : Exc → Controller → Prop} (hbind : bindAll [.ofOption key] = .ok ())
    (hfree : key.bind c.journal.getEventByDedupeKey = none) :
  wp (readEventByKey key) normal raised c ↔ normal none c
  := by
  simp [readEventByKey, hbind, hfree]

theorem wp_requireBlocked_blocked {α : Type} {next : Unit → Act α} {normal : α → Controller → Prop}
    {raised : Exc → Controller → Prop} (hstatus : s.status = .blocked) :
  wp (requireBlocked s s.attempt >>= next) normal raised c ↔ wp (next ()) normal raised c
  := by
  simp [requireBlocked, hstatus]

theorem wp_cancelNow_works (hplatform : Platform.Works) (hwritten : Written c.journal) (hworks : c.Works 2)
    (hs : c.journal.task s.taskId = some s) (hstatus : s.status = .blocked) (hrequested : s.cancelRequested = true)
    (h : Reasoned actor reason) :
  wp (cancelNow s (some actor) (some reason)) (fun status _ => status = .cancelled) (fun _ _ => False) c
  := by
  have hstorable := Journal.storable_of_task hs
  have hid := (Journal.recorded_of_task hs).1.id
  unfold cancelNow
  dsimp only
  rw [if_pos (.inr hstatus), wp_bind]
  refine wp_record_works (n := 0) (s := s) (t := { s with
      status := .cancelled, resolution := some .cancelledEffectUnknown, decidedBy := some actor })
    hplatform hwritten hworks (proper_cancel hid (by simp) (fun _ _ => rfl) (by rintro a ⟨⟩; exact h.id) reason)
    (hplatform.shallow [(text "actor", actor), (text "reason", reason)])
    (textual_cancel (.inr rfl) (TaskState.storable_iff.mp hstorable).1 h) ?_
    (hstorable.cancelled h.encodable.1 hworks.fits) ?_
  · intro e he
    have hactor : e.get (text "actor") = .str actor := by
      rw [EventFields.get, he.payload]
      rfl
    have hstep := Step.cancelledBlocked (s := s) he.type hstatus hrequested (by rw [hactor]; simp)
    rw [hactor] at hstep
    exact he.fits rfl hs rfl (free_of_keyless rfl) (by rintro ⟨⟩) hstep
  · intro r e c' hstored _
    obtain ⟨seq, hs'⟩ := hstored.task (k := s.taskId) rfl
    rw [wp_bind, wp_readTask_known hs']
    rfl

theorem wp_cancelTask_works (hplatform : Platform.Works) (hwritten : Written c.journal) (hworks : c.Works 4)
    (hs : c.journal.task s.taskId = some s) (hstatus : s.status = .blocked) (h : Reasoned actor reason) :
  wp (cancelTask s (some actor) (some reason)) (fun status _ => status = .cancelled) (fun _ _ => False) c
  := by
  have hstorable := Journal.storable_of_task hs
  have hid := (Journal.recorded_of_task hs).1.id
  unfold cancelTask
  dsimp only
  rw [if_neg (by simp [hstatus, TaskStatus.isTerminal]), if_neg (by simp)]
  split
  · next hrequested =>
    exact wp_cancelNow_works hplatform hwritten (hworks.mono (by omega)) hs hstatus hrequested h
  · next hwanted =>
    rw [wp_bind]
    refine wp_record_works (n := 2) (s := s) (t := { s with cancelRequested := true }) hplatform hwritten hworks
      (proper_cancel hid (by simp) (fun _ _ => rfl) (by rintro a ⟨⟩; exact h.id) reason)
      (hplatform.shallow [(text "actor", actor), (text "reason", reason)])
      (textual_cancel (.inl rfl) (TaskState.storable_iff.mp hstorable).1 h) ?_ (hstorable.requested hworks.fits) ?_
    · intro e he
      exact he.fits rfl hs rfl (free_of_keyless rfl) (by rintro ⟨⟩)
        (.cancelRequested he.type (by simp [hstatus, TaskStatus.isTerminal]) (by simpa using hwanted))
    · intro r e c' hstored hworks'
      obtain ⟨seq, hs'⟩ := hstored.task (k := s.taskId) rfl
      rw [wp_bind, wp_readTask_known hs', wp_bind, wp_require]
      exact wp_cancelNow_works (s := { s with cancelRequested := true, updatedSeq := seq }) hplatform
        hstored.written hworks' hs' hstatus rfl h

theorem wp_decideBlocked_works {decision : HumanDecision} (hplatform : Platform.Works) (hwritten : Written c.journal)
    (hasked : c.journal.Asked) (hworks : c.Works 2) (hs : c.journal.task s.taskId = some s)
    (hstatus : s.status = .blocked) (hattempt : 1 ≤ s.attempt) (hdecision : decision ≠ .cancel)
    (hadmitted : decision.Admitted s) (h : Reasoned actor reason) :
  wp (decideBlocked s s.taskId decision actor s.attempt reason)
    (fun r _ => r = ⟨decision.outcome, decision.value, false⟩) (fun _ _ => False) c
  := by
  have hstorable := Journal.storable_of_task hs
  have hlawful := (Journal.recorded_of_task hs).1
  have htexts := textual_decided decision s.attempt (TaskState.storable_iff.mp hstorable).1 h
  have hroom := hworks.room
  rw [decideBlocked, wp_bind, wp_noting]
  apply wp_newEvent_works (proper_decided hdecision hlawful.id (hwritten.length_taskId hs)
    ⟨hattempt, hlawful.attempts.2⟩ h.id h.nonblank) (hplatform.shallow [(text "actor", actor), (text "reason", reason)])
  intro e he
  have hfree : Written.Free c.journal decision.eventType (some s.taskId) (some s.attempt) none none := by
    cases decision with
    | effectConfirmed => exact hwritten.confirmation_free hs (by simp [hstatus])
    | retryAuthorized => exact hwritten.authorization_free hs hstatus (hasked _)
    | cancel => exact absurd rfl hdecision
  have hkey : e.dedupeKey = defaultDedupeKey decision.eventType (some s.taskId) (some s.attempt) none none := by
    rw [he.key]
    rfl
  have hnew : c.journal.existing e = none :=
    Journal.existing_eq_none.mpr fun key hk x hx => hfree x hx key (hkey.symm.trans hk)
  have htextual := he.textual htexts (hworks.clock 0 (by omega))
  have hbind : bindAll [.ofOption e.dedupeKey] = .ok () := by
    simpa [bindAll_eq_ok] using htextual.dedupeKey
  have hfits : ∀ s', Step s e s' → Fits c.journal e s s' := fun s' step =>
    he.toDrafted.fits rfl hs rfl hfree (by cases decision <;> rintro ⟨⟩) step
  have hactor : e.get (text "actor") = .str actor := by
    rw [EventFields.get, he.payload]
    rfl
  have hreason : e.get (text "reason") = .str reason := by
    rw [EventFields.get, he.payload]
    rfl
  have hbudget : SqlValue.fits (max s.maxAttempts (s.attempt + 1)) = true := by
    have hmax := hlawful.budget
    have hattempts := hlawful.attempts.2
    simp only [MAX_ATTEMPTS_LIMIT] at hmax hattempts
    simp only [SqlValue.fits, Bool.and_eq_true, decide_eq_true_eq]
    omega
  -- What is journaled, and what the task is read as after it.
  have happend : ∀ s', Step s e s' → s'.status = decision.outcome →
      ({ s' with updatedSeq := some ((c.journal.events.length : Int) + 1) } : TaskState).Storable →
      wp (append e >>= fun _ => readTask s.taskId >>= fun task => require task >>= fun s =>
          pure (⟨s.status, decision.value, false⟩ : ResolveReply))
        (fun r _ => r = ⟨decision.outcome, decision.value, false⟩) (fun _ _ => False)
        { c with draws := fun k => c.draws (k + 1) } := by
    intro s' step houtcome hstate
    rw [wp_bind]
    refine wp_append_works (c := { c with draws := fun k => c.draws (k + 1) }) hplatform hwritten (hfits s' step)
      htextual (hworks.fails 1 (by omega)) ?_ ?_ hstate ?_
    · show (c.journal.events.length : Int) + 1 < 2 ^ 63
      omega
    · rw [he.eventId]
      exact hworks.fresh 0 (by omega)
    · intro r c' hstored _
      obtain ⟨seq, hs'⟩ := hstored.task (k := s.taskId) step.taskId_eq
      rw [wp_bind, wp_readTask_known hs', wp_bind, wp_require, wp_pure, houtcome]
  rw [wp_bind]
  apply (wp_readEventByKey_free (c := { c with draws := fun k => c.draws (k + 1) }) hbind hnew).mpr
  dsimp only
  rw [wp_requireBlocked_blocked hstatus, if_neg ?_, if_neg ?_]
  · cases decision with
    | effectConfirmed =>
      refine happend _ (.effectConfirmed he.type hstatus he.attempt) rfl ?_
      rw [hactor, hreason]
      exact hstorable.confirmed h.encodable.1 h.encodable.2 hworks.fits
    | retryAuthorized =>
      obtain ⟨hwanted, hlimit⟩ := hadmitted rfl
      refine happend _ (.retryAuthorized he.type hstatus he.attempt hwanted hlimit) rfl ?_
      rw [hactor, hreason]
      exact hstorable.authorized h.encodable.1 h.encodable.2 hbudget hworks.fits
    | cancel => exact absurd rfl hdecision
  · rintro ⟨hretry, hlimit⟩
    have hadmits := (hadmitted hretry).2
    omega
  · rintro ⟨hretry, hrequested⟩
    simp [(hadmitted hretry).1] at hrequested

theorem wp_resolve_works {decision : HumanDecision} (hplatform : Platform.Works) (hwritten : Written c.journal)
    (hasked : c.journal.Asked) (hworks : c.Works 4) (hmode : c.mode = .normal) (hstopping : c.stopping = false)
    (hs : c.journal.task s.taskId = some s) (hstatus : s.status = .blocked) (hadmitted : decision.Admitted s)
    (h : Reasoned actor reason) :
  wp (resolve s.taskId (.obj (decisionFields decision.value s.attempt actor reason)) false)
    (fun r _ => r = ⟨decision.outcome, decision.value, false⟩) (fun _ _ => False) c
  := by
  have hattempt := (overcome_of_run (fun _ => Journal.not_system_of_eventsOf) (hasked _)
    (c.journal.run_of_task s.taskId) s hs).begun hstatus
  have hlimit := (Journal.recorded_of_task hs).1.attempts.2
  have hwritable : wp requireWritable (fun _ c' => c' = c) (fun _ _ => False) c := by
    simp [requireWritable, hmode, hstopping]
  unfold resolve
  rw [wp_bind]
  apply wp_mono hwritable
  · rintro _ c' rfl
    rw [checkResolve_decisionFields decision ⟨hattempt, hlimit⟩ h, wp_bind, lift, wp_pure]
    dsimp only
    rw [wp_locked]
    refine ⟨by rintro ⟨⟩, fun _ => ?_⟩
    rw [wp_bind, wp_readTask_known hs]
    dsimp only
    split
    · next hcancel =>
      subst hcancel
      rw [wp_requireBlocked_blocked hstatus, wp_bind]
      apply wp_mono (wp_cancelTask_works hplatform hwritten hworks hs hstatus h)
      · rintro _ _ rfl
        rfl
      · intro _ _ hraised
        exact hraised
    · next hdecision =>
      exact wp_decideBlocked_works hplatform hwritten hasked (hworks.mono (by omega)) hs hstatus hattempt hdecision
        hadmitted h
  · intro _ _ hraised
    exact hraised

theorem wp_decideBlocked_admitted {decision : HumanDecision} :
  wp (decideBlocked s s.taskId decision actor s.attempt reason)
    (fun r _ => r.duplicate = false → decision.Admitted s) (fun _ _ => True) c
  := by
  rw [decideBlocked, wp_bind, wp_noting]
  apply wp_mono wp_trivial
  · intro e c' _
    rw [wp_bind]
    apply wp_readEventByKey
    · split
      · dsimp only
        split
        · trivial
        · rintro ⟨⟩
      · apply wp_requireBlocked fun _ _ => trivial
        intro _ _
        dsimp only
        split
        · trivial
        · next hrequested =>
          split
          · trivial
          · next hlimit =>
            apply wp_mono wp_trivial
            · intro r _ _ _ hretry
              simp only [hretry, true_and, Bool.not_eq_true, not_le] at hrequested hlimit
              exact ⟨hrequested, hlimit⟩
            · intro _ _ _
              trivial
    · intro _ _
      trivial
  · intro _ _ _
    trivial

theorem wp_resolve_admitted (hs : c.journal.task s.taskId = some s)
    (hattempt : 1 ≤ s.attempt ∧ s.attempt ≤ MAX_ATTEMPTS_LIMIT) (h : Reasoned actor reason) :
  wp (resolve s.taskId (.obj (decisionFields (text "retry_authorized") s.attempt actor reason)) false)
    (fun r _ => r.duplicate = false → HumanDecision.retryAuthorized.Admitted s) (fun _ _ => True) c
  := by
  have hcheck := checkResolve_decisionFields .retryAuthorized hattempt h
  have hwritable : wp requireWritable (fun _ c' => c' = c) (fun _ _ => True) c := by
    rw [requireWritable, wp_bind, wp_get]
    dsimp only
    split
    · trivial
    · split <;> trivial
  unfold resolve
  rw [wp_bind]
  apply wp_mono hwritable
  · rintro _ c' rfl
    rw [show decisionFields (text "retry_authorized") s.attempt actor reason =
      decisionFields HumanDecision.retryAuthorized.value s.attempt actor reason from rfl, hcheck, wp_bind, lift, wp_pure]
    dsimp only
    rw [wp_locked]
    refine ⟨by rintro ⟨⟩, fun _ => ?_⟩
    rw [wp_bind, wp_readTask_known hs]
    exact wp_decideBlocked_admitted
  · intro _ _ _
    trivial

end Controller

end Courier
