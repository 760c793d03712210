import Courier.Journal.Outcomes
import Courier.Library.Encodings

/-!
# Events that are stored

A new event that is a legal next step of its task is stored if its texts have encodings and its place in the
journal is a number that a column takes: nothing else is in the way of an append.
-/

namespace Courier

open Except Run Text

theorem bindAll_eq_ok {values : List SqlValue} :
  bindAll values = .ok () ↔ ∀ v ∈ values, v.refusal = none
  := by
  unfold bindAll SqlValue.refusals
  constructor
  · intro h
    split at h
    · next hnone => exact List.findSome?_eq_none_iff.mp hnone
    · cases h
    · cases h
  · intro h
    rw [List.findSome?_eq_none_iff.mpr h]

def TaskState.Storable (s : TaskState) : Prop :=
  ∀ v ∈ (toRow s).values, v.refusal = none

variable [Platform]

structure Event.Textual (e : Event) : Prop where
  eventId : Encodable e.eventId
  tsUtc : Encodable e.tsUtc
  taskId : ∀ s, e.taskId = some s → Encodable s
  dispatchId : ∀ s, e.dispatchId = some s → Encodable s
  workerId : ∀ s, e.workerId = some s → Encodable s
  resultId : ∀ s, e.resultId = some s → Encodable s
  dedupeKey : ∀ s, e.dedupeKey = some s → Encodable s
  payload : Encodable (canonicalJson (.obj e.payload))

omit [Platform] in
theorem EventType.encodable_value (type : EventType) :
  Encodable type.value
  := by
  cases type <;> decide

theorem Event.Textual.material {e : Event} (h : e.Textual) (seq : Int) {prevHash : Str}
    (hprev : Encodable prevHash) (hash : Option Str) :
  Encodable (canonicalJson (Event.material (e.place seq prevHash hash).toEventFields
    (canonicalJson (.obj e.payload))))
  := by
  have hwf : ∀ o : Option Str, (Event.optionJson o).wf = true := by
    intro o
    cases o <;> rfl
  have hwfInt : ∀ o : Option Int, (Event.optionInt o).wf = true := by
    intro o
    cases o <;> rfl
  have htext : ∀ {o : Option Str}, (∀ s, o = some s → Encodable s) →
      (Event.optionJson o).EveryText Encodable := by
    intro o ho
    cases o with
    | none => trivial
    | some s => exact ho s rfl
  have htextInt : ∀ o : Option Int, (Event.optionInt o).EveryText Encodable := by
    intro o
    cases o <;> trivial
  apply Json.encodable_dumps
  · simp [Event.material, Json.wf, Json.wf.wfItems, hwf, hwfInt]
  · exact ⟨trivial, htextInt _, h.eventId, e.type.encodable_value, htext h.taskId, htextInt _, htext h.dispatchId,
      htext h.workerId, htext h.resultId, htext h.dedupeKey, h.tsUtc, h.payload,
      htext (by rintro s ⟨⟩; exact hprev), trivial⟩

namespace Journal

variable {j : Journal} {e : Event} {s s' : TaskState}

theorem storable_of_task {id : Str} (h : j.task id = some s) :
  s.Storable
  := by
  have hinvariant : ∀ id s, j.tasks.get? id = some s → s.Storable := by
    refine Accepts.invariant (p := fun _ => True) (I := fun tasks : Tasks =>
      ∀ id s, tasks.get? id = some s → s.Storable) ?_ (by simp) (fun _ _ => trivial) j.rebuilt
    intro tasks e tasks' htasks _ hstep id s hs
    obtain ⟨new, happly⟩ := rebuildEvent_eq_ok.mp hstep
    by_cases hsystem : e.type.isSystem = true
    · obtain ⟨-, rfl⟩ := applyEvent_system hsystem happly
      exact htasks id s hs
    · simp only [applyEvent, if_neg hsystem, bind_unit_eq_ok] at happly
      simp only [bind_eq_ok, pure, Except.pure, ok.injEq, Prod.mk.injEq] at happly
      obtain ⟨-, -, state, -, stored, hstore, -, rfl⟩ := happly
      cases state with
      | none =>
        cases hstore
        exact htasks id s hs
      | some t =>
        simp only [store, bind_unit_eq_ok, ok.injEq] at hstore
        obtain ⟨hbind, rfl⟩ := hstore
        rw [Dict.get?_set] at hs
        split at hs
        · cases hs
          exact bindAll_eq_ok.mp hbind
        · exact htasks id s hs
  exact hinvariant id s h

theorem encodable_lastHash (j : Journal) :
  Encodable (lastHash GENESIS_HASH j.events)
  := by
  obtain hnil | ⟨before, e, hevents⟩ := List.eq_nil_or_concat' j.events
  · rw [hnil]
    show Encodable GENESIS_HASH
    decide
  · have hchained := j.chained
    rw [hevents] at hchained ⊢
    obtain ⟨-, hash, he⟩ := chained_concat.mp hchained
    rw [lastHash_concat he.hash_eq]
    have hbound := bindAll_eq_ok.mp (j.bound e (by simp [hevents])) (.ofOption e.hash) (by
      simp [eventRow, EventRow.values])
    exact SqlValue.refusal_ofOption.mp hbound hash he.hash_eq

/-- A legal next step of a known task, under a key of its own, is stored. -/
theorem append_of_step (hknown : j.task s.taskId = some s) (htask : e.taskId = some s.taskId)
    (step : Step s e s') (hnew : j.existing e = none) (hunsealed : e.seq = none ∧ e.hash = none)
    (htexts : e.Textual) (hroom : (j.events.length : Int) + 1 < 2 ^ 63)
    (hfresh : e.eventId ∉ j.events.map fun e => e.eventId) (hdigest : ∀ s, Encodable (Platform.sha256 s))
    (hstate : ({ s' with updatedSeq := some ((j.events.length : Int) + 1) } : TaskState).Storable) :
  ∃ r j', j.append e = .ok (r, j')
  := by
  obtain ⟨hsystem, hcreated⟩ := step.type_of
  have hprev := j.encodable_lastHash
  have hmaterial := htexts.material ((j.events.length : Int) + 1) hprev
  have hseq : SqlValue.fits ((j.events.length : Int) + 1) = true := by
    simp only [SqlValue.fits, Bool.and_eq_true, decide_eq_true_eq]
    omega
  have hbind : bindAll [.ofOption e.dedupeKey] = .ok () := by
    simpa [bindAll_eq_ok] using htexts.dedupeKey
  have hbindTask : bindAll [.ofOption e.taskId] = .ok () := by
    simpa [bindAll_eq_ok] using htexts.taskId
  obtain ⟨hash, hhash⟩ : ∃ hash, hash = Platform.sha256 (canonicalJson (Event.material
    (e.place ((j.events.length : Int) + 1) (lastHash GENESIS_HASH j.events) none).toEventFields
    (canonicalJson (.obj e.payload)))) := ⟨_, rfl⟩
  have hdigests : Event.chainHash
      (e.place ((j.events.length : Int) + 1) (lastHash GENESIS_HASH j.events) none).toEventFields
      (canonicalJson (.obj e.payload)) = .ok hash := by
    rw [Event.chainHash, if_pos (hmaterial none), hhash]
  have hcomm : (1 : Int) + j.events.length = j.events.length + 1 := by omega
  have hget : j.tasks.get? (e.place ((j.events.length : Int) + 1) (lastHash GENESIS_HASH j.events)
      (some hash)).task = some s := by
    have htask' : e.task = s.taskId := by simp [Event.task, htask]
    exact (congrArg j.tasks.get? htask').trans hknown
  have hadmits : j.Admits e (e.place ((j.events.length : Int) + 1) (lastHash GENESIS_HASH j.events) (some hash))
      (some { s' with updatedSeq := some ((j.events.length : Int) + 1) })
      (j.tasks.set s'.taskId { s' with updatedSeq := some ((j.events.length : Int) + 1) }) := by
    refine ⟨⟨hash, rfl, ?_⟩, ?_, ?_, hfresh⟩
    · rw [hcomm]
      exact ⟨rfl, rfl, rfl, hdigests⟩
    · unfold applyEvent
      rw [check_of (by simp [Event.place]), ok_bind, if_neg (by simp [Event.place, hsystem])]
      show (bindAll [.ofOption e.taskId] >>= _) = _
      rw [hbindTask, ok_bind, hget, apply_place hsystem hcreated htask step, ok_bind, store,
        bindAll_eq_ok.mpr hstate]
      rfl
    · apply bindAll_eq_ok.mpr
      have hattempt : ∀ i, e.attempt = some i → SqlValue.fits i = true := by
        intro i hi
        obtain ⟨hlow, hhigh⟩ := (Event.valid_iff.mp e.valid).2.2.2.2.2.2.1 i hi
        simp only [MAX_ATTEMPTS_LIMIT] at hhigh
        simp only [SqlValue.fits, Bool.and_eq_true, decide_eq_true_eq]
        omega
      simp only [eventRow, EventRow.values, Event.place, List.forall_mem_cons, SqlValue.refusal_ofInt,
        SqlValue.refusal_text, SqlValue.refusal_integer, SqlValue.refusal_ofOption, Option.some.injEq,
        forall_eq']
      exact ⟨hseq, htexts.eventId, by simp [SqlValue.fits, SCHEMA_VERSION], e.type.encodable_value, htexts.taskId, hattempt, htexts.dispatchId,
        htexts.workerId, htexts.resultId, htexts.dedupeKey, htexts.tsUtc, htexts.payload, hprev,
        hhash ▸ hdigest _, by simp⟩
  exact ⟨_, _, append_eq_ok.mpr ⟨hunsealed, hbind, .stored hnew hadmits⟩⟩

end Journal

end Courier
