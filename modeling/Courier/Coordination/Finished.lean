import Courier.Coordination.Steps

/-!
# Finished missions

A final event makes a mission done and releases its owner.  Then any event that is new and not older than the record
is accepted, and every one but a final one changes the status or the owner; without such an event a finished mission
stays finished.
-/

namespace Courier.Coordination

open Calendar Program Run

section

variable [Iso] {r : Reducer} {id : Str} {e : CoordinationEvent}

def Finished (r : Reducer) (id : Str) : Prop :=
  ∃ m, r.missions.get? id = some m ∧ m.status = .done ∧ m.ownership = none

/-- A new event of the mission that is not final, comes from a known agent and host, and is not older than the record.
-/
structure Overtakes (r : Reducer) (id : Str) (e : CoordinationEvent) : Prop where
  about : e.missionId = id
  fresh : e.eventId ∉ r.processedEventIds
  known : Known e
  notFinal : e.eventType ≠ .final
  current : ∃ m eventTs updatedTs, r.missions.get? id = some m ∧
    parseTimestamp e.createdAt = .ok (some eventTs) ∧
    parseTimestamp m.updatedAt = .ok (some updatedTs) ∧ updatedTs.instant ≤ eventTs.instant

theorem finished_of_final {m : Mission} (hfinal : e.eventType = .final) (h : Accepts r e m) :
  m.ownership = none
  := by
  cases h with
  | created => simp [opened, hfinal]
  | changed => simp [updated, transition, hfinal]

omit [Iso] in
theorem changed_of_finished (m : Mission) (hfinal : e.eventType ≠ .final) :
  (updated m e).status ≠ .done ∨ (updated m e).ownership ≠ none
  := by
  unfold updated transition
  cases htype : e.eventType with
  | final => exact absurd htype hfinal
  | assigned => exact .inr (by simp)
  | started | partialCheckpoint | blocked | error | cancelled => exact .inl (by simp)

theorem finished_step (hr : Sound r) (h : Finished r id) (e : CoordinationEvent) :
  Finished (r.after e) id ↔ ¬ Overtakes r id e
  := by
  obtain ⟨m, hm, hdone, howner⟩ := h
  constructor
  · rintro ⟨m', hm', hdone', howner'⟩ ⟨rfl, fresh, known, notFinal, m₀, eventTs, updatedTs, hm₀,
      stamped, dated, current⟩
    cases hm.symm.trans hm₀
    have haccepts : Accepts r e (updated m e) := by
      apply Accepts.changed fresh known stamped hm dated current
      simp [admitted, howner]
    rw [get?_of_accepts haccepts, if_pos rfl] at hm'
    cases hm'
    rcases changed_of_finished m notFinal with hstatus | hownership
    · exact hstatus hdone'
    · exact hownership howner'
  · intro hnot
    by_cases haccepts : ∃ m', Accepts r e m' ∧ e.missionId = id
    · obtain ⟨m', haccepts, rfl⟩ := haccepts
      have hfinal : e.eventType = .final := by
        by_contra hfinal
        obtain ⟨updatedTs, dated⟩ := hr.dated _ m hm
        cases haccepts with
        | created _ _ _ missing => cases hm.symm.trans missing
        | changed fresh known stamped found dated current =>
          exact hnot ⟨rfl, fresh, known, hfinal, _, _, _, found, stamped, dated, current⟩
      refine ⟨m', by rw [get?_of_accepts haccepts, if_pos rfl], ?_, finished_of_final hfinal haccepts⟩
      cases haccepts with
      | created _ _ _ missing => cases hm.symm.trans missing
      | changed => simp [updated, transition, hfinal]
    · refine ⟨m, ?_, hdone, howner⟩
      by_cases hother : ∃ m', Accepts r e m'
      · obtain ⟨m', hm'⟩ := hother
        rw [get?_of_accepts hm', if_neg, hm]
        rintro rfl
        exact haccepts ⟨m', hm', rfl⟩
      · rw [missions_of_ignored (not_exists.mp hother), hm]

omit [Iso] in
theorem not_offered [Iso] (hr : Sound r) (h : Finished r id) {agentId : AgentID}
    {c : ResumeCheckpoint} (hc : c ∈ discoverResumable r agentId) :
  c.missionId ≠ id
  := by
  obtain ⟨m, hm, hdone, -⟩ := h
  obtain ⟨-, id', m', hm', -, hcase⟩ := mem_discoverResumable.mp hc
  have hkey : c.missionId = id' := by
    rcases hcase with ⟨-, -, rfl⟩ | ⟨-, rfl⟩
    · exact hr.keyed id' m' hm'
    · exact hr.keyed id' m' hm'
  rintro hid
  rw [← hkey, hid] at hm'
  cases hm.symm.trans hm'
  rcases hcase with ⟨hstatus, -⟩ | ⟨hstatus, -⟩
  · simp [hdone] at hstatus
  · simp [hdone] at hstatus

def Kept (r : Reducer) (id : Str) (m : Mission) : Prop :=
  (∃ m', r.missions.get? id = some m' ∧ m'.status = m.status ∧ m'.ownership = m.ownership) ∧
    ∀ agentId c, c ∈ discoverResumable r agentId → c.missionId ≠ id

theorem kept_iff {leaseTtlS : Option Rat} {before later : List CoordinationEvent} {r' : Reducer}
    {m : Mission} (hfinal : e.eventType = .final)
    (happly : apply e ((Reducer.new leaseTtlS).given before) = .ok true r')
    (hm : r'.missions.get? e.missionId = some m) (hdone : m.status = .done) :
  (∀ first, first <+: later → Kept (r'.given first) e.missionId m) ↔
    ∀ first f, first ++ [f] <+: later → ¬ Overtakes (r'.given first) e.missionId f
  := by
  have hr : Sound ((Reducer.new leaseTtlS).given before) := (sound_new leaseTtlS).given before
  have hr' : r' = ((Reducer.new leaseTtlS).given before).after e := by
    rw [Reducer.after, happly]
  obtain ⟨m', haccepts⟩ := (normal_of_wp (wp_apply _ e) happly).1.mp rfl
  have hsame : m' = m := by
    rw [hr', get?_of_accepts haccepts, if_pos rfl] at hm
    exact Option.some.inj hm
  subst hsame
  have howner := finished_of_final hfinal haccepts
  have hstart : Sound r' := by
    rw [hr']
    exact hr.after e
  have halong : (∀ first, first <+: later → Finished (r'.given first) e.missionId) ↔
      ∀ first f, first ++ [f] <+: later → ¬ Overtakes (r'.given first) e.missionId f :=
    along_iff (I := Sound) (P := fun s => Finished s e.missionId) (fun _ f hs => hs.after f)
      (fun _ f hs hP => finished_step hs hP f) hstart ⟨m', hm, hdone, howner⟩ later
  rw [← halong]
  constructor
  · intro hkept first hfirst
    obtain ⟨⟨m, hm, hstatus, hownership⟩, -⟩ := hkept first hfirst
    exact ⟨m, hm, hstatus.trans hdone, hownership.trans howner⟩
  · intro hfinished first hfirst
    obtain ⟨m, hm, hstatus, hownership⟩ := hfinished first hfirst
    refine ⟨⟨m, hm, hstatus.trans hdone.symm, hownership.trans howner.symm⟩, ?_⟩
    intro agentId c hc
    exact not_offered (hstart.given first) ⟨m, hm, hstatus, hownership⟩ hc

end

section Example

local instance wholeSecondsFinished : Iso := .wholeSeconds

def assignment : CoordinationEvent :=
  .plain (text "e1") (text "m1") .codexMac .assigned .working (text "2026-10-07T12:00:00Z")

def finish : CoordinationEvent :=
  .plain (text "e2") (text "m1") .codexMac .final .done (text "2026-10-07T12:10:00Z")

def lateError : CoordinationEvent :=
  .plain (text "e3") (text "m1") .museMac .error .error (text "2026-10-07T12:20:00Z")

theorem kept_of_finish :
  ∃ r' m, apply finish ((Reducer.new none).given [assignment]) = .ok true r' ∧
    ((∀ first, first <+: [finish] → Kept (r'.given first) (text "m1") m) ↔
      ∀ first f, first ++ [f] <+: [finish] → ¬ Overtakes (r'.given first) (text "m1") f)
  := by
  have hdone : (match apply finish ((Reducer.new none).given [assignment]) with
      | .ok true r' => (r'.missions.get? (text "m1")).any fun m => m.status = .done
      | .ok false _ => false
      | .error _ _ => false) = true := by
    decide +kernel
  cases happly : apply finish ((Reducer.new none).given [assignment]) with
  | ok answer r' =>
    rw [happly] at hdone
    cases answer with
    | true =>
      obtain ⟨m, hm, hstatus⟩ := (Option.any_eq_true _ _).mp hdone
      exact ⟨r', m, rfl, kept_iff rfl happly hm (of_decide_eq_true hstatus)⟩
    | false => cases hdone
  | error why r' =>
    rw [happly] at hdone
    cases hdone

theorem not_kept :
  ((((Reducer.new none).given [assignment, finish]).missions.get? (text "m1")).any fun m =>
      m.status = .done && m.ownership = none) = true ∧
    ((((Reducer.new none).given [assignment, finish, lateError]).missions.get? (text "m1")).any
      fun m => m.status = .error) = true ∧
    ((discoverResumable ((Reducer.new none).given [assignment, finish, lateError])
      .googleMac).map ResumeCheckpoint.missionId) = [text "m1"]
  := by
  decide +kernel

end Example

end Courier.Coordination
