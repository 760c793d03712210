import Courier.Coordination.Steps

/-!
# Owners of missions that are worked on

A mission that is worked on has an owner, to whom it is offered, unless a late event brings it back
to work after its owner was released: the rule against conflicting writers compares the writer with
an owner and lets everybody pass where there is none.
-/

namespace Courier.Coordination

open Calendar Program Run

section

variable [Iso] {r : Reducer} {id : Str} {e : CoordinationEvent} {m : Mission}

/-! ### Owners -/

def Secured (r : Reducer) : Prop :=
  ∀ id m, r.missions.get? id = some m → m.status = .working →
    ∃ owner, m.ownership = some owner ∧ owner ≠ [] ∧
      ∀ agentId : AgentID, agentId ≠ .unknown → agentId.value = owner → depsDone r m = true →
        ∃ c ∈ discoverResumable r agentId, c.missionId = id ∧ c.mode = .resume

/-- A new event from a known agent and host that goes on with a mission without an owner, or begins and releases one as
worked on. -/
structure Orphans (r : Reducer) (e : CoordinationEvent) : Prop where
  fresh : e.eventId ∉ r.processedEventIds
  known : Known e
  case :
    (e.eventType = .started ∨ e.eventType = .partialCheckpoint) ∧
        (∃ m eventTs updatedTs, r.missions.get? e.missionId = some m ∧ m.ownership = none ∧
          parseTimestamp e.createdAt = .ok (some eventTs) ∧
          parseTimestamp m.updatedAt = .ok (some updatedTs) ∧ updatedTs.instant ≤ eventTs.instant) ∨
      (e.eventType = .final ∨ e.eventType = .cancelled) ∧ e.status = .working ∧
        r.missions.get? e.missionId = none ∧
        ∃ eventTs, parseTimestamp e.createdAt = .ok (some eventTs)

def Named (r : Reducer) : Prop :=
  ∀ id m, r.missions.get? id = some m → m.ownership ≠ some []

omit [Iso] in
theorem newOwner_ne (e : CoordinationEvent) :
  newOwner e ≠ []
  := by
  have hvalue : ∀ agentId : AgentID, agentId.value ≠ [] := by
    intro agentId
    cases agentId <;> decide
  unfold newOwner
  split
  · simp
  · exact hvalue e.agentId

theorem Named.accepts (h : Named r) (haccepts : Accepts r e m) :
  m.ownership ≠ some []
  := by
  have hnew := newOwner_ne e
  cases haccepts with
  | created =>
    simp only [opened]
    split_ifs <;> simp [hnew]
  | changed _ _ _ found =>
    have hold := h _ _ found
    unfold updated transition
    cases e.eventType <;> simp [hnew, hold]

theorem Named.after (h : Named r) (e : CoordinationEvent) :
  Named (r.after e)
  := by
  intro id m hm
  rcases get?_after hm with hold | ⟨haccepts, -⟩
  · exact h id m hold
  · exact h.accepts haccepts

theorem secured_of_owned (hr : Sound r) (hn : Named r)
    (h : ∀ id m, r.missions.get? id = some m → m.status = .working → m.ownership ≠ none) :
  Secured r
  := by
  intro id m hm hworking
  obtain ⟨owner, howner⟩ := Option.ne_none_iff_exists'.mp (h id m hm hworking)
  refine ⟨owner, howner, ?_, ?_⟩
  · rintro rfl
    exact hn id m hm howner
  · rintro agentId hknown rfl hdeps
    refine ⟨checkpoint m .resume, ?_, hr.keyed id m hm, rfl⟩
    exact mem_discoverResumable.mpr ⟨hknown, id, m, hm, hdeps, .inl ⟨hworking, howner, rfl⟩⟩

theorem Orphans.accepted (h : Orphans r e) :
  ∃ m, Accepts r e m ∧ m.status = .working ∧ m.ownership = none
  := by
  obtain ⟨fresh, known, ⟨htype, m, eventTs, updatedTs, hm, howner, stamped, dated, current⟩ |
    ⟨htype, hstatus, missing, eventTs, stamped⟩⟩ := h
  · refine ⟨updated m e, ?_, ?_⟩
    · apply Accepts.changed fresh known stamped hm dated current
      simp [admitted, howner]
    · rcases htype with htype | htype <;> simp [updated, transition, htype, howner]
  · refine ⟨opened e, .created fresh known stamped missing, hstatus, ?_⟩
    simp [opened, htype]

theorem orphans_of_accepts (haccepts : Accepts r e m) (hworking : m.status = .working)
    (howner : m.ownership = none) :
  Orphans r e
  := by
  cases haccepts with
  | created fresh known stamped missing =>
    refine ⟨fresh, known, .inr ⟨?_, hworking, missing, _, stamped⟩⟩
    by_contra htype
    simp [opened, htype] at howner
  | changed fresh known stamped found dated current =>
    refine ⟨fresh, known, .inl ?_⟩
    unfold updated transition at hworking howner
    cases htype : e.eventType with
    | assigned => simp [htype] at howner
    | started =>
      exact ⟨.inl rfl, _, _, _, found, by simpa [htype] using howner, stamped, dated, current⟩
    | partialCheckpoint =>
      exact ⟨.inr rfl, _, _, _, found, by simpa [htype] using howner, stamped, dated, current⟩
    | final | blocked | error | cancelled => simp [htype] at hworking

theorem secured_step (hr : Sound r) (hn : Named r) (h : Secured r) (e : CoordinationEvent) :
  Secured (r.after e) ↔ ¬ Orphans r e
  := by
  constructor
  · intro hsecured horphans
    obtain ⟨m, haccepts, hworking, howner⟩ := horphans.accepted
    have hm : (r.after e).missions.get? e.missionId = some m := by
      rw [get?_of_accepts haccepts, if_pos rfl]
    obtain ⟨owner, hsome, -⟩ := hsecured _ m hm hworking
    cases howner.symm.trans hsome
  · intro hnot
    apply secured_of_owned (hr.after e) (hn.after e)
    intro id m hm hworking howner
    rcases get?_after hm with hold | ⟨haccepts, -⟩
    · obtain ⟨owner, hsome, -⟩ := h id m hold hworking
      cases howner.symm.trans hsome
    · exact hnot (orphans_of_accepts haccepts hworking howner)

/-! ### Cancelled missions -/

def Dormant (r : Reducer) (id : Str) : Prop :=
  ∃ m, r.missions.get? id = some m ∧ m.ownership = none ∧ m.status ≠ .working

theorem dormant_of_cancelled (hcancelled : e.eventType = .cancelled) (haccepts : Accepts r e m)
    (hnot : ¬ Orphans r e) :
  Dormant (r.after e) e.missionId
  := by
  have howner : m.ownership = none := by
    cases haccepts <;> simp [opened, updated, transition, hcancelled]
  refine ⟨m, by rw [get?_of_accepts haccepts, if_pos rfl], howner, ?_⟩
  intro hworking
  exact hnot (orphans_of_accepts haccepts hworking howner)

theorem dormant_after (h : Dormant r id) (hnot : ¬ Orphans r e)
    (hassigned : e.missionId = id → e.eventType = .assigned → ∀ m, ¬ Accepts r e m) :
  Dormant (r.after e) id
  := by
  obtain ⟨m, hm, howner, hstatus⟩ := h
  by_cases haccepts : ∃ m', Accepts r e m' ∧ e.missionId = id
  · obtain ⟨m', haccepts, rfl⟩ := haccepts
    have howner' : m'.ownership = none := by
      cases haccepts with
      | created _ _ _ missing => cases hm.symm.trans missing
      | changed fresh known stamped found dated current admits =>
        cases hm.symm.trans found
        unfold updated transition
        cases htype : e.eventType with
        | assigned =>
        exact absurd (.changed fresh known stamped found dated current admits)
          (hassigned rfl htype _)
        | started | partialCheckpoint | blocked | error => exact howner
        | final | cancelled => rfl
    refine ⟨m', by rw [get?_of_accepts haccepts, if_pos rfl], howner', ?_⟩
    intro hworking
    exact hnot (orphans_of_accepts haccepts hworking howner')
  · refine ⟨m, ?_, howner, hstatus⟩
    by_cases hother : ∃ m', Accepts r e m'
    · obtain ⟨m', hm'⟩ := hother
      rw [get?_of_accepts hm', if_neg, hm]
      rintro rfl
      exact haccepts ⟨m', hm', rfl⟩
    · rw [missions_of_ignored (not_exists.mp hother), hm]

def Revived (r : Reducer) (events : List CoordinationEvent) (id : Str) : Prop :=
  ∃ before c between s m, before ++ c :: (between ++ [s]) <+: events ∧
    c.eventType = .cancelled ∧ c.missionId = id ∧ (∃ m, Accepts (r.given before) c m) ∧
    (∀ first a, first ++ [a] <+: between → a.missionId = id → a.eventType = .assigned →
      ∀ m, ¬ Accepts (r.given (before ++ c :: first)) a m) ∧
    (s.eventType = .started ∨ s.eventType = .partialCheckpoint) ∧ s.missionId = id ∧
    (r.given (before ++ c :: (between ++ [s]))).missions.get? id = some m ∧ m.status = .working

theorem not_revived {events : List CoordinationEvent}
    (h : ∀ first e, first ++ [e] <+: events → ¬ Orphans (r.given first) e) :
  ¬ Revived r events id
  := by
  rintro ⟨before, c, between, s, m, hinit, hcancelled, rfl, ⟨m₀, haccepts⟩, hassigned, hstarted,
    hs, hm, hworking⟩
  have hdormant : ∀ first, first <+: between →
      Dormant (r.given (before ++ c :: first)) c.missionId := by
    intro first
    induction first using List.reverseRecOn with
    | nil =>
      intro _
      rw [given_concat]
      apply dormant_of_cancelled hcancelled haccepts
      apply h before c
      exact List.IsPrefix.trans ⟨between ++ [s], by simp⟩ hinit
    | append_singleton first e ih =>
      intro hfirst
      have hlist : before ++ c :: (first ++ [e]) = (before ++ c :: first) ++ [e] := by simp
      have hnot : ¬ Orphans (r.given (before ++ c :: first)) e := by
        apply h
        rw [← hlist]
        obtain ⟨rest, hrest⟩ := hfirst
        exact List.IsPrefix.trans ⟨rest ++ [s], by simp [← hrest]⟩ hinit
      rw [hlist, given_concat]
      apply dormant_after (ih ((List.prefix_append first [e]).trans hfirst)) hnot
      exact hassigned first e hfirst
  have hlist : before ++ c :: (between ++ [s]) = (before ++ c :: between) ++ [s] := by simp
  have hlast : Dormant (r.given (before ++ c :: (between ++ [s]))) c.missionId := by
    rw [hlist] at hinit ⊢
    rw [given_concat]
    apply dormant_after (hdormant between (List.prefix_refl _)) (h _ _ hinit)
    intro _ htype
    rcases hstarted with hstarted | hstarted <;> simp [hstarted] at htype
  obtain ⟨m', hm', -, hstatus⟩ := hlast
  cases hm.symm.trans hm'
  exact hstatus hworking

/-- Every mission that is worked on has an owner and is offered to it, and none is worked on again after a cancellation
without an assignment, exactly if no event orphans a mission. -/
theorem owned_iff (leaseTtlS : Option Rat) (events : List CoordinationEvent) :
  ((∀ first, first <+: events → Secured ((Reducer.new leaseTtlS).given first)) ∧
      ∀ id, ¬ Revived (.new leaseTtlS) events id) ↔
    ∀ first e, first ++ [e] <+: events → ¬ Orphans ((Reducer.new leaseTtlS).given first) e
  := by
  have hnone : ∀ id m, (Reducer.new leaseTtlS).missions.get? id ≠ some m := by
    intro id m hm
    cases hm
  have halong : (∀ first, first <+: events → Secured ((Reducer.new leaseTtlS).given first)) ↔
      ∀ first e, first ++ [e] <+: events → ¬ Orphans ((Reducer.new leaseTtlS).given first) e :=
    along_iff (I := fun r => Sound r ∧ Named r) (fun _ e h => ⟨h.1.after e, h.2.after e⟩)
      (fun _ e h hP => secured_step h.1 h.2 hP e)
      ⟨sound_new leaseTtlS, fun id m hm => absurd hm (hnone id m)⟩
      (fun id m hm => absurd hm (hnone id m)) events
  rw [← halong]
  constructor
  · exact fun h => h.1
  · exact fun h => ⟨h, fun id => not_revived (halong.mp h)⟩

/-! ### Cancellations of the reaper -/

end

section Example

local instance wholeSecondsOwned : Iso := .wholeSeconds

def assignedMission : CoordinationEvent :=
  .plain (text "e1") (text "m1") .codexMac .assigned .working (text "2026-10-07T12:00:00Z")

theorem isDate_reaped : IsDate 2026 10 7 := by
  decide

theorem time_reaped : 13 < 24 ∧ 0 < 60 ∧ 0 < 60 ∧ 0 < 1000000 := by
  decide

def reapedLog : List CoordinationEvent :=
  match @reapExpiredMissions Platform.plain _ .googleMac .macLocal 1800
      ⟨2026, 10, 7, 13, 0, 0, 0, isDate_reaped, time_reaped⟩ [assignedMission] with
  | .ok _ log | .error _ log => log

def lateCheckpoint : CoordinationEvent :=
  .plain (text "e2") (text "m1") .codexMac .partialCheckpoint .working (text "2026-10-07T13:10:00Z")

/-- The mission is reaped, and is worked on again after the late checkpoint, without an owner; then
it is offered to nobody. -/
theorem not_owned :
  reapedLog.map CoordinationEvent.eventId = [text "e1", text "reap-m1-e1"] ∧
    (((Reducer.new (some 1800)).given reapedLog).missions.get? (text "m1")).any
      (fun m => m.status = .error && m.ownership = none) = true ∧
    (((Reducer.new (some 1800)).given (reapedLog ++ [lateCheckpoint])).missions.get?
      (text "m1")).any (fun m => m.status = .working && m.ownership = none) = true ∧
    discoverResumable ((Reducer.new (some 1800)).given (reapedLog ++ [lateCheckpoint])) .codexMac = []
  := by
  decide +kernel

end Example

end Courier.Coordination
