import Courier.Coordination
import Courier.Library.Run

/-!
# Steps of the reducer

An event is accepted if it is new, comes from a known agent and host, bears a timestamp, and does
not go back behind the record of its mission or interfere with its owner.  An accepted event sets
the record of its mission; every other event leaves all records as they are.
-/

namespace Courier.Coordination

open Program Run

variable [Iso] {r : Reducer} {e : CoordinationEvent} {m : Mission}

def Known (e : CoordinationEvent) : Prop :=
  e.agentId ≠ .unknown ∧ e.hostId ≠ .unknown

inductive Accepts (r : Reducer) (e : CoordinationEvent) : Mission → Prop
  | created {eventTs : Calendar.DateTime} (fresh : e.eventId ∉ r.processedEventIds) (known : Known e)
      (stamped : parseTimestamp e.createdAt = .ok (some eventTs))
      (missing : r.missions.get? e.missionId = none) : Accepts r e (opened e)
  | changed {eventTs updatedTs : Calendar.DateTime} {mission : Mission}
      (fresh : e.eventId ∉ r.processedEventIds) (known : Known e)
      (stamped : parseTimestamp e.createdAt = .ok (some eventTs))
      (found : r.missions.get? e.missionId = some mission)
      (dated : parseTimestamp mission.updatedAt = .ok (some updatedTs))
      (current : updatedTs.instant ≤ eventTs.instant)
      (admits : admitted r.leaseTtlS mission e eventTs updatedTs = true) :
      Accepts r e (updated mission e)

inductive Given (r : Reducer) (e : CoordinationEvent) : Reducer → Prop
  | replayed : e.eventId ∈ r.processedEventIds → Given r e r
  | ignored : e.eventId ∉ r.processedEventIds → (∀ m, ¬ Accepts r e m) → Given r e (r.noted e)
  | accepted {m : Mission} : Accepts r e m → Given r e ((r.noted e).withMission e.missionId m)

/-- Every event is replayed, ignored or accepted, and the answer tells whether it is accepted. -/
theorem wp_apply (r : Reducer) (e : CoordinationEvent) :
  wp (apply e) (fun answer r' => (answer = true ↔ ∃ m, Accepts r e m) ∧ Given r e r')
    (fun _ r' => (∀ m, ¬ Accepts r e m) ∧ Given r e r') r
  := by
  have hignored : e.eventId ∉ r.processedEventIds → (∀ m, ¬ Accepts r e m) →
      ((false = true ↔ ∃ m, Accepts r e m) ∧ Given r e (r.noted e)) := by
    intro hfresh hnone
    exact ⟨by simpa using hnone, .ignored hfresh hnone⟩
  simp only [apply, wp_bind, wp_get]
  by_cases hmem : e.eventId ∈ r.processedEventIds
  · rw [if_pos (by simpa using hmem), wp_pure]
    refine ⟨⟨by simp, ?_⟩, .replayed hmem⟩
    rintro ⟨m, hm⟩
    cases hm with
    | created fresh => exact absurd hmem fresh
    | changed fresh => exact absurd hmem fresh
  · have hfresh : e.eventId ∉ r.processedEventIds := hmem
    rw [if_neg (by simpa using hmem)]
    simp only [wp_bind, wp_set]
    by_cases hunknown : e.agentId = .unknown ∨ e.hostId = .unknown
    · rw [if_pos hunknown, wp_pure]
      apply hignored hfresh
      intro m hm
      cases hm with
      | created _ known | changed _ known =>
        rcases hunknown with hagent | hhost
        · exact known.1 hagent
        · exact known.2 hhost
    · have hknown : Known e := not_or.mp hunknown
      rw [if_neg hunknown]
      simp only [wp_bind, wp_lift]
      constructor
      · intro stamp hstamp
        cases stamp with
        | none =>
          rw [wp_pure]
          apply hignored hfresh
          intro m hm
          cases hm with
          | created _ _ stamped | changed _ _ stamped => cases hstamp.symm.trans stamped
        | some eventTs =>
          cases hmission : r.missions.get? e.missionId with
          | none =>
            have haccepts : Accepts r e (opened e) := .created hfresh hknown hstamp hmission
            simp only [wp_bind, wp_set, wp_pure]
            exact ⟨by simpa using ⟨_, haccepts⟩, .accepted haccepts⟩
          | some mission =>
            simp only [wp_bind, wp_lift]
            constructor
            · intro date hdate
              cases date with
              | none =>
                rw [wp_throw]
                suffices hnone : ∀ m, ¬ Accepts r e m from ⟨hnone, .ignored hfresh hnone⟩
                intro m hm
                cases hm with
                | created _ _ _ missing => cases hmission.symm.trans missing
                | changed _ _ _ found dated =>
                  cases hmission.symm.trans found
                  cases hdate.symm.trans dated
              | some updatedTs =>
                have hback : ∀ m, Accepts r e m → updatedTs.instant ≤ eventTs.instant ∧
                    admitted r.leaseTtlS mission e eventTs updatedTs = true := by
                  intro m hm
                  cases hm with
                  | created _ _ _ missing => cases hmission.symm.trans missing
                  | changed _ _ stamped found dated current admits =>
                    cases hmission.symm.trans found
                    cases hdate.symm.trans dated
                    cases hstamp.symm.trans stamped
                    exact ⟨current, admits⟩
                dsimp only
                split_ifs with hstale hadmits
                · rw [wp_pure]
                  exact hignored hfresh fun m hm => absurd (hback m hm).1 (not_le.mpr hstale)
                · rw [wp_pure]
                  apply hignored hfresh
                  intro m hm
                  simp [(hback m hm).2] at hadmits
                · have haccepts : Accepts r e (updated mission e) :=
                    .changed hfresh hknown hstamp hmission hdate (not_lt.mp hstale)
                      (by simpa using hadmits)
                  simp only [wp_bind, wp_set, wp_pure]
                  exact ⟨by simpa using ⟨_, haccepts⟩, .accepted haccepts⟩
            · intro why hwhy
              suffices hnone : ∀ m, ¬ Accepts r e m from ⟨hnone, .ignored hfresh hnone⟩
              intro m hm
              cases hm with
              | created _ _ _ missing => cases hmission.symm.trans missing
              | changed _ _ _ found dated =>
                cases hmission.symm.trans found
                cases hwhy.symm.trans dated
      · intro why hwhy
        suffices hnone : ∀ m, ¬ Accepts r e m from ⟨hnone, .ignored hfresh hnone⟩
        intro m hm
        cases hm with
        | created _ _ stamped | changed _ _ stamped => cases hwhy.symm.trans stamped

theorem given_after (r : Reducer) (e : CoordinationEvent) :
  Given r e (r.after e)
  := by
  have hwp := wp_apply r e
  unfold wp at hwp
  unfold Reducer.after
  cases happly : apply e r with
  | ok answer r' =>
    rw [happly] at hwp
    exact hwp.2
  | error why r' =>
    rw [happly] at hwp
    exact hwp.2

theorem Accepts.unique {m' : Mission} (h : Accepts r e m) (h' : Accepts r e m') :
  m = m'
  := by
  cases h with
  | created _ _ _ missing =>
    cases h' with
    | created => rfl
    | changed _ _ _ found => cases missing.symm.trans found
  | changed _ _ _ found =>
    cases h' with
    | created _ _ _ missing => cases found.symm.trans missing
    | changed _ _ _ found' =>
      cases found.symm.trans found'
      rfl

theorem Accepts.common (h : Accepts r e m) :
  e.eventId ∉ r.processedEventIds ∧ Known e ∧ m.latestEventId = e.eventId ∧
    m.updatedAt = e.createdAt ∧ ∃ eventTs, parseTimestamp e.createdAt = .ok (some eventTs)
  := by
  cases h with
  | created fresh known stamped => exact ⟨fresh, known, rfl, rfl, _, stamped⟩
  | changed fresh known stamped => exact ⟨fresh, known, rfl, rfl, _, stamped⟩

theorem after_of_accepts (h : Accepts r e m) :
  r.after e = (r.noted e).withMission e.missionId m
  := by
  have hgiven := given_after r e
  generalize r.after e = r' at hgiven
  cases hgiven with
  | replayed hseen => exact absurd hseen h.common.1
  | ignored _ hnone => exact absurd h (hnone m)
  | accepted h' => rw [h.unique h']

theorem missions_of_ignored (h : ∀ m, ¬ Accepts r e m) :
  (r.after e).missions = r.missions
  := by
  have hgiven := given_after r e
  generalize r.after e = r' at hgiven
  cases hgiven with
  | replayed | ignored => rfl
  | accepted hm => exact absurd hm (h _)

theorem get?_of_accepts (h : Accepts r e m) (id : Str) :
  (r.after e).missions.get? id = if id = e.missionId then some m else r.missions.get? id
  := by
  rw [after_of_accepts h]
  exact Dict.get?_set _ _ _ _

theorem get?_after {id : Str} (h : (r.after e).missions.get? id = some m) :
  r.missions.get? id = some m ∨ Accepts r e m ∧ e.missionId = id
  := by
  by_cases haccepts : ∃ m, Accepts r e m
  · obtain ⟨m', hm'⟩ := haccepts
    rw [get?_of_accepts hm'] at h
    split_ifs at h with hid
    · cases h
      exact .inr ⟨hm', hid.symm⟩
    · exact .inl h
  · rw [missions_of_ignored (not_exists.mp haccepts)] at h
    exact .inl h

/-! ### The invariant of the reducer -/

/-- What always holds of the records and the events of a reducer. -/
structure Sound (r : Reducer) : Prop where
  keyed : ∀ id m, r.missions.get? id = some m → m.missionId = id
  dated : ∀ id m, r.missions.get? id = some m →
    ∃ updatedTs, parseTimestamp m.updatedAt = .ok (some updatedTs)
  latest : ∀ id m, r.missions.get? id = some m →
    ∃ e ∈ r.events, e.eventId = m.latestEventId ∧ e.missionId = id
  processed : ∀ id, id ∈ r.processedEventIds ↔ ∃ e ∈ r.events, e.eventId = id
  nodup : (r.events.map CoordinationEvent.eventId).Nodup

theorem sound_new (leaseTtlS : Option Rat) :
  Sound (.new leaseTtlS)
  := by
  have hnone : ∀ id m, (Reducer.new leaseTtlS).missions.get? id ≠ some m := by
    intro id m hm
    cases hm
  refine ⟨?_, ?_, ?_, by simp [Reducer.new], List.nodup_nil⟩
  · exact fun id m hm => absurd hm (hnone id m)
  · exact fun id m hm => absurd hm (hnone id m)
  · exact fun id m hm => absurd hm (hnone id m)

theorem Sound.noted (h : Sound r) (hfresh : e.eventId ∉ r.processedEventIds) :
  Sound (r.noted e)
  := by
  refine ⟨h.keyed, h.dated, ?_, ?_, ?_⟩
  · intro id m hm
    obtain ⟨f, hf, hlatest⟩ := h.latest id m hm
    exact ⟨f, List.mem_append_left _ hf, hlatest⟩
  · intro id
    simp only [Reducer.noted, List.mem_cons, List.mem_append, List.not_mem_nil, or_false, h.processed]
    constructor
    · rintro (rfl | ⟨f, hf, hid⟩)
      · exact ⟨e, .inr rfl, rfl⟩
      · exact ⟨f, .inl hf, hid⟩
    · rintro ⟨f, hf | rfl, hid⟩
      · exact .inr ⟨f, hf, hid⟩
      · exact .inl hid.symm
  · simp only [Reducer.noted, List.map_append, List.map_cons, List.map_nil]
    apply List.nodup_append.mpr
    refine ⟨h.nodup, by simp, ?_⟩
    rintro id hid _ hlast rfl
    obtain ⟨f, hf, rfl⟩ := List.mem_map.mp hid
    apply hfresh
    exact (h.processed _).mpr ⟨f, hf, by simpa using hlast⟩

theorem Accepts.missionId (h : Accepts r e m) (hr : Sound r) :
  m.missionId = e.missionId
  := by
  cases h with
  | created => rfl
  | @changed _ _ mission _ _ _ found =>
    rw [← hr.keyed _ _ found]
    unfold updated transition
    cases e.eventType <;> rfl

theorem Sound.after (h : Sound r) (e : CoordinationEvent) :
  Sound (r.after e)
  := by
  have hgiven := given_after r e
  generalize r.after e = r' at hgiven
  cases hgiven with
  | replayed => exact h
  | ignored hfresh => exact h.noted hfresh
  | @accepted m hm =>
    obtain ⟨hfresh, -, hlatest, hupdated, stamped⟩ := hm.common
    have hnoted := h.noted hfresh
    have hget : ∀ id m', ((r.noted e).withMission e.missionId m).missions.get? id = some m' →
        id = e.missionId ∧ m' = m ∨ r.missions.get? id = some m' := by
      intro id m' hm'
      rw [Reducer.withMission, Dict.get?_set] at hm'
      split_ifs at hm' with hid
      · cases hm'
        exact .inl ⟨hid, rfl⟩
      · exact .inr hm'
    refine ⟨?_, ?_, ?_, hnoted.processed, hnoted.nodup⟩
    · intro id m' hm'
      rcases hget id m' hm' with ⟨rfl, rfl⟩ | hold
      · exact hm.missionId h
      · exact h.keyed id m' hold
    · intro id m' hm'
      rcases hget id m' hm' with ⟨rfl, rfl⟩ | hold
      · rw [hupdated]
        exact stamped
      · exact h.dated id m' hold
    · intro id m' hm'
      rcases hget id m' hm' with ⟨rfl, rfl⟩ | hold
      · exact ⟨e, by simp [Reducer.withMission, Reducer.noted], hlatest.symm, rfl⟩
      · exact hnoted.latest id m' hold

theorem Sound.given (h : Sound r) (events : List CoordinationEvent) :
  Sound (r.given events)
  := foldl_invariant (fun _ e hr => hr.after e) h events

theorem given_concat (r : Reducer) (events : List CoordinationEvent) (e : CoordinationEvent) :
  r.given (events ++ [e]) = (r.given events).after e
  := List.foldl_concat _ _ _ _

/-! ### Offers -/

omit [Iso] in
theorem mem_discoverResumable {r : Reducer} {agentId : AgentID} {c : ResumeCheckpoint} :
  c ∈ discoverResumable r agentId ↔ agentId ≠ .unknown ∧
    ∃ id m, r.missions.get? id = some m ∧ depsDone r m = true ∧
      (m.status = .working ∧ m.ownership = some agentId.value ∧ c = checkpoint m .resume ∨
        m.status = .error ∧ c = checkpoint m .reassign)
  := by
  unfold discoverResumable
  split_ifs with hunknown
  · simp [hunknown]
  · simp only [List.mem_mergeSort, List.mem_filterMap, Dict.mem_values, ne_eq, hunknown,
      not_false_eq_true, true_and]
    constructor
    · rintro ⟨m, ⟨id, hm⟩, hoffer⟩
      refine ⟨id, m, hm, ?_⟩
      unfold offer at hoffer
      split_ifs at hoffer with hdeps hworking herror
      · cases hoffer
        exact ⟨by simpa using hdeps, .inl ⟨hworking.1, hworking.2, rfl⟩⟩
      · cases hoffer
        exact ⟨by simpa using hdeps, .inr ⟨herror, rfl⟩⟩
    · rintro ⟨id, m, hm, hdeps, hcase⟩
      refine ⟨m, ⟨id, hm⟩, ?_⟩
      unfold offer
      rw [if_neg (by simp [hdeps])]
      rcases hcase with ⟨hstatus, howner, rfl⟩ | ⟨hstatus, rfl⟩
      · rw [if_pos ⟨hstatus, howner⟩]
      · rw [if_neg (by simp [hstatus]), if_pos hstatus]

end Courier.Coordination
