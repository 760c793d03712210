import Courier.Coordination.Claims
import Courier.Coordination.Owned
import Mathlib.Algebra.Order.Field.Basic

/-!
# Reaped missions

The reaper judges leases by a length that its caller chooses, everybody else by the default one.  So a cancellation
releases its mission for everybody else exactly if the default reducer lets it pass (`released_of_reap_iff`), and
takes its id otherwise (`released_later_iff`).
-/

namespace Courier.Coordination

open Calendar Program Run Text

section

variable [Iso] {r r' : Reducer} {e : CoordinationEvent} {m : Mission} {id : Str}
  {log events : List CoordinationEvent} {ttl : Rat} {now : DateTime}

/-! ### Reductions with different leases -/

def reducedWith (ttl : Rat) (log : List CoordinationEvent) : Reducer :=
  (Reducer.new (some ttl)).given log

theorem sound_reducedWith (ttl : Rat) (log : List CoordinationEvent) :
  Sound (reducedWith ttl log)
  := (sound_new _).given log

theorem reduceStore_eq_reducedWith (h : reduceStore log (some ttl) = .ok r) :
  r = reducedWith ttl log
  := reduceStore_eq_given h

def Legible (processed : List Str) (e : CoordinationEvent) : Prop :=
  e.eventId ∈ processed ∨ ¬ Known e ∨ ∃ stamp, parseTimestamp e.createdAt = .ok stamp

/-- An event stops the reducer only if its time is looked at and cannot be read. -/
theorem apply_returns_iff (hr : Sound r) :
  (∃ answer r', apply e r = .ok answer r') ↔ Legible r.processedEventIds e
  := by
  have hwp : wp (apply e) (fun _ _ => Legible r.processedEventIds e)
      (fun _ _ => ¬ Legible r.processedEventIds e) r := by
    simp only [apply, wp_bind, wp_get]
    by_cases hmem : e.eventId ∈ r.processedEventIds
    · rw [if_pos (by simpa using hmem), wp_pure]
      exact .inl hmem
    · rw [if_neg (by simpa using hmem)]
      simp only [wp_bind, wp_set]
      by_cases hunknown : e.agentId = .unknown ∨ e.hostId = .unknown
      · rw [if_pos hunknown, wp_pure]
        exact .inr (.inl fun hknown => not_or.mpr hknown hunknown)
      · rw [if_neg hunknown]
        simp only [wp_bind, wp_lift]
        constructor
        · intro stamp hstamp
          have hlegible : Legible r.processedEventIds e := .inr (.inr ⟨stamp, hstamp⟩)
          cases stamp with
          | none => exact hlegible
          | some eventTs =>
            cases hmission : r.missions.get? e.missionId with
            | none => exact hlegible
            | some mission =>
              obtain ⟨updatedTs, hdated⟩ := hr.dated _ mission hmission
              simp only [wp_bind, wp_lift, hdated]
              refine ⟨?_, by rintro _ ⟨⟩⟩
              rintro _ ⟨⟩
              dsimp only
              split_ifs
              · exact hlegible
              · exact hlegible
              · exact hlegible
        · rintro why hwhy (hseen | hforeign | ⟨stamp, hstamp⟩)
          · exact hmem hseen
          · exact hforeign (not_or.mp hunknown)
          · cases hwhy.symm.trans hstamp
  constructor
  · rintro ⟨answer, r', happly⟩
    have hlegible := normal_of_wp hwp happly
    exact hlegible
  · intro hlegible
    cases happly : apply e r with
    | ok answer r' => exact ⟨answer, r', rfl⟩
    | error why r' => exact absurd hlegible (raised_of_wp hwp happly)

theorem reduceStore_concat (log : List CoordinationEvent) (e : CoordinationEvent) (ttl : Rat) :
  (∃ r, reduceStore (log ++ [e]) (some ttl) = .ok r) ↔
    ∃ r, reduceStore log (some ttl) = .ok r ∧ ∃ answer r', apply e r = .ok answer r'
  := by
  have hrun : ((log ++ [e]).forM fun event => discard (apply event)) (Reducer.new (some ttl)) =
      ((log.forM fun event => discard (apply event)) >>= fun _ => discard (apply e))
        (Reducer.new (some ttl)) := by
    simp [List.forM_append]
  simp only [reduceStore, hrun, bind, EStateM.bind]
  cases hlog : (log.forM fun event => discard (apply event)) (Reducer.new (some ttl)) with
  | ok answer r =>
    simp only [discard, Functor.discard, Functor.mapConst, EStateM.map, Function.comp, Function.const]
    cases happly : apply e r with
    | ok answer' r' => simp [happly]
    | error why r' => simp [happly]
  | error why r => simp

theorem mem_processed_given (r : Reducer) :
  id ∈ (r.given events).processedEventIds ↔
    id ∈ r.processedEventIds ∨ ∃ e ∈ events, e.eventId = id
  := by
  induction events using List.reverseRecOn with
  | nil => simp [Reducer.given]
  | append_singleton events e ih =>
    have hgiven := given_after (r.given events) e
    rw [given_concat]
    generalize (r.given events).after e = r' at hgiven
    have hlast : (∃ f ∈ events ++ [e], f.eventId = id) ↔
        (∃ f ∈ events, f.eventId = id) ∨ e.eventId = id := by
      simp only [List.mem_append, List.mem_singleton, or_and_right, exists_or, exists_eq_left]
    rw [hlast, ← or_assoc, ← ih]
    cases hgiven with
    | replayed hmem =>
      refine ⟨.inl, ?_⟩
      rintro (h | rfl)
      · exact h
      · exact hmem
    | ignored | accepted =>
      simp only [Reducer.withMission, Reducer.noted, List.mem_cons, eq_comm (a := id), or_comm]

theorem mem_processed_reducedWith (ttl : Rat) (log : List CoordinationEvent) :
  id ∈ (reducedWith ttl log).processedEventIds ↔ ∃ e ∈ log, e.eventId = id
  := by
  rw [reducedWith, mem_processed_given]
  simp [Reducer.new]

theorem reduceStore_returns_iff (ttl ttl' : Rat) (log : List CoordinationEvent) :
  (∃ r, reduceStore log (some ttl) = .ok r) ↔ ∃ r, reduceStore log (some ttl') = .ok r
  := by
  induction log using List.reverseRecOn with
  | nil => exact iff_of_true ⟨_, rfl⟩ ⟨_, rfl⟩
  | append_singleton log e ih =>
    have hreturns : ∀ ttl, (∃ r, reduceStore (log ++ [e]) (some ttl) = .ok r) ↔
        (∃ r, reduceStore log (some ttl) = .ok r) ∧ ((∃ f ∈ log, f.eventId = e.eventId) ∨
          ¬ Known e ∨ ∃ stamp, parseTimestamp e.createdAt = .ok stamp) := by
      intro ttl
      rw [reduceStore_concat]
      constructor
      · rintro ⟨r, hr, happly⟩
        obtain rfl := reduceStore_eq_reducedWith hr
        rw [apply_returns_iff (sound_reducedWith ttl log), Legible, mem_processed_reducedWith] at happly
        exact ⟨⟨_, hr⟩, happly⟩
      · rintro ⟨⟨r, hr⟩, hlegible⟩
        obtain rfl := reduceStore_eq_reducedWith hr
        refine ⟨_, hr, ?_⟩
        rw [apply_returns_iff (sound_reducedWith ttl log), Legible, mem_processed_reducedWith]
        exact hlegible
    rw [hreturns, hreturns, ih]

theorem reduceStore_append (h : reduceStore log (some ttl) = .ok r)
    (hreadable : ∀ e ∈ events, ∃ stamp, parseTimestamp e.createdAt = .ok stamp) (ttl' : Rat) :
  reduceStore (log ++ events) (some ttl') = .ok (reducedWith ttl' (log ++ events))
  := by
  have hreturns : ∃ r, reduceStore (log ++ events) (some ttl') = .ok r := by
    induction events using List.reverseRecOn with
    | nil =>
      rw [List.append_nil]
      exact (reduceStore_returns_iff ttl ttl' log).mp ⟨r, h⟩
    | append_singleton events e ih =>
      obtain ⟨r', hr'⟩ := ih fun f hf => hreadable f (List.mem_append_left _ hf)
      rw [← List.append_assoc, reduceStore_concat]
      refine ⟨r', hr', ?_⟩
      obtain rfl := reduceStore_eq_reducedWith hr'
      rw [apply_returns_iff (sound_reducedWith _ _)]
      exact .inr (.inr (hreadable e (by simp)))
  obtain ⟨r', hr'⟩ := hreturns
  rw [hr', reduceStore_eq_reducedWith hr']

theorem isSome_reducedWith (ttl ttl' : Rat) (log : List CoordinationEvent) (id : Str) :
  ((reducedWith ttl log).missions.get? id).isSome = ((reducedWith ttl' log).missions.get? id).isSome
  := by
  induction log using List.reverseRecOn generalizing id with
  | nil => rfl
  | append_singleton log e ih =>
    have hstep : ∀ ttl, ((reducedWith ttl (log ++ [e])).missions.get? id).isSome = true ↔
        ((reducedWith ttl log).missions.get? id).isSome = true ∨ id = e.missionId ∧
          (¬ ∃ f ∈ log, f.eventId = e.eventId) ∧ Known e ∧
          ∃ eventTs, parseTimestamp e.createdAt = .ok (some eventTs) := by
      intro ttl
      rw [reducedWith, given_concat, ← reducedWith, ← mem_processed_reducedWith ttl]
      by_cases haccepts : ∃ m, Accepts (reducedWith ttl log) e m
      · obtain ⟨m, hm⟩ := haccepts
        obtain ⟨hfresh, hknown, -, -, hstamped⟩ := hm.common
        rw [get?_of_accepts hm]
        split_ifs with hid
        · exact iff_of_true rfl (.inr ⟨hid, hfresh, hknown, hstamped⟩)
        · exact ⟨.inl, fun h => h.resolve_right fun h => hid h.1⟩
      · rw [missions_of_ignored (not_exists.mp haccepts)]
        refine ⟨.inl, ?_⟩
        rintro (h | ⟨rfl, hfresh, hknown, eventTs, hstamped⟩)
        · exact h
        · by_contra hnone
          rw [Option.not_isSome_iff_eq_none] at hnone
          exact haccepts ⟨_, .created hfresh hknown hstamped hnone⟩
    rw [Bool.eq_iff_iff, hstep, hstep, ih]

/-! ### A pass of the reaper -/

def reapId (m : Mission) : Str :=
  text "reap-" ++ m.missionId ++ text "-" ++ m.latestEventId

/-- The reaper has to cancel the mission: it is worked on, its lease has run out, and its cancellation is not
in the store. -/
def due (r : Reducer) (ttl : Rat) (now : DateTime) (m : Mission) : Bool :=
  m.status = .working
    && (match parseTimestamp m.updatedAt with
      | .ok (some lastTs) => ttl ≤ secondsBetween lastTs now
      | _ => false)
    && !r.processedEventIds.contains (reapId m)

def dueMissions (r : Reducer) (ttl : Rat) (now : DateTime) : List Mission :=
  r.missions.values.filter (due r ttl now)

section Pass

variable [Platform] {reaperAgent : AgentID} {reaperHost : HostID}

def cancellationOf (reaperAgent : AgentID) (reaperHost : HostID) (now : DateTime) (m : Mission) :
    CoordinationEvent :=
  cancellation m reaperAgent reaperHost now
    (match parseTimestamp m.updatedAt with
      | .ok (some lastTs) => lastTs
      | _ => now)

structure Written (r : Reducer) (reaperAgent : AgentID) (reaperHost : HostID) (ttl : Rat)
    (now : DateTime) (missions : List Mission) (events : List CoordinationEvent) : Prop where
  cancels : events = (missions.filter (due r ttl now)).map (cancellationOf reaperAgent reaperHost now)
  encodable : ∀ m ∈ missions.filter (due r ttl now), Encodable (reapId m)

theorem wp_reapMission_due (hdated : ∃ lastTs, parseTimestamp m.updatedAt = .ok (some lastTs))
    (log : List CoordinationEvent) :
  wp (reapMission r reaperAgent reaperHost ttl now m)
    (fun reaped log' => log' = log ++ reaped.toList ∧
      Written r reaperAgent reaperHost ttl now [m] reaped.toList)
    (fun _ log' => log' = log ∧ due r ttl now m = true ∧ ¬ Encodable (reapId m)) log
  := by
  obtain ⟨lastTs, hlast⟩ := hdated
  have hidle : due r ttl now m = false → log = log ++ (none : Option CoordinationEvent).toList ∧
      Written r reaperAgent reaperHost ttl now [m] (none : Option CoordinationEvent).toList := by
    intro hdue
    refine ⟨by simp, ?_, ?_⟩
    · simp [hdue]
    · simp [hdue]
  unfold reapMission
  by_cases hworking : m.status = .working
  · rw [if_neg (by simpa using hworking)]
    simp only [wp_bind, wp_lift, hlast]
    refine ⟨?_, by rintro _ ⟨⟩⟩
    rintro _ ⟨⟩
    dsimp only
    split_ifs with hearly hseen hencodable
    · apply hidle
      simp [due, hlast, hearly]
    · apply hidle
      have hnoted : r.processedEventIds.contains (reapId m) = true := hseen
      rw [due, hnoted]
      simp
    · have hdue : due r ttl now m = true := by
        have hnew : r.processedEventIds.contains (reapId m) = false := Bool.eq_false_iff.mpr hseen
        rw [due, hnew, hlast]
        simpa [hworking] using not_lt.mp hearly
      refine ⟨rfl, ?_, ?_⟩
      · simp [hdue, cancellationOf, hlast]
      · simp only [List.filter_cons, hdue, List.filter_nil, if_true, List.mem_singleton, forall_eq]
        exact hencodable
    · have hnew : r.processedEventIds.contains (reapId m) = false := Bool.eq_false_iff.mpr hseen
      refine ⟨rfl, ?_, hencodable⟩
      rw [due, hnew, hlast]
      simpa [hworking] using not_lt.mp hearly
  · rw [if_pos hworking]
    apply hidle
    simp [due, hworking]

omit [Platform] in
theorem Written.append [Platform] {missions missions' : List Mission} {events' : List CoordinationEvent}
    (h : Written r reaperAgent reaperHost ttl now missions events)
    (h' : Written r reaperAgent reaperHost ttl now missions' events') :
  Written r reaperAgent reaperHost ttl now (missions ++ missions') (events ++ events')
  := by
  constructor
  · rw [List.filter_append, List.map_append, ← h.cancels, ← h'.cancels]
  · rw [List.filter_append]
    intro m hm
    rcases List.mem_append.mp hm with hm | hm
    · exact h.encodable m hm
    · exact h'.encodable m hm

theorem wp_reapMissions_due {missions : List Mission}
    (hdated : ∀ m ∈ missions, ∃ lastTs, parseTimestamp m.updatedAt = .ok (some lastTs))
    (log : List CoordinationEvent) :
  wp (missions.mapM (reapMission r reaperAgent reaperHost ttl now))
    (fun reaped log' => log' = log ++ reaped.reduceOption ∧
      Written r reaperAgent reaperHost ttl now missions reaped.reduceOption)
    (fun _ log' => ∃ before bad after events, missions = before ++ bad :: after ∧
      log' = log ++ events ∧ Written r reaperAgent reaperHost ttl now before events ∧
      due r ttl now bad = true ∧ ¬ Encodable (reapId bad)) log
  := by
  have hnil : Written r reaperAgent reaperHost ttl now [] [] := ⟨rfl, by simp⟩
  induction missions generalizing log with
  | nil =>
    rw [List.mapM_nil, wp_pure]
    exact ⟨by simp, hnil⟩
  | cons m missions ih =>
    simp only [List.mapM_cons, wp_bind, wp_pure]
    apply wp_mono (wp_reapMission_due (hdated m (by simp)) log)
    · rintro first log₁ ⟨rfl, hfirst⟩
      apply wp_mono (ih (fun m' hm' => hdated m' (List.mem_cons_of_mem _ hm')) _)
      · rintro rest log₂ ⟨rfl, hrest⟩
        have hcons : (first :: rest).reduceOption = first.toList ++ rest.reduceOption := by
          cases first <;> simp
        rw [hcons]
        exact ⟨by simp, hfirst.append hrest⟩
      · rintro _ log₂ ⟨before, bad, after, events, rfl, rfl, hbefore, hbad⟩
        exact ⟨m :: before, bad, after, first.toList ++ events, rfl, by simp,
          hfirst.append hbefore, hbad⟩
    · rintro _ log₁ ⟨rfl, hbad⟩
      exact ⟨[], m, missions, [], rfl, by simp, hnil, hbad⟩

theorem wp_reap_due (hagent : reaperAgent ≠ .unknown) (hhost : reaperHost ≠ .unknown)
    (log : List CoordinationEvent) :
  wp (reapExpiredMissions reaperAgent reaperHost ttl now)
    (fun reaped log' => log' = log ++ reaped ∧ Written (reducedWith ttl log) reaperAgent reaperHost
      ttl now (reducedWith ttl log).missions.values reaped)
    (fun _ log' => (log' = log ∧ ¬ ∃ r, reduceStore log (some ttl) = .ok r) ∨
      ∃ before bad after events,
        (reducedWith ttl log).missions.values = before ++ bad :: after ∧ log' = log ++ events ∧
        Written (reducedWith ttl log) reaperAgent reaperHost ttl now before events ∧
        due (reducedWith ttl log) ttl now bad = true ∧ ¬ Encodable (reapId bad)) log
  := by
  unfold reapExpiredMissions
  rw [if_neg (not_or.mpr ⟨hagent, hhost⟩)]
  simp only [wp_bind, wp_get, wp_lift, wp_pure]
  constructor
  · intro r hr
    obtain rfl := reduceStore_eq_reducedWith hr
    have hdated : ∀ m ∈ (reducedWith ttl log).missions.values,
        ∃ lastTs, parseTimestamp m.updatedAt = .ok (some lastTs) := by
      intro m hm
      obtain ⟨id, hid⟩ := Dict.mem_values.mp hm
      exact (sound_reducedWith ttl log).dated id m hid
    apply wp_mono (wp_reapMissions_due hdated log)
    · exact fun reaped log' h => h
    · exact fun _ _ h => .inr h
  · intro why hwhy
    refine .inl ⟨trivial, ?_⟩
    rintro ⟨r, hr⟩
    cases hwhy.symm.trans hr

/-! ### What becomes of cancellations -/

omit [Iso] [Platform] in
def Freed (m : Mission) : Prop :=
  m.status = .error ∧ m.ownership = none

/-- The cancellation does not go back behind the record, and the mission has no owner, is the agent's, or its lease has
run out by the default length. -/
def Passes (reaperAgent : AgentID) (now : DateTime) (m : Mission) : Prop :=
  ∃ updatedTs, parseTimestamp m.updatedAt = .ok (some updatedTs) ∧ updatedTs.instant ≤ now.instant ∧
    (m.ownership = none ∨ m.ownership = some reaperAgent.value ∨
      DEFAULT_LEASE_TTL_S ≤ secondsBetween updatedTs now)

section

omit [Platform]

theorem leaseTtlS_given (r : Reducer) (events : List CoordinationEvent) :
  (r.given events).leaseTtlS = r.leaseTtlS
  := by
  induction events using List.reverseRecOn with
  | nil => rfl
  | append_singleton events e ih =>
    have hgiven := given_after (r.given events) e
    rw [given_concat]
    generalize (r.given events).after e = r' at hgiven
    rw [← ih]
    cases hgiven with
    | replayed | ignored | accepted => rfl

theorem named_given (hn : Named r) (events : List CoordinationEvent) :
  Named (r.given events)
  := by
  have hkept := foldl_invariant (I := Named) (fun _ e hr => hr.after e) hn events
  exact hkept

theorem get?_given_of_ne (h : ∀ e ∈ events, e.missionId ≠ id) (r : Reducer) :
  (r.given events).missions.get? id = r.missions.get? id
  := by
  induction events using List.reverseRecOn with
  | nil => rfl
  | append_singleton events e ih =>
    rw [given_concat, ← ih fun f hf => h f (List.mem_append_left _ hf)]
    by_cases haccepts : ∃ m, Accepts (r.given events) e m
    · obtain ⟨m, hm⟩ := haccepts
      rw [get?_of_accepts hm, if_neg (Ne.symm (h e (by simp)))]
    · rw [missions_of_ignored (not_exists.mp haccepts)]

end

theorem freed_after (hr : Sound r) (hn : Named r) (hlease : r.leaseTtlS = some DEFAULT_LEASE_TTL_S)
    (hagent : reaperAgent ≠ .unknown) (hhost : reaperHost ≠ .unknown)
    (hnow : parseTimestamp (isoformat now) = .ok (some now)) {d : Mission}
    (hd : r.missions.get? m.missionId = some d) :
  ∃ d', (r.after (cancellationOf reaperAgent reaperHost now m)).missions.get? m.missionId = some d' ∧
    (Freed d' ↔ Freed d ∨ reapId m ∉ r.processedEventIds ∧ Passes reaperAgent now d)
  := by
  obtain ⟨updatedTs, hupdated⟩ := hr.dated _ d hd
  have howner : d.ownership ≠ some [] := hn _ d hd
  have hadmitted : admitted r.leaseTtlS d (cancellationOf reaperAgent reaperHost now m) now updatedTs =
      true ↔ d.ownership = none ∨ d.ownership = some reaperAgent.value ∨
        DEFAULT_LEASE_TTL_S ≤ secondsBetween updatedTs now := by
    rw [hlease, admitted]
    rcases hownership : d.ownership with _ | _ | ⟨c, s⟩
    · simp
    · exact absurd hownership howner
    · have hnew : newOwner (cancellationOf reaperAgent reaperHost now m) = reaperAgent.value := rfl
      dsimp only
      rw [hnew]
      by_cases hsame : c :: s = reaperAgent.value
      · simp [hsame]
      · simp [hsame, cancellationOf, cancellation]
  by_cases haccepts : ∃ m', Accepts r (cancellationOf reaperAgent reaperHost now m) m'
  · obtain ⟨m', hm'⟩ := haccepts
    refine ⟨m', (get?_of_accepts hm' m.missionId).trans (if_pos rfl), ?_⟩
    cases hm' with
    | created _ _ _ missing => cases missing.symm.trans hd
    | changed fresh known stamped found dated current admits =>
      cases found.symm.trans hd
      cases stamped.symm.trans hnow
      cases dated.symm.trans hupdated
      exact iff_of_true ⟨rfl, rfl⟩
        (.inr ⟨fresh, updatedTs, hupdated, current, hadmitted.mp admits⟩)
  · refine ⟨d, by rw [missions_of_ignored (not_exists.mp haccepts), hd], ?_⟩
    refine ⟨.inl, ?_⟩
    rintro (hfreed | ⟨hfresh, updatedTs', hupdated', hcurrent, hcase⟩)
    · exact hfreed
    · cases hupdated.symm.trans hupdated'
      exact absurd ⟨_, .changed hfresh ⟨hagent, hhost⟩ hnow hd hupdated hcurrent (hadmitted.mpr hcase)⟩
        haccepts

theorem freed_given (hr : Sound r) (hn : Named r) (hlease : r.leaseTtlS = some DEFAULT_LEASE_TTL_S)
    (hagent : reaperAgent ≠ .unknown) (hhost : reaperHost ≠ .unknown)
    (hnow : parseTimestamp (isoformat now) = .ok (some now)) {before after : List Mission}
    {d : Mission} (hd : r.missions.get? m.missionId = some d)
    (hdistinct : ((before ++ m :: after).map Mission.missionId).Nodup) :
  ∃ d', (r.given ((before ++ m :: after).map
      (cancellationOf reaperAgent reaperHost now))).missions.get? m.missionId = some d' ∧
    (Freed d' ↔ Freed d ∨ reapId m ∉ r.processedEventIds ∧
      (∀ b ∈ before, reapId b ≠ reapId m) ∧ Passes reaperAgent now d)
  := by
  rw [List.map_append, List.map_cons, List.nodup_append, List.nodup_cons] at hdistinct
  obtain ⟨-, ⟨hafter, -⟩, hbefore⟩ := hdistinct
  have hothers : ∀ {missions : List Mission}, (∀ b ∈ missions, b.missionId ≠ m.missionId) →
      ∀ e ∈ missions.map (cancellationOf reaperAgent reaperHost now), e.missionId ≠ m.missionId := by
    intro missions hne e he
    obtain ⟨b, hb, rfl⟩ := List.mem_map.mp he
    exact hne b hb
  have hd' : (r.given (before.map (cancellationOf reaperAgent reaperHost now))).missions.get?
      m.missionId = some d := by
    rw [get?_given_of_ne (hothers fun b hb => hbefore _ (List.mem_map_of_mem hb) _ (by simp)), hd]
  obtain ⟨d', hget, hfreed⟩ := freed_after (hr.given _) (named_given hn _)
    ((leaseTtlS_given r _).trans hlease) hagent hhost hnow hd'
  have hwhole : r.given ((before ++ m :: after).map (cancellationOf reaperAgent reaperHost now)) =
      ((r.given (before.map (cancellationOf reaperAgent reaperHost now))).after
        (cancellationOf reaperAgent reaperHost now m)).given
        (after.map (cancellationOf reaperAgent reaperHost now)) := by
    rw [List.map_append, List.map_cons, Reducer.given, List.foldl_append, List.foldl_cons]
    rfl
  refine ⟨d', ?_, ?_⟩
  · rw [hwhole, get?_given_of_ne (hothers fun b hb heq => hafter (heq ▸ List.mem_map_of_mem hb)), hget]
  · have hids : (∃ e ∈ before.map (cancellationOf reaperAgent reaperHost now), e.eventId = reapId m) ↔
        ∃ b ∈ before, reapId b = reapId m := by
      constructor
      · rintro ⟨e, he, heq⟩
        obtain ⟨b, hb, rfl⟩ := List.mem_map.mp he
        exact ⟨b, hb, heq⟩
      · rintro ⟨b, hb, heq⟩
        exact ⟨_, List.mem_map_of_mem hb, heq⟩
    rw [hfreed, mem_processed_given, hids, not_or, and_assoc]
    simp only [not_exists, not_and]

/-! ### Honoured cancellations -/

section

omit [Platform]

theorem nodup_missionId (hr : Sound r) :
  (r.missions.values.map Mission.missionId).Nodup
  := by
  have hkeys : r.missions.values.map Mission.missionId = r.missions.keys := by
    rw [Dict.values, Dict.keys, List.map_map]
    apply List.map_congr_left
    intro p hp
    exact hr.keyed p.1 p.2 (Dict.get?_eq_some.mpr hp)
  rw [hkeys]
  exact r.missions.nodup

theorem nodup_dueMissions (ttl : Rat) (log : List CoordinationEvent) (now : DateTime) :
  ((dueMissions (reducedWith ttl log) ttl now).map Mission.missionId).Nodup
  := (nodup_missionId (sound_reducedWith ttl log)).sublist (List.filter_sublist.map _)

theorem of_mem_dueMissions (h : m ∈ dueMissions (reducedWith ttl log) ttl now) :
  (reducedWith ttl log).missions.get? m.missionId = some m ∧
    ∀ r : Reducer, (∀ id, id ∈ r.processedEventIds ↔ ∃ e ∈ log, e.eventId = id) →
      reapId m ∉ r.processedEventIds
  := by
  obtain ⟨hm, hdue⟩ := List.mem_filter.mp h
  obtain ⟨id, hid⟩ := Dict.mem_values.mp hm
  have hkeyed := (sound_reducedWith ttl log).keyed id m hid
  refine ⟨hkeyed ▸ hid, ?_⟩
  intro r hr
  rw [hr, ← mem_processed_reducedWith ttl]
  simp only [due, Bool.and_eq_true, Bool.not_eq_true', List.contains_eq_mem, decide_eq_false_iff_not] at hdue
  exact hdue.2

end

/-- Everybody with the default lease finds the mission ended in an error and without an owner, and it is offered again.
-/
def Released (log : List CoordinationEvent) (id : Str) : Prop :=
  ∃ r m, reduceStore log = .ok r ∧ r.missions.get? id = some m ∧ Freed m ∧
    ∀ agentId : AgentID, agentId ≠ .unknown → depsDone r m = true →
      checkpoint m .reassign ∈ discoverResumable r agentId

omit [Platform] in
theorem released_iff (h : reduceStore log = .ok (reduced log)) :
  Released log id ↔ ∃ m, (reduced log).missions.get? id = some m ∧ Freed m
  := by
  constructor
  · rintro ⟨r, m, hr, hm, hfreed, -⟩
    cases h.symm.trans hr
    exact ⟨m, hm, hfreed⟩
  · rintro ⟨m, hm, hfreed⟩
    refine ⟨_, m, h, hm, hfreed, ?_⟩
    intro agentId hknown hdeps
    exact mem_discoverResumable.mpr ⟨hknown, id, m, hm, hdeps, .inr ⟨hfreed.1, rfl⟩⟩

theorem released_given (hreads : ∀ t, parseTimestamp (isoformat t) = .ok (some t))
    (hagent : reaperAgent ≠ .unknown) (hhost : reaperHost ≠ .unknown)
    (hlog : reduceStore log (some ttl) = .ok r) {before after rest : List Mission}
    (hdue : dueMissions (reducedWith ttl log) ttl now = before ++ m :: after ++ rest) {d : Mission}
    (hd : (reduced log).missions.get? m.missionId = some d) :
  Released (log ++ (before ++ m :: after).map (cancellationOf reaperAgent reaperHost now))
      m.missionId ↔
    Freed d ∨ (∀ b ∈ before, reapId b ≠ reapId m) ∧ Passes reaperAgent now d
  := by
  have hreadable : ∀ e ∈ (before ++ m :: after).map (cancellationOf reaperAgent reaperHost now),
      ∃ stamp, parseTimestamp e.createdAt = .ok stamp := by
    intro e he
    obtain ⟨b, -, rfl⟩ := List.mem_map.mp he
    exact ⟨_, hreads now⟩
  have hdistinct : ((before ++ m :: after).map Mission.missionId).Nodup := by
    have hall := nodup_dueMissions ttl log now
    rw [hdue, List.map_append] at hall
    exact hall.of_append_left
  have hfresh : reapId m ∉ (reduced log).processedEventIds := by
    have hmem : m ∈ dueMissions (reducedWith ttl log) ttl now := by simp [hdue]
    exact (of_mem_dueMissions hmem).2 _ fun id => mem_processed_reducedWith _ _
  obtain ⟨d', hget, hfreed⟩ := freed_given (sound_reduced log) (named_given (fun _ _ h => by cases h) log)
    (leaseTtlS_given _ log) hagent hhost (hreads now) hd hdistinct
  have hafter : reduced (log ++ (before ++ m :: after).map (cancellationOf reaperAgent reaperHost now)) =
      (reduced log).given ((before ++ m :: after).map (cancellationOf reaperAgent reaperHost now)) := by
    rw [reduced, Reducer.given, List.foldl_append]
    rfl
  rw [released_iff (reduceStore_append hlog hreadable _), hafter, hget]
  simp only [Option.some.injEq, exists_eq_left', hfreed]
  simp [hfresh]

def Honours (log : List CoordinationEvent) (reaperAgent : AgentID) (ttl : Rat) (now : DateTime) : Prop :=
  ∀ before m after, dueMissions (reducedWith ttl log) ttl now = before ++ m :: after →
    ∀ d, (reduced log).missions.get? m.missionId = some d →
      Freed d ∨ (∀ b ∈ before, reapId b ≠ reapId m) ∧ Passes reaperAgent now d

/-- The cancellations that a pass returns release their missions for everybody exactly if the default
reducer honours them. -/
theorem released_of_reap_iff (hreads : ∀ t, parseTimestamp (isoformat t) = .ok (some t))
    {reaped log' : List CoordinationEvent}
    (h : reapExpiredMissions reaperAgent reaperHost ttl now log = .ok reaped log') :
  (∀ e ∈ reaped, Released log' e.missionId) ↔
    reaperAgent = .unknown ∨ reaperHost = .unknown ∨ Honours log reaperAgent ttl now
  := by
  by_cases hunknown : reaperAgent = .unknown ∨ reaperHost = .unknown
  · have hidle : reaped = [] := by
      unfold reapExpiredMissions at h
      rw [if_pos hunknown] at h
      cases h
      rfl
    subst hidle
    exact iff_of_true (by simp) (hunknown.imp_right .inl)
  · obtain ⟨hagent, hhost⟩ := not_or.mp hunknown
    obtain ⟨rfl, hwritten⟩ := normal_of_wp (wp_reap_due hagent hhost log) h
    obtain ⟨r, hr⟩ : ∃ r, reduceStore log (some ttl) = .ok r := by
      unfold reapExpiredMissions at h
      rw [if_neg hunknown] at h
      cases hr : reduceStore log (some ttl) with
      | ok r => exact ⟨r, rfl⟩
      | error why =>
        rw [get_bind, hr] at h
        cases h
    have hcancels : reaped = (dueMissions (reducedWith ttl log) ttl now).map
        (cancellationOf reaperAgent reaperHost now) := hwritten.cancels
    have heach : ∀ before m after, dueMissions (reducedWith ttl log) ttl now = before ++ m :: after →
        ∃ d, (reduced log).missions.get? m.missionId = some d ∧ (Released (log ++ reaped) m.missionId ↔
          Freed d ∨ (∀ b ∈ before, reapId b ≠ reapId m) ∧ Passes reaperAgent now d) := by
      intro before m after hdue
      have hknown : ((reduced log).missions.get? m.missionId).isSome = true := by
        rw [reduced, ← reducedWith, isSome_reducedWith _ ttl,
          (of_mem_dueMissions (show m ∈ dueMissions (reducedWith ttl log) ttl now by simp [hdue])).1]
        rfl
      obtain ⟨d, hd⟩ := Option.isSome_iff_exists.mp hknown
      refine ⟨d, hd, ?_⟩
      rw [hcancels, hdue]
      exact released_given hreads hagent hhost hr (hdue.trans (List.append_nil _).symm) hd
    simp only [hagent, hhost, false_or]
    constructor
    · intro hall before m after hdue d hd
      obtain ⟨d', hd', hiff⟩ := heach before m after hdue
      cases hd.symm.trans hd'
      refine hiff.mp (hall (cancellationOf reaperAgent reaperHost now m) ?_)
      rw [hcancels, hdue]
      simp
    · intro hhonours e he
      rw [hcancels] at he
      obtain ⟨m, hm, rfl⟩ := List.mem_map.mp he
      obtain ⟨before, after, hdue⟩ := List.append_of_mem hm
      obtain ⟨d, hd, hiff⟩ := heach before m after hdue
      exact hiff.mpr (hhonours before m after hdue d hd)

/-! ### Later passes -/

/-- The log after a pass, whether it returned or raised. -/
def afterReap (reaperAgent : AgentID) (reaperHost : HostID) (ttl : Rat) (now : DateTime)
    (log : List CoordinationEvent) : List CoordinationEvent :=
  match reapExpiredMissions reaperAgent reaperHost ttl now log with
  | .ok _ log' => log'
  | .error _ log' => log'

def reapable (log : List CoordinationEvent) (ttl : Rat) (now : DateTime) : List Mission :=
  (dueMissions (reducedWith ttl log) ttl now).takeWhile fun m => Encodable (reapId m)

theorem afterReap_eq (hagent : reaperAgent ≠ .unknown) (hhost : reaperHost ≠ .unknown)
    (hlog : reduceStore log (some ttl) = .ok r) :
  afterReap reaperAgent reaperHost ttl now log =
    log ++ (reapable log ttl now).map (cancellationOf reaperAgent reaperHost now)
  := by
  have hwp : wp (reapExpiredMissions reaperAgent reaperHost ttl now) _ _ log :=
    wp_reap_due hagent hhost log
  unfold afterReap
  cases hreap : reapExpiredMissions reaperAgent reaperHost ttl now log with
  | ok reaped log' =>
    obtain ⟨rfl, hcancels, hencodable⟩ := normal_of_wp hwp hreap
    have hall : reapable log ttl now = dueMissions (reducedWith ttl log) ttl now :=
      List.takeWhile_eq_self_iff.mpr fun m hm => by simpa using hencodable m hm
    rw [hcancels, hall]
    rfl
  | error why log' =>
    obtain ⟨-, hfails⟩ | ⟨before, bad, after, events, hvalues, rfl, ⟨hcancels, hencodable⟩, hdue, hbad⟩ :=
      raised_of_wp hwp hreap
    · exact absurd ⟨r, hlog⟩ hfails
    · have hpart : reapable log ttl now = before.filter (due (reducedWith ttl log) ttl now) := by
        rw [reapable, dueMissions, hvalues, List.filter_append, List.filter_cons, if_pos hdue,
          List.takeWhile_append_of_pos fun m hm => by simpa using hencodable m hm,
          List.takeWhile_cons, if_neg (by simpa using hbad), List.append_nil]
      rw [hcancels, hpart]

theorem afterReap_of_unknown (hunknown : reaperAgent = .unknown ∨ reaperHost = .unknown) :
  afterReap reaperAgent reaperHost ttl now log = log
  := by
  unfold afterReap reapExpiredMissions
  rw [if_pos hunknown]
  rfl

def Releasable (log : List CoordinationEvent) (id : Str) (now : DateTime) : Prop :=
  ∃ ttl now' before m after, 0 < ttl ∧ now.instant ≤ now'.instant ∧
    reapable log ttl now' = before ++ m :: after ∧ m.missionId = id ∧ ∀ b ∈ before, reapId b ≠ reapId m

/-- A mission that is worked on and whose lease has run out is released by some later pass exactly if some
later pass comes to it. -/
theorem released_later_iff (hreads : ∀ t, parseTimestamp (isoformat t) = .ok (some t))
    (hlog : reduceStore log = .ok r) {d : Mission} (hd : r.missions.get? id = some d)
    (hworking : d.status = .working) {lastTs : DateTime}
    (hlast : parseTimestamp d.updatedAt = .ok (some lastTs))
    (hout : DEFAULT_LEASE_TTL_S ≤ secondsBetween lastTs now) :
  (∃ reaperAgent reaperHost ttl now', 0 < ttl ∧ now.instant ≤ now'.instant ∧
      Released (afterReap reaperAgent reaperHost ttl now' log) id) ↔
    Releasable log id now
  := by
  obtain rfl := reduceStore_eq hlog
  have hbusy : ¬ Freed d := by
    rintro ⟨herror, -⟩
    cases hworking.symm.trans herror
  have hbegun : lastTs.instant ≤ now.instant := by
    by_contra hlater
    have hnegative : secondsBetween lastTs now < 0 := by
      have hlater : ((now.instant : Int) - lastTs.instant : Int) < 0 := by omega
      exact div_neg_of_neg_of_pos (by exact_mod_cast hlater) (by norm_num)
    have hpositive : (0 : Rat) < DEFAULT_LEASE_TTL_S := by norm_num [DEFAULT_LEASE_TTL_S]
    linarith
  have hlogs : ∀ ttl, ∃ r, reduceStore log (some ttl) = .ok r :=
    fun ttl => (reduceStore_returns_iff _ ttl log).mp ⟨_, hlog⟩
  have hparts : ∀ ttl now', ∃ rest,
      dueMissions (reducedWith ttl log) ttl now' = reapable log ttl now' ++ rest :=
    fun ttl now' => ⟨_, List.takeWhile_append_dropWhile.symm⟩
  constructor
  · rintro ⟨reaperAgent, reaperHost, ttl, now', hpos, hlater, hreleased⟩
    by_cases hunknown : reaperAgent = .unknown ∨ reaperHost = .unknown
    · rw [afterReap_of_unknown hunknown, released_iff hlog] at hreleased
      obtain ⟨m, hm, hfreed⟩ := hreleased
      cases hd.symm.trans hm
      exact absurd hfreed hbusy
    · obtain ⟨hagent, hhost⟩ := not_or.mp hunknown
      obtain ⟨r, hr⟩ := hlogs ttl
      obtain ⟨rest, hdue⟩ := hparts ttl now'
      rw [afterReap_eq hagent hhost hr] at hreleased
      by_cases hmem : ∃ m ∈ reapable log ttl now', m.missionId = id
      · obtain ⟨m, hm, rfl⟩ := hmem
        obtain ⟨before, after, hsplit⟩ := List.append_of_mem hm
        rw [hsplit] at hdue hreleased
        have hcase := (released_given hreads hagent hhost hr hdue hd).mp hreleased
        exact ⟨ttl, now', before, m, after, hpos, hlater, hsplit, rfl, (hcase.resolve_left hbusy).1⟩
      · obtain ⟨r', m, hr', hm, hfreed, -⟩ := hreleased
        have hothers : ∀ e ∈ (reapable log ttl now').map (cancellationOf reaperAgent reaperHost now'),
            e.missionId ≠ id := by
          intro e he
          obtain ⟨b, hb, rfl⟩ := List.mem_map.mp he
          exact fun heq => hmem ⟨b, hb, heq⟩
        have hkept := get?_given_of_ne hothers (reduced log)
        obtain rfl := reduceStore_eq hr'
        rw [reduced, Reducer.given, List.foldl_append] at hm
        cases hd.symm.trans (hkept.symm.trans hm)
        exact absurd hfreed hbusy
  · rintro ⟨ttl, now', before, m, after, hpos, hlater, hsplit, rfl, hids⟩
    obtain ⟨r, hr⟩ := hlogs ttl
    obtain ⟨rest, hdue⟩ := hparts ttl now'
    refine ⟨.codexMac, .macLocal, ttl, now', hpos, hlater, ?_⟩
    rw [afterReap_eq (by decide) (by decide) hr, hsplit]
    rw [hsplit] at hdue
    refine (released_given hreads (by decide) (by decide) hr hdue hd).mpr (.inr ⟨hids, lastTs, hlast,
      hbegun.trans hlater, .inr (.inr (hout.trans ?_))⟩)
    have hlater : ((now.instant : Int) - lastTs.instant : Int) ≤ now'.instant - lastTs.instant := by
      omega
    have hlater : (((now.instant : Int) - lastTs.instant : Int) : Rat) ≤
        ((now'.instant : Int) - lastTs.instant : Int) := by
      exact_mod_cast hlater
    exact div_le_div_of_nonneg_right hlater (by norm_num)

/-- A pass releases what it cancels for everybody exactly if its cancellations are honoured, and a mission whose lease
has run out is released by some later pass exactly if one comes to it. -/
theorem honoured_iff (hreads : ∀ t, parseTimestamp (isoformat t) = .ok (some t)) :
  (∀ reaperAgent reaperHost ttl now log reaped log',
    reapExpiredMissions reaperAgent reaperHost ttl now log = .ok reaped log' →
    ((∀ e ∈ reaped, Released log' e.missionId) ↔
      reaperAgent = .unknown ∨ reaperHost = .unknown ∨ Honours log reaperAgent ttl now)) ∧
  ∀ log r id d lastTs now, reduceStore log = .ok r → r.missions.get? id = some d →
    d.status = .working → parseTimestamp d.updatedAt = .ok (some lastTs) →
    DEFAULT_LEASE_TTL_S ≤ secondsBetween lastTs now →
    ((∃ reaperAgent reaperHost ttl now', 0 < ttl ∧ now.instant ≤ now'.instant ∧
        Released (afterReap reaperAgent reaperHost ttl now' log) id) ↔
      Releasable log id now)
  := by
  constructor
  · intro reaperAgent reaperHost ttl now log reaped log' h
    exact released_of_reap_iff hreads h
  · intro log r id d lastTs now hlog hd hworking hlast hout
    exact released_later_iff hreads hlog hd hworking hlast hout

end Pass

end

section Example

/-- A reader of timestamps in UTC, with or without microseconds. -/
@[reducible]
def Iso.microseconds : Iso where
  fromisoformat s :=
    match parse (s.take 19 ++ [90]), s.drop 19 with
    | some t, [43, 48, 48, 58, 48, 48] => some (.aware (some t))
    | some t, [46, a, b, c, d, e, f, 43, 48, 48, 58, 48, 48] =>
        if h : 10000 * number2 a b + (100 * number2 c d + number2 e f) < 1000000 then
          some (.aware (some { t with
            microsecond := 10000 * number2 a b + (100 * number2 c d + number2 e f)
            time := ⟨t.time.1, t.time.2.1, t.time.2.2.1, h⟩ }))
        else none
    | _, _ => none

local instance microsecondsReaped : Iso := .microseconds

local instance plainReaped : Platform := .plain

/-- What is written of a moment is read back. -/
theorem parseTimestamp_isoformat (t : DateTime) :
  parseTimestamp (isoformat t) = .ok (some t)
  := by
  obtain ⟨-, hyear, -, hmonth, -, hday⟩ := t.date
  obtain ⟨hhour, hminute, hsecond, hmicro⟩ := t.time
  have hday : t.day ≤ 31 := hday.trans (daysInMonth_le _ _)
  have hstamp : (format t).dropLast ++ [90] = format t := by
    unfold format
    simp [digits2, digits4]
  have hlength : (format t).dropLast.length = 19 := by
    unfold format
    simp [digits2, digits4]
  have hplain : ∀ c ∈ (format t).dropLast, c ≠ 90 := by
    unfold format
    simp only [digits4, digits2, List.cons_append, List.nil_append, List.dropLast, List.mem_cons,
      List.not_mem_nil, or_false, forall_eq_or_imp, forall_eq, ne_eq]
    omega
  have hflat : ∀ s : Str, (∀ c ∈ s, c ≠ 90) →
      (s ++ [90]).flatMap (fun c => if c = 90 then text "+00:00" else [c]) = s ++ text "+00:00" := by
    intro s hs
    rw [List.flatMap_append, List.flatMap_congr fun c hc => if_neg (hs c hc)]
    simp
  have hreads : ∀ tail : Str, (∀ c ∈ tail, c ≠ 90) →
      isoformat t = ((format t).dropLast ++ tail) ++ [90] →
      Iso.fromisoformat ((format t).dropLast ++ (tail ++ text "+00:00")) = some (.aware (some t)) →
      parseTimestamp (isoformat t) = .ok (some t) := by
    intro tail htail hiso hread
    have hall : ∀ c ∈ (format t).dropLast ++ tail, c ≠ 90 := by
      intro c hc
      exact (List.mem_append.mp hc).elim (hplain c) (htail c)
    rw [hiso, parseTimestamp, if_neg (by simp), hflat _ hall, List.append_assoc, hread]
  have htake : ∀ rest : Str, ((format t).dropLast ++ rest).take 19 = (format t).dropLast :=
    fun rest => List.take_left' hlength
  have hdrop : ∀ rest : Str, ((format t).dropLast ++ rest).drop 19 = rest :=
    fun rest => List.drop_left' hlength
  by_cases hzero : t.microsecond = 0
  · apply hreads [] (by simp) (by simp [isoformat, hzero])
    have hfloor : t.floor = t := by
      rw [DateTime.floor]
      cases t
      subst hzero
      rfl
    simp only [Iso.fromisoformat, htake, hdrop, hstamp, parse_format, hfloor]
    rfl
  · apply hreads (46 :: (digits2 (t.microsecond / 10000) ++ digits4 (t.microsecond % 10000)))
    · simp only [digits4, digits2, List.cons_append, List.nil_append, List.mem_cons,
        List.not_mem_nil, or_false, forall_eq_or_imp, forall_eq, ne_eq]
      omega
    · simp [isoformat, hzero]
    · have hdigits : 10000 * number2 (48 + t.microsecond / 10000 / 10) (48 + t.microsecond / 10000 % 10) +
          (100 * number2 (48 + t.microsecond % 10000 / 100 / 10) (48 + t.microsecond % 10000 / 100 % 10) +
            number2 (48 + t.microsecond % 10000 % 100 / 10) (48 + t.microsecond % 10000 % 100 % 10)) =
          t.microsecond := by
        unfold number2
        omega
      simp only [Iso.fromisoformat, htake, hdrop, hstamp, parse_format]
      show (dite (_ < 1000000) _ _) = _
      simp only [hdigits, dif_pos hmicro]
      rfl

def hourLater : DateTime :=
  ⟨2026, 10, 7, 13, 0, 0, 0, isDate_reaped, time_reaped⟩

theorem record_assigned :
  (reduced [assignedMission]).missions.get? (text "m1") = some (opened assignedMission)
  := by
  decide +kernel

theorem dated_assigned :
  parseTimestamp (opened assignedMission).updatedAt = .ok (some (minute 0 (by decide)))
  := by
  have hread : (match parseTimestamp (opened assignedMission).updatedAt with
      | .ok stamp => stamp
      | .error _ => none) = some (minute 0 (by decide)) := by decide +kernel
  cases h : parseTimestamp (opened assignedMission).updatedAt with
  | ok stamp =>
    rw [h] at hread
    rw [show stamp = _ from hread]
  | error why =>
    rw [h] at hread
    cases hread

/-- The owner reaps its mission before others would, and a pass with the default lease reaps it later. -/
theorem honoured_iff_sample :
  (∃ reaped log', reapExpiredMissions .codexMac .macLocal 60 (minute 5 (by decide)) [assignedMission] =
      .ok reaped log' ∧ reaped.map CoordinationEvent.eventId = [text "reap-m1-e1"] ∧
      ∀ e ∈ reaped, Released log' e.missionId) ∧
    ∃ reaperAgent reaperHost ttl now', 0 < ttl ∧ hourLater.instant ≤ now'.instant ∧
      Released (afterReap reaperAgent reaperHost ttl now' [assignedMission]) (text "m1")
  := by
  constructor
  · have hreap : (match reapExpiredMissions .codexMac .macLocal 60 (minute 5 (by decide))
        [assignedMission] with
        | .ok reaped _ => reaped.map CoordinationEvent.eventId
        | .error _ _ => []) = [text "reap-m1-e1"] := by decide +kernel
    have hdue : dueMissions (reducedWith 60 [assignedMission]) 60 (minute 5 (by decide)) =
        [opened assignedMission] := by decide +kernel
    cases h : reapExpiredMissions .codexMac .macLocal 60 (minute 5 (by decide)) [assignedMission] with
    | error why log' =>
      rw [h] at hreap
      cases hreap
    | ok reaped log' =>
      rw [h] at hreap
      refine ⟨reaped, log', rfl, hreap, ?_⟩
      refine (((honoured_iff parseTimestamp_isoformat).1 _ _ _ _ _ _ _ h).mpr (.inr (.inr ?_)))
      intro before m after hsplit d hd
      rw [hdue, List.singleton_eq_append_iff] at hsplit
      obtain ⟨rfl, hm⟩ | ⟨-, hm⟩ := hsplit
      · cases hm
        cases record_assigned.symm.trans hd
        exact .inr ⟨by simp, _, dated_assigned, by decide +kernel, .inr (.inl (by decide))⟩
      · cases hm
  · have hlog : reduceStore [assignedMission] = .ok (reduced [assignedMission]) := by
      have hnone : reduceStore [] = .ok (reduced []) := rfl
      have hreadable : ∀ e ∈ [assignedMission], ∃ stamp, parseTimestamp e.createdAt = .ok stamp := by
        intro e he
        cases List.mem_singleton.mp he
        exact ⟨_, dated_assigned⟩
      have hone := reduceStore_append hnone hreadable DEFAULT_LEASE_TTL_S
      exact hone
    refine ((honoured_iff parseTimestamp_isoformat).2 _ _ _ _ _ hourLater hlog record_assigned
      (by decide) dated_assigned (by decide +kernel)).mpr ?_
    have hreapable : reapable [assignedMission] 1800 hourLater = [opened assignedMission] := by
      decide +kernel
    exact ⟨1800, hourLater, [], opened assignedMission, [], by norm_num, le_rfl, hreapable, by decide,
      by simp⟩

def earlyReap : List CoordinationEvent :=
  afterReap .googleMac .macLocal 60 (minute 5 (by decide)) [assignedMission]

def earlyCancellation : CoordinationEvent :=
  cancellationOf .googleMac .macLocal (minute 5 (by decide)) (opened assignedMission)

theorem earlyReap_eq :
  earlyReap = [assignedMission, earlyCancellation]
  := by
  decide +kernel

theorem reapable_earlyReap (ttl : Rat) (now : DateTime) {m : Mission}
    (h : m ∈ reapable earlyReap ttl now) :
  m.missionId ≠ text "m1"
  := by
  rintro hid
  have hdue := List.takeWhile_subset _ h
  obtain ⟨hm, hfresh⟩ := of_mem_dueMissions hdue
  have hfresh := hfresh (reducedWith ttl earlyReap) fun id => mem_processed_reducedWith _ _
  rw [mem_processed_reducedWith, earlyReap_eq] at hfresh
  rw [earlyReap_eq, show [assignedMission, earlyCancellation] = [assignedMission] ++ [earlyCancellation]
    from rfl, reducedWith, given_concat, ← reducedWith] at hm
  rcases get?_after hm with hold | ⟨haccepts, -⟩
  · obtain ⟨e, he, hlatest, -⟩ := (sound_reducedWith ttl [assignedMission]).latest _ m hold
    have hprocessed := ((sound_reducedWith ttl [assignedMission]).processed m.latestEventId).mpr
      ⟨e, he, hlatest⟩
    obtain ⟨f, hf, hlast⟩ := (mem_processed_reducedWith _ _).mp hprocessed
    cases List.mem_singleton.mp hf
    refine hfresh ⟨earlyCancellation, by simp, ?_⟩
    rw [reapId, hid, ← hlast]
    decide
  · have hworking : m.status = .working := by
      have hdue := (List.mem_filter.mp hdue).2
      simp only [due, Bool.and_eq_true, decide_eq_true_eq] at hdue
      exact hdue.1.1
    cases haccepts with
    | created => cases hworking
    | changed => cases hworking

/-- The pass with a lease of a minute returns a cancellation that nobody else accepts; and from then on no
pass releases the mission. -/
theorem not_honoured :
  (∃ reaped, reapExpiredMissions .googleMac .macLocal 60 (minute 5 (by decide)) [assignedMission] =
      .ok reaped earlyReap ∧ ∃ e ∈ reaped, ¬ Released earlyReap e.missionId) ∧
    ((reduced earlyReap).missions.get? (text "m1")).any (fun m => m.status = .working) = true ∧
    ∀ reaperAgent reaperHost ttl now, 0 < ttl → hourLater.instant ≤ now.instant →
      ¬ Released (afterReap reaperAgent reaperHost ttl now earlyReap) (text "m1")
  := by
  have hrecord : (reduced earlyReap).missions.get? (text "m1") = some (opened assignedMission) := by
    decide +kernel
  have hlog : reduceStore earlyReap = .ok (reduced earlyReap) := by
    have hnone : reduceStore [] = .ok (reduced []) := rfl
    have hreadable : ∀ e ∈ earlyReap, ∃ stamp, parseTimestamp e.createdAt = .ok stamp := by
      intro e he
      rw [earlyReap_eq] at he
      rcases List.mem_pair.mp he with rfl | rfl
      · exact ⟨_, dated_assigned⟩
      · exact ⟨_, parseTimestamp_isoformat _⟩
    have hboth := reduceStore_append hnone hreadable DEFAULT_LEASE_TTL_S
    exact hboth
  refine ⟨?_, by rw [hrecord]; decide, ?_⟩
  · have hreap : (match reapExpiredMissions .googleMac .macLocal 60 (minute 5 (by decide))
        [assignedMission] with
        | .ok reaped _ => reaped
        | .error _ _ => []) = [earlyCancellation] := by decide +kernel
    cases h : reapExpiredMissions .googleMac .macLocal 60 (minute 5 (by decide)) [assignedMission] with
    | error why log' =>
      rw [h] at hreap
      cases hreap
    | ok reaped log' =>
      rw [h] at hreap
      have hafter : earlyReap = log' := by
        unfold earlyReap afterReap
        rw [h]
      refine ⟨reaped, by rw [hafter], earlyCancellation, by simp [hreap], ?_⟩
      rw [released_iff hlog]
      rintro ⟨m, hm, herror, -⟩
      cases hrecord.symm.trans hm
      cases herror
  · intro reaperAgent reaperHost ttl now hpos hlater hreleased
    have hout : DEFAULT_LEASE_TTL_S ≤ secondsBetween (minute 0 (by decide)) hourLater := by
      decide +kernel
    have hlater := (released_later_iff parseTimestamp_isoformat hlog hrecord (by decide) dated_assigned
      hout).mp ⟨reaperAgent, reaperHost, ttl, now, hpos, hlater, hreleased⟩
    obtain ⟨ttl', now', before, m, after, -, -, hsplit, hid, -⟩ := hlater
    exact reapable_earlyReap ttl' now' (by simp [hsplit]) hid

end Example

end Courier.Coordination
