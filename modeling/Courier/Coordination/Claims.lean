import Courier.Coordination.Steps

/-!
# Claims by several agents

Any number of agents claim missions over one log, each by reading it, appending an event and reading it again.  Every
claim that succeeds comes after the release by whoever claimed the mission before.
-/

namespace Courier.Coordination

open Calendar Program Run

/-! ### The system -/

/-- A claim that has read the log: the event it has to write, unless it is written already, and then
to verify. -/
structure Attempt where
  agentId : AgentID
  missionId : Str
  checkpoint : ResumeCheckpoint
  event : CoordinationEvent
  written : Bool

structure Answer where
  agentId : AgentID
  missionId : Str
  result : ClaimResult
  log : List CoordinationEvent

/-- The log, the claims under way, all claims that came to have an event, and all answers so far. -/
structure System where
  log : List CoordinationEvent
  attempts : List Attempt
  prepared : List Attempt
  answers : List Answer

inductive WriteOutcome where
  | done
  | failed (appended : Bool)

/-- One step of somebody. -/
inductive Action where
  | other (event : CoordinationEvent)
  | read (agentId : AgentID) (hostId : HostID) (missionId : Str) (now : DateTime)
  | write (i : Nat) (outcome : WriteOutcome)
  | verify (i : Nat)
  | crash (i : Nat)

/-- Nothing has happened yet. -/
def System.start : System where
  log := []
  attempts := []
  prepared := []
  answers := []

section

variable [Platform] [Iso]

/-- The system after one step.  A claim that raises is gone. -/
def System.act (s : System) : Action → System
  | .other event => { s with log := s.log ++ [event] }
  | .read agentId hostId missionId now =>
      match prepareClaim s.log agentId hostId missionId now with
      | .error _ => s
      | .ok (.answer result) =>
          { s with answers := s.answers ++ [⟨agentId, missionId, result, s.log⟩] }
      | .ok (.event checkpoint event isNew) =>
          { s with
            attempts := s.attempts ++ [⟨agentId, missionId, checkpoint, event, !isNew⟩]
            prepared := s.prepared ++ [⟨agentId, missionId, checkpoint, event, !isNew⟩] }
  | .write i outcome =>
      match s.attempts[i]? with
      | none => s
      | some attempt =>
          if attempt.written then s
          else match outcome with
          | .done =>
              { s with
                log := s.log ++ [attempt.event]
                attempts := s.attempts.set i { attempt with written := true } }
          | .failed appended =>
              { s with
                log := if appended then s.log ++ [attempt.event] else s.log
                attempts := s.attempts.eraseIdx i
                answers := s.answers ++ [⟨attempt.agentId, attempt.missionId,
                  ⟨.writeFailed, attempt.missionId, some attempt.event.eventId, none,
                    text "Shared ledger write failed."⟩, s.log⟩] }
  | .verify i =>
      match s.attempts[i]? with
      | none => s
      | some attempt =>
          if !attempt.written then s
          else match verifyClaim s.log attempt.agentId attempt.checkpoint attempt.missionId
            attempt.event.eventId with
          | .error _ => { s with attempts := s.attempts.eraseIdx i }
          | .ok result =>
              { s with
                attempts := s.attempts.eraseIdx i
                answers := s.answers ++ [⟨attempt.agentId, attempt.missionId, result, s.log⟩] }
  | .crash i => { s with attempts := s.attempts.eraseIdx i }

def System.run (actions : List Action) : System :=
  actions.foldl System.act .start

/-! ### What a claim reads -/

variable {log : List CoordinationEvent} {r : Reducer} {agentId : AgentID} {hostId : HostID}
  {missionId : Str} {now : DateTime}

def reduced (log : List CoordinationEvent) : Reducer :=
  (Reducer.new (some DEFAULT_LEASE_TTL_S)).given log

section

omit [Platform]

theorem wp_apply_after (r : Reducer) (e : CoordinationEvent) :
  wp (apply e) (fun _ r' => r' = r.after e) (fun _ _ => True) r
  := by
  unfold wp Reducer.after
  cases apply e r with
  | ok => rfl
  | error => trivial

theorem wp_forM_apply (log : List CoordinationEvent) (r : Reducer) :
  wp (log.forM fun event => discard (apply event)) (fun _ r' => r' = r.given log)
    (fun _ _ => True) r
  := by
  induction log generalizing r with
  | nil => rfl
  | cons e log ih =>
    change wp (((fun _ => PUnit.unit) <$> apply e) >>= fun _ =>
      log.forM fun event => discard (apply event)) _ _ _
    rw [wp_bind, wp_map]
    apply wp_mono (wp_apply_after r e)
    · rintro _ _ rfl
      exact ih (r.after e)
    · exact fun _ _ _ => trivial

theorem reduceStore_eq_given {leaseTtlS : Option Rat} (h : reduceStore log leaseTtlS = .ok r) :
  r = (Reducer.new leaseTtlS).given log
  := by
  unfold reduceStore at h
  split at h
  · next hrun =>
    cases h
    have hgiven := normal_of_wp (wp_forM_apply log (Reducer.new leaseTtlS)) hrun
    exact hgiven
  · cases h

theorem reduceStore_eq (h : reduceStore log = .ok r) :
  r = reduced log
  := reduceStore_eq_given h

theorem sound_reduced (log : List CoordinationEvent) :
  Sound (reduced log)
  := (sound_new _).given log

end

def Holds (log : List CoordinationEvent) (agentId : AgentID) (missionId eventId : Str) : Prop :=
  ∃ m, (reduced log).missions.get? missionId = some m ∧ m.ownership = some agentId.value ∧
    m.status = .working ∧ m.latestEventId = eventId

section

omit [Platform] [Iso]

theorem offered_get? {c : ResumeCheckpoint} (h : (offered r agentId).get? missionId = some c) :
  c ∈ discoverResumable r agentId ∧ c.missionId = missionId
  := by
  have hfold : ∀ (cs : List ResumeCheckpoint) (d : Dict Str ResumeCheckpoint),
      (cs.foldl (fun d c => d.set c.missionId c) d).get? missionId = some c →
      c ∈ cs ∧ c.missionId = missionId ∨ d.get? missionId = some c := by
    intro cs
    induction cs with
    | nil => exact fun d hd => .inr hd
    | cons c' cs ih =>
      intro d hd
      rcases ih _ hd with ⟨hmem, hid⟩ | hset
      · exact .inl ⟨List.mem_cons_of_mem _ hmem, hid⟩
      · rw [Dict.get?_set] at hset
        split_ifs at hset with hid
        · cases hset
          exact .inl ⟨by simp, hid.symm⟩
        · exact .inr hset
  rcases hfold _ _ h with hmem | hempty
  · exact hmem
  · cases hempty

theorem notOffered_ne (agentId : AgentID) (missionId : Str) (m : Option Mission) :
  (notOffered agentId missionId m).outcome ≠ .claimed
  := by
  unfold notOffered
  split
  · split_ifs <;> simp
  · simp

end

section

omit [Platform]

theorem offer_of_mem {c : ResumeCheckpoint} {m : Mission} (hr : Sound r)
    (hmem : c ∈ discoverResumable r agentId) (hid : c.missionId = missionId)
    (hm : r.missions.get? missionId = some m) :
  m.status = .working ∧ m.ownership = some agentId.value ∧ c = checkpoint m .resume ∨
    m.status = .error ∧ c = checkpoint m .reassign
  := by
  obtain ⟨-, id, m', hm', -, hcase⟩ := mem_discoverResumable.mp hmem
  have hkey : c.missionId = id := by
    rcases hcase with ⟨-, -, rfl⟩ | ⟨-, rfl⟩
    · exact hr.keyed id m' hm'
    · exact hr.keyed id m' hm'
  rw [← hkey, hid] at hm'
  cases hm.symm.trans hm'
  exact hcase

theorem find?_latest {id : Str} {latest : CoordinationEvent} (hr : Sound r)
    (hmem : latest ∈ r.events) (hid : latest.eventId = id) :
  (r.events.find? fun e => e.eventId = id) = some latest
  := by
  cases hfind : r.events.find? fun e => e.eventId = id with
  | none =>
    have hnone := List.find?_eq_none.mp hfind latest hmem
    simp [hid] at hnone
  | some found =>
    have hsame : found.eventId = id := by simpa using List.find?_some hfind
    have heq := List.inj_on_of_nodup_map hr.nodup (List.mem_of_find?_eq_some hfind) hmem
      (hsame.trans hid.symm)
    rw [heq]

end

omit [Platform] [Iso] in
theorem ownClaim_eq_some {c : ResumeCheckpoint} {latest : CoordinationEvent} :
  ownClaim r agentId c = some latest ↔
    (r.events.find? fun e => e.eventId = c.latestEventId) = some latest ∧
      latest.eventId = c.latestEventId ∧ c.mode = .resume ∧
      (text "claim-").isPrefixOf latest.eventId = true ∧ latest.agentId = agentId
  := by
  unfold ownClaim
  cases hfind : r.events.find? fun e => e.eventId = c.latestEventId with
  | none => simp
  | some found =>
    have hsame : found.eventId = c.latestEventId := by
      simpa using List.find?_some hfind
    dsimp only
    split_ifs with hown
    · constructor
      · rintro ⟨⟩
        exact ⟨rfl, hsame, hown⟩
      · rintro ⟨⟨⟩, -⟩
        rfl
    · constructor
      · rintro ⟨⟩
      · rintro ⟨⟨⟩, -, hall⟩
        exact absurd hall hown

structure ClaimEvent (log : List CoordinationEvent) (agentId : AgentID) (missionId : Str)
    (c : ResumeCheckpoint) (e : CoordinationEvent) (isNew : Bool) : Prop where
  about : e.missionId = missionId
  byAgent : e.agentId = agentId
  id : claimEventId missionId c.latestEventId agentId = .ok e.eventId
  kind : e.eventType = .started ∨ e.eventType = .assigned
  status : e.status = .working
  isNew_iff : isNew = true ↔ e.eventId ∉ (reduced log).processedEventIds
  offered : ∃ m, (reduced log).missions.get? missionId = some m ∧
    (m.status = .working ∧ m.ownership = some agentId.value ∧ c = checkpoint m .resume ∨
      m.status = .error ∧ c = checkpoint m .reassign)
  notOwn : c.mode = .resume → ∀ latest ∈ (reduced log).events,
    latest.eventId = c.latestEventId → (text "claim-").isPrefixOf latest.eventId →
    latest.agentId ≠ agentId

/-- What a claim comes to when it has read the log. -/
theorem prepared_cases {prepared : Prepared}
    (h : prepareClaim log agentId hostId missionId now = .ok prepared) :
  match prepared with
  | .answer result => result.outcome = .claimed →
      ∃ eventId, result.eventId = some eventId ∧ Holds log agentId missionId eventId
  | .event c e isNew => ClaimEvent log agentId missionId c e isNew
  := by
  unfold prepareClaim at h
  by_cases hunknown : agentId = .unknown ∨ hostId = .unknown
  · rw [if_pos hunknown] at h
    cases h
    rintro ⟨⟩
  · rw [if_neg hunknown] at h
    obtain ⟨r, hreduce, h⟩ := Except.bind_eq_ok.mp h
    cases reduceStore_eq hreduce
    cases hoffer : (offered (reduced log) agentId).get? missionId with
    | none =>
    rw [hoffer] at h
    cases h
    intro hclaimed
    exact absurd hclaimed (notOffered_ne agentId missionId _)
    | some c =>
    obtain ⟨hmem, hid⟩ := offered_get? hoffer
    cases hmission : (reduced log).missions.get? missionId with
    | none =>
      rw [hoffer, hmission] at h
      cases h
    | some m =>
      have hoffered := offer_of_mem (sound_reduced log) hmem hid hmission
      rw [hoffer, hmission] at h
      dsimp only at h
      cases hown : ownClaim (reduced log) agentId c with
      | some latest =>
        rw [hown] at h
        cases h
        intro _
        obtain ⟨-, hlatest, hmode, -⟩ := ownClaim_eq_some.mp hown
        refine ⟨latest.eventId, rfl, m, hmission, ?_⟩
        rcases hoffered with ⟨hworking, howner, rfl⟩ | ⟨-, rfl⟩
        · exact ⟨howner, hworking, hlatest.symm⟩
        · cases hmode
      | none =>
        rw [hown] at h
        obtain ⟨eventId, hevent, h⟩ := Except.bind_eq_ok.mp h
        obtain ⟨createdAt, -, h⟩ := Except.bind_eq_ok.mp h
        cases h
        refine ⟨rfl, rfl, hevent, ?_, rfl, ?_, ⟨m, hmission, hoffered⟩, ?_⟩
        · simp only [claimEvent]
          split_ifs
          · exact .inl rfl
          · exact .inr rfl
        · simp [claimEvent]
        · intro hmode latest hlatest hsame hinit hagent
          have hfind := find?_latest (sound_reduced log) hlatest hsame
          have hsome := ownClaim_eq_some.mpr ⟨hfind, hsame, hmode, hinit, hagent⟩
          cases hown.symm.trans hsome

omit [Platform] in
theorem claimed_of_verify {c : ResumeCheckpoint} {eventId : Str} {result : ClaimResult}
    (h : verifyClaim log agentId c missionId eventId = .ok result)
    (hclaimed : result.outcome = .claimed) :
  result.eventId = some eventId ∧ Holds log agentId missionId eventId
  := by
  unfold verifyClaim at h
  obtain ⟨r, hreduce, h⟩ := Except.bind_eq_ok.mp h
  cases reduceStore_eq hreduce
  cases hmission : (reduced log).missions.get? missionId with
  | none =>
  simp only [hmission] at h
  cases h
  cases hclaimed
  | some m =>
  simp only [hmission] at h
  split_ifs at h with hholds
  · cases h
    exact ⟨rfl, m, hmission, hholds⟩
  · cases h
    cases hclaimed

/-! ### Newest events -/

section

omit [Platform]

theorem reduced_concat (log : List CoordinationEvent) (e : CoordinationEvent) :
  reduced (log ++ [e]) = (reduced log).after e
  := given_concat _ log e

theorem made_of_get? {m : Mission} (h : (reduced log).missions.get? missionId = some m) :
  ∃ before e later, log = before ++ e :: later ∧ e.missionId = missionId ∧
    e.eventId = m.latestEventId ∧ Accepts (reduced before) e m ∧
    ∀ first, first <+: later → (reduced (before ++ e :: first)).missions.get? missionId = some m
  := by
  induction log using List.reverseRecOn with
  | nil => cases h
  | append_singleton log f ih =>
    rw [reduced_concat] at h
    by_cases haccepts : ∃ m', Accepts (reduced log) f m' ∧ f.missionId = missionId
    · obtain ⟨m', hm', rfl⟩ := haccepts
      rw [get?_of_accepts hm', if_pos rfl] at h
      cases h
      refine ⟨log, f, [], rfl, rfl, hm'.common.2.2.1.symm, hm', ?_⟩
      intro first hfirst
      rw [List.prefix_nil.mp hfirst, reduced_concat, get?_of_accepts hm', if_pos rfl]
    · have hsame : (reduced log).missions.get? missionId = some m := by
        rcases get?_after h with hold | hnew
        · exact hold
        · exact absurd ⟨m, hnew⟩ haccepts
      obtain ⟨before, e, later, rfl, hmission, hid, hmade, hkept⟩ := ih hsame
      refine ⟨before, e, later ++ [f], by simp, hmission, hid, hmade, ?_⟩
      intro first hfirst
      rcases List.prefix_concat_iff.mp hfirst with rfl | hfirst
      · have hlist : before ++ e :: (later ++ [f]) = (before ++ e :: later) ++ [f] := by simp
        rw [hlist, reduced_concat]
        exact h
      · exact hkept first hfirst

end

/-! ### Releases -/

def Releases (e : CoordinationEvent) : Prop :=
  e.eventType = .error ∨ e.eventType = .cancelled ∨ e.eventType = .final ∨
    e.eventType = .assigned ∧ e.status = .error

def HeldBy (r : Reducer) (owner missionId : Str) : Prop :=
  ∃ m, r.missions.get? missionId = some m ∧ m.ownership = some owner ∧ m.status ≠ .error

section

omit [Platform]

theorem held_of_accepts {owner : Str} {e : CoordinationEvent} {m m' : Mission} (howner : owner ≠ [])
    (hm : r.missions.get? e.missionId = some m) (hown : m.ownership = some owner)
    (hstatus : m.status ≠ .error) (haccepts : Accepts r e m') (hnot : ¬ Releases e) :
  m'.ownership = some owner ∧ m'.status ≠ .error
  := by
  cases haccepts with
  | created _ _ _ missing => cases hm.symm.trans missing
  | changed fresh known stamped found dated current admits =>
    cases hm.symm.trans found
    obtain ⟨c, s, rfl⟩ := List.exists_cons_of_ne_nil howner
    simp only [Releases, not_or] at hnot
    obtain ⟨herror, hcancelled, hfinal, hassigned⟩ := hnot
    have hsame : c :: s = newOwner e := by
      by_contra hne
      simp only [admitted, hown, hne, if_false] at admits
      cases htype : e.eventType <;> simp_all
    unfold updated transition
    cases htype : e.eventType with
    | assigned => exact ⟨by rw [hsame], fun hbad => hassigned ⟨htype, hbad⟩⟩
    | started | partialCheckpoint => exact ⟨hown, by simp⟩
    | blocked => exact ⟨hown, by simp⟩
    | final => exact absurd htype hfinal
    | error => exact absurd htype herror
    | cancelled => exact absurd htype hcancelled

theorem held_after {owner : Str} (howner : owner ≠ []) (h : HeldBy r owner missionId)
    (e : CoordinationEvent)
    (hnot : e.missionId = missionId → (∃ m, Accepts r e m) → ¬ Releases e) :
  HeldBy (r.after e) owner missionId
  := by
  obtain ⟨m, hm, hown, hstatus⟩ := h
  by_cases haccepts : ∃ m', Accepts r e m'
  · obtain ⟨m', haccepts⟩ := haccepts
    by_cases hid : missionId = e.missionId
    · subst hid
      refine ⟨m', by rw [get?_of_accepts haccepts, if_pos rfl], ?_⟩
      exact held_of_accepts howner hm hown hstatus haccepts (hnot rfl ⟨m', haccepts⟩)
    · exact ⟨m, by rw [get?_of_accepts haccepts, if_neg hid, hm], hown, hstatus⟩
  · exact ⟨m, by rw [missions_of_ignored (not_exists.mp haccepts), hm], hown, hstatus⟩

end

section

omit [Platform] [Iso]

theorem value_ne (agentId : AgentID) :
  agentId.value ≠ []
  := by
  cases agentId <;> decide

theorem value_injective {a b : AgentID} (h : a.value = b.value) :
  a = b
  := by
  revert h
  cases a <;> cases b <;> decide

end

omit [Platform] in
theorem released_between {before between : List CoordinationEvent} {a b : CoordinationEvent}
    {m m' : Mission} {owner owner' : Str} (howner : owner ≠ []) (hne : owner ≠ owner')
    (hmade : Accepts (reduced before) a m) (hown : m.ownership = some owner)
    (hworking : m.status = .working) (hmade' : Accepts (reduced (before ++ a :: between)) b m')
    (hown' : m'.ownership = some owner') (hworking' : m'.status = .working)
    (hmission : b.missionId = a.missionId) :
  ∃ first e rest, between = first ++ e :: rest ∧ e.missionId = a.missionId ∧
    (∃ m, Accepts (reduced (before ++ a :: first)) e m) ∧ Releases e
  := by
  by_contra hnone
  have hheld : ∀ first, first <+: between →
      HeldBy (reduced (before ++ a :: first)) owner a.missionId := by
    intro first
    induction first using List.reverseRecOn with
    | nil =>
      intro _
      rw [reduced_concat]
      refine ⟨m, by rw [get?_of_accepts hmade, if_pos rfl], hown, ?_⟩
      simp [hworking]
    | append_singleton first e ih =>
      intro hfirst
      obtain ⟨rest, hrest⟩ := hfirst
      have hlist : before ++ a :: (first ++ [e]) = (before ++ a :: first) ++ [e] := by simp
      rw [hlist, reduced_concat]
      apply held_after howner (ih ⟨[e] ++ rest, by simpa using hrest⟩)
      intro hid haccepts hreleases
      exact hnone ⟨first, e, rest, by simpa using hrest.symm, hid, haccepts, hreleases⟩
  obtain ⟨m₀, hm₀, hown₀, hstatus₀⟩ := hheld between (List.prefix_refl _)
  have hnot : ¬ Releases b := by
    intro hreleases
    cases hmade' with
    | created _ _ _ missing => cases (hmission ▸ hm₀).symm.trans missing
    | changed =>
      unfold updated transition at hown' hworking'
      rcases hreleases with htype | htype | htype | ⟨htype, hstatus⟩
      · simp [htype] at hworking'
      · simp [htype] at hworking'
      · simp [htype] at hworking'
      · simp [htype, hstatus] at hworking'
  rw [← hmission] at hm₀
  obtain ⟨hkeep, -⟩ := held_of_accepts howner hm₀ hown₀ hstatus₀ hmade' hnot
  exact hne (Option.some.inj (hkeep.symm.trans hown'))

/-- The log has a claim of one agent, and later one of another, with a release in between. -/
def Separated (log : List CoordinationEvent) (missionId claimId claimId' : Str) : Prop :=
  ∃ before a between b after m m', log = before ++ a :: (between ++ b :: after) ∧
    a.eventId = claimId ∧ a.missionId = missionId ∧ Accepts (reduced before) a m ∧
    b.eventId = claimId' ∧ b.missionId = missionId ∧
    Accepts (reduced (before ++ a :: between)) b m' ∧
    ∃ first e rest, between = first ++ e :: rest ∧ e.missionId = missionId ∧
      (∃ m, Accepts (reduced (before ++ a :: first)) e m) ∧ Releases e

omit [Platform] in
theorem separated_of_holds {log' : List CoordinationEvent} {agentId' : AgentID}
    {claimId claimId' : Str} (hne : agentId ≠ agentId') (hinit : log <+: log')
    (h : Holds log agentId missionId claimId) (h' : Holds log' agentId' missionId claimId') :
  Separated log' missionId claimId claimId'
  := by
  obtain ⟨m, hm, hown, hworking, hlatest⟩ := h
  obtain ⟨m', hm', hown', hworking', hlatest'⟩ := h'
  obtain ⟨before, a, later, rfl, hamission, haid, hmade, -⟩ := made_of_get? hm
  obtain ⟨before', b, after, rfl, hbmission, hbid, hmade', hkept'⟩ := made_of_get? hm'
  have hvalue : agentId.value ≠ agentId'.value := fun heq => hne (value_injective heq)
  have hdiffer : m ≠ m' := by
    rintro rfl
    exact hvalue (Option.some.inj (hown.symm.trans hown'))
  obtain ⟨rest, hrest⟩ := hinit
  have hlist : before ++ a :: (later ++ rest) = before' ++ b :: after := by simpa using hrest
  rcases List.append_eq_append_iff.mp hlist with ⟨mid, hbefore', hmid⟩ | ⟨mid, hbefore, hmid⟩
  · cases mid with
    | nil =>
      obtain ⟨rfl, -⟩ := List.cons.inj hmid
      rw [List.append_nil] at hbefore'
      subst hbefore'
      exact absurd (hmade.unique hmade') hdiffer
    | cons c between =>
      obtain ⟨rfl, hbetween⟩ := List.cons.inj hmid
      subst hbefore'
      refine ⟨before, a, between, b, after, m, m', by simp, haid.trans hlatest, hamission, hmade,
        hbid.trans hlatest', hbmission, hmade', ?_⟩
      rw [← hamission]
      exact released_between (value_ne agentId) hvalue hmade hown hworking hmade' hown' hworking'
        (hbmission.trans hamission.symm)
  · cases mid with
    | nil =>
      obtain ⟨rfl, -⟩ := List.cons.inj hmid
      rw [List.append_nil] at hbefore
      subst hbefore
      exact absurd (hmade.unique hmade') hdiffer
    | cons c first =>
      obtain ⟨rfl, hafter⟩ := List.cons.inj hmid
      subst hbefore
      have hkept := hkept' (first ++ [a]) ⟨later ++ rest, by simp [hafter]⟩
      have hlist : before' ++ b :: (first ++ [a]) = (before' ++ b :: first) ++ [a] := by simp
      rw [hlist, reduced_concat, get?_of_accepts hmade, if_pos hamission.symm] at hkept
      exact absurd (Option.some.inj hkept) hdiffer

/-! ### Retries -/

section

omit [Platform]

theorem events_initial (r : Reducer) (events : List CoordinationEvent) :
  r.events <+: (r.given events).events
  := by
  induction events generalizing r with
  | nil => exact List.prefix_refl _
  | cons e events ih =>
    apply List.IsPrefix.trans _ (ih (r.after e))
    have hgiven := given_after r e
    generalize r.after e = r' at hgiven
    cases hgiven with
    | replayed => exact List.prefix_refl _
    | ignored | accepted => exact List.prefix_append _ _

theorem reduced_append (log more : List CoordinationEvent) :
  reduced (log ++ more) = (reduced log).given more
  := List.foldl_append

theorem mem_events_of_accepts {before after : List CoordinationEvent} {e : CoordinationEvent}
    {m : Mission} (h : Accepts (reduced before) e m) :
  e ∈ (reduced (before ++ e :: after)).events
  := by
  have hlist : before ++ e :: after = (before ++ [e]) ++ after := by simp
  rw [hlist, reduced_append]
  apply (events_initial _ after).subset
  rw [reduced_concat, after_of_accepts h]
  simp [Reducer.withMission, Reducer.noted]

theorem processed_of_mem {e : CoordinationEvent} (h : e ∈ log) :
  e.eventId ∈ (reduced log).processedEventIds
  := by
  obtain ⟨before, after, rfl⟩ := List.append_of_mem h
  have hlist : before ++ e :: after = (before ++ [e]) ++ after := by simp
  have hseen : e.eventId ∈ (reduced (before ++ [e])).processedEventIds := by
    rw [reduced_concat]
    have hgiven := given_after (reduced before) e
    generalize (reduced before).after e = r' at hgiven
    cases hgiven with
    | replayed hseen => exact hseen
    | ignored | accepted => simp [Reducer.withMission, Reducer.noted]
  obtain ⟨f, hf, hid⟩ := ((sound_reduced _).processed _).mp hseen
  apply ((sound_reduced _).processed _).mpr
  refine ⟨f, ?_, hid⟩
  rw [hlist, reduced_append]
  exact (events_initial _ after).subset hf

end

variable {c : ResumeCheckpoint} {e : CoordinationEvent} {isNew : Bool} {m : Mission}

omit [Iso] in
theorem prefix_of_claimEventId {base eventId : Str}
    (h : claimEventId missionId base agentId = .ok eventId) :
  (text "claim-").isPrefixOf eventId = true
  := by
  unfold claimEventId at h
  dsimp only at h
  split_ifs at h
  cases h
  simp

theorem quiet_on_checkpoint {log₀ : List CoordinationEvent}
    (hclaim : ClaimEvent log₀ agentId missionId c e isNew) (hmem : ∃ f ∈ log, f.eventId = e.eventId)
    (hm : (reduced log).missions.get? missionId = some m) (hsame : m.latestEventId = c.latestEventId)
    {c' : ResumeCheckpoint} {e' : CoordinationEvent} :
  prepareClaim log agentId hostId missionId now ≠ .ok (.event c' e' true)
  := by
  intro h
  have hretry : ClaimEvent log agentId missionId c' e' true := prepared_cases h
  obtain ⟨m', hm', hoffered⟩ := hretry.offered
  cases hm.symm.trans hm'
  have hlatest : c'.latestEventId = c.latestEventId := by
    rw [← hsame]
    rcases hoffered with ⟨-, -, rfl⟩ | ⟨-, rfl⟩ <;> rfl
  have hid := hretry.id
  rw [hlatest, hclaim.id] at hid
  obtain ⟨f, hf, hfid⟩ := hmem
  apply hretry.isNew_iff.mp rfl
  rw [← Except.ok.inj hid, ← hfid]
  exact processed_of_mem hf

theorem quiet_on_own {log₀ before after : List CoordinationEvent}
    (hclaim : ClaimEvent log₀ agentId missionId c e isNew) (hmade : Accepts (reduced before) e m)
    (hm : (reduced (before ++ e :: after)).missions.get? missionId = some m)
    {c' : ResumeCheckpoint} {e' : CoordinationEvent} :
  prepareClaim (before ++ e :: after) agentId hostId missionId now ≠ .ok (.event c' e' true)
  := by
  intro h
  have hretry : ClaimEvent (before ++ e :: after) agentId missionId c' e' true := prepared_cases h
  obtain ⟨m', hm', hoffered⟩ := hretry.offered
  cases hm.symm.trans hm'
  rcases hoffered with ⟨-, -, rfl⟩ | ⟨herror, -⟩
  · apply hretry.notOwn rfl e (mem_events_of_accepts hmade) hmade.common.2.2.1.symm
    · exact prefix_of_claimEventId hclaim.id
    · exact hclaim.byAgent
  · have hworking : m.status = .working := by
      cases hmade with
      | created => exact hclaim.status
      | changed =>
        unfold updated transition
        rcases hclaim.kind with hkind | hkind
        · simp [hkind]
        · simp [hkind, hclaim.status]
    rw [hworking] at herror
    cases herror

/-! ### Runs -/

structure System.Inv (s : System) : Prop where
  answered : ∀ x ∈ s.answers, x.log <+: s.log ∧ (x.result.outcome = .claimed →
    ∃ id, x.result.eventId = some id ∧ Holds x.log x.agentId x.missionId id)
  ordered : s.answers.Pairwise fun x y => x.log <+: y.log
  prepared : ∀ p ∈ s.prepared, ∃ log isNew,
    ClaimEvent log p.agentId p.missionId p.checkpoint p.event isNew

theorem System.Inv.grow {s : System} (h : s.Inv) {log : List CoordinationEvent}
    (hlog : s.log <+: log) (attempts : List Attempt) :
  System.Inv ⟨log, attempts, s.prepared, s.answers⟩
  := by
  refine ⟨?_, h.ordered, h.prepared⟩
  intro x hx
  obtain ⟨hinit, hclaimed⟩ := h.answered x hx
  exact ⟨hinit.trans hlog, hclaimed⟩

theorem System.Inv.answer {s : System} (h : s.Inv) {x : Answer} (hx : x.log = s.log)
    (hclaimed : x.result.outcome = .claimed →
      ∃ id, x.result.eventId = some id ∧ Holds s.log x.agentId x.missionId id)
    (attempts : List Attempt) :
  System.Inv ⟨s.log, attempts, s.prepared, s.answers ++ [x]⟩
  := by
  refine ⟨?_, ?_, h.prepared⟩
  · intro y hy
    rcases List.mem_append.mp hy with hy | hy
    · exact h.answered y hy
    · rw [List.mem_singleton.mp hy, hx]
      exact ⟨List.prefix_refl _, hclaimed⟩
  · apply List.pairwise_append.mpr
    refine ⟨h.ordered, List.pairwise_singleton _ _, ?_⟩
    intro y hy z hz
    rw [List.mem_singleton.mp hz, hx]
    exact (h.answered y hy).1

theorem System.Inv.act {s : System} (h : s.Inv) (action : Action) :
  (s.act action).Inv
  := by
  cases action with
  | other event => exact h.grow (List.prefix_append _ _) s.attempts
  | read agentId hostId missionId now =>
    simp only [System.act]
    cases hprepare : prepareClaim s.log agentId hostId missionId now with
    | error why => exact h
    | ok prepared =>
      have hcases := prepared_cases hprepare
      cases prepared with
      | answer result => exact h.answer rfl hcases s.attempts
      | event c e isNew =>
        refine ⟨h.answered, h.ordered, ?_⟩
        intro p hp
        rcases List.mem_append.mp hp with hp | hp
        · exact h.prepared p hp
        · rw [List.mem_singleton.mp hp]
          exact ⟨s.log, isNew, hcases⟩
  | write i outcome =>
    simp only [System.act]
    cases s.attempts[i]? with
    | none => exact h
    | some attempt =>
      dsimp only
      split_ifs
      · exact h
      · cases outcome with
        | done => exact h.grow (List.prefix_append _ _) _
        | failed appended =>
          have hanswer := h.answer (x := ⟨attempt.agentId, attempt.missionId,
            ⟨.writeFailed, attempt.missionId, some attempt.event.eventId, none,
              text "Shared ledger write failed."⟩, s.log⟩) rfl (by rintro ⟨⟩)
            (s.attempts.eraseIdx i)
          apply hanswer.grow
          dsimp only
          split_ifs
          · exact List.prefix_append _ _
          · exact List.prefix_refl _
  | verify i =>
    simp only [System.act]
    cases s.attempts[i]? with
    | none => exact h
    | some attempt =>
      dsimp only
      split_ifs
      · exact h
      · cases hverify : verifyClaim s.log attempt.agentId attempt.checkpoint attempt.missionId
            attempt.event.eventId with
        | error why => exact h.grow (List.prefix_refl _) _
        | ok result =>
          apply h.answer rfl
          intro hclaimed
          exact ⟨_, claimed_of_verify hverify hclaimed⟩
  | crash i => exact h.grow (List.prefix_refl _) _

theorem inv_run (actions : List Action) :
  (System.run actions).Inv
  := by
  have hstart : System.start.Inv :=
    ⟨by simp [System.start], List.Pairwise.nil, by simp [System.start]⟩
  have hrun := foldl_invariant (I := System.Inv) (fun _ action hs => hs.act action) hstart actions
  exact hrun

structure System.Exclusive (s : System) : Prop where
  separated : ∀ first x second y third, s.answers = first ++ x :: (second ++ y :: third) →
    x.result.outcome = .claimed → y.result.outcome = .claimed → x.missionId = y.missionId →
    x.agentId ≠ y.agentId → ∃ id id', x.result.eventId = some id ∧ y.result.eventId = some id' ∧
      Separated s.log x.missionId id id'
  sameCheckpoint : ∀ p ∈ s.prepared, ∀ m, (∃ e ∈ s.log, e.eventId = p.event.eventId) →
    (reduced s.log).missions.get? p.missionId = some m →
    m.latestEventId = p.checkpoint.latestEventId →
    ∀ hostId now c e, prepareClaim s.log p.agentId hostId p.missionId now ≠ .ok (.event c e true)
  ownClaim : ∀ p ∈ s.prepared, ∀ before after m, s.log = before ++ p.event :: after →
    Accepts (reduced before) p.event m → (reduced s.log).missions.get? p.missionId = some m →
    ∀ hostId now c e, prepareClaim s.log p.agentId hostId p.missionId now ≠ .ok (.event c e true)

omit [Platform] in
theorem Separated.mono {log' : List CoordinationEvent} {claimId claimId' : Str}
    (h : Separated log missionId claimId claimId') (hinit : log <+: log') :
  Separated log' missionId claimId claimId'
  := by
  obtain ⟨before, a, between, b, after, m, m', rfl, hrest⟩ := h
  obtain ⟨more, rfl⟩ := hinit
  exact ⟨before, a, between, b, after ++ more, m, m', by simp, hrest⟩

/-- In every run of any number of agents, with any other events in between, successful claims are
exclusive and retries are quiet. -/
theorem exclusive_run (actions : List Action) :
  (System.run actions).Exclusive
  := by
  have hinv := inv_run actions
  generalize System.run actions = s at hinv
  constructor
  · intro first x second y third hanswers hx hy hmission hagent
    obtain ⟨hxlog, hxclaimed⟩ := hinv.answered x (by simp [hanswers])
    obtain ⟨hylog, hyclaimed⟩ := hinv.answered y (by simp [hanswers])
    obtain ⟨id, hid, hholds⟩ := hxclaimed hx
    obtain ⟨id', hid', hholds'⟩ := hyclaimed hy
    have hordered := hinv.ordered
    rw [hanswers] at hordered
    have hinit : x.log <+: y.log := by
      obtain ⟨hfirst, -⟩ := List.pairwise_cons.mp (List.pairwise_append.mp hordered).2.1
      exact hfirst y (by simp)
    rw [← hmission] at hholds'
    exact ⟨id, id', hid, hid', (separated_of_holds hagent hinit hholds hholds').mono hylog⟩
  · intro p hp m hmem hm hsame hostId now c e
    obtain ⟨log₀, isNew, hclaim⟩ := hinv.prepared p hp
    exact quiet_on_checkpoint hclaim hmem hm hsame
  · intro p hp before after m hlog hmade hm hostId now c e
    obtain ⟨log₀, isNew, hclaim⟩ := hinv.prepared p hp
    rw [hlog] at hm ⊢
    exact quiet_on_own hclaim hmade hm

end

section Example

local instance wholeSecondsClaims : Iso := .wholeSeconds

local instance plainClaims : Platform := .plain

theorem isDate_minute : IsDate 2026 10 7 := by
  decide

theorem time_minute (n : Nat) (h : n < 60) : 12 < 24 ∧ n < 60 ∧ 0 < 60 ∧ 0 < 1000000 := by
  simpa using h

def minute (n : Nat) (h : n < 60) : DateTime :=
  ⟨2026, 10, 7, 12, n, 0, 0, isDate_minute, time_minute n h⟩

def failedMission : CoordinationEvent :=
  .plain (text "e1") (text "m1") .codexMac .assigned .error (text "2026-10-07T12:00:00Z")

def selfAssignment : CoordinationEvent :=
  .plain (text "e2") (text "m1") .codexMac .assigned .error (text "2026-10-07T12:05:00Z")

def twoClaims : List Action :=
  [.other failedMission, .read .codexMac .macLocal (text "m1") (minute 1 (by decide)),
    .write 0 .done, .verify 0, .other selfAssignment,
    .read .museMac .macLocal (text "m1") (minute 6 (by decide)), .write 0 .done, .verify 0]

/-- A claim whose write fails, and the same claim once more. -/
def failedWrite : List Action :=
  [.other failedMission, .read .codexMac .macLocal (text "m1") (minute 1 (by decide)),
    .write 0 (.failed false), .read .codexMac .macLocal (text "m1") (minute 2 (by decide)),
    .write 0 .done]

/-- Both claims succeed, and there are only assignments in the log; and a claim whose event is not in
the log appends it when it is retried. -/
theorem not_separated_by_end :
  ((System.run twoClaims).answers.map fun x => (x.agentId, x.missionId, x.result.outcome)) =
      [(.codexMac, text "m1", .claimed), (.museMac, text "m1", .claimed)] ∧
    (System.run twoClaims).log.map CoordinationEvent.eventType =
      [.assigned, .assigned, .assigned, .assigned] ∧
    ((System.run failedWrite).prepared.map fun p => p.checkpoint.latestEventId) =
      [text "e1", text "e1"] ∧
    (System.run failedWrite).log.map CoordinationEvent.eventType = [.assigned, .assigned]
  := by
  decide +kernel

end Example

end Courier.Coordination
