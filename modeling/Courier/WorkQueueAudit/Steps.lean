import Courier.WorkQueueAudit

/-!
# What a clean event does

An event without violations takes, keeps, moves or ends the lease of its item.  As long as the item
of the queue is as the auditor tracks it, and is neither done nor blocked, the queue applies the
event and its item stays as it is tracked.
-/

namespace Courier.WorkQueue

open Calendar Json Text

/-! ### Items as they are tracked -/

def Standing.status : Standing → Status
  | unclaimed => .ready
  | claimed _ => .claimed
  | done => .done
  | blocked => .blocked

/-- The lease of a tracked item. -/
def Standing.lease : Standing → Option Lease
  | claimed lease => some lease
  | _ => none

/-- The auditor and the queue agree on an item, but for the host of its lease. -/
structure Tracked.Matches (state : Tracked) (item : Item) : Prop where
  status : item.status = state.standing.status
  holder : item.lease.map Lease.holder = state.standing.lease.map Lease.holder
  expiresAt : item.lease.map Lease.expiresAt = state.standing.lease.map Lease.expiresAt
  result : item.result = state.result
  releasedBy : item.releasedBy = state.releasedBy

def Item.Closed (item : Item) : Prop :=
  item.status = .done ∨ item.status = .blocked

/-! ### Steps -/

/-- What an event without violations makes of its item. -/
inductive Step (event : Members) (env : Envelope) (state : Tracked) : Tracked → Prop
  | taken {host expiresAt : Str} {expires : DateTime} :
      env.kind = .claim → token? (get event (text "host")) = some host →
      get event (text "expires_at") = .str expiresAt → parse expiresAt = some expires →
      state.standing ≠ .done →
      (∀ lease, state.standing = .claimed lease → activeAt lease env.createdAt = false) →
      Step event env state { state with standing := .claimed ⟨env.holder, host, expiresAt⟩ }
  | retaken {host expiresAt : Str} {expires : DateTime} {lease : Lease} :
      env.kind = .claim → token? (get event (text "host")) = some host →
      get event (text "expires_at") = .str expiresAt → parse expiresAt = some expires →
      state.standing = .claimed lease → lease.holder = env.holder → lease.expiresAt = expiresAt →
      Step event env state state
  | renewed {expiresAt : Str} {expires : DateTime} {lease : Lease} :
      env.kind = .renew → get event (text "expires_at") = .str expiresAt →
      parse expiresAt = some expires → state.standing = .claimed lease →
      lease.holder = env.holder →
      Step event env state { state with standing := .claimed { lease with expiresAt := expiresAt } }
  | released {result : Str} {lease : Lease} :
      env.kind = .release → get event (text "result") = .str result → isResult result = true →
      state.standing = .claimed lease → lease.holder = env.holder →
      Step event env state { state with
        standing := if isFailedResult result then .blocked else .done
        result := some (strip result)
        releasedBy := some env.holder }
  | rereleased {result : Str} :
      env.kind = .release → get event (text "result") = .str result → isResult result = true →
      state.standing = .done ∨ state.standing = .blocked → state.releasedBy = some env.holder →
      state.result = some (strip result) →
      Step event env state state

theorem token_of_token? {value : Json} {s : Str} (h : token? value = some s) :
  value = .str s ∧ isToken s = true
  := by
  cases value with
  | str t =>
    rw [token?] at h
    split_ifs at h with htoken
    cases h
    exact ⟨rfl, htoken⟩
  | _ => cases h

theorem str_of_parseTime {value : Json} {t : DateTime} (h : parseTime value = some t) :
  ∃ s, value = .str s ∧ parse s = some t
  := by
  cases value with
  | str s => exact ⟨s, rfl, h⟩
  | _ => cases h

variable {scopes : Dict Str (List Str)} {items : Dict Str Tracked} {event : Members} {env : Envelope}
  {state : Tracked}

theorem get_of_envelope (h : envelope event = .ok env) :
  kind? (get event (text "type")) = some env.kind ∧
    get event (text "item_id") = .str env.itemId ∧ isToken env.itemId = true ∧
    get event (text "holder") = .str env.holder ∧ isToken env.holder = true ∧
    parseTime (createdAtRaw event) = some env.createdAt
  := by
  unfold envelope at h
  split at h
  · cases h
  · next kind hkind =>
    split at h
    · cases h
    · next itemId hitem =>
      split at h
      · cases h
      · next holder hholder =>
        split at h
        · cases h
        · next createdAt hcreated =>
          cases h
          obtain ⟨hitem, htoken⟩ := token_of_token? hitem
          obtain ⟨hholder, htoken'⟩ := token_of_token? hholder
          exact ⟨hkind, hitem, htoken, hholder, htoken', hcreated⟩

theorem step_of_claim (hkind : env.kind = .claim)
    (h : (auditClaim scopes items event env state).2 = []) :
  Step event env state (auditClaim scopes items event env state).1
  := by
  unfold auditClaim at h ⊢
  split at h
  · cases h
  · next host hhost =>
    split at h
    · cases h
    · next expires hexpires =>
      obtain ⟨expiresAt, hget, hparse⟩ := str_of_parseTime hexpires
      have hstep : (claimStep env host expiresAt state).2 = [] := by
        rw [hget] at h
        simp only [List.append_eq_nil_iff] at h
        exact h.1.2
      have hgoal : Step event env state (claimStep env host expiresAt state).1 := by
        unfold claimStep at hstep ⊢
        dsimp only at hstep ⊢
        split at hstep
        · cases hstep
        · next lease hclaimed =>
          split_ifs at hstep ⊢ with hactive hsame
          · exact .retaken hkind hhost hget hparse hclaimed hsame.1 hsame.2
          · refine .taken hkind hhost hget hparse (by simp [hclaimed]) ?_
            rintro lease' hlease'
            cases hclaimed.symm.trans hlease'
            exact eq_false_of_ne_true hactive
        · next hunclaimed =>
          exact .taken hkind hhost hget hparse (by simp [hunclaimed]) (by simp [hunclaimed])
        · next hblocked =>
          exact .taken hkind hhost hget hparse (by simp [hblocked]) (by simp [hblocked])
      rw [hget]
      exact hgoal

theorem step_of_renew (hkind : env.kind = .renew) (h : (auditRenew event env state).2 = []) :
  Step event env state (auditRenew event env state).1
  := by
  unfold auditRenew at h ⊢
  split at h
  · cases h
  · next expires hexpires =>
    obtain ⟨expiresAt, hget, hparse⟩ := str_of_parseTime hexpires
    have hstep : (renewStep env expiresAt state).2 = [] := by
      rw [hget] at h
      simp only [List.append_eq_nil_iff] at h
      exact h.2
    have hgoal : Step event env state (renewStep env expiresAt state).1 := by
      unfold renewStep at hstep ⊢
      split at hstep
      · cases hstep
      · next lease hclaimed =>
        split_ifs at hstep ⊢ with hholder
        have hholder : lease.holder = env.holder := by simpa using hholder
        split at hstep
        · split_ifs at hstep ⊢
          exact .renewed hkind hget hparse hclaimed hholder
        · exact .renewed hkind hget hparse hclaimed hholder
      · cases hstep
      · cases hstep
    rw [hget]
    exact hgoal

theorem step_of_release (hkind : env.kind = .release) (h : (auditRelease event env state).2 = []) :
  Step event env state (auditRelease event env state).1
  := by
  unfold auditRelease at h ⊢
  split at h
  · next result hget =>
    split_ifs at h ⊢ with hresult
    unfold releaseStep at h ⊢
    split at h
    · next hdone =>
      split_ifs at h ⊢ with hsame
      exact .rereleased hkind hget hresult (.inl hdone) hsame.1 hsame.2
    · next hblocked =>
      split_ifs at h ⊢ with hsame
      exact .rereleased hkind hget hresult (.inr hblocked) hsame.1 hsame.2
    · next lease hclaimed =>
      have hholder : lease.holder = env.holder := by
        by_contra hne
        rw [if_pos hne] at h
        cases h
      rw [if_neg (not_not.mpr hholder)]
      exact .released hkind hget hresult hclaimed hholder
    · cases h
  · cases h

theorem step_of_clean (h : (transition scopes items event env state).2 = []) :
  Step event env state (transition scopes items event env state).1
  := by
  unfold transition at h ⊢
  split at h
  · next hkind => exact step_of_claim hkind h
  · next hkind => exact step_of_renew hkind h
  · next hkind => exact step_of_release hkind h

/-! ### The queue follows -/

theorem type_of_kind {value : Json} {kind : Kind} (h : kind? value = some kind) :
  value = .str kind.name
  := by simpa using List.find?_some h

theorem applyTo_claim {item : Item} {holder host expiresAt : Str}
    (htype : get event (text "type") = .str (text "CLAIM"))
    (hholder : get event (text "holder") = .str holder) (hname : isToken holder = true)
    (hhost : get event (text "host") = .str host) (hmachine : isToken host = true)
    (hexpires : get event (text "expires_at") = .str expiresAt) (hstamp : isStamp expiresAt = true) :
  applyTo item event = .ok { item with
    status := .claimed
    lease := some ⟨holder, host, expiresAt⟩ }
  := by
  unfold applyTo
  simp only [htype, if_true, hholder, hhost, hexpires, eventToken, timeMatches, hname, hmachine,
    hstamp, and_self, asStr]

theorem applyTo_renew {item : Item} {lease : Lease} {expiresAt : Str}
    (htype : get event (text "type") = .str (text "RENEW"))
    (hstatus : item.status = .claimed) (hlease : item.lease = some lease)
    (hholder : get event (text "holder") = .str lease.holder)
    (hexpires : get event (text "expires_at") = .str expiresAt) (hstamp : isStamp expiresAt = true) :
  applyTo item event = .ok { item with lease := some { lease with expiresAt := expiresAt } }
  := by
  have hnot : ¬ Json.str (text "RENEW") = .str (text "CLAIM") := by decide
  unfold applyTo
  simp only [htype, hnot, if_true, if_false, hstatus, hlease, hholder, hexpires, timeMatches, hstamp,
    ne_eq, not_true_eq_false, asStr]

theorem applyTo_release {item : Item} {lease : Lease} {result : Str}
    (htype : get event (text "type") = .str (text "RELEASE"))
    (hstatus : item.status = .claimed) (hlease : item.lease = some lease)
    (hholder : get event (text "holder") = .str lease.holder) (hname : isToken lease.holder = true)
    (hget : get event (text "result") = .str result) (hresult : isResult result = true) :
  applyTo item event = .ok { item with
    status := targetStatus result
    lease := none
    result := some (strip result)
    releasedBy := some lease.holder }
  := by
  have hclaim : ¬ Json.str (text "RELEASE") = .str (text "CLAIM") := by decide
  have hrenew : ¬ Json.str (text "RELEASE") = .str (text "RENEW") := by decide
  unfold applyTo
  simp [htype, hclaim, hrenew, hstatus, hlease, hholder, hget, hresult, eventToken, hname]

/-- The queue applies what is a step, to an item that is neither done nor blocked. -/
theorem applyTo_of_step {item : Item} {state' : Tracked} (henv : envelope event = .ok env)
    (hstep : Step event env state state') (hmatches : state.Matches item) (hopen : ¬ item.Closed) :
  ∃ item', applyTo item event = .ok item' ∧ state'.Matches item' ∧ item'.id = item.id
  := by
  obtain ⟨hkind, -, -, hholder, hname, -⟩ := get_of_envelope henv
  have htype := type_of_kind hkind
  have hclaimed : ∀ lease, state.standing = .claimed lease → ∃ own, item.status = .claimed ∧
      item.lease = some own ∧ own.holder = lease.holder ∧ own.expiresAt = lease.expiresAt := by
    intro lease hstanding
    obtain ⟨hstatus, hsame, hexpiry, -, -⟩ := hmatches
    rw [hstanding] at hstatus hsame hexpiry
    obtain ⟨own, hown, hsame⟩ := Option.map_eq_some_iff.mp hsame
    rw [hown] at hexpiry
    exact ⟨own, hstatus, hown, hsame, Option.some.inj hexpiry⟩
  cases hstep with
  | @taken host expiresAt expires hclaim hhost hexpires hparse hdone hactive =>
    rw [hclaim] at htype
    obtain ⟨hhost, hmachine⟩ := token_of_token? hhost
    exact ⟨_, applyTo_claim htype hholder hname hhost hmachine hexpires (isStamp_of_parse hparse),
      ⟨rfl, rfl, rfl, hmatches.result, hmatches.releasedBy⟩, rfl⟩
  | @retaken host expiresAt expires lease hclaim hhost hexpires hparse hstanding hsame hexpiry =>
    rw [hclaim] at htype
    obtain ⟨hhost, hmachine⟩ := token_of_token? hhost
    refine ⟨_, applyTo_claim htype hholder hname hhost hmachine hexpires (isStamp_of_parse hparse),
      ⟨?_, ?_, ?_, hmatches.result, hmatches.releasedBy⟩, rfl⟩
    · rw [hstanding]
      rfl
    · rw [hstanding, ← hsame]
      rfl
    · rw [hstanding, ← hexpiry]
      rfl
  | @renewed expiresAt expires lease hrenew hexpires hparse hstanding hsame =>
    rw [hrenew] at htype
    obtain ⟨own, hstatus, hown, hsame', -⟩ := hclaimed lease hstanding
    rw [← hsame, ← hsame'] at hholder
    refine ⟨_, applyTo_renew htype hstatus hown hholder hexpires (isStamp_of_parse hparse),
      ⟨hstatus, ?_, rfl, hmatches.result, hmatches.releasedBy⟩, rfl⟩
    exact congrArg some hsame'
  | @released result lease hrelease hget hresult hstanding hsame =>
    rw [hrelease] at htype
    obtain ⟨own, hstatus, hown, hsame', -⟩ := hclaimed lease hstanding
    have hby := hsame'.trans hsame
    rw [← hby] at hholder hname
    refine ⟨_, applyTo_release htype hstatus hown hholder hname hget hresult,
      ⟨?_, ?_, ?_, rfl, congrArg some hby⟩, rfl⟩
    · unfold targetStatus
      split_ifs <;> rfl
    · split_ifs <;> rfl
    · split_ifs <;> rfl
  | @rereleased result hrelease hget hresult hstanding hby hsame =>
    refine absurd ?_ hopen
    rcases hstanding with hdone | hblocked
    · exact .inl (hmatches.status.trans (by rw [hdone]; rfl))
    · exact .inr (hmatches.status.trans (by rw [hblocked]; rfl))

end Courier.WorkQueue
