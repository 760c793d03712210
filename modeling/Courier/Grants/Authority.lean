import Courier.Grants

/-!
# No authority is widened

What a grant covers is what was asked for, as long as the request that is presented with the decision is
the one that was recorded, and its id was not denied before (`World.Widens`).  Nothing else is needed: the
uses of the grants, their revocation and their end are respected in every run.
-/

namespace Courier.Grants

open Program

variable {T : Type} {b b' : Broker T} {g g₀ : Grant T} {r : Request} {gid : Str}
  {history : List (Answer T)}

/-! ### The law -/

structure Grant.Matches (g : Grant T) (r : Request) : Prop where
  project : g.project = r.project
  capability : g.capability = r.capability
  resources : g.resources = r.resources
  host : g.host = r.host
  providerAccount : g.providerAccount = r.providerAccount
  dataClass : g.dataClass = r.dataClass
  access : g.access = r.access
  effectClass : g.effectClass = r.effectClass

def lastRecorded (history : List (Answer T)) (requestId : Str) : Option Request :=
  history.reverse.findSome? fun
    | .recorded r => if r.requestId = requestId then some r else none
    | _ => none

def Grant.Same (g g' : Grant T) : Prop :=
  g' = { g with state := g'.state, uses := g'.uses }

structure Grant.Covers [LE T] (g : Grant T) (r : Request) (now : T) : Prop where
  unexpired : ¬ g.Due now
  project : g.project = r.project
  capability : g.capability = r.capability
  host : g.host = r.host
  providerAccount : g.providerAccount = r.providerAccount
  effectClass : g.effectClass = r.effectClass
  resources : r.resources ⊆ g.resources
  access : ∃ asked granted, accessOrder.lookup r.access = some asked ∧
    accessOrder.lookup g.access = some granted ∧ asked ≤ granted
  dataClass : ∃ asked granted, dataOrder.lookup r.dataClass = some asked ∧
    dataOrder.lookup g.dataClass = some granted ∧ asked ≤ granted

structure Uses [LE T] (before : List (Answer T)) (r : Request) (g : Grant T) (now : T) : Prop where
  given : ∃ g₀, .given g₀ ∈ before ∧ g₀.Same g
  unrevoked : .revoked g.grantId ∉ before
  covers : g.Covers r now
  once : g.once = true → ∀ r' g' now', .used r' g' now' ∈ before → g'.grantId ≠ g.grantId

/-- No authority was widened. -/
structure World.Lawful [LE T] (w : World T) : Prop where
  /-- Every grant is one that was given, with its scope. -/
  scopes : ∀ {grantId g}, w.broker.grants.get? grantId = some g → ∃ g₀, .given g₀ ∈ w.history ∧ g₀.Same g
  /-- A grant that is given has the scope of the request that was recorded last under its source, which was
  not denied before. -/
  given : ∀ {before g}, before ++ [.given g] <+: w.history →
    (∃ r, lastRecorded before g.sourceRequest = some r ∧ g.Matches r) ∧
      .moved g.sourceRequest .denied ∉ before
  /-- Every use of a grant is covered by it. -/
  used : ∀ {before r g now}, before ++ [.used r g now] <+: w.history → Uses before r g now

def World.Widens (w : World T) : Call T → Prop
  | .grant r _ _ _ _ =>
      (∃ state ∈ w.broker.requests.get? r.requestId, state.Awaiting) ∧
        (lastRecorded w.history r.requestId ≠ some r ∨ .moved r.requestId .denied ∈ w.history)
  | _ => False

/-! ### What is kept -/

/-- The first grant became the second: it may have been used, and its state may have changed, unless it
was revoked. -/
structure Grant.Becomes (g g' : Grant T) : Prop where
  same : g.Same g'
  uses : g.uses ≤ g'.uses
  revoked : g.state = .revoked → g'.state = .revoked

structure Sound (grants : Dict Str (Grant T)) (history : List (Answer T)) : Prop where
  id : ∀ {grantId g}, grants.get? grantId = some g → g.grantId = grantId
  given : ∀ {grantId g}, grants.get? grantId = some g → ∃ g₀, .given g₀ ∈ history ∧ g₀.Same g
  revoked : ∀ {grantId}, .revoked grantId ∈ history →
    ∃ g, grants.get? grantId = some g ∧ g.state = .revoked
  used : ∀ {r g now}, .used r g now ∈ history → ∃ g', grants.get? g.grantId = some g' ∧ 1 ≤ g'.uses

/-- Every grant became one, and there is no other. -/
structure Advances (grants grants' : Dict Str (Grant T)) : Prop where
  forward : ∀ {grantId g}, grants.get? grantId = some g →
    ∃ g', grants'.get? grantId = some g' ∧ g.Becomes g'
  back : ∀ {grantId g'}, grants'.get? grantId = some g' → ∃ g, grants.get? grantId = some g

theorem Grant.Same.refl (g : Grant T) :
  g.Same g
  := rfl

variable {g' : Grant T}

theorem Grant.Same.trans {g g'' : Grant T} (h : g.Same g') (h' : g'.Same g'') :
  g.Same g''
  := by
  rw [Grant.Same] at *
  rw [h', h]

theorem Grant.Same.id_eq {g : Grant T} (h : g.Same g') :
  g'.grantId = g.grantId
  := by
  rw [h]

theorem Grant.Becomes.refl (g : Grant T) :
  g.Becomes g
  := ⟨.refl g, le_refl _, id⟩

theorem Grant.Becomes.trans {g g'' : Grant T} (h : g.Becomes g') (h' : g'.Becomes g'') :
  g.Becomes g''
  := ⟨h.same.trans h'.same, h.uses.trans h'.uses, fun hrevoked => h'.revoked (h.revoked hrevoked)⟩

theorem Advances.refl (grants : Dict Str (Grant T)) :
  Advances grants grants
  := ⟨fun {_ g} hg => ⟨g, hg, .refl g⟩, fun {_ g'} hg' => ⟨g', hg'⟩⟩

variable {grants : Dict Str (Grant T)}

theorem Advances.trans {grants' grants'' : Dict Str (Grant T)} (h : Advances grants grants')
    (h' : Advances grants' grants'') :
  Advances grants grants''
  where
  forward := by
    intro grantId g hg
    obtain ⟨g', hg', hbecomes⟩ := h.forward hg
    obtain ⟨g'', hg'', hbecomes'⟩ := h'.forward hg'
    exact ⟨g'', hg'', hbecomes.trans hbecomes'⟩
  back := by
    intro grantId g'' hg''
    obtain ⟨g', hg'⟩ := h'.back hg''
    exact h.back hg'

theorem Advances.set (hg : grants.get? grantId = some g)
    (hbecomes : g.Becomes g') :
  Advances grants (grants.set grantId g')
  where
  forward := by
    intro other o ho
    rw [Dict.get?_set]
    split
    next heq =>
      rw [heq, hg] at ho
      cases ho
      exact ⟨g', rfl, hbecomes⟩
    next => exact ⟨o, ho, .refl o⟩
  back := by
    intro other o ho
    rw [Dict.get?_set] at ho
    split at ho
    next heq => exact ⟨g, by rw [heq, hg]⟩
    next => exact ⟨o, ho⟩

theorem Sound.advances {grants' : Dict Str (Grant T)} (h : Sound grants history)
    (hadvances : Advances grants grants') :
  Sound grants' history
  where
  id := by
    intro grantId g' hg'
    obtain ⟨g, hg⟩ := hadvances.back hg'
    obtain ⟨g'', hg'', hbecomes⟩ := hadvances.forward hg
    rw [hg'] at hg''
    cases hg''
    exact hbecomes.same.id_eq.trans (h.id hg)
  given := by
    intro grantId g' hg'
    obtain ⟨g, hg⟩ := hadvances.back hg'
    obtain ⟨g'', hg'', hbecomes⟩ := hadvances.forward hg
    rw [hg'] at hg''
    cases hg''
    obtain ⟨g₀, hgiven, hsame⟩ := h.given hg
    exact ⟨g₀, hgiven, hsame.trans hbecomes.same⟩
  revoked := by
    intro grantId hrevoked
    obtain ⟨g, hg, hstate⟩ := h.revoked hrevoked
    obtain ⟨g', hg', hbecomes⟩ := hadvances.forward hg
    exact ⟨g', hg', hbecomes.revoked hstate⟩
  used := by
    intro r g now hused
    obtain ⟨g', hg', huses⟩ := h.used hused
    obtain ⟨g'', hg'', hbecomes⟩ := hadvances.forward hg'
    exact ⟨g'', hg'', huses.trans hbecomes.uses⟩

theorem Sound.answered (h : Sound grants history) {answer : Answer T}
    (hrevoked : ∀ {grantId}, answer = .revoked grantId →
      ∃ g, grants.get? grantId = some g ∧ g.state = .revoked)
    (hused : ∀ {r g now}, answer = .used r g now →
      ∃ g', grants.get? g.grantId = some g' ∧ 1 ≤ g'.uses) :
  Sound grants (history ++ [answer])
  where
  id := h.id
  given := by
    intro grantId g hg
    obtain ⟨g₀, hgiven, hsame⟩ := h.given hg
    exact ⟨g₀, List.mem_append_left _ hgiven, hsame⟩
  revoked := by
    intro grantId hmem
    rcases List.mem_append.mp hmem with hmem | hmem
    · exact h.revoked hmem
    · exact hrevoked (List.mem_singleton.mp hmem).symm
  used := by
    intro r g now hmem
    rcases List.mem_append.mp hmem with hmem | hmem
    · exact h.used hmem
    · exact hused (List.mem_singleton.mp hmem).symm

theorem Sound.set (h : Sound grants history)
    (hnew : grants.get? g.grantId = none) :
  Sound (grants.set g.grantId g) (history ++ [.given g])
  := by
  have hold : ∀ {grantId o}, grants.get? grantId = some o → grantId ≠ g.grantId := by
    rintro grantId o ho rfl
    rw [hnew] at ho
    cases ho
  refine ⟨?_, ?_, ?_, ?_⟩
  · intro grantId o ho
    rw [Dict.get?_set] at ho
    split at ho
    next heq =>
      cases ho
      exact heq.symm
    next => exact h.id ho
  · intro grantId o ho
    rw [Dict.get?_set] at ho
    split at ho
    next =>
      cases ho
      exact ⟨g, List.mem_append_right _ (List.mem_singleton_self _), .refl g⟩
    next =>
      obtain ⟨g₀, hgiven, hsame⟩ := h.given ho
      exact ⟨g₀, List.mem_append_left _ hgiven, hsame⟩
  · intro grantId hmem
    have hmem' : .revoked grantId ∈ history := by simpa using hmem
    obtain ⟨o, ho, hstate⟩ := h.revoked hmem'
    exact ⟨o, by rw [Dict.get?_set, if_neg (hold ho), ho], hstate⟩
  · intro r o now hmem
    have hmem' : .used r o now ∈ history := by simpa using hmem
    obtain ⟨o', ho', huses⟩ := h.used hmem'
    exact ⟨o', by rw [Dict.get?_set, if_neg (hold ho'), ho'], huses⟩

/-! ### The calls -/

section Calls

variable {clock : Nat → T} {raised : BrokerError → Broker T → Prop}

@[simp]
theorem wp_now {normal : T → Broker T → Prop} :
  wp (now clock) normal raised b ↔ normal (clock b.asked) { b with asked := b.asked + 1 }
  := Iff.rfl

@[simp]
theorem wp_event (happened : Happened) {normal : Unit → Broker T → Prop} :
  wp (event clock happened) normal raised b ↔
    normal () { b with
      events := b.events ++ [⟨happened, clock b.asked⟩]
      asked := b.asked + 1 }
  := Iff.rfl

theorem wp_move (requestId newState : Str) :
  wp (move clock requestId newState)
    (fun state b' => b'.grants = b.grants ∧ b'.requests = b.requests.set requestId state)
    (fun _ b' => b' = b) b
  := by
  unfold move
  rw [wp_bind, wp_get]
  split
  · rfl
  next old hold =>
    split
    · rfl
    next state hstate =>
      simp only [wp_bind, wp_modify, wp_event, wp_pure]
      exact ⟨rfl, rfl⟩

theorem wp_grant (r : Request) (grantId : Str) (expiresAt : Option T) (once : Bool) (grantedBy : Str) :
  wp (grant clock r grantId expiresAt once grantedBy)
    (fun g b' => (∃ state ∈ b.requests.get? r.requestId, state.Awaiting) ∧
      g = r.grant grantId expiresAt once grantedBy ∧ b'.grants = b.grants.set grantId g)
    (fun _ b' => b' = b ∧ ¬ ∃ state ∈ b.requests.get? r.requestId, state.Awaiting) b
  := by
  have hiff : ((b.requests.get? r.requestId).any fun state => state.Awaiting) = true ↔
      ∃ state ∈ b.requests.get? r.requestId, state.Awaiting := by
    simp [Option.any_eq_true]
  unfold grant
  rw [wp_bind, wp_get]
  split
  next hawaiting =>
    simp only [wp_bind, wp_modify, wp_event, wp_pure]
    exact ⟨hiff.mp hawaiting, trivial, rfl⟩
  next hawaiting => exact ⟨rfl, fun h => hawaiting (hiff.mpr h)⟩

theorem wp_revoke (grantId : Str) :
  wp (revoke clock grantId)
    (fun _ b' => ∃ g, b.grants.get? grantId = some g ∧
      b'.grants = b.grants.set grantId { g with state := .revoked })
    (fun _ b' => b' = b) b
  := by
  unfold revoke
  rw [wp_bind, wp_get]
  split
  · rfl
  next g hg =>
    split
    · simp only [wp_bind, wp_modify, wp_event]
      exact ⟨g, hg, rfl⟩
    · rfl

variable [LE T] [DecidableLE T]

theorem position_eq_ok {order : List (Str × Nat)} {key : Str} {n : Nat} :
  position order key = .ok n ↔ order.lookup key = some n
  := by
  unfold position
  split <;> simp [*]

variable {now : T}

/-- What a grant that covers a request has been compared in. -/
theorem covers_of_whyNotCovered (h : whyNotCovered g r now = .ok none) :
  g.Covers r now ∧ g.state = .granted ∧ (g.once = true → g.uses = 0)
  := by
  unfold whyNotCovered at h
  split at h
  · cases h
  next hstate =>
  split at h
  · cases h
  next hdue =>
  split at h
  · cases h
  next honce =>
  split at h
  · cases h
  next hsame =>
  split at h
  · cases h
  next hresources =>
  obtain ⟨asked, hasked, h⟩ := Except.bind_eq_ok.mp h
  obtain ⟨granted, hgranted, h⟩ := Except.bind_eq_ok.mp h
  split at h
  · cases h
  next haccess =>
  split at h
  next asked' granted' hasked' hgranted' =>
    split at h
    · cases h
    next hdata =>
      have hdim : ∀ dim : Dimension, dim.ofGrant g = dim.ofRequest r := by
        intro dim
        have hmem : dim ∈ Dimension.all := by cases dim <;> simp [Dimension.all]
        simpa using List.find?_eq_none.mp hsame dim hmem
      refine ⟨⟨hdue, hdim .project, hdim .capability, hdim .host, hdim .providerAccount,
        hdim .effectClass, (not_not.mp (not_or.mp hresources).2), ?_, ?_⟩, not_not.mp hstate, ?_⟩
      · exact ⟨asked, granted, position_eq_ok.mp hasked, position_eq_ok.mp hgranted, not_lt.mp haccess⟩
      · exact ⟨asked', granted', hasked', hgranted', not_lt.mp hdata⟩
      · intro hone
        have huses := (not_and.mp honce) hone
        omega
  · cases h

theorem whyNotCovered_of_findCovering {grants : List (Grant T)}
    (h : findCovering r now grants = .ok (.ok g)) :
  g ∈ grants ∧ whyNotCovered g r now = .ok none
  := by
  induction grants with
  | nil => cases h
  | cons o rest ih =>
    unfold findCovering at h
    obtain ⟨why, hwhy, h⟩ := Except.bind_eq_ok.mp h
    cases why with
    | none =>
      cases h
      exact ⟨List.mem_cons_self, hwhy⟩
    | some reason =>
      obtain ⟨found, hfound, h⟩ := Except.bind_eq_ok.mp h
      cases found with
      | ok found =>
        cases h
        obtain ⟨hmem, hnone⟩ := ih hfound
        exact ⟨List.mem_cons_of_mem o hmem, hnone⟩
      | error reasons => cases h

theorem wp_authorize (hid : ∀ {grantId g}, b.grants.get? grantId = some g → g.grantId = grantId)
    (r : Request) :
  wp (authorize clock r)
    (fun answer b' => match answer with
      | .granted g => ∃ g₀, b.grants.get? g₀.grantId = some g₀ ∧ g = g₀.used ∧
          whyNotCovered g₀ r (clock b.asked) = .ok none ∧ b'.grants = b.grants.set g.grantId g
      | .requested _ => b'.grants = b.grants)
    (fun _ b' => b'.grants = b.grants) b
  := by
  unfold authorize
  simp only [wp_bind, wp_now, wp_get]
  split
  · exact rfl
  next g hfound =>
    obtain ⟨hmem, hnone⟩ := whyNotCovered_of_findCovering hfound
    obtain ⟨grantId, hg⟩ := Dict.mem_values.mp hmem
    obtain rfl := hid hg
    simp only [wp_bind, wp_modify, wp_event, wp_pure]
    exact ⟨g, hg, rfl, hnone, rfl⟩
  next reasons hfound =>
    simp only [wp_bind, wp_modify, wp_event, wp_pure]
    exact rfl

theorem wp_expireAll (now : T) (entries : List (Str × Grant T)) (hnodup : (entries.map Prod.fst).Nodup)
    (hentries : ∀ entry ∈ entries, b.grants.get? entry.1 = some entry.2) :
  wp (expireAll clock now entries) (fun _ b' => Advances b.grants b'.grants) (fun _ _ => False) b
  := by
  induction entries generalizing b with
  | nil => exact .refl b.grants
  | cons entry rest ih =>
    obtain ⟨grantId, g⟩ := entry
    have hg : b.grants.get? grantId = some g := hentries _ List.mem_cons_self
    rw [List.map_cons, List.nodup_cons] at hnodup
    have hrest : ∀ entry ∈ rest, b.grants.get? entry.1 = some entry.2 :=
      fun entry hentry => hentries entry (List.mem_cons_of_mem _ hentry)
    unfold expireAll
    split
    next hdue =>
      simp only [wp_bind, wp_modify, wp_event]
      have hadvances : Advances b.grants (b.grants.set grantId { g with state := .expired }) := by
        refine .set hg ⟨rfl, le_refl _, ?_⟩
        intro hrevoked
        rw [hdue.1] at hrevoked
        cases hrevoked
      refine wp_mono (ih hnodup.2 ?_) ?_ fun _ _ hfalse => hfalse
      · intro entry hentry
        change (b.grants.set grantId { g with state := .expired }).get? entry.1 = some entry.2
        rw [Dict.get?_set, if_neg _, hrest entry hentry]
        rintro rfl
        have hmem := List.mem_map_of_mem (f := Prod.fst) hentry
        exact hnodup.1 hmem
      · exact fun _ b' h => hadvances.trans h
    next => exact ih hnodup.2 hrest

/-! ### Runs -/

/-- The answer is no decision about a grant. -/
def Answer.Quiet : Answer T → Prop
  | .used _ _ _ => False
  | .given _ => False
  | .revoked _ => False
  | _ => True

def World.Fresh (w : World T) : Call T → Prop
  | .grant _ grantId _ _ _ => w.broker.grants.get? grantId = none
  | _ => True

inductive World.Goes (w : World T) (call : Call T) : World T → Prop where
  | refused {b : Broker T} (grants : b.grants = w.broker.grants) (keeps : ¬ w.Widens call) :
      w.Goes call ⟨b, w.history⟩
  | quiet {b : Broker T} {answer : Answer T} (advances : Advances w.broker.grants b.grants)
      (quiet : answer.Quiet) (keeps : ¬ w.Widens call) : w.Goes call ⟨b, w.history ++ [answer]⟩
  | used {b : Broker T} {r : Request} {g : Grant T} {now : T}
      (found : w.broker.grants.get? g.grantId = some g) (covers : whyNotCovered g r now = .ok none)
      (grants : b.grants = w.broker.grants.set g.grantId g.used) (keeps : ¬ w.Widens call) :
      w.Goes call ⟨b, w.history ++ [.used r g.used now]⟩
  | given {b : Broker T} {r : Request} {grantId grantedBy : Str} {expiresAt : Option T} {once : Bool}
      (called : call = .grant r grantId expiresAt once grantedBy)
      (awaiting : ∃ state ∈ w.broker.requests.get? r.requestId, state.Awaiting)
      (grants : b.grants = w.broker.grants.set grantId (r.grant grantId expiresAt once grantedBy)) :
      w.Goes call ⟨b, w.history ++ [.given (r.grant grantId expiresAt once grantedBy)]⟩
  | revoked {b : Broker T} {g : Grant T} (found : w.broker.grants.get? g.grantId = some g)
      (grants : b.grants = w.broker.grants.set g.grantId { g with state := .revoked })
      (keeps : ¬ w.Widens call) :
      w.Goes call ⟨b, w.history ++ [.revoked g.grantId]⟩

variable {w : World T} {call : Call T}

theorem World.after_of_wp {P : World T → Prop}
    (h : wp (perform clock call) (fun answer b => P ⟨b, w.history ++ [answer]⟩)
      (fun _ b => P ⟨b, w.history⟩) w.broker) :
  P (w.after clock call)
  := by
  unfold World.after
  unfold wp at h
  split at h
  next heq =>
    rw [heq]
    exact h
  next heq =>
    rw [heq]
    exact h

theorem World.goes_after (h : Sound w.broker.grants w.history) (call : Call T) :
  w.Goes call (w.after clock call)
  := by
  apply World.after_of_wp
  cases call with
  | authorize r =>
    unfold perform
    simp only [wp_bind, wp_get]
    apply wp_mono (wp_authorize h.id r)
    · intro answer b hanswer
      cases answer with
      | granted g =>
        obtain ⟨g₀, hfound, rfl, hcovers, hgrants⟩ := hanswer
        exact .used hfound hcovers hgrants id
      | requested reasons => exact World.Goes.quiet (by rw [hanswer]; exact .refl _) trivial id
    · exact fun _ b hgrants => World.Goes.refused hgrants id
  | move requestId newState =>
    unfold perform
    rw [wp_map]
    apply wp_mono (wp_move requestId newState)
    · exact fun state b hdone => World.Goes.quiet (by rw [hdone.1]; exact .refl _) trivial id
    · exact fun _ b hsame => World.Goes.refused (by rw [hsame]) id
  | grant r grantId expiresAt once grantedBy =>
    unfold perform
    rw [wp_map]
    apply wp_mono (wp_grant r grantId expiresAt once grantedBy)
    · rintro g b ⟨hawaiting, rfl, hgrants⟩
      exact .given rfl hawaiting hgrants
    · rintro _ b ⟨rfl, hnot⟩
      exact World.Goes.refused rfl fun hwidens => hnot hwidens.1
  | deny requestId =>
    unfold perform deny
    rw [wp_map]
    apply wp_mono (wp_move requestId State.denied.name)
    · exact fun state b hdone => World.Goes.quiet (by rw [hdone.1]; exact .refl _) trivial id
    · exact fun _ b hsame => World.Goes.refused (by rw [hsame]) id
  | revoke grantId =>
    unfold perform
    simp only [wp_bind, wp_pure]
    apply wp_mono (wp_revoke grantId)
    · rintro _ b ⟨g, hg, hgrants⟩
      obtain rfl := h.id hg
      exact .revoked hg hgrants id
    · exact fun _ b hsame => World.Goes.refused (by rw [hsame]) id
  | expireDue =>
    unfold perform expireDue
    simp only [wp_bind, wp_now, wp_get, wp_pure]
    refine wp_mono (wp_expireAll _ _ w.broker.grants.nodup ?_) ?_ ?_
    · exact fun entry hentry => Dict.get?_eq_some.mpr hentry
    · exact fun _ b hadvances => World.Goes.quiet hadvances trivial id
    · exact fun _ _ hfalse => hfalse.elim

variable {w' : World T}

theorem Sound.goes (h : Sound w.broker.grants w.history)
    (hfresh : w.Fresh call) (hgoes : w.Goes call w') :
  Sound w'.broker.grants w'.history
  := by
  cases hgoes with
  | @refused b hgrants hkeeps =>
    rw [hgrants]
    exact h
  | @quiet b answer hadvances hquiet hkeeps =>
    apply (h.advances hadvances).answered
    · rintro grantId rfl
      exact hquiet.elim
    · rintro _ _ _ rfl
      exact hquiet.elim
  | @used b r g now hfound hcovers hgrants hkeeps =>
    have hstate := (covers_of_whyNotCovered hcovers).2.1
    have hadvances : Advances w.broker.grants b.grants := by
      rw [hgrants]
      exact .set hfound ⟨rfl, Nat.le_succ _, fun hrevoked => hrevoked⟩
    apply (h.advances hadvances).answered
    · rintro grantId ⟨⟩
    · rintro _ _ _ ⟨⟩
      refine ⟨g.used, ?_, Nat.le_add_left 1 g.uses⟩
      rw [hgrants]
      exact (Dict.get?_set ..).trans (if_pos rfl)
  | @given b r grantId grantedBy expiresAt once hcalled hawaiting hgrants =>
    rw [hcalled] at hfresh
    have hset : Sound (w.broker.grants.set grantId (r.grant grantId expiresAt once grantedBy))
        (w.history ++ [.given (r.grant grantId expiresAt once grantedBy)]) :=
      Sound.set (g := r.grant grantId expiresAt once grantedBy) h hfresh
    rw [← hgrants] at hset
    exact hset
  | @revoked b g hfound hgrants hkeeps =>
    have hadvances : Advances w.broker.grants b.grants := by
      rw [hgrants]
      exact .set hfound ⟨rfl, le_refl _, fun _ => rfl⟩
    apply (h.advances hadvances).answered
    · rintro grantId ⟨⟩
      refine ⟨{ g with state := .revoked }, ?_, rfl⟩
      rw [hgrants]
      exact (Dict.get?_set ..).trans (if_pos rfl)
    · rintro _ _ _ ⟨⟩

section

omit [LE T] [DecidableLE T]

theorem requestId_lastRecorded {requestId : Str} (h : lastRecorded history requestId = some r) :
  r.requestId = requestId
  := by
  obtain ⟨answer, -, hanswer⟩ := List.exists_of_findSome?_eq_some h
  split at hanswer
  next r' =>
    split at hanswer
    next heq =>
      cases hanswer
      exact heq
    next => cases hanswer
  next => cases hanswer

theorem Request.matches_iff {r r' : Request} (hid : r'.requestId = r.requestId) (grantId : Str)
    (expiresAt : Option T) (once : Bool) (grantedBy : Str) :
  (r.grant grantId expiresAt once grantedBy).Matches r' ↔ r' = r
  := by
  constructor
  · intro h
    cases r
    cases r'
    obtain ⟨h1, h2, h3, h4, h5, h6, h7, h8⟩ := h
    simp only [Request.grant] at *
    simp [*]
  · rintro rfl
    exact ⟨rfl, rfl, rfl, rfl, rfl, rfl, rfl, rfl⟩

end

omit [DecidableLE T] in
theorem World.Lawful.concat {w : World T} (h : w.Lawful) {answer : Answer T}
    (hsound : Sound b.grants (w.history ++ [answer]))
    (hgiven : ∀ g, answer = .given g →
      (∃ r, lastRecorded w.history g.sourceRequest = some r ∧ g.Matches r) ∧
        .moved g.sourceRequest .denied ∉ w.history)
    (hused : ∀ r g now, answer = .used r g now → Uses w.history r g now) :
  World.Lawful ⟨b, w.history ++ [answer]⟩
  where
  scopes := hsound.given
  given := by
    intro before g hbefore
    rcases List.prefix_concat_iff.mp hbefore with heq | hbefore
    · obtain ⟨rfl, hlast⟩ := List.append_singleton_inj.mp heq
      exact hgiven g hlast.symm
    · exact h.given hbefore
  used := by
    intro before r g now hbefore
    rcases List.prefix_concat_iff.mp hbefore with heq | hbefore
    · obtain ⟨rfl, hlast⟩ := List.append_singleton_inj.mp heq
      exact hused r g now hlast.symm
    · exact h.used hbefore

theorem Sound.uses (h : Sound w.broker.grants w.history)
    (hfound : w.broker.grants.get? g.grantId = some g) (hcovers : whyNotCovered g r now = .ok none) :
  Uses w.history r g.used now
  := by
  obtain ⟨hcovered, hstate, honce⟩ := covers_of_whyNotCovered hcovers
  refine ⟨?_, ?_, ?_, ?_⟩
  · obtain ⟨g₀, hgiven, hsame⟩ := h.given hfound
    exact ⟨g₀, hgiven, hsame.trans rfl⟩
  · intro hrevoked
    obtain ⟨o, ho, hostate⟩ := h.revoked hrevoked
    have heq : o = g := Option.some.inj (ho.symm.trans hfound)
    rw [heq, hstate] at hostate
    cases hostate
  · exact ⟨hcovered.unexpired, hcovered.project, hcovered.capability, hcovered.host,
      hcovered.providerAccount, hcovered.effectClass, hcovered.resources, hcovered.access,
      hcovered.dataClass⟩
  · intro hone r' g' now' hused heq
    obtain ⟨o, ho, huses⟩ := h.used hused
    rw [heq] at ho
    have hsame : o = g := Option.some.inj (ho.symm.trans hfound)
    rw [hsame, honce hone] at huses
    omega

theorem World.lawful_goes_iff (h : Sound w.broker.grants w.history)
    (hfresh : w.Fresh call) (hlawful : w.Lawful) (hgoes : w.Goes call w') :
  w'.Lawful ↔ ¬ w.Widens call
  := by
  have hsound := h.goes hfresh hgoes
  cases hgoes with
  | @refused b hgrants hkeeps =>
    exact iff_of_true ⟨hsound.given, hlawful.given, hlawful.used⟩ hkeeps
  | @quiet b answer hadvances hquiet hkeeps =>
    refine iff_of_true (hlawful.concat hsound ?_ ?_) hkeeps
    · rintro g rfl
      exact hquiet.elim
    · rintro r g now rfl
      exact hquiet.elim
  | @used b r g now hfound hcovers hgrants hkeeps =>
    refine iff_of_true (hlawful.concat hsound ?_ ?_) hkeeps
    · rintro _ ⟨⟩
    · rintro _ _ _ ⟨⟩
      exact h.uses hfound hcovers
  | @given b r grantId grantedBy expiresAt once hcalled hawaiting hgrants =>
    rw [hcalled, World.Widens, not_and_or, not_or, not_not]
    constructor
    · intro hall
      obtain ⟨⟨r', hr', hmatches⟩, hdenied⟩ := hall.given (List.prefix_refl _)
      rw [Request.matches_iff (requestId_lastRecorded hr')] at hmatches
      rw [hmatches] at hr'
      exact .inr ⟨hr', hdenied⟩
    · rintro (hnot | ⟨hlast, hdenied⟩)
      · exact absurd hawaiting hnot
      · apply hlawful.concat hsound
        · rintro _ ⟨⟩
          exact ⟨⟨r, hlast, (Request.matches_iff rfl ..).mpr rfl⟩, hdenied⟩
        · rintro _ _ _ ⟨⟩
  | @revoked b g hfound hgrants hkeeps =>
    refine iff_of_true (hlawful.concat hsound ?_ ?_) hkeeps
    · rintro _ ⟨⟩
    · rintro _ _ _ ⟨⟩

omit [LE T] [DecidableLE T] in
def Call.grantId? : Call T → Option Str
  | .grant _ grantId _ _ _ => some grantId
  | _ => none

theorem World.Goes.id_of_get? (h : w.Goes call w')
    (hg : w'.broker.grants.get? gid = some g) :
  (∃ g', w.broker.grants.get? gid = some g') ∨ call.grantId? = some gid
  := by
  have hset : ∀ {o o' : Grant T}, w.broker.grants.get? o.grantId = some o →
      (w.broker.grants.set o.grantId o').get? gid = some g →
      ∃ g', w.broker.grants.get? gid = some g' := by
    intro o o' ho hg
    rw [Dict.get?_set] at hg
    split at hg
    next heq => exact ⟨o, by rw [heq, ho]⟩
    next => exact ⟨g, hg⟩
  cases h with
  | @refused b hgrants hkeeps => exact .inl ⟨g, by rw [← hgrants]; exact hg⟩
  | @quiet b answer hadvances hquiet hkeeps => exact .inl (hadvances.back hg)
  | @used b r o now hfound hcovers hgrants hkeeps =>
    dsimp only at hg
    rw [hgrants] at hg
    exact .inl (hset hfound hg)
  | @given b r grantId grantedBy expiresAt once hcalled hawaiting hgrants =>
    dsimp only at hg
    rw [hgrants, Dict.get?_set] at hg
    split at hg
    next heq => exact .inr (by rw [hcalled, heq]; rfl)
    next => exact .inl ⟨g, hg⟩
  | @revoked b o hfound hgrants hkeeps =>
    dsimp only at hg
    rw [hgrants] at hg
    exact .inl (hset hfound hg)

omit [LE T] [DecidableLE T] in
theorem sound_start :
  Sound (World.start (T := T)).broker.grants World.start.history
  where
  id := by
    intro grantId g hg
    cases hg
  given := by
    intro grantId g hg
    cases hg
  revoked := by
    intro grantId hmem
    cases hmem
  used := by
    intro r g now hmem
    cases hmem

omit [DecidableLE T] in
theorem lawful_start :
  (World.start (T := T)).Lawful
  where
  scopes := sound_start.given
  given := by
    rintro before g hbefore
    simp [World.start] at hbefore
  used := by
    rintro before r g now hbefore
    simp [World.start] at hbefore

section

omit [LE T] [DecidableLE T]

theorem World.fresh_of_ids {ids : List Str}
    (hids : ∀ {gid g}, w.broker.grants.get? gid = some g → gid ∈ ids)
    (hnew : ∀ gid, call.grantId? = some gid → gid ∉ ids) :
  w.Fresh call
  := by
  cases call with
  | grant r grantId expiresAt once grantedBy =>
    by_contra hsome
    obtain ⟨g, hg⟩ := Option.ne_none_iff_exists'.mp hsome
    exact hnew grantId rfl (hids hg)
  | _ => trivial

theorem not_mem_ids {calls : List (Call T)}
    (hdistinct : ((calls ++ [call]).filterMap Call.grantId?).Nodup) (gid : Str)
    (hgid : call.grantId? = some gid) :
  gid ∉ calls.filterMap Call.grantId?
  := by
  rw [List.filterMap_append, List.nodup_append] at hdistinct
  intro hmem
  exact hdistinct.2.2 gid hmem gid (by simp [hgid]) rfl

end

theorem sound_run (calls : List (Call T)) (hdistinct : (calls.filterMap Call.grantId?).Nodup) :
  Sound (World.run clock calls).broker.grants (World.run clock calls).history ∧
    ∀ {gid g}, (World.run clock calls).broker.grants.get? gid = some g →
      gid ∈ calls.filterMap Call.grantId?
  := by
  induction calls using List.reverseRecOn with
  | nil =>
    refine ⟨sound_start, ?_⟩
    intro gid g hg
    cases hg
  | append_singleton calls call ih =>
    have hnew := not_mem_ids hdistinct
    rw [List.filterMap_append, List.nodup_append] at hdistinct
    obtain ⟨hsound, hids⟩ := ih hdistinct.1
    have hgoes : (World.run clock calls).Goes call ((World.run clock calls).after clock call) :=
      World.goes_after hsound call
    rw [World.run, List.foldl_concat]
    refine ⟨hsound.goes (World.fresh_of_ids hids hnew) hgoes, ?_⟩
    intro gid g hg
    rw [List.filterMap_append, List.mem_append]
    rcases hgoes.id_of_get? hg with ⟨g', hg'⟩ | hcalled
    · exact .inl (hids hg')
    · exact .inr (by simp [hcalled])

/-- No authority is widened exactly if no decision is presented with another request than the one recorded last under
its id, or with an id that was denied. -/
theorem lawful_run_iff (clock : Nat → T) (calls : List (Call T))
    (hdistinct : (calls.filterMap Call.grantId?).Nodup) :
  (∀ first, first <+: calls → (World.run clock first).Lawful) ↔
    ∀ first call, first ++ [call] <+: calls → ¬ (World.run clock first).Widens call
  := by
  refine @Run.along_iff_of _ _ (World.after clock)
    (fun w => Sound w.broker.grants w.history) World.Lawful (fun w call => w.Fresh call) World.Widens
    ?_ ?_ _ sound_start lawful_start calls ?_
  · exact fun w call hsound hfresh => hsound.goes hfresh (World.goes_after hsound call)
  · exact fun w call hsound hfresh hlawful =>
      World.lawful_goes_iff hsound hfresh hlawful (World.goes_after hsound call)
  · rintro first call ⟨rest, rfl⟩
    rw [List.filterMap_append, List.nodup_append] at hdistinct
    have hnew := not_mem_ids hdistinct.1
    have hbefore := hdistinct.1
    rw [List.filterMap_append, List.nodup_append] at hbefore
    exact World.fresh_of_ids (sound_run first hbefore.1).2 hnew

end Calls

/-! ### A wider decision, and a denied id -/

section Example

def reads : Request where
  requestId := text "r1"
  project := text "p1"
  capability := text "network.read"
  resources := {text "api.github.com:443"}
  host := text "win-1"
  providerAccount := []
  dataClass := text "public"
  access := text "read"
  effectClass := text "idempotent"

def controls : Request :=
  { reads with access := text "control" }

def wider : List (Call ℕ) :=
  [.authorize reads, .grant controls (text "g1") none false (text "user"), .authorize controls]

theorem lawful_wider_iff :
  (∀ first, first <+: wider → (World.run id first).Lawful) ↔
    ∀ first call, first ++ [call] <+: wider → ¬ (World.run id first).Widens call
  := lawful_run_iff id wider (by decide)

def deniedAgain : List (Call ℕ) :=
  [.authorize reads, .deny (text "r1"), .authorize reads,
    .grant reads (text "g1") none false (text "user")]

/-- The grant of the first run has more access than was asked for, and the one of the second run is for an
id that was denied. -/
theorem not_lawful :
  ¬ (World.run id wider).Lawful ∧ ¬ (World.run id deniedAgain).Lawful
  := by
  constructor
  · intro hlawful
    have hinit : [Answer.recorded reads] ++ [.given (controls.grant (text "g1") none false (text "user"))]
        <+: (World.run id wider).history :=
      ⟨[.used controls (controls.grant (text "g1") none false (text "user")).used 3], rfl⟩
    obtain ⟨⟨r, hr, hmatches⟩, -⟩ := hlawful.given hinit
    have heq : some reads = some r := hr
    cases heq
    exact absurd hmatches.access (by decide)
  · intro hlawful
    have hinit : [Answer.recorded reads, .moved (text "r1") .denied, .recorded reads] ++
        [.given (reads.grant (text "g1") none false (text "user"))] <+:
          (World.run id deniedAgain).history := ⟨[], rfl⟩
    exact (hlawful.given hinit).2 (by simp [Request.grant, reads])

end Example

end Courier.Grants
