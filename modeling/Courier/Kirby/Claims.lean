import Courier.Kirby
import Courier.Library.Holders

/-!
# Claims of workkeys

What the sessions claim and what is recorded of the workkeys are linked (`Sound`).  A change of
the state keeps what it has settled (`Moves`), and if it replaces no session, it keeps the
sessions (`Stays`). -/

namespace Courier.Kirby

open Program Holders

/-! ### Claims -/

def Session.claim? (s : Session) : Option (Str × Str × Int) :=
  if s.Live ∧ s.workkey ≠ [] then some (s.workkey, s.sessionId, s.token) else none

def Workkey.claim? (w : Workkey) : Option (Str × Int) :=
  if w.state = .claimed then some (w.owner, w.token) else none

def State.holds (st : State) (slot : Str) : Option (Str × Str × Int) :=
  (st.sessions.get? slot).bind Session.claim?

def State.held (st : State) (key : Str) : Option (Str × Int) :=
  (st.workkeys.get? key).bind Workkey.claim?

theorem Session.claim?_eq_some {s : Session} {key : Str} {c : Str × Int} :
  s.claim? = some (key, c) ↔ s.Live ∧ s.workkey ≠ [] ∧ s.workkey = key ∧ (s.sessionId, s.token) = c
  := by
  unfold Session.claim?
  split
  next h => simp [h.1, h.2]
  next h =>
    simp only [reduceCtorEq, false_iff]
    rintro ⟨hlive, hne, -⟩
    exact h ⟨hlive, hne⟩

theorem Workkey.claim?_eq_some {w : Workkey} {c : Str × Int} :
  w.claim? = some c ↔ w.state = .claimed ∧ (w.owner, w.token) = c
  := by
  simp [Workkey.claim?]

theorem Workkey.claim?_eq_none {w : Workkey} :
  w.claim? = none ↔ w.state ≠ .claimed
  := by
  simp [Workkey.claim?]

theorem State.holds_of_get? {st : State} {slot : Str} {s : Session} (h : st.sessions.get? slot = some s) :
  st.holds slot = s.claim?
  := by
  rw [State.holds, h]
  rfl

theorem State.held_of_get? {st : State} {key : Str} {w : Workkey} (h : st.workkeys.get? key = some w) :
  st.held key = w.claim?
  := by
  rw [State.held, h]
  rfl

theorem State.holds_setSession (st : State) (slot : Str) (s : Session) :
  (st.setSession slot s).holds = Function.update st.holds slot s.claim?
  := by
  funext slot'
  rw [Function.update_apply, State.holds, State.setSession, Dict.get?_set]
  split <;> rfl

theorem State.held_setWorkkey (st : State) (key : Str) (w : Workkey) :
  (st.setWorkkey key w).held = Function.update st.held key w.claim?
  := by
  funext key'
  rw [Function.update_apply, State.held, State.setWorkkey, Dict.get?_set]
  split <;> rfl

/-! ### Sound states -/

structure Workkey.Named (w : Workkey) (key : Str) : Prop where
  named : w.key = key
  nonempty : key ≠ []
  kept : Json.fuse key = key
  unowned : w.state ≠ .claimed → w.owner = []

structure Session.Placed (s : Session) (slot : Str) : Prop where
  kept : Json.fuse slot = slot
  retired : ¬ s.Live → s.workkey = []
  pending : s.state = .wakePending → s.workkey ≠ []

structure Numbered (claims : List Claim) (last : Int) : Prop where
  increasing : (claims.map Claim.token).Pairwise (· < ·)
  known : ∀ c ∈ claims, c.token ≤ last

theorem Numbered.mono {claims : List Claim} {last last' : Int} (h : Numbered claims last)
    (hle : last ≤ last') :
  Numbered claims last'
  := ⟨h.increasing, fun c hc => (h.known c hc).trans hle⟩

theorem Numbered.concat {claims : List Claim} {last : Int} (h : Numbered claims last) {c : Claim}
    (hc : c.token = last + 1) :
  Numbered (claims ++ [c]) (last + 1)
  where
  increasing := by
    rw [List.map_append, List.pairwise_append]
    refine ⟨h.increasing, List.pairwise_singleton _ _, ?_⟩
    intro token htoken token' htoken'
    obtain ⟨d, hd, rfl⟩ := List.mem_map.mp htoken
    obtain rfl := List.mem_singleton.mp htoken'
    have hknown := h.known d hd
    omega
  known := by
    intro d hd
    rcases List.mem_append.mp hd with hd | hd
    · have hknown := h.known d hd
      omega
    · obtain rfl := List.mem_singleton.mp hd
      exact hc.le

theorem Numbered.unique {claims : List Claim} {last : Int} (h : Numbered claims last) {c d : Claim}
    (hc : c ∈ claims) (hd : d ∈ claims) (htoken : c.token = d.token) :
  c = d
  := by
  have hnodup : (claims.map Claim.token).Nodup := h.increasing.imp fun hlt => hlt.ne
  exact List.inj_on_of_nodup_map hnodup hc hd htoken

section Limits

variable [Surroundings]

structure Sound (st : State) (claims : List Claim) : Prop where
  linked : Linked st.holds st.held
  workkeys : ∀ {key w}, st.workkeys.get? key = some w → w.Named key
  sessions : ∀ {slot s}, st.sessions.get? slot = some s → s.Placed slot
  bounded : st.liveCount ≤ Surroundings.maxSlots
  numbered : Numbered claims st.tokenSeq
  given : ∀ {slot key c}, st.holds slot = some (key, c) → ∃ d ∈ claims, d.key = key ∧ d.token = c.2

variable {st st' st'' : State} {claims claims' claims'' : List Claim} {slot key : Str}
  {s s' : Session} {w w' : Workkey}

structure State.Same (st st' : State) : Prop where
  workkeys : st'.workkeys = st.workkeys
  sessions : st'.sessions = st.sessions
  tokenSeq : st'.tokenSeq = st.tokenSeq

section

omit [Surroundings]

theorem State.Same.refl (st : State) :
  st.Same st
  := ⟨rfl, rfl, rfl⟩

theorem State.Same.trans (h : st.Same st') (h' : st'.Same st'') :
  st.Same st''
  := ⟨h'.workkeys.trans h.workkeys, h'.sessions.trans h.sessions, h'.tokenSeq.trans h.tokenSeq⟩

theorem State.Same.symm (h : st.Same st') :
  st'.Same st
  := ⟨h.workkeys.symm, h.sessions.symm, h.tokenSeq.symm⟩

end

theorem Sound.same (h : Sound st claims) (hsame : st.Same st') :
  Sound st' claims
  := by
  obtain ⟨workkeys, sessions, counters, lastSnapshot, tokenSeq⟩ := st'
  obtain ⟨rfl, rfl, rfl⟩ := hsame
  exact ⟨h.linked, h.workkeys, h.sessions, h.bounded, h.numbered, h.given⟩

section

omit [Surroundings]

theorem State.liveCount_setSession (st : State) (slot : Str) (s : Session) :
  (st.setSession slot s).liveCount + ((st.sessions.get? slot).any fun s => decide s.Live).toNat =
    st.liveCount + (decide s.Live).toNat
  := Dict.countP_values_set st.sessions slot s fun s => decide s.Live

theorem State.liveCount_setSession_le (hs : st.sessions.get? slot = some s)
    (hlive : s'.Live → s.Live) :
  (st.setSession slot s').liveCount ≤ st.liveCount
  := by
  have hcount := st.liveCount_setSession slot s'
  rw [hs, Option.any_some] at hcount
  by_cases hnew : s'.Live
  · rw [decide_eq_true hnew, decide_eq_true (hlive hnew)] at hcount
    omega
  · rw [decide_eq_false hnew] at hcount
    simp only [Bool.toNat_false] at hcount
    omega

end

/-- A session takes a slot, and a workkey is changed with it. -/
theorem Sound.assign (h : Sound st claims) (hplaced : s'.Placed slot) (hnamed : w'.Named key)
    (hlinked : Linked (Function.update st.holds slot s'.claim?)
      (Function.update st.held key w'.claim?))
    (hbounded : (st.setSession slot s').liveCount ≤ Surroundings.maxSlots) {token : Int}
    (hnumbered : Numbered claims' token) (hmore : ∀ c ∈ claims, c ∈ claims')
    (hgiven : ∀ {key c}, s'.claim? = some (key, c) → ∃ d ∈ claims', d.key = key ∧ d.token = c.2) :
  Sound { (st.setSession slot s').setWorkkey key w' with tokenSeq := token } claims'
  where
  linked := by
    have hholds := st.holds_setSession slot s'
    have hheld := (st.setSession slot s').held_setWorkkey key w'
    rw [← hholds] at hlinked
    exact hheld ▸ hlinked
  workkeys := by
    intro key' w hw
    simp only [State.setWorkkey, State.setSession, Dict.get?_set] at hw
    split at hw
    next heq =>
      cases hw
      rwa [heq]
    next => exact h.workkeys hw
  sessions := by
    intro slot' s hs
    simp only [State.setWorkkey, State.setSession, Dict.get?_set] at hs
    split at hs
    next heq =>
      cases hs
      rwa [heq]
    next => exact h.sessions hs
  bounded := hbounded
  numbered := hnumbered
  given := by
    intro slot' key' c hc
    have hholds := (st.holds_setSession slot s') ▸ hc
    rw [Function.update_apply] at hholds
    split at hholds
    next => exact hgiven hholds
    next =>
      obtain ⟨d, hd, heq⟩ := h.given hholds
      exact ⟨d, hmore d hd, heq⟩

theorem Sound.setSession (h : Sound st claims) (hplaced : s'.Placed slot)
    (hclaim : s'.claim? = st.holds slot)
    (hbounded : (st.setSession slot s').liveCount ≤ Surroundings.maxSlots) :
  Sound (st.setSession slot s') claims
  where
  linked := by
    rw [State.holds_setSession, hclaim, Function.update_eq_self]
    exact h.linked
  workkeys := h.workkeys
  sessions := by
    intro slot' s hs
    simp only [State.setSession, Dict.get?_set] at hs
    split at hs
    next heq =>
      cases hs
      rwa [heq]
    next => exact h.sessions hs
  bounded := hbounded
  numbered := h.numbered
  given := by
    intro slot' key' c hc
    rw [State.holds_setSession, hclaim, Function.update_eq_self] at hc
    exact h.given hc

theorem Sound.setWorkkey (h : Sound st claims) (hnamed : w'.Named key)
    (hclaim : w'.claim? = st.held key) :
  Sound (st.setWorkkey key w') claims
  where
  linked := by
    rw [State.held_setWorkkey, hclaim, Function.update_eq_self]
    exact h.linked
  workkeys := by
    intro key' w hw
    simp only [State.setWorkkey, Dict.get?_set] at hw
    split at hw
    next heq =>
      cases hw
      rwa [heq]
    next => exact h.workkeys hw
  sessions := h.sessions
  bounded := h.bounded
  numbered := h.numbered
  given := h.given

/-! ### Later states -/

def Workkey.NonIdempotent (w : Workkey) : Prop :=
  w.effectClass = text "non_idempotent"

def Workkey.Settled (w : Workkey) : Prop :=
  w.state = .done ∨ w.state = .blocked ∨ w.state = .failedFinal

structure Workkey.Becomes (w w' : Workkey) : Prop where
  settled : w.Settled → w'.state = w.state
  effect : w.NonIdempotent → w'.NonIdempotent

def State.Forward (st st' : State) : Prop :=
  ∀ ⦃key w⦄, st.workkeys.get? key = some w → ∃ w', st'.workkeys.get? key = some w' ∧ w.Becomes w'

def State.Steady (st st' : State) : Prop :=
  ∀ ⦃slot s⦄, st.sessions.get? slot = some s → s.Live →
    ∃ s', st'.sessions.get? slot = some s' ∧ s'.Live ∧ s'.generation = s.generation

/-- The second state is sound, and keeps what the first one has settled. -/
structure Moves (st st' : State) (claims' : List Claim) : Prop where
  sound : Sound st' claims'
  forward : st.Forward st'

structure Stays (st st' : State) (claims' : List Claim) : Prop extends Moves st st' claims' where
  steady : st.Steady st'

section

omit [Surroundings]

theorem Workkey.becomes_refl (w : Workkey) :
  w.Becomes w
  := ⟨fun _ => rfl, id⟩

theorem Workkey.Becomes.trans {w'' : Workkey} (h : w.Becomes w') (h' : w'.Becomes w'') :
  w.Becomes w''
  where
  settled := by
    intro hsettled
    have hstate := h.settled hsettled
    rw [h'.settled _, hstate]
    unfold Workkey.Settled
    rwa [hstate]
  effect := fun heffect => h'.effect (h.effect heffect)

theorem State.forward_of_workkeys (h : st'.workkeys = st.workkeys) :
  st.Forward st'
  := by
  intro key w hw
  exact ⟨w, by rw [h, hw], w.becomes_refl⟩

theorem State.Forward.trans (h : st.Forward st') (h' : st'.Forward st'') :
  st.Forward st''
  := by
  intro key w hw
  obtain ⟨w', hw', hbecomes⟩ := h hw
  obtain ⟨w'', hw'', hbecomes'⟩ := h' hw'
  exact ⟨w'', hw'', hbecomes.trans hbecomes'⟩

theorem State.forward_of_set (h : ∀ w, st.workkeys.get? key = some w → w.Becomes w')
    (hset : st'.workkeys = st.workkeys.set key w') :
  st.Forward st'
  := by
  intro key' w hw
  by_cases heq : key' = key
  · obtain rfl := heq
    refine ⟨w', ?_, h w hw⟩
    rw [hset, Dict.get?_set, if_pos rfl]
  · refine ⟨w, ?_, w.becomes_refl⟩
    rw [hset, Dict.get?_set, if_neg heq, hw]

theorem State.steady_of_sessions (h : st'.sessions = st.sessions) :
  st.Steady st'
  := by
  intro slot s hs hlive
  exact ⟨s, by rw [h, hs], hlive, rfl⟩

theorem State.Steady.trans (h : st.Steady st') (h' : st'.Steady st'') :
  st.Steady st''
  := by
  intro slot s hs hlive
  obtain ⟨s', hs', hlive', hgen⟩ := h hs hlive
  obtain ⟨s'', hs'', hlive'', hgen'⟩ := h' hs' hlive'
  exact ⟨s'', hs'', hlive'', hgen'.trans hgen⟩

theorem State.steady_of_set
    (h : ∀ s, st.sessions.get? slot = some s → s.Live → s'.Live ∧ s'.generation = s.generation)
    (hset : st'.sessions = st.sessions.set slot s') :
  st.Steady st'
  := by
  intro slot' s hs hlive
  by_cases heq : slot' = slot
  · obtain rfl := heq
    refine ⟨s', ?_, h s hs hlive⟩
    rw [hset, Dict.get?_set, if_pos rfl]
  · refine ⟨s, ?_, hlive, rfl⟩
    rw [hset, Dict.get?_set, if_neg heq, hs]

end

theorem Sound.moves (h : Sound st claims) :
  Moves st st claims
  := ⟨h, State.forward_of_workkeys rfl⟩

theorem Sound.stays (h : Sound st claims) :
  Stays st st claims
  := ⟨h.moves, State.steady_of_sessions rfl⟩

theorem Moves.trans (h : Moves st st' claims') (h' : Moves st' st'' claims'') :
  Moves st st'' claims''
  := ⟨h'.sound, h.forward.trans h'.forward⟩

theorem Stays.trans (h : Stays st st' claims') (h' : Stays st' st'' claims'') :
  Stays st st'' claims''
  := ⟨h.toMoves.trans h'.toMoves, h.steady.trans h'.steady⟩

theorem Sound.stays_same (h : Sound st claims) (hsame : st.Same st') :
  Stays st st' claims
  := ⟨⟨h.same hsame, State.forward_of_workkeys hsame.workkeys⟩,
    State.steady_of_sessions hsame.sessions⟩

theorem Sound.stays_setSession (h : Sound st claims) (hs : st.sessions.get? slot = some s)
    (hclaim : s'.claim? = s.claim?) (hlive : s'.Live ↔ s.Live) (hgeneration : s'.generation = s.generation)
    (hretired : ¬ s'.Live → s'.workkey = []) (hpending : s'.state = .wakePending → s'.workkey ≠ []) :
  Stays st (st.setSession slot s') claims
  := by
  have hplaced : s'.Placed slot := ⟨(h.sessions hs).kept, hretired, hpending⟩
  have hbounded := (State.liveCount_setSession_le hs hlive.mp).trans h.bounded
  have hsound := h.setSession hplaced (hclaim.trans (State.holds_of_get? hs).symm) hbounded
  refine ⟨⟨hsound, State.forward_of_workkeys rfl⟩, State.steady_of_set ?_ rfl⟩
  intro s₀ hs₀ hlive₀
  rw [hs] at hs₀
  cases hs₀
  exact ⟨hlive.mpr hlive₀, hgeneration⟩

theorem Sound.stays_setWorkkey (h : Sound st claims) (hw : st.workkeys.get? key = some w)
    (hkey : w'.key = w.key) (hstate : w'.state = w.state) (howner : w'.owner = w.owner)
    (htoken : w'.token = w.token) (heffect : w'.effectClass = w.effectClass) :
  Stays st (st.setWorkkey key w') claims
  := by
  have hnamed := h.workkeys hw
  have hnamed' : w'.Named key := by
    refine ⟨hkey.trans hnamed.named, hnamed.nonempty, hnamed.kept, ?_⟩
    rw [hstate, howner]
    exact hnamed.unowned
  have hclaim : w'.claim? = w.claim? := by
    unfold Workkey.claim?
    rw [hstate, howner, htoken]
  have hsound := h.setWorkkey hnamed' (hclaim.trans (State.held_of_get? hw).symm)
  refine ⟨⟨hsound, State.forward_of_set ?_ rfl⟩, State.steady_of_sessions rfl⟩
  intro w₀ hw₀
  rw [hw] at hw₀
  cases hw₀
  refine ⟨fun _ => hstate, ?_⟩
  unfold Workkey.NonIdempotent
  rw [heffect]
  exact id

end Limits

end Courier.Kirby
