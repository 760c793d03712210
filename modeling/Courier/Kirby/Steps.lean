import Courier.Kirby.Claims

/-!
# What the calls keep

Every part of a call, waking a session, ending its turn and replacing it among them, keeps the
claims linked and the settled workkeys settled. -/

namespace Courier.Kirby

open Program Holders

variable [Surroundings] {st st' : State} {claims : List Claim} {slot key : Str} {s s' : Session}
  {w : Workkey}

/-! ### Parts of the calls -/

def World.Saved (w : World) : Prop :=
  (∃ st, w.file = some st ∧ st.Same w.state) ∨ (State.load w.file).Same w.state

section

omit [Surroundings]

theorem World.saved_of_file {world : World} (h : world.file = some world.state) :
  world.Saved
  := .inl ⟨world.state, h, State.Same.refl _⟩

theorem World.Saved.same {world world' : World} (h : world.Saved) (hfile : world'.file = world.file)
    (hstate : world.state.Same world'.state) :
  world'.Saved
  := by
  unfold World.Saved
  rw [hfile]
  rcases h with ⟨st, hst, hsame⟩ | hsame
  · exact .inl ⟨st, hst, hsame.trans hstate⟩
  · exact .inr (hsame.trans hstate)

end

section Parts

variable {α : Type} {raised : KirbyError → World → Prop} {world : World}

variable {normal : Unit → World → Prop}

section

omit [Surroundings]

@[simp]
theorem wp_save :
  wp save normal raised world ↔ normal () { world with file := some world.state }
  := Iff.rfl

@[simp]
theorem wp_modifyState (f : State → State) :
  wp (modifyState f) normal raised world ↔ normal () { world with state := f world.state }
  := Iff.rfl

@[simp]
theorem wp_ask (answer : Nat → α) {normal : α → World → Prop} :
  wp (ask answer) normal raised world ↔
    normal (answer world.asked) { world with asked := world.asked + 1 }
  := Iff.rfl

end

section

omit [Surroundings]

theorem wp_sessionAt (hs : world.state.sessions.get? slot = some s) {normal : Session → World → Prop} :
  wp (sessionAt slot) normal raised world ↔ normal s world
  := by
  simp [sessionAt, hs]

theorem wp_withSession {f : Session → KirbyM α} {normal : α → World → Prop}
    (hnone : raised (.keyError slot) world)
    (hsome : ∀ s, world.state.sessions.get? slot = some s → wp (f s) normal raised world) :
  wp (sessionAt slot >>= f) normal raised world
  := by
  cases hs : world.state.sessions.get? slot with
  | none => simpa [sessionAt, hs] using hnone
  | some s =>
    rw [wp_bind, wp_sessionAt hs]
    exact hsome s hs

end

theorem Sound.live_of_workkey (h : Sound st claims) (hs : st.sessions.get? slot = some s)
    (hworkkey : s.workkey ≠ []) :
  s.Live
  := by
  by_contra hretired
  exact hworkkey ((h.sessions hs).retired hretired)

theorem Sound.holds_of_workkey (h : Sound st claims) (hs : st.sessions.get? slot = some s)
    (hworkkey : s.workkey ≠ []) :
  st.holds slot = some (s.workkey, s.sessionId, s.token)
  := by
  rw [State.holds_of_get? hs]
  exact Session.claim?_eq_some.mpr ⟨h.live_of_workkey hs hworkkey, hworkkey, rfl, rfl⟩

theorem Sound.owned (h : Sound st claims) (hs : st.sessions.get? slot = some s)
    (hworkkey : s.workkey ≠ []) :
  ∃ w, st.workkeys.get? s.workkey = some w ∧ w.state = .claimed ∧ w.owner = s.sessionId ∧
    w.token = s.token
  := by
  have hheld := h.linked.recorded (h.holds_of_workkey hs hworkkey)
  obtain ⟨w, hw, hclaim⟩ := Option.bind_eq_some_iff.mp hheld
  obtain ⟨hclaimed, heq⟩ := Workkey.claim?_eq_some.mp hclaim
  exact ⟨w, hw, hclaimed, congrArg Prod.fst heq, congrArg Prod.snd heq⟩

theorem wp_ownsWorkkey (h : Sound world.state claims) (hs : world.state.sessions.get? slot = some s)
    {normal : Bool → World → Prop} :
  wp (ownsWorkkey s) normal raised world ↔ normal (decide (s.workkey ≠ [])) world
  := by
  by_cases hempty : s.workkey = []
  · simp [ownsWorkkey, hempty]
  · obtain ⟨w, hw, -, howner, -⟩ := h.owned hs hempty
    simp [ownsWorkkey, hempty, hw, howner]

omit [Surroundings] in
theorem Session.claim?_congr (hlive : s'.Live ↔ s.Live) (hworkkey : s'.workkey = s.workkey)
    (hid : s'.sessionId = s.sessionId) (htoken : s'.token = s.token) :
  s'.claim? = s.claim?
  := by
  unfold Session.claim?
  rw [hworkkey, hid, htoken]
  simp only [hlive]

theorem Sound.stays_state (h : Sound st claims) (hs : st.sessions.get? slot = some s) (hlive : s.Live)
    {state : SessionState} (hstate : state ≠ .retired) (hpending : state = .wakePending → s.workkey ≠ []) :
  Stays st (st.setSession slot { s with state := state }) claims
  := by
  have hlive' : ({ s with state := state } : Session).Live ↔ s.Live := iff_of_true hstate hlive
  apply h.stays_setSession hs (Session.claim?_congr hlive' rfl rfl rfl) hlive' rfl _ hpending
  intro hretired
  exact absurd hstate hretired

omit [Surroundings] in
theorem State.nextWorkkey_eq_some (h : st.nextWorkkey = some w) :
  w ∈ st.workkeys.values ∧ w.state = .open
  := by
  have hmem : w ∈ st.readyWorkkeys := List.mem_of_mem_head? h
  unfold State.readyWorkkeys at hmem
  rw [(List.perm_insertionSort _ _).mem_iff, List.mem_filter] at hmem
  exact ⟨hmem.1, (of_decide_eq_true hmem.2).1⟩

theorem Sound.get?_of_mem (h : Sound st claims) (hw : w ∈ st.workkeys.values) :
  st.workkeys.get? w.key = some w
  := by
  obtain ⟨key, hkey⟩ := Dict.mem_values.mp hw
  rwa [(h.workkeys hkey).named]

def State.taken (st : State) (slot : Str) (s : Session) (w : Workkey) : State :=
  { (st.setSession slot (claimed s w (st.tokenSeq + 1)).1).setWorkkey w.key
      (claimed s w (st.tokenSeq + 1)).2 with tokenSeq := st.tokenSeq + 1 }

theorem Sound.moves_taken (h : Sound st claims) (hs : st.sessions.get? slot = some s) (hlive : s.Live)
    (hlive' : s'.Live) (hw : st.workkeys.get? w.key = some w) (hstate : ¬ w.Settled)
    (hlinked : ∀ c, Linked (Function.update st.holds slot (some (w.key, c)))
      (Function.update st.held w.key (some c))) :
  Moves st (st.taken slot s' w) (claims ++ [⟨w.key, s'.sessionId, st.tokenSeq + 1⟩])
  := by
  have hnamed := h.workkeys hw
  have hsclaim : (claimed s' w (st.tokenSeq + 1)).1.claim? =
      some (w.key, s'.sessionId, st.tokenSeq + 1) :=
    Session.claim?_eq_some.mpr ⟨hlive', hnamed.nonempty, rfl, rfl⟩
  have hwclaim : (claimed s' w (st.tokenSeq + 1)).2.claim? = some (s'.sessionId, st.tokenSeq + 1) :=
    Workkey.claim?_eq_some.mpr ⟨rfl, rfl⟩
  have hplaced : (claimed s' w (st.tokenSeq + 1)).1.Placed slot :=
    ⟨(h.sessions hs).kept, fun hretired => absurd hlive' hretired, fun _ => hnamed.nonempty⟩
  have hnamed' : (claimed s' w (st.tokenSeq + 1)).2.Named w.key :=
    ⟨rfl, hnamed.nonempty, hnamed.kept, fun hunclaimed => absurd rfl hunclaimed⟩
  have hlive'' : (claimed s' w (st.tokenSeq + 1)).1.Live → s.Live := fun _ => hlive
  have hbounded := (State.liveCount_setSession_le hs hlive'').trans h.bounded
  constructor
  · apply h.assign hplaced hnamed' _ hbounded (h.numbered.concat rfl)
    · intro c hc
      exact List.mem_append_left _ hc
    · intro key c hc
      rw [hsclaim] at hc
      cases hc
      exact ⟨_, List.mem_append_right _ (List.mem_singleton_self _), rfl, rfl⟩
    · rw [hsclaim, hwclaim]
      exact hlinked _
  · refine State.forward_of_set ?_ rfl
    intro w₀ hw₀
    rw [hw] at hw₀
    cases hw₀
    exact ⟨fun hsettled => absurd hsettled hstate, id⟩

omit [Surroundings] in
theorem wp_takeSlot :
  wp (takeSlot slot s w) normal raised world ↔
    normal () { world with
      state := world.state.taken slot s w
      claims := world.claims ++ [⟨w.key, s.sessionId, world.state.tokenSeq + 1⟩] }
  := Iff.rfl

def World.Steps (world world' : World) : Prop :=
  Stays world.state world'.state world'.claims ∧ (world.Saved → world'.Saved)

omit [Surroundings] in
theorem wp_count {f : Counters → Counters}
    (h : ∀ st', world.state.Same st' → normal () { world with state := st' }) :
  wp (modifyState fun st => st.count f) normal raised world
  := h _ ⟨rfl, rfl, rfl⟩

theorem wp_countWake (h : Stays st world.state world.claims) (manual : Bool) :
  wp (countWake manual) (fun _ world' => Stays st world'.state world'.claims ∧ world'.Saved)
    (fun _ _ => False) world
  := by
  unfold countWake
  simp only [wp_bind, wp_modifyState, wp_save, wp_pure]
  exact ⟨h.trans (h.sound.stays_same ⟨rfl, rfl, rfl⟩), World.saved_of_file rfl⟩

theorem wp_wakeSession (h : Sound world.state world.claims)
    (hs : world.state.sessions.get? slot = some s) (hlive : s.Live) (manual : Bool) :
  wp (wakeSession slot s manual)
    (fun _ world' => Stays world.state world'.state world'.claims ∧ world'.Saved)
    (fun _ _ => False) world
  := by
  unfold wakeSession
  by_cases hbusy : s.state = .wakePending ∨ s.state = .working ∨ s.state = .recovering ∨ ¬ s.accepting
  · rw [if_pos hbusy]
    simp only [wp_bind, wp_modifyState, wp_save, wp_pure]
    exact ⟨h.stays_same ⟨rfl, rfl, rfl⟩, World.saved_of_file rfl⟩
  · rw [if_neg hbusy, wp_bind, wp_ownsWorkkey h hs]
    by_cases hempty : s.workkey = []
    · rw [if_neg (by simp [hempty]), wp_bind, wp_get]
      dsimp only
      cases hnext : world.state.nextWorkkey with
      | none =>
        simp only [wp_bind, wp_modifyState, wp_save, wp_pure]
        refine ⟨h.stays_state hs hlive ?_ ?_, World.saved_of_file rfl⟩
        · unfold State.restState
          split <;> simp
        · unfold State.restState
          split <;> simp
      | some w =>
        obtain ⟨hmem, hopen⟩ := State.nextWorkkey_eq_some hnext
        have hw := h.get?_of_mem hmem
        have hunheld : world.state.held w.key = none := by
          rw [State.held_of_get? hw, Workkey.claim?_eq_none, hopen]
          simp
        have hfree : world.state.holds slot = none := by
          rw [State.holds_of_get? hs]
          simp [Session.claim?, hempty]
        have hunsettled : ¬ w.Settled := by
          unfold Workkey.Settled
          rw [hopen]
          simp
        have hpending : ({ s with state := .wakePending } : Session).Live := by simp [Session.Live]
        have hmoves := h.moves_taken hs hlive hpending hw hunsettled fun c =>
          h.linked.take hfree hunheld c
        rw [wp_bind, wp_takeSlot]
        apply wp_countWake ⟨hmoves, State.steady_of_set _ rfl⟩
        intro s₀ hs₀ _
        rw [hs] at hs₀
        cases hs₀
        exact ⟨by simp [claimed, Session.Live], rfl⟩
    · rw [if_pos (by simp [hempty]), wp_bind, wp_modifyState]
      exact wp_countWake (h.stays_state hs hlive (by simp) fun _ => hempty) manual

theorem wp_newSession {provider activity : Str} {generation : Int} {normal : Session → World → Prop}
    (h : ∀ s : Session, s.state = .idle → s.workkey = [] → s.generation = generation →
      normal s { world with asked := world.asked + 2 }) :
  wp (newSession slot provider activity generation) normal raised world
  := by
  unfold newSession
  simp only [wp_bind, wp_ask, wp_pure]
  apply h <;> rfl

omit [Surroundings] in
theorem State.holds_of_retired (hretired : ∀ s, st.sessions.get? slot = some s → ¬ s.Live) :
  st.holds slot = none
  := by
  cases hs : st.sessions.get? slot with
  | none => simp [State.holds, hs]
  | some s => simp [State.holds, hs, Session.claim?, hretired s hs]

theorem Sound.stays_open (h : Sound st claims) (hslot : Json.fuse slot = slot)
    (hretired : ∀ s, st.sessions.get? slot = some s → ¬ s.Live) (hidle : s.state = .idle)
    (hempty : s.workkey = []) (hroom : st.liveCount < Surroundings.maxSlots) :
  Stays st (st.setSession slot s) claims
  := by
  have hlive : s.Live := by simp [Session.Live, hidle]
  have hplaced : s.Placed slot :=
    ⟨hslot, fun hnot => absurd hlive hnot, fun hpending => by simp [hidle] at hpending⟩
  have hclaim : s.claim? = st.holds slot := by
    rw [State.holds_of_retired hretired]
    simp [Session.claim?, hempty]
  have hbounded : (st.setSession slot s).liveCount ≤ Surroundings.maxSlots := by
    have hcount := st.liveCount_setSession slot s
    rw [decide_eq_true hlive, Bool.toNat_true] at hcount
    omega
  refine ⟨⟨h.setSession hplaced hclaim hbounded, State.forward_of_workkeys rfl⟩,
    State.steady_of_set ?_ rfl⟩
  intro s₀ hs₀ hlive₀
  exact absurd hlive₀ (hretired s₀ hs₀)

theorem wp_openSlot (h : Sound world.state world.claims) (hslot : Json.fuse slot = slot)
    (provider activity : Str) :
  wp (openSlot slot provider activity)
    (fun s world' => world.Steps world' ∧ world'.state.sessions.get? slot = some s ∧ s.Live)
    (fun _ world' => world' = world) world
  := by
  unfold openSlot
  rw [wp_bind, wp_get]
  dsimp only
  cases hexisting : (world.state.sessions.get? slot).filter fun s => decide s.Live with
  | some s =>
    obtain ⟨hs, hlive⟩ := Option.filter_eq_some_iff.mp hexisting
    exact ⟨⟨h.stays, id⟩, hs, of_decide_eq_true hlive⟩
  | none =>
    have hretired : ∀ s, world.state.sessions.get? slot = some s → ¬ s.Live := by
      intro s hs
      simpa [hs] using hexisting
    by_cases hfull : Surroundings.maxSlots ≤ world.state.liveCount
    · dsimp only
      rw [if_pos hfull]
      rfl
    · dsimp only
      rw [if_neg hfull, wp_bind]
      apply wp_newSession
      intro s hidle hempty _
      simp only [wp_bind, wp_modifyState, wp_save, wp_pure]
      refine ⟨⟨h.stays_open hslot hretired hidle hempty (by omega), fun _ => World.saved_of_file rfl⟩,
        ?_, by simp [Session.Live, hidle]⟩
      simp [State.setSession, Dict.get?_set]

theorem wp_wake_live (h : Sound world.state world.claims)
    (hs : world.state.sessions.get? slot = some s) (hlive : s.Live) (manual : Bool) :
  wp (wake slot manual)
    (fun _ world' => Stays world.state world'.state world'.claims ∧ world'.Saved)
    (fun _ _ => False) world
  := by
  unfold wake
  rw [wp_bind, wp_sessionAt hs, wp_bind]
  apply wp_count
  intro st' hsame
  have hs' : st'.sessions.get? slot = some s := by rwa [hsame.sessions]
  have hsound := h.same hsame
  rw [if_neg hlive]
  refine wp_mono (wp_wakeSession hsound hs' hlive manual) ?_ fun _ _ hfalse => hfalse
  rintro - world' ⟨hstays, hsaved⟩
  exact ⟨(h.stays_same hsame).trans hstays, hsaved⟩

theorem wp_wake (h : Sound world.state world.claims) (slot : Str) (manual : Bool) :
  wp (wake slot manual) (fun _ => world.Steps) (fun _ => world.Steps) world
  := by
  cases hs : world.state.sessions.get? slot with
  | none =>
    apply wp_withSession ⟨h.stays, id⟩
    intro s hs'
    rw [hs] at hs'
    cases hs'
  | some s =>
    by_cases hlive : s.Live
    · refine wp_mono (wp_wake_live h hs hlive manual) ?_ fun _ _ hfalse => hfalse.elim
      rintro - world' ⟨hstays, hsaved⟩
      exact ⟨hstays, fun _ => hsaved⟩
    · unfold wake
      rw [wp_bind, wp_sessionAt hs, wp_bind]
      apply wp_count
      intro st' hsame
      have hsound := h.same hsame
      rw [if_pos (by simpa [Session.Live] using hlive), wp_bind]
      refine wp_mono (wp_openSlot hsound (h.sessions hs).kept _ _) ?_ ?_
      · rintro s' world' ⟨⟨hstays, -⟩, hs', hlive'⟩
        refine wp_mono (wp_wakeSession hstays.sound hs' hlive' manual) ?_
          fun _ _ hfalse => hfalse.elim
        rintro - world'' ⟨hstays', hsaved⟩
        exact ⟨((h.stays_same hsame).trans hstays).trans hstays', fun _ => hsaved⟩
      · rintro - world' rfl
        exact ⟨h.stays_same hsame, fun hsaved => hsaved.same rfl hsame⟩

/-! ### Turns -/

theorem wp_deliver (h : Sound world.state world.claims) (slot : Str) :
  wp (deliver slot) (fun _ => world.Steps) (fun _ => world.Steps) world
  := by
  unfold deliver
  apply wp_withSession ⟨h.stays, id⟩
  intro s hs
  by_cases hpending : s.state = .wakePending
  · rw [if_neg (not_not_intro hpending)]
    simp only [wp_bind, wp_ask, wp_modifyState, wp_save, wp_pure]
    have hlive : s.Live := by simp [Session.Live, hpending]
    refine ⟨h.stays_setSession hs ?_ ?_ rfl ?_ ?_, fun _ => World.saved_of_file rfl⟩
    · exact Session.claim?_congr (iff_of_true (by simp [Session.Live]) hlive) rfl rfl rfl
    · exact iff_of_true (by simp [Session.Live]) hlive
    · simp [Session.Live]
    · simp
  · rw [if_pos hpending]
    exact ⟨h.stays, id⟩

section

omit [Surroundings]

theorem State.turnWorkkey_eq_ok {token : Int} {workkey : Option Str} {resultId : Str}
    (hw : st.turnWorkkey s token workkey resultId = .ok w) :
  st.workkeys.get? s.workkey = some w ∧ w.owner = s.sessionId ∧ w.token = token
  := by
  unfold State.turnWorkkey at hw
  dsimp only at hw
  split at hw
  · cases hw
  split at hw
  · cases hw
  split at hw
  · cases hw
  split at hw
  · cases hw
  next w' hw' =>
    split at hw
    · cases hw
    next howns =>
      split at hw
      · cases hw
      · cases hw
        simp only [ne_eq, not_or, not_not] at howns
        exact ⟨hw', howns⟩

theorem Workkey.turned_settled {outcome : Outcome} (houtcome : outcome ≠ .other) (w : Workkey)
    (verified : Bool) (reason resultId : Str) :
  (w.turned outcome verified reason resultId).Settled ∧
    (w.turned outcome verified reason resultId).owner = []
  := by
  cases outcome with
  | done => cases verified <;> simp [Workkey.turned, Workkey.Settled]
  | blocked => simp [Workkey.turned, Workkey.Settled]
  | failedFinal => simp [Workkey.turned, Workkey.Settled]
  | other => exact absurd rfl houtcome

theorem Workkey.turned_key (w : Workkey) (outcome : Outcome) (verified : Bool) (reason resultId : Str) :
  (w.turned outcome verified reason resultId).key = w.key
  := by
  cases outcome <;> cases verified <;> rfl

theorem Workkey.turned_effectClass (w : Workkey) (outcome : Outcome) (verified : Bool)
    (reason resultId : Str) :
  (w.turned outcome verified reason resultId).effectClass = w.effectClass
  := by
  cases outcome <;> cases verified <;> rfl

theorem Workkey.Settled.ne_claimed (h : w.Settled) :
  w.state ≠ .claimed
  := by
  rcases h with h | h | h <;> simp [h]

theorem Session.live_ended (s : Session) (outcome : Outcome) :
  (s.ended outcome).Live
  := by
  cases outcome <;> simp [Session.ended, Session.Live]

theorem Session.generation_ended (s : Session) (outcome : Outcome) :
  (s.ended outcome).generation = s.generation
  := by
  cases outcome <;> rfl

theorem Session.workkey_ended {outcome : Outcome} (houtcome : outcome ≠ .other) (s : Session) :
  (s.ended outcome).workkey = []
  := by
  cases outcome with
  | other => exact absurd rfl houtcome
  | _ => rfl

theorem Session.Placed.ended (h : s.Placed slot) {outcome : Outcome} (houtcome : outcome ≠ .other) :
  (s.ended outcome).Placed slot
  where
  kept := h.kept
  retired := fun _ => s.workkey_ended houtcome
  pending := by
    intro hpending
    cases outcome <;> cases hpending

end

theorem Sound.stays_turned (h : Sound st claims) (hs : st.sessions.get? slot = some s)
    (hw : st.workkeys.get? s.workkey = some w) (checkpoint : Str) (outcome : Outcome) (verified : Bool)
    (reason resultId : Str) :
  Stays st ((st.setSession slot (s.ended outcome)).setWorkkey w.key
    ({ w with checkpoint := checkpoint }.turned outcome verified reason resultId)) claims
  := by
  have hworkkey : s.workkey ≠ [] := (h.workkeys hw).nonempty
  have hlive := h.live_of_workkey hs hworkkey
  have hkey : s.workkey = w.key := (h.workkeys hw).named.symm
  have hw' := hw
  rw [hkey] at hw'
  have hnamed := h.workkeys hw'
  by_cases houtcome : outcome = .other
  · obtain rfl := houtcome
    have hretired : SessionState.idle ≠ .retired := by simp
    have hended := h.stays_state hs hlive hretired (by simp)
    exact hended.trans (hended.sound.stays_setWorkkey (w := w) hw' rfl rfl rfl rfl rfl)
  · obtain ⟨hsettled, hunowned⟩ := Workkey.turned_settled houtcome { w with checkpoint := checkpoint }
      verified reason resultId
    have hwclaim := Workkey.claim?_eq_none.mpr hsettled.ne_claimed
    have hsclaim : (s.ended outcome).claim? = none := by
      simp [Session.claim?, s.workkey_ended houtcome]
    obtain ⟨w₀, hw₀, hclaimed, -⟩ := h.owned hs hworkkey
    rw [hw] at hw₀
    cases hw₀
    have hholds := h.holds_of_workkey hs hworkkey
    rw [hkey] at hholds
    have hnamed' : ({ w with checkpoint := checkpoint }.turned outcome verified reason resultId).Named
        w.key :=
      ⟨Workkey.turned_key _ _ _ _ _, hnamed.nonempty, hnamed.kept, fun _ => hunowned⟩
    have hlive' : (s.ended outcome).Live → s.Live := fun _ => hlive
    have hbounded := (State.liveCount_setSession_le hs hlive').trans h.bounded
    refine ⟨⟨h.assign ((h.sessions hs).ended houtcome) hnamed' ?_ hbounded h.numbered (fun _ => id) ?_,
      State.forward_of_set ?_ rfl⟩, State.steady_of_set ?_ rfl⟩
    · rw [hwclaim, hsclaim]
      exact h.linked.drop hholds
    · intro key c hc
      rw [hsclaim] at hc
      cases hc
    · intro w₀ hw₀
      rw [hw'] at hw₀
      cases hw₀
      refine ⟨fun hbefore => absurd hclaimed hbefore.ne_claimed, ?_⟩
      unfold Workkey.NonIdempotent
      rw [Workkey.turned_effectClass]
      exact id
    · intro s₀ hs₀ _
      rw [hs] at hs₀
      cases hs₀
      exact ⟨s.live_ended outcome, s.generation_ended outcome⟩

theorem wp_verify (w : Workkey) (s : Session) (outcome : Outcome) {normal : Bool → World → Prop}
    (h : ∀ verified asked, normal verified { world with asked := asked }) :
  wp (verify w s outcome) normal raised world
  := by
  unfold verify
  split
  · exact h _ _
  · exact h _ world.asked

theorem wp_onTurnEnd (h : Sound world.state world.claims) (slot : Str) (outcome : Outcome) (token : Int)
    (checkpoint reason : Str) (workkey : Option Str) (resultId : Str) :
  wp (onTurnEnd slot outcome token checkpoint reason workkey resultId) (fun _ => world.Steps)
    (fun _ => world.Steps) world
  := by
  unfold onTurnEnd
  apply wp_withSession ⟨h.stays, id⟩
  intro s hs
  rw [wp_bind, wp_get]
  cases hturn : world.state.turnWorkkey s token workkey resultId with
  | error answer => exact ⟨h.stays, id⟩
  | ok w =>
    have hw := (State.turnWorkkey_eq_ok hturn).1
    dsimp only
    rw [wp_bind]
    apply wp_verify
    intro verified asked
    rw [wp_bind, wp_modifyState, wp_bind]
    apply wp_count
    intro st' hsame
    rw [wp_bind, wp_save, wp_bind]
    have hturned := h.stays_turned hs hw (if checkpoint ≠ [] then checkpoint else w.checkpoint) outcome
      verified reason resultId
    have hcounted := hturned.trans (hturned.sound.stays_same hsame)
    have hs' : st'.sessions.get? slot = some (s.ended outcome) := by
      rw [hsame.sessions]
      simp [State.setWorkkey, State.setSession, Dict.get?_set]
    refine wp_mono (wp_wake_live hcounted.sound hs' (s.live_ended outcome) false) ?_
      fun _ _ hfalse => hfalse.elim
    rintro - world' ⟨hstays, hsaved⟩
    exact ⟨hcounted.trans hstays, fun _ => hsaved⟩

theorem wp_heartbeat (h : Sound world.state world.claims) (slot : Str) (progress : Bool)
    (checkpoint : Option Str) :
  wp (heartbeat slot progress checkpoint) (fun _ => world.Steps) (fun _ => world.Steps) world
  := by
  unfold heartbeat
  apply wp_withSession ⟨h.stays, id⟩
  intro s hs
  rw [wp_bind, wp_ask, wp_bind, wp_modifyState]
  have hbeaten : ∀ s' : Session, s'.claim? = s.claim? → s'.generation = s.generation →
      s'.state = s.state → s'.workkey = s.workkey →
      Stays world.state (world.state.setSession slot s') world.claims := by
    intro s' hclaim hgeneration hstate hworkkey
    have hplaced := h.sessions hs
    have hlive : s'.Live ↔ s.Live := by rw [Session.Live, Session.Live, hstate]
    apply h.stays_setSession hs hclaim hlive hgeneration
    · rw [hlive, hworkkey]
      exact hplaced.retired
    · rw [hstate, hworkkey]
      exact hplaced.pending
  have hnow := hbeaten { s with
    lastHeartbeat := Surroundings.clock world.asked
    lastProgress := if progress then Surroundings.clock world.asked else s.lastProgress
    leaseUntil := if 0 < Surroundings.leaseSeconds ∧ s.state = .working then
      Surroundings.clock world.asked + Surroundings.leaseSeconds else s.leaseUntil } rfl rfl rfl rfl
  cases hcheckpoint : checkpoint.filter fun _ => decide (s.workkey ≠ []) with
  | none => exact ⟨hnow, fun _ => World.saved_of_file rfl⟩
  | some checkpoint =>
    obtain ⟨-, hworkkey⟩ := Option.filter_eq_some_iff.mp hcheckpoint
    obtain ⟨w, hw, -⟩ := h.owned hs (of_decide_eq_true hworkkey)
    dsimp only
    rw [wp_bind, wp_get]
    dsimp only [State.setSession]
    simp only [hw]
    exact ⟨hnow.trans (hnow.sound.stays_setWorkkey hw rfl rfl rfl rfl rfl),
      fun _ => World.saved_of_file rfl⟩

/-! ### Workkeys and snapshots -/

theorem Sound.stays_addWorkkey (h : Sound st claims) (hopen : w.state = .open) (howner : w.owner = [])
    (hkey : w.key ≠ []) (hkept : Json.fuse w.key = w.key) :
  Stays st (st.addWorkkey w) claims
  := by
  unfold State.addWorkkey
  cases hw : st.workkeys.get? w.key with
  | some w₀ => exact h.stays
  | none =>
    have hclaim : w.claim? = st.held w.key := by
      simp [Workkey.claim?, State.held, hw, hopen]
    refine ⟨⟨h.setWorkkey ⟨rfl, hkey, hkept, fun _ => howner⟩ hclaim, State.forward_of_set ?_ rfl⟩,
      State.steady_of_sessions rfl⟩
    intro w₀ hw₀
    rw [hw] at hw₀
    cases hw₀

theorem wp_addWorkkeys (h : Sound world.state world.claims) {keys : List KeySpec}
    (hkeys : ∀ spec ∈ keys, spec.key ≠ [] ∧ Json.fuse spec.key = spec.key) (priority : Int)
    (dependsOn : List Str) (effectClass : Str) :
  wp (addWorkkeys keys priority dependsOn effectClass) (fun _ => world.Steps) (fun _ => world.Steps)
    world
  := by
  unfold addWorkkeys
  simp only [wp_bind, wp_modifyState, wp_save]
  refine ⟨?_, fun _ => World.saved_of_file rfl⟩
  refine List.foldlRecOn (motive := fun st => Stays world.state st world.claims) keys _ h.stays ?_
  intro st hstays spec hspec
  obtain ⟨hkey, hkept⟩ := hkeys spec hspec
  exact hstays.trans (hstays.sound.stays_addWorkkey (w := spec.workkey priority dependsOn effectClass)
    rfl rfl hkey hkept)

theorem wp_criticalSnapshot (h : Sound world.state world.claims) :
  wp criticalSnapshot (fun _ => world.Steps) (fun _ => world.Steps) world
  := by
  unfold criticalSnapshot
  simp only [wp_bind, wp_ask, wp_modifyState, wp_save]
  exact ⟨h.stays_same ⟨rfl, rfl, rfl⟩, fun _ => World.saved_of_file rfl⟩

/-! ### Replacement -/

theorem wp_isRunning (s : Session) {normal : Bool → World → Prop}
    (h : ∀ running asked, asked ≤ world.identityAsked + 1 →
      normal running { world with identityAsked := asked }) :
  wp (isRunning s) normal raised world
  := by
  unfold isRunning
  split
  · exact h _ world.identityAsked (by omega)
  · exact h _ _ (le_refl _)

theorem wp_executorGone (s : Session) {normal : Bool → World → Prop}
    (h : ∀ gone asked, normal gone { world with identityAsked := asked }) :
  wp (executorGone s) normal raised world
  := by
  unfold executorGone
  split
  · exact h _ world.identityAsked
  · exact h _ _

theorem Sound.stays_noteCheckpoint (h : Sound st claims) (key : Str) (checkpoint : Option Str) :
  Stays st (st.noteCheckpoint key checkpoint) claims
  := by
  unfold State.noteCheckpoint
  split
  next w checkpoint hw => exact h.stays_setWorkkey hw rfl rfl rfl rfl rfl
  next => exact h.stays

omit [Surroundings] in
theorem State.sessions_noteCheckpoint (st : State) (key : Str) (checkpoint : Option Str) :
  (st.noteCheckpoint key checkpoint).sessions = st.sessions
  := by
  unfold State.noteCheckpoint
  split <;> rfl

def State.Blocked (st : State) (key : Str) : Prop :=
  ∃ w, st.workkeys.get? key = some w ∧ w.state = .blocked

omit [Surroundings] in
theorem State.Forward.blocked (h : st.Forward st') (hblocked : st.Blocked key) :
  st'.Blocked key
  := by
  obtain ⟨w, hw, hstate⟩ := hblocked
  obtain ⟨w', hw', hbecomes⟩ := h hw
  exact ⟨w', hw', (hbecomes.settled (.inr (.inl hstate))).trans hstate⟩

def State.NonIdempotent (st : State) (key : Str) : Prop :=
  ∃ w, st.workkeys.get? key = some w ∧ w.NonIdempotent

omit [Surroundings] in
theorem State.Forward.nonIdempotent (h : st.Forward st') (heffect : st.NonIdempotent key) :
  st'.NonIdempotent key
  := by
  obtain ⟨w, hw, hnon⟩ := heffect
  obtain ⟨w', hw', hbecomes⟩ := h hw
  exact ⟨w', hw', hbecomes.effect hnon⟩

def State.afterQuarantine (st : State) (slot : Str) (new : Session) (w : Workkey) (reason : Str) :
    State :=
  { (st.setSession slot new).setWorkkey w.key (w.quarantined reason (st.tokenSeq + 1)) with
    tokenSeq := st.tokenSeq + 1 }

omit [Surroundings] in
theorem wp_quarantine {reason : Str} :
  wp (quarantine slot s w reason) normal raised world ↔
    normal () { world with state := world.state.afterQuarantine slot s w reason }
  := Iff.rfl

theorem Sound.moves_quarantined (h : Sound st claims) (hs : st.sessions.get? slot = some s)
    (hlive : s.Live) (hidle : s'.state = .idle) (hempty : s'.workkey = [])
    (hw : st.workkeys.get? w.key = some w) (hclaimed : w.state = .claimed) {c : Str × Int}
    (hholds : st.holds slot = some (w.key, c)) (reason : Str) :
  Moves st (st.afterQuarantine slot s' w reason) claims
  := by
  have hnamed := h.workkeys hw
  have hplaced : s'.Placed slot :=
    ⟨(h.sessions hs).kept, fun _ => hempty, fun hpending => by simp [hidle] at hpending⟩
  have hnamed' : (w.quarantined reason (st.tokenSeq + 1)).Named w.key :=
    ⟨rfl, hnamed.nonempty, hnamed.kept, fun _ => rfl⟩
  have hlive' : s'.Live → s.Live := fun _ => hlive
  have hbounded := (State.liveCount_setSession_le hs hlive').trans h.bounded
  have htoken : st.tokenSeq ≤ st.tokenSeq + 1 := by omega
  have hsclaim : s'.claim? = none := by simp [Session.claim?, hempty]
  refine ⟨h.assign hplaced hnamed' ?_ hbounded (h.numbered.mono htoken) (fun _ => id) ?_,
    State.forward_of_set ?_ rfl⟩
  · have hwclaim : (w.quarantined reason (st.tokenSeq + 1)).claim? = none :=
      Workkey.claim?_eq_none.mpr (by simp [Workkey.quarantined])
    rw [hsclaim, hwclaim]
    exact h.linked.drop hholds
  · intro key c hc
    rw [hsclaim] at hc
    cases hc
  · intro w₀ hw₀
    rw [hw] at hw₀
    cases hw₀
    exact ⟨fun hsettled => absurd hclaimed hsettled.ne_claimed, id⟩

theorem wp_handOver {old new : Session} (h : Sound world.state world.claims)
    (hold : world.state.sessions.get? slot = some old) (hlive : old.Live) (hidle : new.state = .idle)
    (hempty : new.workkey = []) (kind : Kind) (reason : Str) :
  wp (handOver slot kind reason old new)
    (fun _ world' => Moves world.state world'.state world'.claims ∧
      (kind = .recover → world.state.NonIdempotent old.workkey → world'.state.Blocked old.workkey))
    (fun _ _ => False) world
  := by
  have hlive' : new.Live := by simp [Session.Live, hidle]
  unfold handOver
  rw [wp_bind, wp_get]
  cases hw : (world.state.workkeys.get? old.workkey).filter fun w =>
      decide (w.owner = old.sessionId) with
  | none =>
    have hnone : old.workkey = [] := by
      by_contra hworkkey
      obtain ⟨w, hw', -, howner, -⟩ := h.owned hold hworkkey
      simp [hw', howner] at hw
    have hclaim : new.claim? = world.state.holds slot := by
      rw [State.holds_of_get? hold]
      simp [Session.claim?, hempty, hnone]
    have hplaced : new.Placed slot :=
      ⟨(h.sessions hold).kept, fun _ => hempty, fun hpending => by simp [hidle] at hpending⟩
    have hlive'' : new.Live → old.Live := fun _ => hlive
    have hbounded := (State.liveCount_setSession_le hold hlive'').trans h.bounded
    refine ⟨⟨h.setSession hplaced hclaim hbounded, State.forward_of_workkeys rfl⟩, ?_⟩
    rintro - ⟨w, hw', -⟩
    exact absurd hnone (h.workkeys hw').nonempty
  | some w =>
    obtain ⟨hw', -⟩ := Option.filter_eq_some_iff.mp hw
    have hkey : old.workkey = w.key := (h.workkeys hw').named.symm
    have hworkkey : old.workkey ≠ [] := (h.workkeys hw').nonempty
    obtain ⟨w₀, hw₀, hclaimed, -⟩ := h.owned hold hworkkey
    rw [hw'] at hw₀
    cases hw₀
    have hholds := h.holds_of_workkey hold hworkkey
    rw [hkey] at hholds hw' ⊢
    have hunsettled : ¬ w.Settled := fun hsettled => hsettled.ne_claimed hclaimed
    by_cases hlost : kind = .recover ∧ w.effectClass = text "non_idempotent"
    · simp only [if_pos hlost]
      rw [wp_bind, wp_quarantine, wp_bind]
      have hquarantined := h.moves_quarantined hold hlive hidle hempty hw' hclaimed hholds reason
      have hnew : (world.state.afterQuarantine slot new w reason).sessions.get? slot = some new := by
        simp [State.afterQuarantine, State.setWorkkey, State.setSession, Dict.get?_set]
      have hblocked : (world.state.afterQuarantine slot new w reason).Blocked w.key := by
        refine ⟨w.quarantined reason (world.state.tokenSeq + 1), ?_, rfl⟩
        simp [State.afterQuarantine, State.setWorkkey, State.setSession, Dict.get?_set]
      refine wp_mono (wp_wake_live hquarantined.sound hnew hlive' false) ?_ fun _ _ hfalse => hfalse
      rintro - world' ⟨hstays, -⟩
      exact ⟨hquarantined.trans hstays.toMoves, fun _ _ => hstays.forward.blocked hblocked⟩
    · simp only [if_neg hlost]
      rw [wp_bind, wp_takeSlot, wp_pure]
      have hpending : ({ new with state := .wakePending } : Session).Live := by simp [Session.Live]
      refine ⟨h.moves_taken hold hlive hpending hw' hunsettled fun c => h.linked.renew hholds c, ?_⟩
      rintro hkind ⟨w₀, hw₀, hnon⟩
      rw [hw'] at hw₀
      cases hw₀
      exact absurd ⟨hkind, hnon⟩ hlost

theorem wp_cleanUp (s : Session) {normal : Str → World → Prop}
    (h : ∀ cleanup identityAsked asked, identityAsked ≤ world.identityAsked + 1 →
      normal cleanup { world with identityAsked := identityAsked, asked := asked }) :
  wp (cleanUp s) normal raised world
  := by
  unfold cleanUp
  rw [wp_bind]
  apply wp_isRunning
  intro running identityAsked hasked
  split
  · exact h _ _ _ hasked
  · exact h _ _ _ hasked

structure World.Replaces (world world' : World) (slot : Str) (kind : Kind) : Prop where
  moves : Moves world.state world'.state world'.claims
  saved : world.Saved → world'.Saved
  quarantined : ∀ {s}, kind = .recover → world.state.sessions.get? slot = some s →
    world.state.NonIdempotent s.workkey →
    world'.state.sessions.get? slot = some s ∨ world'.state.Blocked s.workkey

theorem wp_replace_at {old : Session} (h : Sound world.state world.claims)
    (hold : world.state.sessions.get? slot = some old) (kind : Kind) (reason : Str)
    (checkpoint : Option Str) :
  wp (replace slot kind reason checkpoint) (fun _ world' => world.Replaces world' slot kind)
    (fun _ _ => False) world
  := by
  unfold replace
  rw [wp_bind, wp_sessionAt hold]
  by_cases hreplaced : old.state = .retired ∨ old.successor ≠ []
  · rw [if_pos hreplaced]
    exact ⟨h.moves, id, fun _ hs _ => .inl hs⟩
  · rw [if_neg hreplaced, wp_bind, wp_modifyState, wp_bind]
    have hlive : old.Live := fun hretired => hreplaced (.inl hretired)
    have hnoted := h.stays_noteCheckpoint old.workkey checkpoint
    have hold' : (world.state.noteCheckpoint old.workkey checkpoint).sessions.get? slot = some old := by
      rwa [State.sessions_noteCheckpoint]
    apply wp_cleanUp
    intro cleanup identityAsked asked _
    rw [wp_bind]
    apply wp_newSession
    intro new hidle hempty hgeneration
    rw [wp_bind]
    refine wp_mono (wp_handOver hnoted.sound hold' hlive hidle hempty kind reason) ?_
      fun _ _ hfalse => hfalse.elim
    rintro quarantinedWorkkey world' ⟨hmoves, hquarantined⟩
    rw [wp_bind]
    apply wp_count
    intro st' hsame
    rw [wp_bind, wp_save]
    have hforward : world.state.Forward st' :=
      hnoted.forward.trans (hmoves.forward.trans (State.forward_of_workkeys hsame.workkeys))
    have hdone : world.Replaces { world' with state := st', file := some st' } slot kind := by
      refine ⟨⟨hmoves.sound.same hsame, hforward⟩, fun _ => World.saved_of_file rfl, ?_⟩
      intro s hkind hs heffect
      rw [hold] at hs
      cases hs
      have hblocked := hquarantined hkind (hnoted.forward.nonIdempotent heffect)
      exact .inr ((State.forward_of_workkeys hsame.workkeys).blocked hblocked)
    exact hdone

theorem wp_replace (h : Sound world.state world.claims) (slot : Str) (kind : Kind) (reason : Str)
    (checkpoint : Option Str) :
  wp (replace slot kind reason checkpoint) (fun _ world' => world.Replaces world' slot kind)
    (fun _ world' => world.Replaces world' slot kind) world
  := by
  cases hold : world.state.sessions.get? slot with
  | none =>
    apply wp_withSession ⟨h.moves, id, fun _ hs _ => .inl hs⟩
    intro old hold'
    rw [hold] at hold'
    cases hold'
  | some old =>
    apply wp_mono (wp_replace_at h hold kind reason checkpoint) (fun _ _ => id)
    intro _ _ hfalse
    exact hfalse.elim

/-! ### Other slots -/

omit [Surroundings] in
theorem keeps_sessionAt {P : World → Prop} (slot : Str) :
  Keeps P (sessionAt slot)
  := by
  apply keeps_get
  intro world _
  split
  · exact keeps_pure _
  · exact keeps_throw _

section Others

variable {slot' : Str} {v : Option Session}

def World.At (slot : Str) (v : Option Session) (world : World) : Prop :=
  world.state.sessions.get? slot = v

section

omit [Surroundings]

theorem keeps_modifyState {f : State → State}
    (h : ∀ st, (f st).sessions.get? slot' = st.sessions.get? slot') :
  Keeps (World.At slot' v) (modifyState f)
  := keeps_modify fun world hv => (h world.state).trans hv

theorem keeps_count (f : Counters → Counters) :
  Keeps (World.At slot' v) (modifyState fun st => st.count f)
  := keeps_modifyState fun _ => rfl

theorem keeps_save :
  Keeps (World.At slot' v) save
  := keeps_modify fun _ hv => hv

theorem keeps_ask (answer : Nat → α) :
  Keeps (World.At slot' v) (ask answer)
  := fun _ hv => hv

end

section

omit [Surroundings]

theorem keeps_ownsWorkkey (s : Session) :
  Keeps (World.At slot' v) (ownsWorkkey s)
  := by
  unfold ownsWorkkey
  split
  · exact keeps_pure _
  · apply keeps_get
    intro world _
    split
    · exact keeps_pure _
    · exact keeps_throw _

theorem State.other_setSession (hne : slot' ≠ slot) (st : State) (s : Session) :
  (st.setSession slot s).sessions.get? slot' = st.sessions.get? slot'
  := by
  rw [State.setSession, Dict.get?_set, if_neg hne]

theorem keeps_takeSlot (hne : slot' ≠ slot) (s : Session) (w : Workkey) :
  Keeps (World.At slot' v) (takeSlot slot s w)
  := keeps_modify fun world hv => (world.state.other_setSession hne _).trans hv

theorem keeps_quarantine (hne : slot' ≠ slot) (s : Session) (w : Workkey) (reason : Str) :
  Keeps (World.At slot' v) (quarantine slot s w reason)
  := keeps_modifyState fun st => st.other_setSession hne _

end

theorem keeps_newSession (slot provider activity : Str) (generation : Int) :
  Keeps (World.At slot' v) (newSession slot provider activity generation)
  := keeps_bind (keeps_ask _) fun _ => keeps_bind (keeps_ask _) fun _ => keeps_pure _

section

omit [Surroundings]

theorem keeps_countWake (manual : Bool) :
  Keeps (World.At slot' v) (countWake manual)
  := keeps_bind (keeps_count _) fun _ => keeps_bind keeps_save fun _ => keeps_pure _

theorem keeps_wakeSession (hne : slot' ≠ slot) (s : Session) (manual : Bool) :
  Keeps (World.At slot' v) (wakeSession slot s manual)
  := by
  unfold wakeSession
  split
  · apply keeps_bind (keeps_count _)
    intro _
    exact keeps_bind keeps_save fun _ => keeps_pure _
  · apply keeps_bind (keeps_ownsWorkkey s)
    intro owns
    split
    · apply keeps_bind (keeps_modifyState fun st => st.other_setSession hne _)
      intro _
      exact keeps_countWake manual
    · apply keeps_get
      intro world _
      dsimp only
      split
      · apply keeps_bind (keeps_modifyState fun st => st.other_setSession hne _)
        intro _
        exact keeps_bind keeps_save fun _ => keeps_pure _
      · exact keeps_bind (keeps_takeSlot hne _ _) fun _ => keeps_countWake manual

end

theorem keeps_openSlot (hne : slot' ≠ slot) (provider activity : Str) :
  Keeps (World.At slot' v) (openSlot slot provider activity)
  := by
  apply keeps_get
  intro world _
  dsimp only
  split
  · exact keeps_pure _
  · split
    · exact keeps_raise _ _
    · apply keeps_bind (keeps_newSession _ _ _ _)
      intro s
      apply keeps_bind (keeps_modifyState fun st => st.other_setSession hne _)
      intro _
      exact keeps_bind keeps_save fun _ => keeps_pure _

theorem keeps_wake (hne : slot' ≠ slot) (manual : Bool) :
  Keeps (World.At slot' v) (wake slot manual)
  := by
  apply keeps_bind (keeps_sessionAt slot)
  intro s
  apply keeps_bind (keeps_count _)
  intro _
  split
  · exact keeps_bind (keeps_openSlot hne _ _) fun s => keeps_wakeSession hne s manual
  · exact keeps_wakeSession hne s manual

theorem keeps_cleanUp (s : Session) :
  Keeps (World.At slot' v) (cleanUp s)
  := by
  intro world hv
  apply wp_cleanUp
  intro _ _ _ _
  exact hv

theorem keeps_handOver (hne : slot' ≠ slot) (kind : Kind) (reason : Str) (old new : Session) :
  Keeps (World.At slot' v) (handOver slot kind reason old new)
  := by
  apply keeps_get
  intro world _
  split
  · exact keeps_bind (keeps_modifyState fun st => st.other_setSession hne _) fun _ => keeps_pure _
  · split
    · apply keeps_bind (keeps_quarantine hne _ _ _)
      intro _
      exact keeps_bind (keeps_wake hne false) fun _ => keeps_pure _
    · exact keeps_bind (keeps_takeSlot hne _ _) fun _ => keeps_pure _

theorem keeps_replace (hne : slot' ≠ slot) (kind : Kind) (reason : Str) (checkpoint : Option Str) :
  Keeps (World.At slot' v) (replace slot kind reason checkpoint)
  := by
  apply keeps_bind (keeps_sessionAt slot)
  intro old
  split
  · exact keeps_pure _
  apply keeps_bind (keeps_modifyState fun st => by rw [State.sessions_noteCheckpoint])
  intro _
  apply keeps_bind (keeps_cleanUp _)
  intro cleanup
  apply keeps_bind (keeps_newSession _ _ _ _)
  intro new
  apply keeps_bind (keeps_handOver hne _ _ _ _)
  intro quarantinedWorkkey
  apply keeps_bind (keeps_count _)
  intro _
  apply keeps_bind keeps_save
  intro _
  exact keeps_get fun _ _ => keeps_pure _

end Others

end Parts

end Courier.Kirby
