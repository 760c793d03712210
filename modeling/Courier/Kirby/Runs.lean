import Courier.Kirby.Steps

/-!
# Runs of calls

The calls that work through several slots, and the restart, keep the claims linked as well.  So
every run of calls with regular names does: a workkey is claimed exactly if one live session has
it, no token is given twice, and what is settled stays settled (`oneWriter_run`). -/

namespace Courier.Kirby

open Program Holders

section Calls

variable [Surroundings] {st st' st'' : State} {claims : List Claim} {slot key : Str} {s s' : Session}
  {w : Workkey} {world world' world'' : World} {raised : KirbyError → World → Prop} {α : Type}

/-! ### Replaced sessions -/

def State.Guards (st st' : State) : Prop :=
  ∀ ⦃slot s⦄, st.sessions.get? slot = some s → st.NonIdempotent s.workkey →
    (∃ s', st'.sessions.get? slot = some s' ∧ s'.generation = s.generation ∧ s'.workkey = s.workkey) ∨
      st'.Blocked s.workkey

def State.Spares (st st' : State) : Prop :=
  ∀ ⦃slot s⦄, st.sessions.get? slot = some s → st.NonIdempotent s.workkey →
    (∃ s', st'.sessions.get? slot = some s' ∧ s'.generation = s.generation) ∨ st'.Blocked s.workkey

section

omit [Surroundings]

theorem State.guards_refl (st : State) :
  st.Guards st
  := fun _ s hs _ => .inl ⟨s, hs, rfl, rfl⟩

theorem State.Guards.trans (h : st.Guards st') (h' : st'.Guards st'') (hforward : st.Forward st')
    (hforward' : st'.Forward st'') :
  st.Guards st''
  := by
  intro slot s hs heffect
  obtain ⟨s', hs', hgeneration, hworkkey⟩ | hblocked := h hs heffect
  · have heffect' := hforward.nonIdempotent heffect
    rw [← hworkkey] at heffect'
    obtain ⟨s'', hs'', hgeneration', hworkkey'⟩ | hblocked := h' hs' heffect'
    · exact .inl ⟨s'', hs'', hgeneration'.trans hgeneration, hworkkey'.trans hworkkey⟩
    · rw [hworkkey] at hblocked
      exact .inr hblocked
  · exact .inr (hforward'.blocked hblocked)

end

theorem Sound.spares (h : Sound st claims) (hsteady : st.Steady st') :
  st.Spares st'
  := by
  rintro slot s hs ⟨w, hw, -⟩
  have hlive := h.live_of_workkey hs (h.workkeys hw).nonempty
  obtain ⟨s', hs', -, hgeneration⟩ := hsteady hs hlive
  exact .inl ⟨s', hs', hgeneration⟩

structure World.Recovers (world world' : World) : Prop where
  moves : Moves world.state world'.state world'.claims
  guards : world.state.Guards world'.state

/-- What a call comes to. -/
structure World.Goes (world world' : World) : Prop where
  moves : Moves world.state world'.state world'.claims
  saved : world.Saved → world'.Saved
  spares : world.state.Spares world'.state

theorem World.recovers_refl (h : Sound world.state world.claims) :
  world.Recovers world
  := ⟨h.moves, world.state.guards_refl⟩

theorem World.Recovers.trans (h : world.Recovers world') (h' : world'.Recovers world'') :
  world.Recovers world''
  := ⟨h.moves.trans h'.moves, h.guards.trans h'.guards h.moves.forward h'.moves.forward⟩

theorem World.Recovers.goes (h : world.Recovers world')
    (hstays : Stays world'.state world''.state world''.claims) (hsaved : world.Saved → world''.Saved) :
  world.Goes world''
  where
  moves := h.moves.trans hstays.toMoves
  saved := hsaved
  spares := by
    intro slot s hs heffect
    obtain ⟨s', hs', hgeneration, hworkkey⟩ | hblocked := h.guards hs heffect
    · have heffect' := h.moves.forward.nonIdempotent heffect
      rw [← hworkkey] at heffect'
      obtain ⟨s'', hs'', hgeneration'⟩ | hblocked := h.moves.sound.spares hstays.steady hs' heffect'
      · exact .inl ⟨s'', hs'', hgeneration'.trans hgeneration⟩
      · rw [hworkkey] at hblocked
        exact .inr hblocked
    · exact .inr (hstays.forward.blocked hblocked)

theorem World.Steps.goes (hsteps : world.Steps world') (h : Sound world.state world.claims) :
  world.Goes world'
  := (World.recovers_refl h).goes hsteps.1 hsteps.2

theorem World.steps_refl (h : Sound world.state world.claims) :
  world.Steps world
  := ⟨h.stays, id⟩

theorem World.Steps.trans (h : world.Steps world') (h' : world'.Steps world'') :
  world.Steps world''
  := ⟨h.1.trans h'.1, fun hsaved => h'.2 (h.2 hsaved)⟩

/-! ### Recovery -/

theorem wp_replace_others (slot : Str) (kind : Kind) (reason : Str) (checkpoint : Option Str) :
  wp (replace slot kind reason checkpoint)
    (fun _ world' => ∀ slot' ≠ slot, world'.state.sessions.get? slot' = world.state.sessions.get? slot')
    (fun _ world' => ∀ slot' ≠ slot, world'.state.sessions.get? slot' = world.state.sessions.get? slot')
    world
  := by
  apply wp_forall
  intro slot'
  apply wp_forall
  intro hne
  exact keeps_replace hne kind reason checkpoint world rfl

theorem wp_recover_at (h : Sound world.state world.claims)
    (hs : world.state.sessions.get? slot = some s) (reason : Str) :
  wp (recover slot reason) (fun _ world' => world.Recovers world' ∧ (world.Saved → world'.Saved))
    (fun _ _ => False) world
  := by
  apply wp_mono (wp_and (wp_replace_at h hs .recover reason none) (wp_replace_others ..))
  · rintro answer world' ⟨hreplaces, hothers⟩
    refine ⟨⟨hreplaces.moves, ?_⟩, hreplaces.saved⟩
    intro slot' s' hs' heffect
    by_cases heq : slot' = slot
    · obtain rfl := heq
      obtain hsame | hblocked := hreplaces.quarantined rfl hs' heffect
      · exact .inl ⟨s', hsame, rfl, rfl⟩
      · exact .inr hblocked
    · exact .inl ⟨s', (hothers slot' heq).trans hs', rfl, rfl⟩
  · rintro e world' ⟨hfalse, -⟩
    exact hfalse.elim

theorem wp_recover (h : Sound world.state world.claims) (slot reason : Str) :
  wp (recover slot reason) (fun _ world' => world.Recovers world' ∧ (world.Saved → world'.Saved))
    (fun _ world' => world.Recovers world' ∧ (world.Saved → world'.Saved)) world
  := by
  cases hs : world.state.sessions.get? slot with
  | none =>
    apply wp_withSession ⟨World.recovers_refl h, id⟩
    intro s hs'
    rw [hs] at hs'
    cases hs'
  | some s =>
    apply wp_mono (wp_recover_at h hs reason) (fun _ _ => id)
    intro _ _ hfalse
    exact hfalse.elim

theorem World.recovers_retire (h : Sound world.state world.claims)
    (hempty : ∀ s, world.state.sessions.get? slot = some s → s.workkey = []) :
  world.Recovers { world with state := world.state.retire slot }
  := by
  unfold State.retire
  cases hs : world.state.sessions.get? slot with
  | none => exact World.recovers_refl h
  | some s =>
    have hplaced : ({ s with state := .retired } : Session).Placed slot :=
      ⟨(h.sessions hs).kept, fun _ => hempty s hs, fun hpending => by simp at hpending⟩
    have hclaim : ({ s with state := .retired } : Session).claim? = world.state.holds slot := by
      rw [State.holds_of_get? hs]
      simp [Session.claim?, hempty s hs]
    have hlive : ({ s with state := .retired } : Session).Live → s.Live :=
      fun hlive => absurd rfl hlive
    have hbounded := (State.liveCount_setSession_le hs hlive).trans h.bounded
    refine ⟨⟨h.setSession hplaced hclaim hbounded, State.forward_of_workkeys rfl⟩, ?_⟩
    rintro slot' s' hs' ⟨w, hw, heffect⟩
    by_cases heq : slot' = slot
    · obtain rfl := heq
      exact absurd (hempty s' hs') (h.workkeys hw).nonempty
    · exact .inl ⟨s', (State.other_setSession heq _ _).trans hs', rfl, rfl⟩

/-! ### Calls for several slots -/

theorem wp_forSlots {f : Str → KirbyM (Option α)} {R Q : World → World → Prop}
    (hrefl : ∀ world, Sound world.state world.claims → R world world)
    (htrans : ∀ {world world' world''}, R world world' → R world' world'' → R world world'')
    (hraised : ∀ {world world' world''}, R world world' → Q world' world'' → Q world world'')
    (hsound : ∀ {world world'}, R world world' → Sound world'.state world'.claims)
    (hf : ∀ slot world, Sound world.state world.claims →
      wp (f slot) (fun _ => R world) (fun _ => Q world) world) (slots : List Str)
    (h : Sound world.state world.claims) :
  wp (forSlots f slots) (fun _ => R world) (fun _ => Q world) world
  := by
  induction slots generalizing world with
  | nil => exact hrefl world h
  | cons slot slots ih =>
    unfold forSlots
    rw [wp_bind]
    apply wp_mono (hf slot world h) _ fun _ _ => id
    intro answer world' hR
    rw [wp_bind]
    apply wp_mono (ih (hsound hR))
    · intro answers world'' hR'
      exact htrans hR hR'
    · intro e world'' hQ
      exact hraised hR hQ

theorem wp_health (slot : Str) {normal : Verdict × List Str → World → Prop}
    (hraised : raised (.keyError slot) world)
    (h : ∀ answer asked identityAsked,
      normal answer { world with asked := asked, identityAsked := identityAsked }) :
  wp (health slot) normal raised world
  := by
  unfold health
  apply wp_withSession hraised
  intro s _
  split
  · exact h _ world.asked world.identityAsked
  · rw [wp_bind, wp_ask, wp_bind]
    apply wp_executorGone
    intro gone identityAsked
    exact h _ _ _

theorem wp_tickSlot (h : Sound world.state world.claims) (slot : Str) :
  wp (tickSlot slot) (fun _ world' => world.Recovers world' ∧ (world.Saved → world'.Saved))
    (fun _ world' => world.Recovers world' ∧ (world.Saved → world'.Saved)) world
  := by
  unfold tickSlot
  rw [wp_bind]
  apply wp_health slot ⟨World.recovers_refl h, id⟩
  rintro ⟨verdict, signals⟩ asked identityAsked
  cases verdict with
  | ok => exact ⟨⟨h.moves, world.state.guards_refl⟩, id⟩
  | investigate => exact ⟨⟨h.moves, world.state.guards_refl⟩, id⟩
  | recover =>
    dsimp only
    rw [wp_bind]
    refine wp_mono (wp_recover ?_ slot _) ?_ ?_
    · exact h
    · rintro answer world' ⟨⟨hmoves, hguards⟩, hsaved⟩
      exact ⟨⟨hmoves, hguards⟩, hsaved⟩
    · rintro e world' ⟨⟨hmoves, hguards⟩, hsaved⟩
      exact ⟨⟨hmoves, hguards⟩, hsaved⟩

theorem wp_snapshotIfDue (h : Sound world.state world.claims) :
  wp snapshotIfDue (fun _ => world.Steps) (fun _ => world.Steps) world
  := by
  unfold snapshotIfDue
  rw [wp_bind, wp_ask, wp_bind, wp_get]
  split
  · refine wp_mono (wp_criticalSnapshot ?_) ?_ ?_
    · exact h
    · exact fun _ _ hsteps => ⟨hsteps.1, hsteps.2⟩
    · exact fun _ _ hsteps => ⟨hsteps.1, hsteps.2⟩
  · exact ⟨h.stays, id⟩

theorem wp_tick (h : Sound world.state world.claims) :
  wp tick (fun _ => world.Goes) (fun _ => world.Goes) world
  := by
  unfold tick
  rw [wp_bind, wp_get, wp_bind]
  have hslots := wp_forSlots (f := tickSlot)
    (R := fun world world' => world.Recovers world' ∧ (world.Saved → world'.Saved))
    (Q := fun world world' => world.Recovers world' ∧ (world.Saved → world'.Saved))
    (fun _ h => ⟨World.recovers_refl h, id⟩)
    (fun h h' => ⟨h.1.trans h'.1, fun hsaved => h'.2 (h.2 hsaved)⟩)
    (fun h h' => ⟨h.1.trans h'.1, fun hsaved => h'.2 (h.2 hsaved)⟩)
    (fun h => h.1.moves.sound) (fun slot _ h => wp_tickSlot h slot) world.state.sessions.keys h
  apply wp_mono hslots
  · rintro actions world' ⟨hrecovers, hsaved⟩
    have hgoes : ∀ world'', world'.Steps world'' → world.Goes world'' := by
      intro world'' hsteps
      exact hrecovers.goes hsteps.1 fun hbefore => hsteps.2 (hsaved hbefore)
    rw [wp_bind]
    apply wp_mono (wp_snapshotIfDue hrecovers.moves.sound)
    · exact fun _ => hgoes
    · exact fun _ => hgoes
  · rintro e world' ⟨hrecovers, hsaved⟩
    exact hrecovers.goes hrecovers.moves.sound.stays hsaved

theorem wp_reconcileSlot (h : Sound world.state world.claims) (slot : Str) :
  wp (reconcileSlot slot) (fun _ => world.Recovers) (fun _ _ => False) world
  := by
  unfold reconcileSlot
  rw [wp_bind, wp_get]
  cases hs : (world.state.sessions.get? slot).filter fun s => decide s.Live with
  | none => exact World.recovers_refl h
  | some s =>
    obtain ⟨hs', -⟩ := Option.filter_eq_some_iff.mp hs
    dsimp only
    rw [wp_bind]
    apply wp_executorGone
    intro gone identityAsked
    cases gone with
    | false => exact ⟨h.moves, world.state.guards_refl⟩
    | true =>
      rw [if_pos rfl]
      by_cases hworkkey : s.workkey = []
      · rw [if_neg (not_not_intro hworkkey), wp_bind, wp_modifyState]
        have hempty : ∀ s', world.state.sessions.get? slot = some s' → s'.workkey = [] := by
          intro s' hs''
          rw [hs'] at hs''
          cases hs''
          exact hworkkey
        obtain ⟨hmoves, hguards⟩ := World.recovers_retire h hempty
        exact ⟨hmoves, hguards⟩
      · rw [if_pos hworkkey, wp_bind]
        refine wp_mono (wp_recover_at (s := s) ?_ ?_ _) ?_ ?_
        · exact h
        · exact hs'
        · rintro answer world' ⟨⟨hmoves, hguards⟩, -⟩
          exact ⟨hmoves, hguards⟩
        · exact fun _ _ => id

theorem wp_reconcileAfterRestart (h : Sound world.state world.claims) :
  wp reconcileAfterRestart (fun _ => world.Goes) (fun _ => world.Goes) world
  := by
  unfold reconcileAfterRestart
  rw [wp_bind, wp_get, wp_bind]
  have hslots := wp_forSlots (f := reconcileSlot) (R := World.Recovers) (Q := fun _ _ => False)
    (fun _ => World.recovers_refl) World.Recovers.trans (fun _ hfalse => hfalse)
    (fun h => h.moves.sound) (fun slot _ h => wp_reconcileSlot h slot) world.state.sessions.keys h
  apply wp_mono hslots _ fun _ _ hfalse => hfalse.elim
  intro result world' hrecovers
  have hsaved : ({ world' with file := some world'.state } : World).Saved :=
    World.saved_of_file rfl
  exact hrecovers.goes hrecovers.moves.sound.stays fun _ => hsaved

/-! ### Reconnection and restart -/

theorem wp_isLost (existing : Option Session) {normal : Bool → World → Prop}
    (h : ∀ lost identityAsked, (lost = true → ∃ s, existing = some s ∧ s.Live) →
      normal lost { world with identityAsked := identityAsked }) :
  wp (isLost existing) normal raised world
  := by
  unfold isLost
  split
  next s hs =>
    obtain ⟨hexisting, hlive⟩ := Option.filter_eq_some_iff.mp hs
    exact h _ _ fun _ => ⟨s, hexisting, of_decide_eq_true hlive⟩
  next => exact h false world.identityAsked fun hlost => absurd hlost (by simp)

theorem wp_retireLost (h : Sound world.state world.claims) {lost : Bool}
    (hempty : lost = true → ∀ s, world.state.sessions.get? slot = some s → s.workkey = []) :
  wp (retireLost slot lost) (fun _ world' => world.Recovers world' ∧ (world.Saved → world'.Saved))
    (fun _ _ => False) world
  := by
  unfold retireLost
  cases lost with
  | false => exact ⟨World.recovers_refl h, id⟩
  | true =>
    obtain ⟨hmoves, hguards⟩ := World.recovers_retire h (hempty rfl)
    exact ⟨⟨hmoves, hguards⟩, fun _ => World.saved_of_file rfl⟩

theorem wp_wakeForWork (h : Sound world.state world.claims)
    (hs : world.state.sessions.get? slot = some s) :
  wp (wakeForWork slot s) (fun _ => world.Steps) (fun _ => world.Steps) world
  := by
  unfold wakeForWork
  rw [wp_bind, wp_get]
  split
  · exact wp_discard (wp_wake h slot false)
  · rw [wp_bind, wp_ownsWorkkey h hs]
    split
    · exact wp_discard (wp_wake h slot false)
    · exact World.steps_refl h

theorem wp_reconnectSlot (h : Sound world.state world.claims) (hslot : Json.fuse slot = slot)
    (provider activity : Option Str) :
  wp (reconnectSlot slot provider activity) (fun _ => world.Goes) (fun _ => world.Goes) world
  := by
  unfold reconnectSlot
  rw [wp_bind, wp_get]
  dsimp only
  rw [wp_bind]
  apply wp_isLost
  intro lost identityAsked hlost
  by_cases hwork : lost ∧ (world.state.sessions.get? slot).any fun s => s.workkey ≠ []
  · rw [if_pos hwork, wp_bind]
    have hgoes : ∀ world', world.Recovers world' ∧ (world.Saved → world'.Saved) → world.Goes world' := by
      rintro world' ⟨hrecovers, hsaved⟩
      exact hrecovers.goes hrecovers.moves.sound.stays hsaved
    refine wp_mono (wp_recover ?_ slot _) ?_ ?_
    · exact h
    · rintro answer world' ⟨⟨hmoves, hguards⟩, hsaved⟩
      exact keeps_sessionAt slot world' (hgoes world' ⟨⟨hmoves, hguards⟩, hsaved⟩)
    · rintro e world' ⟨⟨hmoves, hguards⟩, hsaved⟩
      exact hgoes world' ⟨⟨hmoves, hguards⟩, hsaved⟩
  · rw [if_neg hwork, wp_bind]
    refine wp_mono (wp_retireLost ?_ ?_) ?_ fun _ _ hfalse => hfalse.elim
    · exact h
    · intro hretire s hs
      by_contra hworkkey
      apply hwork
      exact ⟨hretire, by simpa [hs] using hworkkey⟩
    · rintro - world' ⟨⟨hmoves, hguards⟩, hsaved⟩
      have hretired : world.Recovers world' := ⟨hmoves, hguards⟩
      have hgoes : ∀ world'', world'.Steps world'' → world.Goes world'' := by
        intro world'' hsteps
        exact hretired.goes hsteps.1 fun hbefore => hsteps.2 (hsaved hbefore)
      rw [wp_bind]
      refine wp_mono (wp_openSlot hmoves.sound hslot _ _) ?_ ?_
      · rintro s world₁ ⟨hsteps, hs, -⟩
        rw [wp_bind]
        apply wp_mono (wp_wakeForWork hsteps.1.sound hs)
        · intro _ world₂ hsteps'
          exact keeps_sessionAt slot world₂ (hgoes world₂ (hsteps.trans hsteps'))
        · intro e world₂ hsteps'
          exact hgoes world₂ (hsteps.trans hsteps')
      · rintro e world₁ rfl
        exact hgoes world₁ (World.steps_refl hmoves.sound)

omit [Surroundings] in
theorem Workkey.claim?_readBack (w : Workkey) :
  w.readBack.claim? = w.claim?.map fun c => (Json.fuse c.1, c.2)
  := by
  unfold Workkey.claim? Workkey.readBack
  split <;> rfl

theorem Sound.fuse_workkey (h : Sound st claims) (hs : st.sessions.get? slot = some s) :
  Json.fuse s.workkey = s.workkey
  := by
  by_cases hempty : s.workkey = []
  · rw [hempty]
    rfl
  · obtain ⟨w, hw, -⟩ := h.owned hs hempty
    exact (h.workkeys hw).kept

theorem Sound.claim?_readBack (h : Sound st claims) (hs : st.sessions.get? slot = some s) :
  s.readBack.claim? = s.claim?.map fun p => (p.1, Json.fuse p.2.1, p.2.2)
  := by
  have hlive : s.readBack.Live ↔ s.Live := Iff.rfl
  have hworkkey : s.readBack.workkey = s.workkey := h.fuse_workkey hs
  unfold Session.claim?
  simp only [hlive, hworkkey]
  split <;> rfl

theorem Sound.stays_load (h : Sound st claims) :
  Stays st (State.load (some st)) claims
  := by
  have hkeys : st.workkeys.KeepsKeys := fun key w hw => (h.workkeys hw).kept
  have hslots : st.sessions.KeepsKeys := fun slot s hs => (h.sessions hs).kept
  have hw : ∀ key, (State.load (some st)).workkeys.get? key =
      (st.workkeys.get? key).map Workkey.readBack := Dict.get?_readBack hkeys _
  have hs : ∀ slot, (State.load (some st)).sessions.get? slot =
      (st.sessions.get? slot).map Session.readBack := Dict.get?_readBack hslots _
  have hholds : (State.load (some st)).holds =
      fun slot => (st.holds slot).map fun p => (p.1, Json.fuse p.2.1, p.2.2) := by
    funext slot
    rw [State.holds, hs, State.holds]
    cases hslot : st.sessions.get? slot with
    | none => rfl
    | some s => exact h.claim?_readBack hslot
  have hheld : (State.load (some st)).held =
      fun key => (st.held key).map fun c => (Json.fuse c.1, c.2) := by
    funext key
    rw [State.held, hw, State.held]
    cases st.workkeys.get? key with
    | none => rfl
    | some w => exact w.claim?_readBack
  refine ⟨⟨⟨?_, ?_, ?_, ?_, h.numbered.mono (le_max_left _ _), ?_⟩, ?_⟩, ?_⟩
  · rw [hholds, hheld]
    exact h.linked.map fun c => (Json.fuse c.1, c.2)
  · intro key w' hw'
    rw [hw] at hw'
    obtain ⟨w, hget, rfl⟩ := Option.map_eq_some_iff.mp hw'
    have hnamed := h.workkeys hget
    refine ⟨?_, hnamed.nonempty, hnamed.kept, ?_⟩
    · exact (congrArg Json.fuse hnamed.named).trans hnamed.kept
    · intro hunclaimed
      exact congrArg Json.fuse (hnamed.unowned hunclaimed)
  · intro slot s' hs'
    rw [hs] at hs'
    obtain ⟨s, hget, rfl⟩ := Option.map_eq_some_iff.mp hs'
    have hplaced := h.sessions hget
    have hworkkey : s.readBack.workkey = s.workkey := h.fuse_workkey hget
    refine ⟨hplaced.kept, ?_, ?_⟩
    · rw [hworkkey]
      exact hplaced.retired
    · rw [hworkkey]
      exact hplaced.pending
  · have hcount := Dict.countP_readBack (p := fun s => decide s.Live) hslots.separates
      fun s : Session => (rfl : decide s.readBack.Live = decide s.Live)
    exact hcount.trans_le h.bounded
  · intro slot key c hc
    rw [hholds] at hc
    obtain ⟨⟨key', c'⟩, hheldBefore, heq⟩ := Option.map_eq_some_iff.mp hc
    cases heq
    obtain ⟨d, hd, hgiven⟩ := h.given hheldBefore
    exact ⟨d, hd, hgiven⟩
  · intro key w hget
    refine ⟨w.readBack, by rw [hw, hget]; rfl, fun _ => rfl, ?_⟩
    intro heffect
    unfold Workkey.NonIdempotent at heffect ⊢
    rw [Workkey.readBack, heffect]
    rfl
  · intro slot s hget hlive
    exact ⟨s.readBack, by rw [hs, hget]; rfl, hlive, rfl⟩

theorem wp_reload (h : Sound world.state world.claims) (hsaved : world.Saved) :
  wp reload (fun _ => world.Goes) (fun _ => world.Goes) world
  := by
  have hstays : Stays world.state (State.load world.file) world.claims := by
    rcases hsaved with ⟨st, hfile, hsame⟩ | hsame
    · have hwritten := h.stays_same hsame.symm
      rw [hfile]
      exact hwritten.trans hwritten.sound.stays_load
    · exact h.stays_same hsame.symm
  exact ⟨hstays.toMoves, fun _ => .inr (State.Same.refl _), h.spares hstays.steady⟩

/-! ### Runs -/

/-- The names that a call gives are not empty and JSON keeps them. -/
def Call.Regular : Call → Prop
  | .addWorkkeys keys _ _ _ => ∀ spec ∈ keys, spec.key ≠ [] ∧ Json.fuse spec.key = spec.key
  | .openSlot slot _ _ => Json.fuse slot = slot
  | .reconnectSlot slot _ _ => Json.fuse slot = slot
  | _ => True

instance (call : Call) : Decidable call.Regular :=
  match call with
  | .addWorkkeys keys _ _ _ =>
      inferInstanceAs (Decidable (∀ spec ∈ keys, spec.key ≠ [] ∧ Json.fuse spec.key = spec.key))
  | .openSlot slot _ _ => inferInstanceAs (Decidable (Json.fuse slot = slot))
  | .reconnectSlot slot _ _ => inferInstanceAs (Decidable (Json.fuse slot = slot))
  | .wake _ _ => isTrue trivial
  | .deliver _ => isTrue trivial
  | .onTurnEnd _ _ _ _ _ _ _ => isTrue trivial
  | .heartbeat _ _ _ => isTrue trivial
  | .tick => isTrue trivial
  | .criticalSnapshot => isTrue trivial
  | .rotate _ _ _ => isTrue trivial
  | .recover _ _ => isTrue trivial
  | .onProviderOutput _ _ _ _ => isTrue trivial
  | .reconcileAfterRestart => isTrue trivial
  | .reload => isTrue trivial

def Call.rotates : Call → Option Str
  | .rotate slot _ _ => some slot
  | .onProviderOutput slot providerText contextUsedPct _ =>
      (saturationSignal providerText contextUsedPct).map fun _ => slot
  | _ => none

theorem wp_perform (h : Sound world.state world.claims) (hsaved : world.Saved) {call : Call}
    (hregular : call.Regular) (hrotates : call.rotates = none) :
  wp (perform call) (fun _ => world.Goes) (fun _ => world.Goes) world
  := by
  have hsteps : ∀ {m : KirbyM Unit}, wp m (fun _ => world.Steps) (fun _ => world.Steps) world →
      wp m (fun _ => world.Goes) (fun _ => world.Goes) world := by
    intro m hm
    exact wp_mono hm (fun _ _ hsteps => hsteps.goes h) fun _ _ hsteps => hsteps.goes h
  cases call with
  | addWorkkeys keys priority dependsOn effectClass =>
    exact hsteps (wp_addWorkkeys h hregular priority dependsOn effectClass)
  | openSlot slot provider activity =>
    apply hsteps
    apply wp_discard
    apply wp_mono (wp_openSlot h hregular provider activity)
    · rintro s world' ⟨hopened, -⟩
      exact hopened
    · rintro e world' rfl
      exact World.steps_refl h
  | reconnectSlot slot provider activity =>
    exact wp_discard (wp_reconnectSlot h hregular provider activity)
  | wake slot manual => exact hsteps (wp_discard (wp_wake h slot manual))
  | deliver slot => exact hsteps (wp_discard (wp_deliver h slot))
  | onTurnEnd slot outcome token checkpoint reason workkey resultId =>
    exact hsteps (wp_discard (wp_onTurnEnd h slot outcome token checkpoint reason workkey resultId))
  | heartbeat slot progress checkpoint => exact hsteps (wp_heartbeat h slot progress checkpoint)
  | tick => exact wp_discard (wp_tick h)
  | criticalSnapshot => exact hsteps (wp_criticalSnapshot h)
  | rotate slot reason checkpoint => cases hrotates
  | recover slot reason =>
    have hgoes : ∀ world', world.Recovers world' ∧ (world.Saved → world'.Saved) →
        world.Goes world' := by
      rintro world' ⟨hrecovers, hkept⟩
      exact hrecovers.goes hrecovers.moves.sound.stays hkept
    exact wp_discard (wp_mono (wp_recover h slot reason) (fun _ => hgoes) fun _ => hgoes)
  | onProviderOutput slot providerText contextUsedPct checkpoint =>
    have hsignal : saturationSignal providerText contextUsedPct = none := by
      simpa [Call.rotates] using hrotates
    apply hsteps
    apply wp_discard
    simp only [onProviderOutput, hsignal]
    exact World.steps_refl h
  | reconcileAfterRestart => exact wp_discard (wp_reconcileAfterRestart h)
  | reload => exact wp_reload h hsaved

structure World.Rotates (world world' : World) (slot : Str) : Prop where
  moves : Moves world.state world'.state world'.claims
  saved : world.Saved → world'.Saved
  others : ∀ slot' ≠ slot, world'.state.sessions.get? slot' = world.state.sessions.get? slot'

theorem wp_rotate (h : Sound world.state world.claims) (slot reason : Str) (checkpoint : Option Str) :
  wp (rotate slot reason checkpoint) (fun _ world' => world.Rotates world' slot)
    (fun _ world' => world.Rotates world' slot) world
  := by
  apply wp_mono (wp_and (wp_replace h slot .rotate reason checkpoint) (wp_replace_others ..))
  · rintro answer world' ⟨hreplaces, hothers⟩
    exact ⟨hreplaces.moves, hreplaces.saved, hothers⟩
  · rintro e world' ⟨hreplaces, hothers⟩
    exact ⟨hreplaces.moves, hreplaces.saved, hothers⟩

theorem wp_perform_rotates (h : Sound world.state world.claims) {call : Call}
    (hrotates : call.rotates = some slot) :
  wp (perform call) (fun _ world' => world.Rotates world' slot) (fun _ world' => world.Rotates world' slot)
    world
  := by
  cases call with
  | rotate slot' reason checkpoint =>
    cases hrotates
    exact wp_discard (wp_rotate h slot reason checkpoint)
  | onProviderOutput slot' providerText contextUsedPct checkpoint =>
    obtain ⟨signal, hsignal, rfl⟩ := Option.map_eq_some_iff.mp hrotates
    apply wp_discard
    simp only [onProviderOutput, hsignal, wp_map]
    exact wp_rotate h slot' signal checkpoint
  | _ => cases hrotates

theorem World.after_of_wp {P : World → Prop} {call : Call}
    (h : wp (perform call) (fun _ => P) (fun _ => P) world) :
  P (world.after call)
  := by
  unfold World.after
  unfold wp at h
  cases hm : perform call world with
  | ok answer world' =>
    rw [hm] at h
    exact h
  | error e world' =>
    rw [hm] at h
    exact h

theorem World.after_moves (h : Sound world.state world.claims) (hsaved : world.Saved) {call : Call}
    (hregular : call.Regular) :
  Moves world.state (world.after call).state (world.after call).claims ∧ (world.after call).Saved
  := by
  apply World.after_of_wp (P := fun world' =>
    Moves world.state world'.state world'.claims ∧ world'.Saved)
  cases hrotates : call.rotates with
  | none =>
    apply wp_mono (wp_perform h hsaved hregular hrotates)
    · exact fun _ _ hgoes => ⟨hgoes.moves, hgoes.saved hsaved⟩
    · exact fun _ _ hgoes => ⟨hgoes.moves, hgoes.saved hsaved⟩
  | some slot =>
    apply wp_mono (wp_perform_rotates h hrotates)
    · exact fun _ _ hgoes => ⟨hgoes.moves, hgoes.saved hsaved⟩
    · exact fun _ _ hgoes => ⟨hgoes.moves, hgoes.saved hsaved⟩

/-! ### One writer for each workkey -/

def State.WorksOn (st : State) (slot key : Str) : Prop :=
  ∃ s, st.sessions.get? slot = some s ∧ s.Live ∧ s.workkey = key

def State.Under (st : State) (slot : Str) (c : Claim) : Prop :=
  ∃ s, st.sessions.get? slot = some s ∧ s.Live ∧ s.workkey = c.key ∧ s.token = c.token

/-- Every workkey has at most one writer, and the end of a turn is accepted from nobody else. -/
structure World.OneWriter (world : World) : Prop where
  /-- A workkey is claimed exactly if exactly one live session has it. -/
  claimed : ∀ {key w}, world.state.workkeys.get? key = some w →
    (w.state = .claimed ↔ ∃! slot, world.state.WorksOn slot key)
  /-- The owner and the token of a claimed workkey are those of a session that has it. -/
  owner : ∀ {key w slot s}, world.state.workkeys.get? key = some w → w.state = .claimed →
    world.state.sessions.get? slot = some s → s.Live → s.workkey = key →
    w.owner = s.sessionId ∧ w.token = s.token
  /-- A workkey that is not claimed has no owner. -/
  unowned : ∀ {key w}, world.state.workkeys.get? key = some w → w.state ≠ .claimed → w.owner = []
  /-- No token was given twice. -/
  unused : (world.claims.map Claim.token).Nodup
  /-- There are at most as many live sessions as there may be. -/
  bounded : world.state.liveCount ≤ Surroundings.maxSlots
  /-- The end of a turn with the token of another claim than the one under which the session works changes
  nothing. -/
  stale : ∀ c ∈ world.claims, ∀ slot, ¬ world.state.Under slot c →
    ∀ outcome checkpoint reason workkey resultId,
      world.after (.onTurnEnd slot outcome c.token checkpoint reason workkey resultId) = world

theorem Sound.worksOn_iff (h : Sound st claims) (hw : st.workkeys.get? key = some w) :
  st.WorksOn slot key ↔ ∃ c, st.holds slot = some (key, c)
  := by
  constructor
  · rintro ⟨s, hs, hlive, rfl⟩
    exact ⟨_, h.holds_of_workkey hs (h.workkeys hw).nonempty⟩
  · rintro ⟨c, hholds⟩
    obtain ⟨s, hs, hclaim⟩ := Option.bind_eq_some_iff.mp hholds
    obtain ⟨hlive, -, hkey, -⟩ := Session.claim?_eq_some.mp hclaim
    exact ⟨s, hs, hlive, hkey⟩

theorem Sound.stale_after (h : Sound world.state world.claims) {c : Claim} (hc : c ∈ world.claims)
    (hstale : ¬ world.state.Under slot c) (outcome : Outcome) (checkpoint reason : Str)
    (workkey : Option Str) (resultId : Str) :
  world.after (.onTurnEnd slot outcome c.token checkpoint reason workkey resultId) = world
  := by
  apply World.after_of_wp (P := fun world' => world' = world)
  apply wp_discard
  unfold onTurnEnd
  apply wp_withSession rfl
  intro s hs
  rw [wp_bind, wp_get]
  cases hturn : world.state.turnWorkkey s c.token workkey resultId with
  | error answer => rfl
  | ok w =>
    obtain ⟨hw, -, htoken⟩ := State.turnWorkkey_eq_ok hturn
    have hworkkey := (h.workkeys hw).nonempty
    obtain ⟨w₀, hw₀, -, -, htoken₀⟩ := h.owned hs hworkkey
    rw [hw] at hw₀
    cases hw₀
    obtain ⟨d, hd, hkey, hdtoken⟩ := h.given (h.holds_of_workkey hs hworkkey)
    have heq : d = c := h.numbered.unique hd hc (hdtoken.trans (htoken₀.symm.trans htoken))
    obtain rfl := heq
    exact absurd ⟨s, hs, h.live_of_workkey hs hworkkey, hkey.symm, hdtoken.symm⟩ hstale

theorem Sound.oneWriter (h : Sound world.state world.claims) :
  world.OneWriter
  where
  claimed := by
    intro key w hw
    simp only [h.worksOn_iff hw]
    rw [← h.linked.isSome_iff, State.held_of_get? hw, Option.isSome_iff_exists]
    simp [Workkey.claim?]
  owner := by
    intro key w slot s hw _ hs _ hworkkey
    obtain rfl := hworkkey
    obtain ⟨w₀, hw₀, -, howner, htoken⟩ := h.owned hs (h.workkeys hw).nonempty
    rw [hw] at hw₀
    cases hw₀
    exact ⟨howner, htoken⟩
  unowned := fun hw => (h.workkeys hw).unowned
  unused := h.numbered.increasing.imp fun hlt => hlt.ne
  bounded := h.bounded
  stale := fun _ hc _ hstale => h.stale_after hc hstale

theorem sound_start :
  Sound World.start.state World.start.claims
  where
  linked := linked_empty
  workkeys := by
    intro key w hw
    cases hw
  sessions := by
    intro slot s hs
    cases hs
  bounded := Nat.zero_le _
  numbered := ⟨List.Pairwise.nil, by simp [World.start]⟩
  given := by
    intro slot key c hc
    cases hc

omit [Surroundings] in
theorem saved_start :
  World.start.Saved
  := .inr (State.Same.refl _)

theorem moves_run (calls : List Call) (h : ∀ call ∈ calls, call.Regular)
    (hsound : Sound world.state world.claims) (hsaved : world.Saved) :
  Moves world.state (calls.foldl World.after world).state (calls.foldl World.after world).claims ∧
    (calls.foldl World.after world).Saved
  := by
  induction calls generalizing world with
  | nil => exact ⟨hsound.moves, hsaved⟩
  | cons call calls ih =>
    obtain ⟨hmoves, hsaved'⟩ := World.after_moves hsound hsaved (h call List.mem_cons_self)
    obtain ⟨hmoves', hsaved''⟩ := ih (fun c hc => h c (List.mem_cons_of_mem call hc)) hmoves.sound
      hsaved'
    exact ⟨hmoves.trans hmoves', hsaved''⟩

theorem moves_append {first more : List Call} (h : ∀ call ∈ first ++ more, call.Regular) :
  Sound (World.run first).state (World.run first).claims ∧ (World.run first).Saved ∧
    Moves (World.run first).state (World.run (first ++ more)).state (World.run (first ++ more)).claims
  := by
  obtain ⟨hmoves, hsaved⟩ := moves_run first (fun c hc => h c (List.mem_append_left _ hc)) sound_start
    saved_start
  obtain ⟨hmore, -⟩ := moves_run more (fun c hc => h c (List.mem_append_right _ hc)) hmoves.sound hsaved
  rw [World.run, World.run, List.foldl_append]
  exact ⟨hmoves.sound, hsaved, hmore⟩

/-- In every run over names that JSON keeps, every workkey has at most one writer, and one that is settled stays as it
is. -/
theorem oneWriter_run (calls : List Call) (h : ∀ call ∈ calls, call.Regular) :
  ∀ first more, first ++ more = calls →
    (World.run calls).OneWriter ∧
      ∀ {key w}, (World.run first).state.workkeys.get? key = some w → w.Settled →
        ∃ w', (World.run calls).state.workkeys.get? key = some w' ∧ w'.state = w.state
  := by
  rintro first more rfl
  obtain ⟨-, -, hmoves⟩ := moves_append h
  refine ⟨hmoves.sound.oneWriter, ?_⟩
  intro key w hw hsettled
  obtain ⟨w', hw', hbecomes⟩ := hmoves.forward hw
  exact ⟨w', hw', hbecomes.settled hsettled⟩

end Calls

/-! ### A workkey without a name -/

section Example

/-- Two slots, processes that run, and a verifier that accepts everything. -/
local instance surroundingsKirby : Surroundings where
  host := text "host"
  maxSlots := 2
  leaseSeconds := 600
  identity := fun _ _ _ => true
  terminate := fun _ _ => text "TERMINATED"
  startSession := fun _ slot generation => (slot ++ text "-g" ++ Text.decimal generation, 7, 0)
  clock := fun n => n
  verifier := some fun _ _ _ _ => true
  printPercent := fun _ => text "90"

def adds (keys : List Str) : Call :=
  .addWorkkeys (keys.map fun key => ⟨key, none, none, none⟩) 100 [] (text "idempotent")

/-- Two sessions work, one of them is saturated and one is restarted. -/
def twoSlots : List Call :=
  [adds [text "W1", text "W2"], .openSlot (text "a") (text "muse") (text "build"),
    .openSlot (text "b") (text "muse") (text "build"), .wake (text "a") false, .wake (text "b") true,
    .deliver (text "a"), .deliver (text "b"), .reload,
    .onProviderOutput (text "a") (text "turn-submit backlog full") none (some (text "step 7")),
    .onTurnEnd (text "b") .done 2 [] [] none [], .onTurnEnd (text "a") .done 1 [] [] none [],
    .recover (text "a") (text "lost")]

theorem oneWriter_twoSlots :
  (World.run twoSlots).OneWriter
  := (oneWriter_run twoSlots (by decide +kernel) twoSlots [] (List.append_nil _)).1

/-- The workkey without a name is claimed, and its session goes on after a turn. -/
def nameless : List Call :=
  [adds [[], text "W2"], .openSlot (text "a") (text "muse") (text "build"), .wake (text "a") false,
    .deliver (text "a"), .onTurnEnd (text "a") .other 1 [] [] none []]

/-- The workkey without a name stays claimed, and no session has it. -/
theorem not_oneWriter :
  ¬ (World.run nameless).OneWriter
  := by
  intro h
  have hclaimed : ∃ w, (World.run nameless).state.workkeys.get? [] = some w ∧ w.state = .claimed := by
    refine ⟨⟨[], .claimed, text "a-g1", 1, [], [], 100, [], text "idempotent", []⟩, ?_, rfl⟩
    decide +kernel
  have hother : ∀ s ∈ (World.run nameless).state.sessions.values, s.workkey ≠ [] := by
    decide +kernel
  obtain ⟨w, hw, hstate⟩ := hclaimed
  obtain ⟨slot, ⟨s, hs, -, hkey⟩, -⟩ := (h.claimed hw).mp hstate
  exact hother s (Dict.mem_values.mpr ⟨slot, hs⟩) hkey

end Example

end Courier.Kirby
