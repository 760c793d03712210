import Courier.Surfaces.Table

/-!
# What the calls keep

Every call keeps the surfaces numbered and the queued intents listed.  Which calls keep a workkey from
having two surfaces, and the windows from becoming too many, is said exactly (`State.Breaks`).
-/

namespace Courier.Surfaces

open Program

variable [Surroundings] {st : State} {surfaceId key : Str} {s : Surface} {world world' world'' : World}
  {raised : SurfacesError → World → Prop} {α : Type} {gone : Prop} {r : Request}
  {requests : List Request} {known : Intent}

/-! ### Parts of the calls -/

def World.Saved (w : World) : Prop :=
  (∃ st, w.file = some st ∧ st.Same w.state) ∨ (State.load w.file).Same w.state

omit [Surroundings] in
theorem World.saved_of_file (h : world.file = some world.state) :
  world.Saved
  := .inl ⟨world.state, h, State.Same.refl _⟩

/-- What a call, or a part of one, comes to: the state is sound, and fit and traced if it was. -/
structure World.Steps (world world' : World) (gone : Prop) : Prop where
  moves : Moves world.state world'.state world.requests gone
  requests : world'.requests = world.requests

section

omit [Surroundings]

@[simp]
theorem wp_save {normal : Unit → World → Prop} :
  wp save normal raised world ↔ normal () { world with file := some world.state }
  := Iff.rfl

@[simp]
theorem wp_modifyState (f : State → State) {normal : Unit → World → Prop} :
  wp (modifyState f) normal raised world ↔ normal () { world with state := f world.state }
  := Iff.rfl

@[simp]
theorem wp_ask (answer : Nat → α) {normal : α → World → Prop} :
  wp (ask answer) normal raised world ↔
    normal (answer world.asked) { world with asked := world.asked + 1 }
  := Iff.rfl

end

@[simp]
theorem wp_askIdentity (s : Surface) {normal : Bool → World → Prop} :
  wp (askIdentity s) normal raised world ↔
    normal (Surroundings.identity world.identityAsked s)
      { world with identityAsked := world.identityAsked + 1 }
  := Iff.rfl

section

omit [Surroundings]

theorem wp_surfaceAt (hs : world.state.surfaces.get? surfaceId = some s)
    {normal : Surface → World → Prop} :
  wp (surfaceAt surfaceId) normal raised world ↔ normal s world
  := by
  simp [surfaceAt, hs]

theorem wp_withSurface {f : Surface → SurfacesM α} {normal : α → World → Prop}
    (hnone : world.state.surfaces.get? surfaceId = none → raised (.keyError surfaceId) world)
    (hsome : ∀ s, world.state.surfaces.get? surfaceId = some s → wp (f s) normal raised world) :
  wp (surfaceAt surfaceId >>= f) normal raised world
  := by
  cases hs : world.state.surfaces.get? surfaceId with
  | none => simpa [surfaceAt, hs] using hnone hs
  | some s =>
    rw [wp_bind, wp_surfaceAt hs]
    exact hsome s hs

end

/-! ### Admission -/

theorem Request.readBack_queued (hdigest : ∀ s : Str, Json.fuse (Surroundings.digest s) = Surroundings.digest s)
    (hline : Text.Encodable r.line) :
  r.queued.readBack = r.queued
  := by
  have hencodable : Text.Encodable r.provider ∧ Text.Encodable r.workkey := by
    simp only [Text.Encodable, Request.line, List.any_append, Bool.or_eq_false_iff] at hline ⊢
    exact ⟨hline.1.1.1.1.2, hline.1.1.2⟩
  have hprovider := Json.fuse_eq_self (Json.hasPair_of_encodable hencodable.1)
  have hworkkey := Json.fuse_eq_self (Json.hasPair_of_encodable hencodable.2)
  rw [Queued.readBack, Request.queued]
  simp only [hprovider, hworkkey, Request.intentKey, hdigest]

theorem wp_findIdle (provider : Str) (needsVisible : Bool) (surfaces : List Surface)
    {normal : Option Surface → World → Prop}
    (hnone : ∀ n, normal none { world with identityAsked := n })
    (hsome : ∀ n, ∀ s ∈ surfaces, s.state.Reusable → normal (some s) { world with identityAsked := n }) :
  wp (findIdle provider needsVisible surfaces) normal raised world
  := by
  induction surfaces generalizing world with
  | nil => exact hnone world.identityAsked
  | cons s rest ih =>
    unfold findIdle
    split
    next hfits =>
      rw [wp_bind, wp_askIdentity]
      split
      · exact hsome _ s List.mem_cons_self hfits.2.2.1
      · apply ih
        · exact hnone
        · intro n o ho
          exact hsome n o (List.mem_cons_of_mem s ho)
    next =>
      apply ih hnone
      intro n o ho
      exact hsome n o (List.mem_cons_of_mem s ho)

theorem wp_register (provider workkey : Str) (visible : Bool) {normal : Str → World → Prop}
    (h : ∀ now asked, normal (surfaceName (world.state.seq + 1)) { world with
      state := world.state.registered (newSurface provider workkey visible (world.state.seq + 1) now)
      asked := asked }) :
  wp (register provider workkey visible) normal raised world
  := by
  unfold register
  simp only [wp_bind, wp_get, wp_ask, wp_modifyState, wp_pure]
  exact h _ _

variable {state : SurfaceState}

section

omit [Surroundings]

theorem SurfaceState.not_busy_of_reusable (h : state.Reusable) :
  ¬ state.Busy
  := by
  cases state <;> simp [Reusable, Busy] at *

theorem SurfaceState.not_dead_of_reusable (h : state.Reusable) :
  ¬ state.Dead
  := by
  cases state <;> simp [Reusable, Dead] at *

theorem SurfaceState.not_dead_of_busy (h : state.Busy) :
  ¬ state.Dead
  := by
  cases state <;> simp [Busy, Dead] at *

end

structure State.Admits (st : State) (r : Request) : Prop where
  kept : r.queued.readBack = r.queued
  unqueued : ∀ n, st.intents.get? r.intentKey ≠ some (.queued n)
  free : ∀ surfaceId s, st.surfaces.get? surfaceId = some s → ¬ s.RunsOn r.workkey

theorem wp_place (gone : Prop) (h : Sound world.state) (hr : r ∈ world.requests)
    (hadmits : world.state.Admits r) {visible : Bool} (hroom : visible → world.state.visibleLive < Surroundings.budget.hard) :
  wp (place r visible) (fun _ world' => world.Steps world' gone ∧ world'.Saved) (fun _ _ => False) world
  := by
  unfold place
  rw [wp_bind]
  apply wp_register
  intro now asked
  simp only [wp_bind, wp_modifyState, wp_save, wp_pure]
  have hworkkey : Json.fuse r.workkey = r.workkey := congrArg Queued.workkey hadmits.kept
  have hkey : Json.fuse r.intentKey = r.intentKey := congrArg Queued.intent hadmits.kept
  have hregistered : Moves world.state (world.state.registered
      (newSurface r.provider r.workkey visible (world.state.seq + 1) now)) world.requests gone := by
    apply h.moves_registered rfl hworkkey hadmits.free
    exact fun hlive => hroom hlive.1
  have hnew : (world.state.registered
      (newSurface r.provider r.workkey visible (world.state.seq + 1) now)).surfaces.get?
      (surfaceName (world.state.seq + 1)) =
      some (newSurface r.provider r.workkey visible (world.state.seq + 1) now) :=
    (State.get?_setSurface ..).trans (if_pos rfl)
  have hruns : (newSurface r.provider r.workkey visible (world.state.seq + 1) now).RunsOn r.workkey :=
    ⟨rfl, by simp [newSurface, SurfaceState.Busy]⟩
  exact ⟨⟨hregistered.trans
    (hregistered.sound.moves_setIntent hkey hadmits.unqueued hr hnew hruns 1), rfl⟩, World.saved_of_file rfl⟩

theorem Sound.moves_reuse (h : Sound st) (hr : r ∈ requests) (hadmits : st.Admits r)
    (hs : st.surfaces.get? surfaceId = some s) (hreusable : s.state.Reusable) (now : ℚ) :
  Moves st ((st.setSurface surfaceId { s with
      state := .working
      workkey := r.workkey
      lastActivity := now }).setIntent r.intentKey (.on surfaceId 1)) requests gone
  := by
  have hworkkey : Json.fuse r.workkey = r.workkey := congrArg Queued.workkey hadmits.kept
  have hkey : Json.fuse r.intentKey = r.intentKey := congrArg Queued.intent hadmits.kept
  have hset : Moves st (st.setSurface surfaceId { s with
      state := .working
      workkey := r.workkey
      lastActivity := now }) requests gone := by
    refine h.moves_setSurface hs rfl ?_ ?_ ?_ ?_
    · exact hworkkey
    · rintro workkey ⟨rfl, -⟩ ⟨other, o, -, ho, hruns⟩
      exact hadmits.free other o ho hruns
    · intro hlive
      exact ⟨hlive.1, SurfaceState.not_dead_of_reusable hreusable⟩
    · rintro workkey (⟨-, hbusy⟩ | ⟨-, hdead⟩)
      · exact absurd hbusy (SurfaceState.not_busy_of_reusable hreusable)
      · exact absurd hdead (SurfaceState.not_dead_of_reusable hreusable)
  refine hset.trans (hset.sound.moves_setIntent hkey hadmits.unqueued hr
    ((st.get?_setSurface ..).trans (if_pos rfl)) ⟨rfl, ?_⟩ 1)
  simp [SurfaceState.Busy]

/-- New work is started or queued. -/
theorem wp_admitNew (gone : Prop) (h : Sound world.state) (hr : r ∈ world.requests)
    (hadmits : world.state.Admits r) (needsVisible allowHeadless : Bool) (ramUsedPct : Option ℚ) :
  wp (admitNew r needsVisible allowHeadless ramUsedPct)
    (fun decision world' => decision.action ≠ .coalesced ∧ world.Steps world' gone ∧ world'.Saved)
    (fun _ _ => False) world
  := by
  have hplace : ∀ n visible, (visible = true → world.state.visibleLive < Surroundings.budget.hard) →
      wp (place r visible) (fun _ world' => world.Steps world' gone ∧ world'.Saved)
        (fun _ _ => False) { world with identityAsked := n } := by
    intro n visible hroom
    refine wp_mono (wp_place gone ?_ ?_ ?_ ?_) ?_ ?_
    · exact h
    · exact hr
    · exact hadmits
    · exact hroom
    · rintro _ world' ⟨hsteps, hsaved⟩
      exact ⟨⟨hsteps.moves, hsteps.requests⟩, hsaved⟩
    · exact fun _ _ hfalse => hfalse
  unfold admitNew
  rw [wp_bind, wp_get, wp_bind]
  apply wp_findIdle
  · intro n
    dsimp only
    rw [wp_bind, wp_get]
    dsimp only
    split
    · rw [wp_bind]
      refine wp_mono (hplace n false (by simp)) ?_ fun _ _ hfalse => hfalse
      exact fun _ _ hdone => ⟨by simp, hdone⟩
    split
    · simp only [wp_bind, wp_modifyState, wp_save, wp_pure]
      exact ⟨by simp, ⟨h.moves_enqueue hadmits.kept hadmits.unqueued hr, rfl⟩, World.saved_of_file rfl⟩
    next hlevel =>
      have hroom : world.state.visibleLive < Surroundings.budget.hard := by
        by_contra hfull
        apply hlevel
        rw [pressureLevel, if_pos (.inl (by omega))]
      rw [wp_bind]
      refine wp_mono (hplace n true fun _ => hroom) ?_ fun _ _ hfalse => hfalse
      exact fun _ _ hdone => ⟨by simp, hdone⟩
  · intro n idle hidle hreusable
    obtain ⟨surfaceId, hs⟩ := Dict.mem_values.mp hidle
    obtain rfl := h.id hs
    simp only [wp_bind, wp_ask, wp_modifyState, wp_save, wp_pure]
    exact ⟨by simp, ⟨h.moves_reuse hr hadmits hs hreusable _, rfl⟩, World.saved_of_file rfl⟩

def State.Joins (st : State) (r : Request) : Prop :=
  Text.Encodable r.line ∧
    ((∃ known, st.intents.get? r.intentKey = some known ∧ st.Pending known) ∨
      ∃ surfaceId s, st.surfaces.get? surfaceId = some s ∧ s.RunsOn r.workkey)

theorem Moves.coalesce (h : Moves st (st.setIntent key known) requests gone) :
  Moves st (st.coalesce key known) requests gone
  := h.trans (h.sound.moves_same ⟨rfl, rfl, rfl, rfl⟩)

/-- What an answer to a request comes to: it is `COALESCED` exactly if the request joins other work, and
then nothing is done. -/
structure World.Admitted (world world' : World) (r : Request) (coalesced : Prop) : Prop where
  steps : world.Steps world' False
  saved : world'.Saved
  coalesced_iff : coalesced ↔ world.state.Joins r
  surfaces : world.state.Joins r → world'.state.surfaces = world.state.surfaces
  queue : world.state.Joins r → world'.state.queue = world.state.queue

theorem wp_admitRequest (hdigest : ∀ s : Str, Json.fuse (Surroundings.digest s) = Surroundings.digest s)
    (h : Sound world.state) (hsaved : world.Saved) (hr : r ∈ world.requests)
    (needsVisible allowHeadless : Bool) (ramUsedPct : Option ℚ) :
  wp (admitRequest r needsVisible allowHeadless ramUsedPct)
    (fun decision world' => world.Admitted world' r (decision.action = .coalesced))
    (fun _ world' => world.Admitted world' r False) world
  := by
  unfold admitRequest
  split
  next hline =>
    have hkept := Request.readBack_queued hdigest hline
    have hkey : Json.fuse r.intentKey = r.intentKey := congrArg Queued.intent hkept
    rw [wp_bind, wp_get]
    dsimp only
    split
    next known hfound =>
      obtain ⟨hknown, hpending⟩ := Option.filter_eq_some_iff.mp hfound
      have hjoins : world.state.Joins r := ⟨hline, .inl ⟨known, hknown, of_decide_eq_true hpending⟩⟩
      simp only [wp_bind, wp_modifyState, wp_save, wp_pure]
      exact ⟨⟨(h.moves_again hknown).coalesce, rfl⟩, World.saved_of_file rfl,
        iff_of_true trivial hjoins, fun _ => rfl, fun _ => rfl⟩
    next hnone =>
      have hnot : ∀ known, world.state.intents.get? r.intentKey = some known →
          ¬ world.state.Pending known := by
        intro known hknown hpending
        rw [hknown, Option.filter_some, if_pos (decide_eq_true hpending)] at hnone
        cases hnone
      have hunqueued : ∀ n, world.state.intents.get? r.intentKey ≠ some (.queued n) :=
        fun n hknown => hnot _ hknown trivial
      split
      next running hrunning =>
        obtain ⟨surfaceId, hs⟩ := Dict.mem_values.mp (List.mem_of_find?_eq_some hrunning)
        obtain rfl := h.id hs
        have hruns : running.RunsOn r.workkey := by
          simpa using List.find?_some hrunning
        have hjoins : world.state.Joins r := ⟨hline, .inr ⟨_, running, hs, hruns⟩⟩
        simp only [wp_bind, wp_modifyState, wp_save, wp_pure]
        exact ⟨⟨(h.moves_setIntent hkey hunqueued hr hs hruns 1).coalesce, rfl⟩, World.saved_of_file rfl,
          iff_of_true trivial hjoins, fun _ => rfl, fun _ => rfl⟩
      next hnobody =>
        have hfree : ∀ surfaceId s, world.state.surfaces.get? surfaceId = some s →
            ¬ s.RunsOn r.workkey := by
          intro surfaceId s hs hruns
          exact List.find?_eq_none.mp hnobody s (Dict.mem_values.mpr ⟨surfaceId, hs⟩)
            (decide_eq_true hruns)
        have hjoins : ¬ world.state.Joins r := by
          rintro ⟨-, ⟨known, hknown, hpending⟩ | ⟨surfaceId, s, hs, hruns⟩⟩
          · exact hnot known hknown hpending
          · exact hfree surfaceId s hs hruns
        refine wp_mono (wp_admitNew False h hr ⟨hkept, hunqueued, hfree⟩
          needsVisible allowHeadless ramUsedPct) ?_ fun _ _ hfalse => hfalse.elim
        rintro decision world' ⟨haction, hsteps, hsaved'⟩
        exact ⟨hsteps, hsaved', iff_of_false haction hjoins, fun hj => absurd hj hjoins,
          fun hj => absurd hj hjoins⟩
  next hline =>
    have hjoins : ¬ world.state.Joins r := fun hj => hline hj.1
    exact ⟨⟨h.moves, rfl⟩, hsaved, iff_of_false id hjoins, fun _ => rfl, fun _ => rfl⟩

/-! ### The life of a surface -/

structure World.Keeps (world world' : World) (breaks traces : Prop) : Prop where
  sound : Sound world'.state
  saved : world'.Saved
  requests : world'.requests = world.requests
  fit : Fit world.state → (Fit world'.state ↔ ¬ breaks)
  traced : traces → Traced world.state world.requests False →
    Traced world'.state world'.requests False

theorem World.Steps.keeps (h : world.Steps world' False) (hsaved : world'.Saved) {traces : Prop} :
  world.Keeps world' False traces
  where
  sound := h.moves.sound
  saved := hsaved
  requests := h.requests
  fit := fun hfit => iff_of_true (h.moves.fit hfit) id
  traced := by
    intro _ htraced
    rw [h.requests]
    exact h.moves.traced htraced

/-- The surface works on what another works on, or is alive again among too many surfaces with a window. -/
def State.Spoils (st : State) (s : Surface) (workkey : Str) (state : SurfaceState) : Prop :=
  state.Busy ∧ st.RunsElsewhere s.surfaceId workkey ∨
    ¬ state.Dead ∧ s.visible ∧ s.state.Dead ∧ Surroundings.budget.hard ≤ st.visibleLive

def State.Breaks (st : State) : Call → Prop
  | .attach surfaceId _ _ _ _ =>
      ∃ s, st.surfaces.get? surfaceId = some s ∧ st.Spoils s s.workkey .working
  | .setState surfaceId state _ _ =>
      ∃ s, st.surfaces.get? surfaceId = some s ∧ st.Spoils s s.workkey state
  | .finish surfaceId _ =>
      ∃ s, st.surfaces.get? surfaceId = some s ∧
        match st.nextQueued s with
        | some next => st.Spoils s next.workkey .working
        | none => st.Spoils s s.workkey .idleReady
  | _ => False

def Call.SetsState : Call → Prop
  | .setState _ _ _ _ => True
  | _ => False

variable {s' : Surface}

theorem Fit.setSurface_iff_not_spoils (h : Fit st) (hnamed : Named st)
    (hs : st.surfaces.get? surfaceId = some s) (hvisible : s'.visible = s.visible) :
  Fit (st.setSurface surfaceId s') ↔ ¬ st.Spoils s s'.workkey s'.state
  := by
  rw [h.setSurface_iff hs, State.Spoils, hnamed.id hs, ← not_or, Surface.VisibleLive,
    Surface.VisibleLive, hvisible]
  tauto

theorem Fit.of_surfaces (h : Fit st) {st' : State} (heq : st'.surfaces = st.surfaces) :
  Fit st'
  where
  alone := by
    rw [heq]
    exact h.alone
  bounded := by
    rw [State.visibleLive, heq]
    exact h.bounded

theorem Fit.congr {st' : State} (heq : st'.surfaces = st.surfaces) :
  Fit st' ↔ Fit st
  := ⟨fun h => h.of_surfaces heq.symm, fun h => h.of_surfaces heq⟩

omit [Surroundings] in
theorem Sound.setSurface (h : Sound st) (hs : st.surfaces.get? surfaceId = some s)
    (hid : s'.surfaceId = s.surfaceId) (hworkkey : Json.fuse s'.workkey = s'.workkey) :
  Sound (st.setSurface surfaceId s')
  := ⟨h.toNamed.setSurface hs hid hworkkey, h.once, h.marked, h.listed, h.kept, h.keys⟩

theorem World.keeps_self (h : Sound world.state) (hsaved : world.Saved) {breaks traces : Prop}
    (hnot : ¬ breaks) :
  world.Keeps world breaks traces
  := ⟨h, hsaved, rfl, fun hfit => iff_of_true hfit hnot, fun _ htraced => htraced⟩

section

omit [Surroundings]

theorem not_exists_get? {p : Surface → Prop} (hnone : st.surfaces.get? surfaceId = none) :
  ¬ ∃ s, st.surfaces.get? surfaceId = some s ∧ p s
  := by
  rintro ⟨s, hs, -⟩
  rw [hnone] at hs
  cases hs

theorem exists_get?_iff {p : Surface → Prop} (hs : st.surfaces.get? surfaceId = some s) :
  (∃ o, st.surfaces.get? surfaceId = some o ∧ p o) ↔ p s
  := by
  simp [hs]

end

theorem World.keeps_setSurface (h : Sound world.state)
    (hs : world.state.surfaces.get? surfaceId = some s)
    (hstate : world'.state = world.state.setSurface surfaceId s')
    (hfile : world'.file = some world'.state) (hrequests : world'.requests = world.requests)
    (hid : s'.surfaceId = s.surfaceId) (hworkkey : s'.workkey = s.workkey)
    (hvisible : s'.visible = s.visible) {breaks traces : Prop}
    (hbreaks : breaks ↔ world.state.Spoils s s.workkey s'.state) (htraces : traces → s'.state.Busy) :
  world.Keeps world' breaks traces
  where
  sound := by
    rw [hstate]
    apply h.setSurface hs hid
    rw [hworkkey]
    exact h.workkey hs
  saved := World.saved_of_file hfile
  requests := hrequests
  fit := by
    intro hfit
    rw [hstate, hfit.setSurface_iff_not_spoils h.toNamed hs hvisible, hbreaks, hworkkey]
  traced := by
    intro htrace htraced
    rw [hstate, hrequests]
    apply htraced.setSurface hs
    rintro key n hknown workkey (hruns | ⟨hfalse, -⟩)
    · exact .inl ⟨hworkkey.trans hruns.1, htraces htrace⟩
    · exact hfalse.elim

theorem wp_attach (h : Sound world.state) (hsaved : world.Saved) (surfaceId : Str) (pid : Int)
    (createTime : ℚ) (parentPid : Int) (windowId : Str) :
  wp (attach surfaceId pid createTime parentPid windowId)
    (fun _ world' => world.Keeps world'
      (world.state.Breaks (.attach surfaceId pid createTime parentPid windowId)) True)
    (fun _ world' => world.Keeps world'
      (world.state.Breaks (.attach surfaceId pid createTime parentPid windowId)) True) world
  := by
  unfold attach
  apply wp_withSurface
  · exact fun hnone => World.keeps_self h hsaved (not_exists_get? hnone)
  · intro s hs
    simp only [wp_bind, wp_modifyState, wp_save]
    apply World.keeps_setSurface h hs
    case hstate => rfl
    case hbreaks => exact exists_get?_iff hs
    case htraces => simp [SurfaceState.Busy]
    all_goals rfl

theorem wp_setState (h : Sound world.state) (hsaved : world.Saved) (surfaceId : Str)
    (state : SurfaceState) (checkpoint : Option Str) («unsaved» : Option Bool) :
  wp (setState surfaceId state checkpoint «unsaved»)
    (fun _ world' => world.Keeps world'
      (world.state.Breaks (.setState surfaceId state checkpoint «unsaved»)) False)
    (fun _ world' => world.Keeps world'
      (world.state.Breaks (.setState surfaceId state checkpoint «unsaved»)) False) world
  := by
  unfold setState
  apply wp_withSurface
  · exact fun hnone => World.keeps_self h hsaved (not_exists_get? hnone)
  · intro s hs
    simp only [wp_bind, wp_ask, wp_modifyState, wp_save]
    apply World.keeps_setSurface h hs
    case hstate => rfl
    case hbreaks => exact exists_get?_iff hs
    case htraces => exact False.elim
    all_goals rfl

theorem Sound.handedOver (requests : List Request) (h : Sound st)
    (hs : st.surfaces.get? surfaceId = some s) {next : Queued}
    (hnext : st.nextQueued s = some next) (hid : s'.surfaceId = s.surfaceId)
    (hworkkey : s'.workkey = next.workkey) (hbusy : s'.state.Busy) :
  Sound ((((st.dropIntents surfaceId).setSurface surfaceId s').dequeue next).setIntent next.intent
      (.on surfaceId 1)) ∧
    (Traced st requests False → Traced ((((st.dropIntents surfaceId).setSurface surfaceId s').dequeue
      next).setIntent next.intent (.on surfaceId 1)) requests False)
  := by
  have hmem : next ∈ st.queue := List.mem_of_find?_eq_some hnext
  have hdropped : Moves st (st.dropIntents surfaceId) requests False := h.moves_dropIntents surfaceId
  have hset : Sound ((st.dropIntents surfaceId).setSurface surfaceId s') := by
    apply hdropped.sound.setSurface hs hid
    rw [hworkkey]
    exact congrArg Queued.workkey (h.kept hmem)
  have hmoves : Moves _ _ requests False := hset.moves_handOver hmem
    ((State.get?_setSurface ..).trans (if_pos rfl)) ⟨hworkkey, hbusy⟩ 1
  refine ⟨hmoves.sound, ?_⟩
  intro htraced
  apply hmoves.traced
  apply (hdropped.traced htraced).setSurface hs
  intro key n hknown
  exact absurd hknown (st.dropIntents_ne surfaceId key n)

theorem wp_finish (h : Sound world.state) (hsaved : world.Saved) (surfaceId checkpoint : Str) :
  wp (finish surfaceId checkpoint)
    (fun _ world' => world.Keeps world' (world.state.Breaks (.finish surfaceId checkpoint)) True)
    (fun _ world' => world.Keeps world' (world.state.Breaks (.finish surfaceId checkpoint)) True) world
  := by
  unfold finish
  apply wp_withSurface
  · exact fun hnone => World.keeps_self h hsaved (not_exists_get? hnone)
  · intro s hs
    simp only [wp_bind, wp_ask, wp_get]
    split
    next next hnext =>
      simp only [wp_bind, wp_modifyState, wp_save, wp_pure]
      have hbusy : SurfaceState.working.Busy := by simp [SurfaceState.Busy]
      obtain ⟨s', hs'⟩ : ∃ s', s' = { s.finished checkpoint (Surroundings.clock world.asked) with
          state := .working
          workkey := next.workkey } := ⟨_, rfl⟩
      have hid : s'.surfaceId = s.surfaceId := by rw [hs', Surface.finished]
      have hworkkey : s'.workkey = next.workkey := by rw [hs']
      have hstate : s'.state = .working := by rw [hs']
      have hvisible : s'.visible = s.visible := by rw [hs', Surface.finished]
      rw [← hstate] at hbusy
      rw [← hs']
      have hhanded := h.handedOver world.requests hs hnext hid hworkkey hbusy
      refine ⟨hhanded.1, World.saved_of_file rfl, rfl, ?_, fun _ => hhanded.2⟩
      intro hfit
      have hset := hfit.setSurface_iff_not_spoils h.toNamed hs hvisible
      rw [hworkkey, hstate] at hset
      rw [State.Breaks, exists_get?_iff hs, hnext, ← hset]
      exact Fit.congr rfl
    next hnext =>
      simp only [wp_bind, wp_modifyState, wp_save, wp_pure]
      have hdropped : Moves world.state (world.state.dropIntents surfaceId) world.requests False :=
        h.moves_dropIntents surfaceId
      have hworkkey : Json.fuse s.workkey = s.workkey := h.workkey hs
      refine ⟨hdropped.sound.setSurface hs rfl ?_, World.saved_of_file rfl, rfl, ?_, ?_⟩
      · exact hworkkey
      · intro hfit
        have hset : Fit (world.state.setSurface surfaceId
            (s.finished checkpoint (Surroundings.clock world.asked))) ↔
            ¬ world.state.Spoils s s.workkey .idleReady :=
          hfit.setSurface_iff_not_spoils h.toNamed hs rfl
        rw [State.Breaks, exists_get?_iff hs, hnext, ← hset]
        exact Fit.congr rfl
      · intro _ htraced
        apply (hdropped.traced htraced).setSurface hs
        intro key n hknown
        exact absurd hknown (world.state.dropIntents_ne surfaceId key n)

/-! ### Closing -/

theorem Surface.not_busy_of_reasons {s : Surface} {runs : Bool} (h : s.reasons runs = []) :
  ¬ s.state.Busy
  := by
  intro hbusy
  simp [Surface.reasons, hbusy] at h

theorem Sound.moves_close (h : Sound st) (hs : st.surfaces.get? surfaceId = some s)
    (hidle : ¬ s.state.Busy) :
  Moves st (st.setSurface surfaceId { s with state := .completed }) requests False
  := by
  have hworkkey : Json.fuse s.workkey = s.workkey := h.workkey hs
  refine h.moves_setSurface hs rfl ?_ ?_ ?_ ?_
  · exact hworkkey
  · rintro workkey ⟨-, hbusy⟩
    simp [SurfaceState.Busy] at hbusy
  · rintro ⟨-, hlive⟩
    simp [SurfaceState.Dead] at hlive
  · rintro workkey (⟨-, hbusy⟩ | ⟨hfalse, -⟩)
    · exact absurd hbusy hidle
    · exact hfalse.elim

theorem World.steps_self (h : Sound world.state) :
  world.Steps world gone
  := ⟨h.moves, rfl⟩

theorem World.Steps.trans (h : world.Steps world' gone) (h' : world'.Steps world'' gone) :
  world.Steps world'' gone
  where
  moves := by
    have hmoves := h'.moves
    rw [h.requests] at hmoves
    exact h.moves.trans hmoves
  requests := h'.requests.trans h.requests

theorem wp_reclaim (h : Sound world.state) (hsaved : world.Saved) (surfaceId : Str) :
  wp (reclaim surfaceId) (fun _ world' => world.Steps world' False ∧ world'.Saved)
    (fun _ world' => world.Steps world' False ∧ world'.Saved) world
  := by
  unfold reclaim
  rw [wp_bind]
  unfold whyNotClosable
  apply wp_withSurface
  · exact fun _ => ⟨World.steps_self h, hsaved⟩
  · intro s hs
    rw [wp_bind, wp_askIdentity, wp_pure]
    split
    · exact ⟨⟨h.moves, rfl⟩, hsaved⟩
    next hreasons =>
      rw [wp_bind]
      refine (wp_surfaceAt (s := s) ?_).mpr ?_
      · exact hs
      simp only [wp_bind, wp_ask, wp_modifyState, wp_save, wp_pure]
      have hidle := Surface.not_busy_of_reasons (not_not.mp hreasons)
      exact ⟨⟨h.moves_close hs hidle, rfl⟩, World.saved_of_file rfl⟩

omit [Surroundings] in
theorem wp_forSurfaces {f : Str → SurfacesM (Option α)} {P : World → Prop}
    (hf : ∀ surfaceId world, P world → wp (f surfaceId) (fun _ => P) raised world)
    (surfaceIds : List Str) (hP : P world) :
  wp (forSurfaces f surfaceIds) (fun _ => P) raised world
  := by
  induction surfaceIds generalizing world with
  | nil => exact hP
  | cons surfaceId rest ih =>
    unfold forSurfaces
    rw [wp_bind]
    refine wp_mono (hf surfaceId world hP) ?_ fun _ _ h => h
    intro answer world' hP'
    rw [wp_bind]
    exact wp_mono (ih hP') (fun _ _ h => h) fun _ _ h => h

theorem wp_reclaimIfIdle (h : Sound world.state) (hsaved : world.Saved) (surfaceId : Str) :
  wp (reclaimIfIdle surfaceId) (fun _ world' => world.Steps world' False ∧ world'.Saved)
    (fun _ world' => world.Steps world' False ∧ world'.Saved) world
  := by
  unfold reclaimIfIdle
  rw [wp_bind, wp_get]
  split
  · rw [wp_map]
    exact wp_reclaim h hsaved surfaceId
  · exact ⟨World.steps_self h, hsaved⟩

theorem wp_reclaimIdle (h : Sound world.state) (hsaved : world.Saved) :
  wp reclaimIdle (fun _ world' => world.Steps world' False ∧ world'.Saved)
    (fun _ world' => world.Steps world' False ∧ world'.Saved) world
  := by
  unfold reclaimIdle
  rw [wp_bind, wp_get]
  apply wp_forSurfaces (P := fun world' => world.Steps world' False ∧ world'.Saved)
  · rintro surfaceId world' ⟨hsteps, hsaved'⟩
    refine wp_mono (wp_reclaimIfIdle hsteps.moves.sound hsaved' surfaceId) ?_ ?_
    · exact fun _ _ hdone => ⟨hsteps.trans hdone.1, hdone.2⟩
    · exact fun _ _ hdone => ⟨hsteps.trans hdone.1, hdone.2⟩
  · exact ⟨World.steps_self h, hsaved⟩

/-! ### Restart -/

theorem wp_reconcileSurface (h : Sound world.state) (surfaceId : Str) :
  wp (reconcileSurface surfaceId) (fun _ world' => world.Steps world' True)
    (fun _ _ => False) world
  := by
  unfold reconcileSurface
  rw [wp_bind, wp_get]
  split
  · exact World.steps_self h
  next s hs =>
    split
    · exact World.steps_self h
    split
    · exact World.steps_self h
    rw [wp_bind, wp_askIdentity]
    split
    · exact ⟨h.moves, rfl⟩
    · simp only [wp_bind, wp_modifyState, wp_pure]
      refine ⟨?_, rfl⟩
      have hworkkey : Json.fuse s.workkey = s.workkey := h.workkey hs
      refine h.moves_setSurface hs rfl ?_ ?_ ?_ ?_
      · exact hworkkey
      · rintro workkey ⟨-, hbusy⟩
        simp [SurfaceState.Busy] at hbusy
      · rintro ⟨-, hlive⟩
        simp [SurfaceState.Dead] at hlive
      · exact fun _ _ => .inr ⟨trivial, by simp [SurfaceState.Dead]⟩

theorem Traced.mono (h : Traced st requests False) {requests' : List Request}
    (hsub : requests ⊆ requests') (gone : Prop) :
  Traced st requests' gone
  where
  queued := by
    intro q hq
    obtain ⟨r, hr, heq⟩ := h.queued hq
    exact ⟨r, hsub hr, heq⟩
  running := by
    intro key surfaceId n hknown
    obtain ⟨r, hr, hkey, s, hs, hruns | ⟨hfalse, -⟩⟩ := h.running hknown
    · exact ⟨r, hsub hr, hkey, s, hs, .inl hruns⟩
    · exact hfalse.elim

theorem wp_reconcile (h : Sound world.state) :
  wp reconcile (fun _ world' => world.Steps world' False ∧ world'.Saved) (fun _ _ => False) world
  := by
  unfold reconcile
  rw [wp_bind, wp_get, wp_bind]
  refine wp_mono (wp_forSurfaces (P := fun world' => world.Steps world' True) ?_ _
    (World.steps_self h)) ?_ fun _ _ hfalse => hfalse
  · intro surfaceId world' hsteps
    refine wp_mono (wp_reconcileSurface hsteps.moves.sound surfaceId) ?_ fun _ _ hfalse => hfalse
    exact fun _ _ hnext => hsteps.trans hnext
  · intro result world' hsteps
    simp only [wp_bind, wp_modifyState, wp_save, wp_pure]
    refine ⟨⟨⟨hsteps.moves.sound.dropGone, ?_, ?_⟩, hsteps.requests⟩, World.saved_of_file rfl⟩
    · exact fun hfit => (hsteps.moves.fit hfit).of_surfaces rfl
    · intro htraced
      exact (hsteps.moves.traced (htraced.mono (List.Subset.refl _) True)).dropGone
        hsteps.moves.sound.toNamed

theorem wp_reload (h : Sound world.state) (hsaved : world.Saved) :
  wp reload (fun _ world' => world.Steps world' False ∧ world'.Saved) (fun _ _ => False) world
  := by
  unfold reload
  refine ⟨⟨?_, rfl⟩, .inr (State.Same.refl _)⟩
  rcases hsaved with ⟨st, hfile, hsame⟩ | hsame
  · have hmoves : Moves world.state st world.requests False := h.moves_same hsame.symm
    have hload := hmoves.trans hmoves.sound.moves_load
    rw [← hfile] at hload
    exact hload
  · exact h.moves_same hsame.symm

end Courier.Surfaces
