import Courier.Surfaces.Steps

/-!
# Workkeys and requests over whole runs

Exactly the calls that break it (`State.Breaks`) end that every workkey has at most one surface, and that surfaces
with a window are not too many.  A request whose answer is `COALESCED` is worked on or waits for a surface, unless its
intent is another's (`State.Collides`) or stranded (`State.Stranded`).
-/

namespace Courier.Surfaces

open Program

section Calls

variable [Surroundings] {st : State} {world world' : World} {r : Request}

/-! ### What every call keeps -/

theorem World.after_of_wp {P : World → Prop} {call : Call}
    (h : wp (perform call) (fun _ => P) (fun _ => P)
      { world with requests := world.requests ++ call.requests }) :
  P (world.after call)
  := by
  unfold World.after
  unfold wp at h
  split at h
  next heq =>
    rw [heq]
    exact h
  next heq =>
    rw [heq]
    exact h

instance (call : Call) : Decidable call.SetsState :=
  match call with
  | .admitRequest .. => isFalse id
  | .attach .. => isFalse id
  | .setState .. => isTrue trivial
  | .finish .. => isFalse id
  | .reclaim .. => isFalse id
  | .reclaimIdle => isFalse id
  | .reconcile => isFalse id
  | .reload => isFalse id

/-- What every call comes to. -/
theorem wp_perform (hdigest : ∀ s : Str, Json.fuse (Surroundings.digest s) = Surroundings.digest s)
    (h : Sound world.state) (hsaved : world.Saved) (call : Call)
    (hrequests : ∀ r ∈ call.requests, r ∈ world.requests) :
  wp (perform call) (fun _ world' => world.Keeps world' (world.state.Breaks call) (¬ call.SetsState))
    (fun _ world' => world.Keeps world' (world.state.Breaks call) (¬ call.SetsState)) world
  := by
  cases call with
  | admitRequest r needsVisible allowHeadless ramUsedPct =>
    apply wp_discard
    apply wp_mono (wp_admitRequest hdigest h hsaved (hrequests r (List.mem_singleton_self r)) needsVisible
      allowHeadless ramUsedPct)
    · exact fun _ _ hdone => hdone.steps.keeps hdone.saved
    · exact fun _ _ hdone => hdone.steps.keeps hdone.saved
  | attach surfaceId pid createTime parentPid windowId =>
    apply wp_mono (wp_attach h hsaved surfaceId pid createTime parentPid windowId)
    · exact fun _ _ hdone => { hdone with traced := fun _ => hdone.traced trivial }
    · exact fun _ _ hdone => { hdone with traced := fun _ => hdone.traced trivial }
  | setState surfaceId state checkpoint «unsaved» =>
    apply wp_mono (wp_setState h hsaved surfaceId state checkpoint «unsaved»)
    · exact fun _ _ hdone => { hdone with traced := fun hnot => absurd trivial hnot }
    · exact fun _ _ hdone => { hdone with traced := fun hnot => absurd trivial hnot }
  | finish surfaceId checkpoint =>
    apply wp_discard
    apply wp_mono (wp_finish h hsaved surfaceId checkpoint)
    · exact fun _ _ hdone => { hdone with traced := fun _ => hdone.traced trivial }
    · exact fun _ _ hdone => { hdone with traced := fun _ => hdone.traced trivial }
  | reclaim surfaceId =>
    apply wp_discard
    apply wp_mono (wp_reclaim h hsaved surfaceId)
    · exact fun _ _ hdone => hdone.1.keeps hdone.2
    · exact fun _ _ hdone => hdone.1.keeps hdone.2
  | reclaimIdle =>
    apply wp_discard
    apply wp_mono (wp_reclaimIdle h hsaved)
    · exact fun _ _ hdone => hdone.1.keeps hdone.2
    · exact fun _ _ hdone => hdone.1.keeps hdone.2
  | reconcile =>
    apply wp_discard
    apply wp_mono (wp_reconcile h)
    · exact fun _ _ hdone => hdone.1.keeps hdone.2
    · exact fun _ _ hfalse => hfalse.elim
  | reload =>
    apply wp_mono (wp_reload h hsaved)
    · exact fun _ _ hdone => hdone.1.keeps hdone.2
    · exact fun _ _ hfalse => hfalse.elim

theorem World.after_keeps (hdigest : ∀ s : Str, Json.fuse (Surroundings.digest s) = Surroundings.digest s)
    (h : Sound world.state) (hsaved : world.Saved) (call : Call) :
  ({ world with requests := world.requests ++ call.requests } : World).Keeps (world.after call)
    (world.state.Breaks call) (¬ call.SetsState)
  := by
  apply World.after_of_wp (P := fun world' =>
    ({ world with requests := world.requests ++ call.requests } : World).Keeps world'
      (world.state.Breaks call) (¬ call.SetsState))
  refine wp_perform hdigest ?_ ?_ call ?_
  · exact h
  · exact hsaved
  · exact fun r hr => List.mem_append_right _ hr

section

omit [Surroundings]

theorem sound_start :
  Sound World.start.state
  where
  id := by
    intro surfaceId s hs
    cases hs
  workkey := by
    intro surfaceId s hs
    cases hs
  numbered := by
    intro surfaceId s hs
    cases hs
  apart := by
    intro surfaceId s other o n hs
    cases hs
  once := List.nodup_nil
  marked := by
    intro q hq
    cases hq
  listed := by
    intro key n hn
    cases hn
  kept := by
    intro q hq
    cases hq
  keys := by
    intro key known hknown
    cases hknown

theorem saved_start :
  World.start.Saved
  := .inr (State.Same.refl _)

end

theorem fit_start :
  Fit World.start.state
  where
  alone := by
    intro surfaceId s other o workkey hs
    cases hs
  bounded := Nat.zero_le _

/-! ### One worker for each workkey -/

/-- What is said of the surfaces, the queue and the intents after every call. -/
structure State.OneWorker (st : State) : Prop extends Fit st where
  /-- No intent stands in the queue twice. -/
  once : (st.queue.map Queued.intent).Nodup
  /-- What stands in the queue is marked as queued. -/
  marked : ∀ {q}, q ∈ st.queue → ∃ n, st.intents.get? q.intent = some (.queued n)
  /-- What is marked as queued stands in the queue. -/
  listed : ∀ {key n}, st.intents.get? key = some (.queued n) → ∃ q ∈ st.queue, q.intent = key

theorem Sound.oneWorker_iff (h : Sound st) :
  st.OneWorker ↔ Fit st
  := ⟨fun hone => hone.toFit, fun hfit => ⟨hfit, h.once, h.marked, h.listed⟩⟩

/-- What is said holds after every call exactly if no call hands a workkey to a second surface, or makes a dead one
alive among too many. -/
theorem oneWorker_run_iff
    (hdigest : ∀ s : Str, Json.fuse (Surroundings.digest s) = Surroundings.digest s) (calls : List Call) :
  (∀ first, first <+: calls → (World.run first).state.OneWorker) ↔
    ∀ first call, first ++ [call] <+: calls → ¬ (World.run first).state.Breaks call
  := by
  refine @Run.along_iff _ _ World.after (fun world => Sound world.state ∧ world.Saved)
    (fun world => world.state.OneWorker) (fun world call => world.state.Breaks call) ?_ ?_ _ ?_ ?_ calls
  · rintro world call ⟨hsound, hsaved⟩
    have hkeeps := World.after_keeps hdigest hsound hsaved call
    exact ⟨hkeeps.sound, hkeeps.saved⟩
  · rintro world call ⟨hsound, hsaved⟩ hone
    have hkeeps := World.after_keeps hdigest hsound hsaved call
    rw [hkeeps.sound.oneWorker_iff]
    exact hkeeps.fit (hsound.oneWorker_iff.mp hone)
  · exact ⟨sound_start, saved_start⟩
  · exact sound_start.oneWorker_iff.mpr fit_start

/-! ### Coalesced requests -/

structure Request.Alike (r r' : Request) : Prop where
  kind : r.kind = r'.kind
  provider : r.provider = r'.provider
  workkey : r.workkey = r'.workkey
  norm : r.norm = r'.norm

theorem Request.Alike.intentKey {r r' : Request} (h : r.Alike r') :
  r.intentKey = r'.intentKey
  := by
  rw [Request.intentKey, Request.intentKey, Request.line, Request.line, h.kind, h.provider, h.workkey,
    h.norm]

def State.Serves (st : State) (provider : Str) : Prop :=
  ∃ surfaceId s, st.surfaces.get? surfaceId = some s ∧ s.provider = provider ∧ s.VisibleLive

def State.RunsOn (st : State) (workkey : Str) : Prop :=
  ∃ surfaceId s, st.surfaces.get? surfaceId = some s ∧ s.RunsOn workkey

/-- A surface works on the workkey; or an intent for the same work is in the queue, and a live surface has a window. -/
def State.Promised (st : State) (requests : List Request) (r : Request) : Prop :=
  st.RunsOn r.workkey ∨
    (∃ r' ∈ requests, r'.Alike r ∧ r'.queued ∈ st.queue) ∧ st.Serves r.provider

def State.Collides (st : State) (requests : List Request) (r : Request) : Prop :=
  ∃ r' ∈ requests, r'.intentKey = r.intentKey ∧ ¬ r'.Alike r ∧
    ((∃ surfaceId n s, st.intents.get? r.intentKey = some (.on surfaceId n) ∧
        st.surfaces.get? surfaceId = some s ∧ s.RunsOn r'.workkey) ∨
      r'.queued ∈ st.queue ∧ ∀ r'' ∈ requests, r''.Alike r → r''.queued ∉ st.queue)

def State.Stranded (st : State) (r : Request) : Prop :=
  (∃ n, st.intents.get? r.intentKey = some (.queued n)) ∧ ¬ st.Serves r.provider

def State.Loses (st : State) (requests : List Request) (r : Request) : Prop :=
  Text.Encodable r.line ∧ ¬ st.RunsOn r.workkey ∧ (st.Collides requests r ∨ st.Stranded r)

/-- The answer to the request is `COALESCED`. -/
def World.Coalesces (world : World) (r : Request) (needsVisible allowHeadless : Bool)
    (ramUsedPct : Option ℚ) : Prop :=
  match admitRequest r needsVisible allowHeadless ramUsedPct
    { world with requests := world.requests ++ [r] } with
  | .ok decision _ => decision.action = .coalesced
  | .error _ _ => False

instance (world : World) (r : Request) (needsVisible allowHeadless : Bool) (ramUsedPct : Option ℚ) :
    Decidable (world.Coalesces r needsVisible allowHeadless ramUsedPct) := by
  unfold World.Coalesces
  split <;> infer_instance

/-- A request that joins other work is promised unless it is lost. -/
theorem Sound.promised_iff (h : Sound st) {requests : List Request} (htraced : Traced st requests False) :
  (st.Joins r → st.Promised requests r) ↔ ¬ st.Loses requests r
  := by
  constructor
  · rintro hpromised ⟨hline, hfree, hcollides | ⟨⟨n, hn⟩, hserves⟩⟩
    · obtain ⟨r', hr', hkey, hother, ⟨surfaceId, n, s, hn, hs, hruns⟩ | ⟨hq, hnone⟩⟩ := hcollides
      · have hlive := SurfaceState.not_dead_of_busy hruns.2
        rcases hpromised ⟨hline, .inl ⟨_, hn, (st.alive_iff surfaceId).mpr ⟨s, hs, hlive⟩⟩⟩ with
          hrun | ⟨⟨r'', -, halike, hq⟩, -⟩
        · exact hfree hrun
        · obtain ⟨m, hm⟩ := h.marked hq
          have hkey' : r''.queued.intent = r.intentKey := halike.intentKey
          rw [hkey', hn] at hm
          cases hm
      · obtain ⟨n, hn⟩ := h.marked hq
        have hkey' : r'.queued.intent = r.intentKey := hkey
        rw [hkey'] at hn
        rcases hpromised ⟨hline, .inl ⟨_, hn, trivial⟩⟩ with hrun | ⟨⟨r'', hr'', halike, hq'⟩, -⟩
        · exact hfree hrun
        · exact hnone r'' hr'' halike hq'
    · rcases hpromised ⟨hline, .inl ⟨_, hn, trivial⟩⟩ with hrun | ⟨-, hserved⟩
      · exact hfree hrun
      · exact hserves hserved
  · rintro hnot ⟨hline, ⟨known, hknown, hpending⟩ | hrun⟩
    · by_contra hlost
      rw [State.Promised, not_or, not_and_or] at hlost
      obtain ⟨hfree, hlost⟩ := hlost
      apply hnot
      refine ⟨hline, hfree, ?_⟩
      cases known with
      | on surfaceId n =>
        obtain ⟨r', hr', hkey, s, hs, hruns | ⟨hfalse, -⟩⟩ := htraced.running hknown
        · refine .inl ⟨r', hr', hkey, ?_, .inl ⟨surfaceId, n, s, hknown, hs, hruns⟩⟩
          intro halike
          rw [halike.workkey] at hruns
          exact hfree ⟨surfaceId, s, hs, hruns⟩
        · exact hfalse.elim
      | queued n =>
        obtain hnone | hserves := hlost
        · obtain ⟨q, hq, hkey⟩ := h.listed hknown
          obtain ⟨r', hr', rfl⟩ := htraced.queued hq
          refine .inl ⟨r', hr', hkey, ?_, .inr ⟨hq, ?_⟩⟩
          · exact fun halike => hnone ⟨r', hr', halike, hq⟩
          · exact fun r'' hr'' halike hq' => hnone ⟨r'', hr'', halike, hq'⟩
        · exact .inr ⟨⟨n, hknown⟩, hserves⟩
    · exact .inl hrun

theorem State.Promised.congr {st st' : State} {requests : List Request}
    (hsurfaces : st'.surfaces = st.surfaces) (hqueue : st'.queue = st.queue) :
  st'.Promised requests r ↔ st.Promised requests r
  := by
  simp only [State.Promised, State.RunsOn, State.Serves, hsurfaces, hqueue]

theorem World.coalesces_iff
    (hdigest : ∀ s : Str, Json.fuse (Surroundings.digest s) = Surroundings.digest s)
    (h : Sound world.state) (hsaved : world.Saved) (r : Request) (needsVisible allowHeadless : Bool)
    (ramUsedPct : Option ℚ) :
  (world.Coalesces r needsVisible allowHeadless ramUsedPct ↔ world.state.Joins r) ∧
    (world.state.Joins r →
      (world.after (.admitRequest r needsVisible allowHeadless ramUsedPct)).state.surfaces =
          world.state.surfaces ∧
        (world.after (.admitRequest r needsVisible allowHeadless ramUsedPct)).state.queue = world.state.queue)
  := by
  have hadmit : wp (admitRequest r needsVisible allowHeadless ramUsedPct)
      (fun decision world' => ({ world with requests := world.requests ++ [r] } : World).Admitted world' r
        (decision.action = .coalesced))
      (fun _ world' => ({ world with requests := world.requests ++ [r] } : World).Admitted world' r False)
      { world with requests := world.requests ++ [r] } := by
    refine wp_admitRequest hdigest ?_ ?_ ?_ needsVisible allowHeadless ramUsedPct
    · exact h
    · exact hsaved
    · exact List.mem_append_right _ (List.mem_singleton_self r)
  have hafter : wp (perform (.admitRequest r needsVisible allowHeadless ramUsedPct))
      (fun _ world' => world.state.Joins r → world'.state.surfaces = world.state.surfaces ∧
        world'.state.queue = world.state.queue)
      (fun _ world' => world.state.Joins r → world'.state.surfaces = world.state.surfaces ∧
        world'.state.queue = world.state.queue)
      { world with requests := world.requests ++ [r] } := by
    apply wp_discard
    apply wp_mono hadmit
    · exact fun _ _ hdone hjoins => ⟨hdone.surfaces hjoins, hdone.queue hjoins⟩
    · exact fun _ _ hdone hjoins => ⟨hdone.surfaces hjoins, hdone.queue hjoins⟩
  refine ⟨?_, World.after_of_wp (P := fun world' => world.state.Joins r →
    world'.state.surfaces = world.state.surfaces ∧ world'.state.queue = world.state.queue) hafter⟩
  unfold World.Coalesces
  unfold wp at hadmit
  split
  next heq =>
    rw [heq] at hadmit
    exact hadmit.coalesced_iff
  next heq =>
    rw [heq] at hadmit
    exact hadmit.coalesced_iff

theorem traced_run (hdigest : ∀ s : Str, Json.fuse (Surroundings.digest s) = Surroundings.digest s)
    (calls : List Call) (h : ∀ call ∈ calls, ¬ call.SetsState) :
  Sound (World.run calls).state ∧ (World.run calls).Saved ∧
    Traced (World.run calls).state (World.run calls).requests False
  := by
  induction calls using List.reverseRecOn with
  | nil =>
    refine ⟨sound_start, saved_start, ?_, ?_⟩
    · intro q hq
      cases hq
    · intro key surfaceId n hn
      cases hn
  | append_singleton calls call ih =>
    obtain ⟨hsound, hsaved, htraced⟩ := ih fun c hc => h c (List.mem_append_left _ hc)
    have hkeeps := World.after_keeps hdigest hsound hsaved call
    have hcall := h call (List.mem_append_right _ (List.mem_singleton_self call))
    rw [World.run, List.foldl_concat]
    exact ⟨hkeeps.sound, hkeeps.saved,
      hkeeps.traced hcall (htraced.mono (List.subset_append_left _ _) False)⟩

/-- A request whose answer is `COALESCED` is promised by the state it leaves, exactly if that before it does not lose
it. -/
theorem promised_run_iff
    (hdigest : ∀ s : Str, Json.fuse (Surroundings.digest s) = Surroundings.digest s) (calls : List Call)
    (h : ∀ call ∈ calls, ¬ call.SetsState) (r : Request) (needsVisible allowHeadless : Bool)
    (ramUsedPct : Option ℚ) :
  ((World.run calls).Coalesces r needsVisible allowHeadless ramUsedPct →
      (World.run (calls ++ [.admitRequest r needsVisible allowHeadless ramUsedPct])).state.Promised
        (World.run calls).requests r) ↔
    ¬ (World.run calls).state.Loses (World.run calls).requests r
  := by
  obtain ⟨hsound, hsaved, htraced⟩ := traced_run hdigest calls h
  obtain ⟨hiff, hsame⟩ := World.coalesces_iff hdigest hsound hsaved r needsVisible allowHeadless ramUsedPct
  have hrun : World.run (calls ++ [.admitRequest r needsVisible allowHeadless ramUsedPct]) =
      (World.run calls).after (.admitRequest r needsVisible allowHeadless ramUsedPct) := List.foldl_concat ..
  rw [← hsound.promised_iff htraced, hiff, hrun]
  apply imp_congr_right
  intro hjoins
  exact State.Promised.congr (hsame hjoins).1 (hsame hjoins).2

end Calls

/-! ### Queued work of one workkey, and names with bars -/

section Example

/-- The digests of the lines of the requests below. -/
def digests : List (Str × Str) :=
  [(text "task|muse|W0|a", text "7350877a23afd88fc1da"),
    (text "task|muse|V0|a", text "dc6395c352bab847288d"),
    (text "task|muse|W1|first", text "10696e2b18ce084f39f0"),
    (text "task|muse|W1|second", text "a336cc2ba3735b6b0742"),
    (text "task|a|b|c|x", text "84efbca78804f50123a5")]

/-- Two surfaces with a window, and processes that run. -/
local instance platformSurfaces : Surroundings where
  host := text "h"
  os := text "mac"
  owner := text "courier"
  budget := ⟨2, 2, 80, 90⟩
  identity := fun _ _ => true
  clock := fun n => n
  closer := fun _ _ => text "TERMINATED"
  digest := fun line => (digests.lookup line).getD []
  lower := fun s => s.map fun c => if 65 ≤ c ∧ c ≤ 90 then c + 32 else c

theorem fuse_digest (s : Str) :
  Json.fuse (Surroundings.digest s) = Surroundings.digest s
  := by
  change Json.fuse ((digests.lookup s).getD []) = (digests.lookup s).getD []
  cases h : digests.lookup s with
  | none => rfl
  | some digest =>
    have hall : ∀ entry ∈ digests, Json.fuse entry.2 = entry.2 := by decide +kernel
    obtain ⟨before, after, heq, -⟩ := List.lookup_eq_some_iff.mp h
    exact hall (s, digest) (by simp [heq])

def windowed (workkey prompt : Str) : Call :=
  .admitRequest ⟨text "muse", workkey, prompt, text "task"⟩ true false none

/-- Two requests for one workkey are queued, and then both surfaces finish. -/
def twoQueued : List Call :=
  [windowed (text "W0") (text "a"), windowed (text "V0") (text "a"), windowed (text "W1") (text "first"),
    windowed (text "W1") (text "Second "), .finish (text "h-s1") (text "c"),
    .finish (text "h-s2") (text "c")]

theorem oneWorker_twoQueued_iff :
  (∀ first, first <+: twoQueued → (World.run first).state.OneWorker) ↔
    ∀ first call, first ++ [call] <+: twoQueued → ¬ (World.run first).state.Breaks call
  := oneWorker_run_iff fuse_digest twoQueued

theorem not_oneWorker_twoQueued :
  ¬ (World.run twoQueued).state.OneWorker
  := by
  intro hone
  have hruns : ∀ surfaceId ∈ [text "h-s1", text "h-s2"],
      ((World.run twoQueued).state.surfaces.get? surfaceId).any fun s => s.RunsOn (text "W1") := by
    decide +kernel
  obtain ⟨s, hs, hfirst⟩ := (Option.any_eq_true _ _).mp (hruns (text "h-s1") (by decide))
  obtain ⟨o, ho, hsecond⟩ := (Option.any_eq_true _ _).mp (hruns (text "h-s2") (by decide))
  exact absurd (hone.alone hs ho (of_decide_eq_true hfirst) (of_decide_eq_true hsecond)) (by decide)

def barred : List Call :=
  [.admitRequest ⟨text "a", text "b|c", text "x", text "task"⟩ true false none]

def other : Request := ⟨text "a|b", text "c", text "x", text "task"⟩

theorem promised_barred_iff :
  ((World.run barred).Coalesces other true false none →
      (World.run (barred ++ [.admitRequest other true false none])).state.Promised
        (World.run barred).requests other) ↔
    ¬ (World.run barred).state.Loses (World.run barred).requests other
  := promised_run_iff fuse_digest barred (by decide) other true false none

/-- The other request is joined with the first one, and nobody works on its workkey. -/
theorem not_promised_barred :
  (World.run barred).Coalesces other true false none ∧
    ¬ (World.run (barred ++ [.admitRequest other true false none])).state.Promised
      (World.run barred).requests other
  := by
  refine ⟨?_, ?_⟩
  · decide +kernel
  · have hfree : ∀ s ∈ (World.run (barred ++ [.admitRequest other true false none])).state.surfaces.values,
        ¬ s.RunsOn (text "c") := by
      decide +kernel
    have hqueue : (World.run (barred ++ [.admitRequest other true false none])).state.queue = [] := by
      decide +kernel
    rintro (⟨surfaceId, s, hs, hruns⟩ | ⟨⟨r, -, -, hq⟩, -⟩)
    · exact hfree s (Dict.mem_values.mpr ⟨surfaceId, hs⟩) hruns
    · rw [hqueue] at hq
      cases hq

end Example

end Courier.Surfaces
