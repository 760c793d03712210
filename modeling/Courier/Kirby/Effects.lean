import Courier.Kirby.Runs

/-!
# Effects that may not be repeated

A session with a workkey whose effect may not be repeated is replaced although its process is
gone.  If no call of a run rotates such a session, the workkey is blocked then, and is never
delivered again (`withheld_run`). -/

namespace Courier.Kirby

open Program

section Calls

variable [Surroundings] {st : State} {claims : List Claim} {slot key : Str} {s : Session}
  {world world' : World}

/-! ### What is to hold -/

def State.Replaced (st st' : State) (slot : Str) (s : Session) : Prop :=
  st.sessions.get? slot = some s ∧
    ∀ s', st'.sessions.get? slot = some s' → s'.generation ≠ s.generation

/-- The process of the session is gone: so says the next answer about it, or one that is given
between the two worlds. -/
def World.FindsGone (world world' : World) (s : Session) : Prop :=
  ∃ n, world.identityAsked ≤ n ∧ (n = world.identityAsked ∨ n < world'.identityAsked) ∧
    Surroundings.identity n s.pid s.createTime = false

def World.Withholds (world : World) (key : Str) : Prop :=
  world.state.Blocked key ∧ ∀ slot world', deliver slot world ≠ .ok (some key) world'

/-- The call does not rotate a session whose workkey may not be repeated and whose process is
gone. -/
def World.Careful (world : World) (call : Call) : Prop :=
  ∀ slot ∈ call.rotates, ∀ s ∈ world.state.sessions.get? slot, world.state.NonIdempotent s.workkey →
    Surroundings.identity world.identityAsked s.pid s.createTime = true

theorem World.careful_of_rotates {call : Call} (hrotates : call.rotates = none) :
  world.Careful call
  := by
  intro slot hslot
  rw [hrotates] at hslot
  cases hslot

/-! ### Deliveries -/

theorem wp_deliver_some (slot : Str) :
  wp (deliver slot)
    (fun answer _ => ∀ key, answer = some key →
      ∃ s, world.state.sessions.get? slot = some s ∧ s.state = .wakePending ∧ s.workkey = key)
    (fun _ _ => True) world
  := by
  unfold deliver
  apply wp_withSession trivial
  intro s hs
  by_cases hpending : s.state = .wakePending
  · rw [if_neg (not_not_intro hpending)]
    simp only [wp_bind, wp_ask, wp_modifyState, wp_save, wp_pure]
    rintro key heq
    cases heq
    exact ⟨s, hs, hpending, rfl⟩
  · rw [if_pos hpending]
    rintro key heq
    cases heq

theorem Sound.withholds (h : Sound world.state world.claims) (hblocked : world.state.Blocked key) :
  world.Withholds key
  := by
  refine ⟨hblocked, ?_⟩
  intro slot world' hdeliver
  obtain ⟨s, hs, hpending, rfl⟩ := normal_of_wp (wp_deliver_some slot) hdeliver key rfl
  obtain ⟨w, hw, hclaimed, -⟩ := h.owned hs ((h.sessions hs).pending hpending)
  obtain ⟨w', hw', hstate⟩ := hblocked
  rw [hw] at hw'
  cases hw'
  rw [hclaimed] at hstate
  cases hstate

/-! ### Rotations -/

theorem wp_rotate_asked (slot reason : Str) (checkpoint : Option Str) :
  wp (rotate slot reason checkpoint)
    (fun _ world' => world'.identityAsked ≤ world.identityAsked + 1)
    (fun _ world' => world'.identityAsked ≤ world.identityAsked + 1) world
  := by
  unfold rotate replace
  apply wp_withSession (Nat.le_succ _)
  intro old _
  split
  · exact Nat.le_succ _
  rw [wp_bind, wp_modifyState, wp_bind]
  apply wp_cleanUp
  intro cleanup identityAsked asked hasked
  rw [wp_bind]
  apply wp_newSession
  intro new _ _ _
  have hrest : Keeps (fun world' : World => world'.identityAsked ≤ world.identityAsked + 1)
      (handOver slot .rotate reason old new) := by
    apply keeps_get
    intro world' _
    split
    · exact keeps_bind (keeps_modify fun _ hle => hle) fun _ => keeps_pure _
    · rw [if_neg (by simp)]
      exact keeps_bind (keeps_modify fun _ hle => hle) fun _ => keeps_pure _
  apply hrest.andThen hasked
  intro quarantinedWorkkey world' hle
  exact hle

theorem World.asked_after {call : Call} (hrotates : call.rotates = some slot) :
  (world.after call).identityAsked ≤ world.identityAsked + 1
  := by
  apply World.after_of_wp (P := fun world' => world'.identityAsked ≤ world.identityAsked + 1)
  cases call with
  | rotate slot' reason checkpoint =>
    exact wp_discard (wp_rotate_asked slot' reason checkpoint)
  | onProviderOutput slot' providerText contextUsedPct checkpoint =>
    obtain ⟨signal, hsignal, -⟩ := Option.map_eq_some_iff.mp hrotates
    apply wp_discard
    simp only [onProviderOutput, hsignal, wp_map]
    exact wp_rotate_asked slot' signal checkpoint
  | _ => cases hrotates

/-! ### Runs -/

theorem Sound.blocked_after (h : Sound world.state world.claims) (hsaved : world.Saved) {call : Call}
    (hregular : call.Regular) (hcareful : world.Careful call)
    (heffect : world.state.NonIdempotent s.workkey)
    (hreplaced : world.state.Replaced (world.after call).state slot s)
    (hgone : world.FindsGone (world.after call) s) :
  (world.after call).state.Blocked s.workkey
  := by
  obtain ⟨hs, hnew⟩ := hreplaced
  cases hrotates : call.rotates with
  | none =>
    have hgoes : world.Goes (world.after call) :=
      World.after_of_wp (wp_perform h hsaved hregular hrotates)
    obtain ⟨s', hs', hgeneration⟩ | hblocked := hgoes.spares hs heffect
    · exact absurd hgeneration (hnew s' hs')
    · exact hblocked
  | some slot' =>
    by_cases hslot : slot = slot'
    · obtain rfl := hslot
      have hruns := hcareful slot hrotates s hs heffect
      have hasked : (world.after call).identityAsked ≤ world.identityAsked + 1 :=
        World.asked_after hrotates
      obtain ⟨n, hle, hlast, hanswer⟩ := hgone
      have hn : n = world.identityAsked := by omega
      rw [hn, hruns] at hanswer
      cases hanswer
    · have hrotated : world.Rotates (world.after call) slot' :=
        World.after_of_wp (P := fun world' => world.Rotates world' slot')
          (wp_perform_rotates h hrotates)
      exact absurd rfl (hnew s ((hrotated.others slot hslot).trans hs))

/-- In every run with regular names, in which no session whose workkey may not be repeated is rotated after its process
is gone, such a workkey is blocked when its session is replaced, and never delivered. -/
theorem withheld_run (calls : List Call)
    (h : ∀ first call, first ++ [call] <+: calls → call.Regular ∧ (World.run first).Careful call) :
  ∀ first call more, first ++ call :: more = calls → ∀ slot s,
    (World.run first).state.NonIdempotent s.workkey →
    (World.run first).state.Replaced (World.run (first ++ [call])).state slot s →
    (World.run first).FindsGone (World.run (first ++ [call])) s →
    (World.run calls).Withholds s.workkey
  := by
  rintro first call more rfl slot s heffect hreplaced hgone
  have hregular : ∀ c ∈ first ++ call :: more, c.Regular := by
    intro c hc
    obtain ⟨before, after, heq⟩ := List.append_of_mem hc
    exact (h before c ⟨after, by simp [heq]⟩).1
  have hcareful := (h first call ⟨more, by simp⟩).2
  obtain ⟨hsound, hsaved, -⟩ := moves_append hregular
  have hlater : ∀ c ∈ first ++ [call] ++ more, c.Regular := by simpa using hregular
  obtain ⟨-, -, hmoves⟩ := moves_append hlater
  have hnow : World.run (first ++ [call]) = (World.run first).after call := List.foldl_concat ..
  rw [hnow] at hreplaced hgone hmoves
  have hblocked := hsound.blocked_after hsaved (hregular call (by simp)) hcareful heffect hreplaced hgone
  rw [List.append_assoc, List.singleton_append] at hmoves
  exact hmoves.sound.withholds (hmoves.forward.blocked hblocked)

end Calls

/-! ### A rotation after the process is gone -/

section Example

local instance surroundingsGone : Surroundings where
  host := text "host"
  maxSlots := 1
  leaseSeconds := 0
  identity := fun _ _ _ => false
  terminate := fun _ _ => text "TERMINATED"
  startSession := fun _ slot generation => (slot ++ text "-g" ++ Text.decimal generation, 7, 0)
  clock := fun n => n
  verifier := none
  printPercent := fun _ => text "90"

/-- A workkey whose effect may not be repeated is delivered. -/
def sent : List Call :=
  [.addWorkkeys [⟨text "mail", none, none, some (text "non_idempotent")⟩] 100 [] (text "idempotent"),
    .openSlot (text "a") (text "muse") (text "build"), .wake (text "a") false, .deliver (text "a")]

def sender : Session where
  slot := text "a"
  sessionId := text "a-g1"
  provider := text "muse"
  host := text "host"
  state := .working
  pid := 7
  createTime := 0
  workkey := text "mail"
  token := 1
  generation := 1
  activity := text "build"
  lastHeartbeat := 2
  lastProgress := 2
  accepting := true
  successor := []
  recoveringSince := 0
  deliveredWorkkey := text "mail"
  deliveryEnforced := true
  leaseUntil := 0

theorem sent_sender :
  (World.run sent).state.sessions.get? (text "a") = some sender
  := by
  decide +kernel

theorem sent_nonIdempotent :
  (World.run sent).state.NonIdempotent sender.workkey
  := by
  refine ⟨⟨text "mail", .claimed, text "a-g1", 1, [], [], 100, [], text "non_idempotent", []⟩, ?_, rfl⟩
  decide +kernel

theorem sent_replaced {call : Call}
    (h : ((World.run (sent ++ [call])).state.sessions.get? (text "a")).map Session.generation = some 2) :
  (World.run sent).state.Replaced (World.run (sent ++ [call])).state (text "a") sender
  := by
  refine ⟨sent_sender, ?_⟩
  intro s' hs'
  rw [hs'] at h
  rw [Option.some.inj h]
  decide

theorem sent_gone (call : Call) :
  (World.run sent).FindsGone (World.run (sent ++ [call])) sender
  := ⟨_, le_refl _, .inl rfl, rfl⟩

/-- If the slot is reconnected, the workkey is withheld, whatever else is called. -/
theorem withheld_reconnected :
  (World.run (sent ++ [.reconnectSlot (text "a") none none, .tick, .deliver (text "a")])).Withholds
    (text "mail")
  := by
  apply withheld_run _ _ sent (.reconnectSlot (text "a") none none) [.tick, .deliver (text "a")] rfl
    (text "a") sender sent_nonIdempotent (sent_replaced (by decide +kernel)) (sent_gone _)
  have hcalls : ∀ call ∈ sent ++ [.reconnectSlot (text "a") none none, .tick, .deliver (text "a")],
      call.Regular ∧ call.rotates = none := by
    decide +kernel
  intro first call hinit
  obtain ⟨hregular, hrotates⟩ := hcalls call (hinit.subset (by simp))
  exact ⟨hregular, World.careful_of_rotates hrotates⟩

/-- If the session is rotated, its successor is given the workkey again. -/
theorem not_withheld :
  (World.run sent).state.NonIdempotent sender.workkey ∧
    (World.run sent).state.Replaced (World.run (sent ++ [.rotate (text "a") [] none])).state (text "a")
      sender ∧
    (World.run sent).FindsGone (World.run (sent ++ [.rotate (text "a") [] none])) sender ∧
    ¬ (World.run (sent ++ [.rotate (text "a") [] none])).Withholds sender.workkey
  := by
  refine ⟨sent_nonIdempotent, sent_replaced (by decide +kernel), sent_gone _, ?_⟩
  rintro ⟨⟨w, hw, hstate⟩, -⟩
  have hclaimed : ((World.run (sent ++ [.rotate (text "a") [] none])).state.workkeys.get?
      sender.workkey).map Workkey.state = some .claimed := by
    decide +kernel
  rw [hw, Option.map_some, hstate] at hclaimed
  cases hclaimed

end Example

end Courier.Kirby
