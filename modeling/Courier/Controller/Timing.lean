import Courier.Controller.Growth
import Courier.Controller.Leases

/-!
# When leases run out

The deadline of a lease is moved by the claim, a boot, heartbeats and the compensation of a gap between two ticks.  No
move brings it closer than the time the lease lasts, and without a gap nothing else moves it.
-/

namespace Courier

open Except Program Run Text

section Runs

variable [Platform]

/-! ### What a step makes of a lease -/

def Beats (body : Json) (workerId : Str) (ids : List Str) : Prop :=
  ∃ d, onlyFields body [text "worker_id", text "dispatch_ids", text "resource_state"] = .ok d ∧
    requireId d (text "worker_id") = .ok workerId ∧
    Controller.reportedIds (Json.get d (text "dispatch_ids")) = .ok ids

inductive Touches (c c' : Controller) (d workerId : Str) (now : Rat) : Request → Prop where
  | claim {body : Json} {uuid : Uuid} {busy : Bool} {e : Event} (stored : e ∈ c'.journal.events)
      (new : e ∉ c.journal.events) (type : e.type = .taskClaimed) (dispatch : e.dispatchId = some d) :
      Touches c c' d workerId now (.claim body uuid now busy)
  | boot {pid : Int} {build : Build} : Touches c c' d workerId now (.boot pid build now)
  | heartbeat {body : Json} {ids : List Str} (mode : c.mode = .normal) (runs : c.stopping = false)
      (beats : Beats body workerId ids) (reported : d ∈ ids) :
      Touches c c' d workerId now (.heartbeat body now false)

variable {d workerId : Str} {t now : Rat} {body : Json} {uuid : Uuid} {busy : Bool}

theorem Touches.of_claim {c c' : Controller}
    (h : Touches c c' d workerId t (.claim body uuid now busy)) :
  ∃ e ∈ c'.journal.events, e ∉ c.journal.events ∧ e.type = .taskClaimed ∧ e.dispatchId = some d
  := by
  cases h with
  | claim stored new type dispatch => exact ⟨_, stored, new, type, dispatch⟩

/-- Where a lease comes from that is there after a step: nothing has touched it, it begins anew, or a gap
between two ticks has postponed it. -/
inductive Origin (c c' : Controller) (request : Request) (d : Str) (lease : Lease) : Prop where
  | kept (held : c.leases.get? d = some lease)
      (untouched : ∀ now, ¬ Touches c c' d lease.workerId now request)
  | begun {now : Rat} (touched : Touches c c' d lease.workerId now request)
      (deadline : lease.deadline = now + lease.ttlS)
  | postponed {now last : Rat} {old : Lease} (tick : request = .tick now false)
      (ticked : c.lastTick = some last) (gap : SUSPEND_GAP_S < now - last)
      (held : c.leases.get? d = some old) (later : lease = old.postponed (now - last))

omit [Platform] in
theorem Lease.deadline_le_postponed (lease : Lease) {gap : Rat} (h : SUSPEND_GAP_S < gap) :
  lease.deadline ≤ (lease.postponed gap).deadline
  := by
  have hpositive : (0 : Rat) < SUSPEND_GAP_S := by norm_num [SUSPEND_GAP_S]
  show lease.deadline ≤ lease.deadline + gap
  linarith

structure RunsOut (c : Controller) (now : Rat) (x : EventFields) (d : Str) (lease : Lease) : Prop where
  held : (c.extendLeases now).get? d = some lease
  past : lease.deadline ≤ now
  dispatch : x.dispatchId = some d
  task : x.taskId = some lease.taskId

/-- The requests that leave the times of the leases alone. -/
def Request.Timeless : Request → Prop
  | .claim .. | .heartbeat .. | .tick .. | .boot .. | .crash => False
  | _ => True

namespace Controller

variable {S : Event → Prop} {R : Str → Lease → Prop} {L : EventType → Prop} {P : Bool → Prop} {Q : Prop}
  {X : Str → Prop} {c : Controller}

abbrev Outcomes {α : Type} (m : Act α) (I : Controller → Prop) (c : Controller) : Prop :=
  wp m (fun _ => I) (fun _ => I) c

def Within (S : Event → Prop) (R : Str → Lease → Prop) (_ : Option Rat) (j : Journal)
    (leases : Dict Str Lease) : Prop :=
  (∀ x ∈ j.events, x.type = .leaseExpired → S x) ∧ ∀ d lease, leases.get? d = some lease → R d lease

theorem Within.mono {R' : Str → Lease → Prop} {last : Option Rat} {j : Journal} {leases : Dict Str Lease}
    (h : Within S R last j leases) (hR : ∀ d lease, leases.get? d = some lease → R d lease → R' d lease) :
  Within S R' last j leases
  := ⟨h.1, fun d lease hlease => hR d lease hlease (h.2 d lease hlease)⟩

theorem within_append {e : Event}
    (he : e.type = .leaseExpired → ∀ seq prevHash hash, S (e.place seq prevHash hash)) :
  Keeps (Stores (Within S R)) (append e)
  := by
  rintro c ⟨hlapsed, hleases⟩
  apply wp_append_of
  · intro r c' happend hsame _
    refine ⟨?_, fun d lease => ?_⟩
    · obtain ⟨-, hj, -⟩ | ⟨-, -, hextends, -⟩ := Journal.append_ok happend
      · rw [hj]
        exact hlapsed
      · obtain ⟨seq, prevHash, hash, hevents, -⟩ := hextends.events
        rw [hevents]
        intro x hx htype
        rcases List.mem_append.mp hx with hx | hx
        · exact hlapsed x hx htype
        · obtain rfl := List.mem_singleton.mp hx
          exact he htype seq prevHash hash
    · rw [hsame.leases]
      exact hleases d lease
  · intro why c' _ hfailed
    refine ⟨?_, fun d lease => ?_⟩
    · rw [hfailed.journal]
      exact hlapsed
    · rw [hfailed.same.leases]
      exact hleases d lease

theorem lasts_within :
  Lasts (Within S R)
  := by
  constructor
  · intro e he
    apply within_append
    intro htype
    simp [htype, EventType.isRoutine] at he
  · rintro last j leases d ⟨hlapsed, hleases⟩
    refine ⟨hlapsed, fun d' lease hlease => ?_⟩
    rw [Dict.get?_erase] at hlease
    split_ifs at hlease
    exact hleases d' lease hlease

theorem Within.set {last : Option Rat} {j : Journal} {leases : Dict Str Lease} {lease : Lease}
    (h : Within S R last j leases) (hlease : R d lease) :
  Within S R last j (leases.set d lease)
  := by
  refine ⟨h.1, fun d' lease' hlease' => ?_⟩
  rw [Dict.get?_set] at hlease'
  split_ifs at hlease' with hd
  · cases hlease'
    rwa [hd]
  · exact h.2 d' lease' hlease'

/-! ### Requests -/

/-- While leases are renewed, those are as they were that the worker does not report, and those begin anew
that it has reported. -/
def Renewing (c₀ : Controller) (workerId : Str) (now : Rat) (ids todo : List Str) (d : Str) (lease : Lease) :
    Prop :=
  c₀.leases.get? d = some lease ∧ (lease.workerId = workerId → d ∈ ids → d ∈ todo) ∨
    lease.workerId = workerId ∧ d ∈ ids ∧ lease.deadline = now + lease.ttlS

/-- Renewing leases begins those anew that the worker reports. -/
theorem wp_renewLeases_begun {c₀ : Controller} {ids todo : List Str}
    (hsub : todo ⊆ ids) (hc : Stores (Within S (Renewing c₀ workerId now ids todo)) c) :
  wp (renewLeases workerId now todo)
    (fun _ => Stores (Within S (Renewing c₀ workerId now ids []))) (fun _ _ => True) c
  := by
  induction todo generalizing c with
  | nil => exact hc
  | cons dispatchId rest ih =>
    have hrest : ∀ {α : Type} {f : List Str × List Str → Act α} {c' : Controller},
        Stores (Within S (Renewing c₀ workerId now ids rest)) c' →
        (∀ r c'', Stores (Within S (Renewing c₀ workerId now ids [])) c'' →
          wp (f r) (fun _ => Stores (Within S (Renewing c₀ workerId now ids []))) (fun _ _ => True) c'') →
        wp (renewLeases workerId now rest >>= f)
          (fun _ => Stores (Within S (Renewing c₀ workerId now ids []))) (fun _ _ => True) c' := by
      intro α f c' h' hf
      rw [wp_bind]
      exact wp_mono (ih (fun d hd => hsub (List.mem_cons_of_mem _ hd)) h') hf fun _ _ _ => trivial
    -- What is left out is not held by the worker.
    have hskip : (∀ lease, c.leases.get? dispatchId = some lease → lease.workerId ≠ workerId) →
        Stores (Within S (Renewing c₀ workerId now ids rest)) c := by
      intro hother
      apply hc.mono
      rintro d lease hlease (⟨hheld, htodo⟩ | hbegun)
      · refine .inl ⟨hheld, fun hworker hd => ?_⟩
        apply (List.mem_cons.mp (htodo hworker hd)).resolve_left
        rintro rfl
        exact hother lease hlease hworker
      · exact .inr hbegun
    unfold renewLeases
    rw [wp_bind, wp_get]
    cases hlease : c.leases.get? dispatchId with
    | none =>
      apply hrest (hskip (by simp [hlease]))
      rintro ⟨stop, cancel⟩ c' h'
      exact h'
    | some lease =>
      dsimp only
      split
      · next hworker =>
        apply hrest (hskip ?_)
        · rintro ⟨stop, cancel⟩ c' h'
          exact h'
        · rintro _ hlease'
          cases hlease.symm.trans hlease'
          exact hworker
      · next hworker =>
        have hworker : lease.workerId = workerId := by simpa using hworker
        rw [wp_bind]
        apply wp_readTask
        · rw [wp_bind, wp_modify, wp_bind]
          cases c.journal.task lease.taskId with
          | none => trivial
          | some s =>
            rw [wp_require]
            apply hrest
            · refine ⟨hc.1, fun d l hl => ?_⟩
              rw [Dict.get?_set] at hl
              split_ifs at hl with hd
              · cases hl
                subst hd
                exact .inr ⟨hworker, hsub List.mem_cons_self, rfl⟩
              · obtain ⟨hheld, htodo⟩ | hbegun := hc.2 d l hl
                · refine .inl ⟨hheld, fun hw hmem => ?_⟩
                  exact (List.mem_cons.mp (htodo hw hmem)).resolve_left hd
                · exact .inr hbegun
            · rintro ⟨stop, cancel⟩ c' h'
              exact h'
        · exact fun _ _ _ => trivial

omit [Platform] in
theorem mem_sortedSet {ids : List Str} :
  d ∈ sortedSet ids ↔ d ∈ ids
  := by
  rw [sortedSet, List.mem_insertionSort, List.mem_dedup]

def Beaten (c : Controller) (body : Json) (busy : Bool) (d workerId : Str) : Prop :=
  c.mode = .normal ∧ c.stopping = false ∧ busy = false ∧ ∃ ids, Beats body workerId ids ∧ d ∈ ids

/-- After a heartbeat those leases begin anew that were reported, and all others are as they were. -/
def Beating (c : Controller) (body : Json) (now : Rat) (busy : Bool) (d : Str) (lease : Lease) : Prop :=
  c.leases.get? d = some lease ∧ ¬ Beaten c body busy d lease.workerId ∨
    Beaten c body busy d lease.workerId ∧ lease.deadline = now + lease.ttlS

/-- A heartbeat begins the leases anew that it reports, and no other. -/
theorem outcomes_heartbeat (h : Consistent L P Q X c)
    (hS : ∀ x ∈ c.journal.events, x.type = .leaseExpired → S x) :
  Outcomes (heartbeat body now busy) (Stores (Within S (Beating c body now busy))) c
  := by
  have hrefused : (∀ d workerId, ¬ Beaten c body busy d workerId) →
      Stores (Within S (Beating c body now busy)) c :=
    fun hnot => ⟨hS, fun d lease hlease => .inl ⟨hlease, hnot d _⟩⟩
  simp only [Outcomes, heartbeat, requireWritable, wp_bind, wp_get]
  split
  · next hstopping =>
    apply hrefused
    rintro d workerId ⟨-, hruns, -⟩
    simp [hruns] at hstopping
  split
  · next hmode =>
    apply hrefused
    rintro d workerId ⟨hnormal, -⟩
    exact hmode hnormal
  next hstopping hmode =>
  rw [wp_pure, wp_lift]
  refine ⟨fun fields hfields => ?_, fun why hwhy => hrefused ?_⟩
  swap
  · rintro d workerId ⟨-, -, -, ids, ⟨fields, hfields, -⟩, -⟩
    cases hwhy.symm.trans hfields
  rw [wp_lift]
  refine ⟨fun workerId hworker => ?_, fun why hwhy => hrefused ?_⟩
  swap
  · rintro d workerId ⟨-, -, -, ids, ⟨fields', hfields', hworker, -⟩, -⟩
    cases hfields.symm.trans hfields'
    cases hwhy.symm.trans hworker
  rw [wp_lift]
  refine ⟨fun ids hids => ?_, fun why hwhy => hrefused ?_⟩
  swap
  · rintro d _ ⟨-, -, -, ids, ⟨fields', hfields', -, hids⟩, -⟩
    cases hfields.symm.trans hfields'
    cases hwhy.symm.trans hids
  rw [wp_locked]
  refine ⟨fun hbusy => hrefused ?_, fun hfree => ?_⟩
  · rintro d _ ⟨-, -, hfree, -⟩
    simp [hbusy] at hfree
  have hbeaten : ∀ {d w}, Beaten c body busy d w ↔ w = workerId ∧ d ∈ ids := by
    intro d w
    constructor
    · rintro ⟨-, -, -, ids', ⟨fields', hfields', hworker', hids'⟩, hd⟩
      cases hfields.symm.trans hfields'
      cases hworker.symm.trans hworker'
      cases hids.symm.trans hids'
      exact ⟨rfl, hd⟩
    · rintro ⟨rfl, hd⟩
      exact ⟨by simpa using hmode, by simpa using hstopping, hfree, ids, ⟨fields, hfields, hworker, hids⟩, hd⟩
  have hbegun : Stores (Within S (Renewing c workerId now (sortedSet ids) (sortedSet ids))) c :=
    ⟨hS, fun d lease hlease => .inl ⟨hlease, fun _ hd => hd⟩⟩
  rw [wp_bind]
  apply wp_mono (wp_and (wp_renewLeases h) (wp_renewLeases_begun (List.Subset.refl _) hbegun))
  · rintro ⟨stop, cancel⟩ c' ⟨-, h'⟩
    have hbeating : Stores (Within S (Beating c body now busy)) c' := by
      apply h'.mono
      rintro d lease - (⟨hheld, htodo⟩ | ⟨hw, hd, hdeadline⟩)
      · refine .inl ⟨hheld, fun hreported => ?_⟩
        obtain ⟨hw, hd⟩ := hbeaten.mp hreported
        exact List.not_mem_nil (htodo hw (mem_sortedSet.mpr hd))
      · exact .inr ⟨hbeaten.mpr ⟨hw, mem_sortedSet.mp hd⟩, hdeadline⟩
    refine keeps_get (fun c _ => ?_) c' hbeating
    apply keeps_bind (keeps_confirmStops lasts_within.endures _ _)
    intro _
    exact keeps_pure _
  · rintro _ _ ⟨⟨⟩, -⟩

theorem keeps_timeless {request : Request} (htimeless : request.Timeless) :
  Keeps (Stores (Within S R)) (perform request)
  := by
  cases request with
  | createTask body uuid busy =>
    apply keeps_map
    apply keeps_createTask
    intro c _ _ _ _ e hc _ _ he _
    apply within_append ?_ c hc
    rw [he.type]
    rintro ⟨⟩
  | start body busy => exact keeps_map (keeps_start lasts_within.endures body busy)
  | result body busy => exact keeps_map (keeps_result lasts_within.endures body busy)
  | cancel taskId body busy => exact keeps_map (keeps_cancel lasts_within.endures taskId body busy)
  | resolve taskId body busy => exact keeps_map (keeps_resolve lasts_within.endures taskId body busy)
  | verifyTake busy => exact keeps_map (keeps_verifyTake busy)
  | verifyDecide index finding busy => exact keeps_map (keeps_verifyDecide lasts_within.endures index finding busy)
  | stop pid busy => exact keeps_map (keeps_stop lasts_within.endures pid busy)
  | claim | heartbeat | tick | boot | crash => exact htimeless.elim

theorem keeps_claim_begun
    (hR : ∀ lease : Lease, lease.deadline = now + lease.ttlS → R (newDispatchId uuid) lease) :
  Keeps (Stores (Within S R)) (perform (.claim body uuid now busy))
  := by
  apply keeps_map
  apply keeps_claim lasts_within.endures
  intro last j leases lease hdeadline h
  exact h.set (hR lease hdeadline)

theorem keeps_boot_begun {pid : Int} {build : Build} :
  Keeps (Stores (Within S fun _ lease => lease.deadline = now + lease.ttlS)) (perform (.boot pid build now))
  := by
  apply keeps_map
  apply keeps_boot lasts_within.endures
  intro d last j leases lease hdeadline h
  exact h.set hdeadline

theorem outcomes_tick (h : Consistent L P Q X c)
    (hS : ∀ x ∈ c.journal.events, x.type = .leaseExpired → S x)
    (hexpired : busy = false → ∀ x : Event, ∀ d lease, RunsOut c now x.toEventFields d lease → S x) :
  Outcomes (tick now busy) (Stores (Within S fun d lease =>
    c.leases.get? d = some lease ∨ busy = false ∧ (c.extendLeases now).get? d = some lease)) c
  := by
  have hkept : Stores (Within S fun d lease =>
      c.leases.get? d = some lease ∨ busy = false ∧ (c.extendLeases now).get? d = some lease) c :=
    ⟨hS, fun d lease hlease => .inl hlease⟩
  simp only [Outcomes, tick, wp_bind, wp_get]
  split
  · exact hkept
  rw [wp_locked]
  refine ⟨fun _ => hkept, fun hfree => ?_⟩
  rw [wp_bind, wp_get, wp_bind, wp_set]
  apply keeps_expireLeases lasts_within.endures
  · intro lease hlease s e htask hdispatch he
    obtain ⟨hlease, hpast⟩ := List.mem_filter.mp hlease
    obtain ⟨d, hd⟩ := Dict.mem_values.mp hlease
    have hholder : c.holder d = some lease.holder := by
      rw [← holder_extendLeases c now, hd]
      rfl
    obtain rfl : lease.dispatchId = d := (h.leased d _ hholder).dispatch
    apply within_append
    intro _ seq prevHash hash
    refine hexpired hfree _ _ lease ⟨hd, by simpa using hpast, ?_, ?_⟩
    · exact he.dispatchId.trans hdispatch
    · exact he.taskId.trans (congrArg some htask)
  · exact ⟨hS, fun d lease hlease => .inr ⟨hfree, hlease⟩⟩

theorem extendLeases_eq_some {lease : Lease} :
  (c.extendLeases now).get? d = some lease ↔
    c.leases.get? d = some lease ∧ (∀ last, c.lastTick = some last → ¬ SUSPEND_GAP_S < now - last) ∨
      ∃ last old, c.lastTick = some last ∧ SUSPEND_GAP_S < now - last ∧ c.leases.get? d = some old ∧
        lease = old.postponed (now - last)
  := by
  unfold extendLeases
  cases c.lastTick with
  | none => simp
  | some last =>
    dsimp only
    split_ifs with hgap
    · rw [Dict.get?_map, Option.map_eq_some_iff]
      constructor
      · rintro ⟨old, hold, rfl⟩
        exact .inr ⟨last, old, rfl, hgap, hold, rfl⟩
      · rintro (⟨-, hnot⟩ | ⟨_, old, ⟨⟩, -, hold, rfl⟩)
        · exact absurd hgap (hnot last rfl)
        · exact ⟨old, hold, rfl⟩
    · constructor
      · intro hlease
        refine .inl ⟨hlease, ?_⟩
        rintro _ ⟨⟩
        exact hgap
      · rintro (⟨hlease, -⟩ | ⟨_, _, ⟨⟩, hgap', -⟩)
        · exact hlease
        · exact absurd hgap' hgap

end Controller

/-! ### Steps -/

variable {P : Bool → Prop} {Q : Prop} {c : Controller} {request : Request}

theorem Sound.consistent_step (h : Sound P Q c) (hmode : c.mode = .normal) (hfresh : request.Fresh c)
    (hready : request.Ready P c) (hcrash : request ≠ .crash)
    (hboot : ∀ pid build now, request ≠ .boot pid build now) :
  ∃ L, Consistent L P Q (fun _ => False) (c.step request).2
  := by
  have hfresh' : request.Fresh { c with raised := [] } := by cases request <;> exact hfresh
  have hready' : request.Ready P { c with raised := [] } := by cases request <;> exact hready
  obtain ⟨hnormal, hraised⟩ := Controller.step_of_wp hmode hcrash hboot
    (Controller.wp_perform (h.consistent hmode) hfresh' hready' hboot)
  cases hanswer : (c.step request).1 with
  | ok answer => exact ⟨_, hnormal answer hanswer⟩
  | error why => exact ⟨_, (hraised why hanswer).consistent⟩

theorem Controller.step_of_outcomes {I : Controller → Prop} (hcrash : request ≠ .crash)
    (hboot : ∀ pid build now, request ≠ .boot pid build now)
    (hidle : c.mode = .booting → I { c with raised := [] })
    (hruns : c.mode = .normal → Outcomes (perform request) I { c with raised := [] }) :
  I (c.step request).2
  := by
  cases hmode : c.mode with
  | booting =>
    have hstep : c.step request = (.error .environment, { c with raised := [] }) := by
      cases request with
      | crash => exact absurd rfl hcrash
      | boot pid build now => exact absurd rfl (hboot pid build now)
      | _ => exact if_pos hmode
    rw [hstep]
    exact hidle hmode
  | normal =>
    obtain ⟨hnormal, hraised⟩ := step_of_wp hmode hcrash hboot (hruns hmode)
    cases hanswer : (c.step request).1 with
    | ok answer => exact hnormal answer hanswer
    | error why => exact hraised why hanswer

def Foreseen (c : Controller) (request : Request) (x : Event) : Prop :=
  x ∈ c.journal.events ∨ ∃ now d lease, request = .tick now false ∧ RunsOut c now x.toEventFields d lease

def Shifts (c : Controller) (request : Request) (c' : Controller) : Prop :=
  Controller.Stores (Controller.Within (Foreseen c request) (Origin c c' request)) c'

theorem shifts_timeless (htimeless : request.Timeless) :
  Shifts c request (c.step request).2
  := by
  have hcrash : request ≠ .crash := by
    rintro rfl
    exact htimeless
  have hboot : ∀ pid build now, request ≠ .boot pid build now := by
    rintro pid build now rfl
    exact htimeless
  have hheld : Controller.Stores (Controller.Within (Foreseen c request) fun d lease =>
      c.leases.get? d = some lease) (c.step request).2 :=
    Controller.stores_step (Controller.keeps_timeless htimeless) hboot hcrash
      ⟨fun x hx _ => .inl hx, fun _ _ => id⟩
  apply hheld.mono
  intro d lease _ hlease
  refine .kept hlease fun now htouches => ?_
  cases htouches <;> exact htimeless

variable {lease : Lease}

theorem claimed_of_held {L : EventType → Prop} {X : Str → Prop} (h : Consistent L P Q X c)
    (hlease : c.leases.get? d = some lease) :
  ∃ e ∈ c.journal.events, e.type = .taskClaimed ∧ e.dispatchId = some d
  := by
  obtain ⟨-, s, hs, hactive, hd, -⟩ := h.leased_of_held hlease
  have hheld : s.status.isHeld = true := by
    cases hstatus : s.status <;> simp_all [TaskStatus.isActiveLease, TaskStatus.isHeld]
  obtain ⟨e, he, -, htype, -, hdispatch, -⟩ := Written.claim_of_held (by rwa [Journal.taskId_of_task hs]) hheld
  exact ⟨e, he, htype, hdispatch.trans hd⟩

theorem shifts_claim
    (h : Sound (fun _ => False) False c) (hfresh : (Request.claim body uuid now busy).Fresh c) :
  Shifts c (.claim body uuid now busy) (c.step (.claim body uuid now busy)).2
  := by
  set request : Request := .claim body uuid now busy with hrequest
  have hbegun : Controller.Stores (Controller.Within (Foreseen c request) fun d lease =>
      c.leases.get? d = some lease ∨ d = Controller.newDispatchId uuid ∧ lease.deadline = now + lease.ttlS)
      (c.step request).2 := by
    apply Controller.stores_step (Controller.keeps_claim_begun ?_) (by simp) (by simp)
    · exact ⟨fun x hx _ => .inl hx, fun _ _ => .inl⟩
    · exact fun lease hdeadline => .inr ⟨rfl, hdeadline⟩
  cases hmode : c.mode with
  | booting =>
    have hstep : c.step request = (.error .environment, { c with raised := [] }) := if_pos hmode
    rw [hstep] at hbegun ⊢
    refine ⟨hbegun.1, fun d lease hlease => .kept hlease fun t htouches => ?_⟩
    obtain ⟨e, hstored, hnew, -⟩ := htouches.of_claim
    exact hnew hstored
  | normal =>
    obtain ⟨L, h'⟩ := h.consistent_step hmode hfresh (by simp [hrequest, Request.Ready]) (by simp) (by simp)
    have hgrown : c.journal.events <+: (c.step request).2.journal.events :=
      Controller.grown_step request (List.prefix_refl _)
    apply hbegun.mono
    rintro d lease hlease (hheld | ⟨rfl, hdeadline⟩)
    · obtain ⟨e, he, htype, hd⟩ := claimed_of_held (h.consistent hmode) hheld
      refine .kept hheld fun t htouches => ?_
      obtain ⟨x, hstored, hnew, hxtype, hxd⟩ := htouches.of_claim
      apply hnew
      rwa [← h'.written.issued e (hgrown.subset he) x hstored htype hxtype (hd.trans hxd.symm)]
    · obtain ⟨e, he, htype, hd⟩ := claimed_of_held h' hlease
      exact .begun (.claim he (fun hmem => hfresh e hmem htype hd) htype hd) hdeadline

theorem shifts_heartbeat (h : Sound (fun _ => False) False c) :
  Shifts c (.heartbeat body now busy) (c.step (.heartbeat body now busy)).2
  := by
  have hbeating : Controller.Stores (Controller.Within (Foreseen c (.heartbeat body now busy))
      (Controller.Beating c body now busy)) (c.step (.heartbeat body now busy)).2 := by
    apply Controller.step_of_outcomes (by simp) (by simp)
    · intro hmode
      refine ⟨fun x hx _ => .inl hx, fun d lease hlease => .inl ⟨hlease, ?_⟩⟩
      rintro ⟨hnormal, -⟩
      cases hmode.symm.trans hnormal
    · intro hmode
      rw [Controller.Outcomes, Controller.perform, wp_map]
      exact Controller.outcomes_heartbeat (h.consistent hmode) fun x hx _ => .inl hx
  apply hbeating.mono
  rintro d lease - (⟨hheld, hunbeaten⟩ | ⟨⟨hmode, hruns, rfl, ids, hbeats, hd⟩, hdeadline⟩)
  · refine .kept hheld fun t htouches => hunbeaten ?_
    cases htouches with
    | heartbeat hmode hruns hbeats hd => exact ⟨hmode, hruns, rfl, _, hbeats, hd⟩
  · exact .begun (.heartbeat hmode hruns hbeats hd) hdeadline

theorem shifts_tick (h : Sound (fun _ => False) False c) :
  Shifts c (.tick now busy) (c.step (.tick now busy)).2
  := by
  have hticked : Controller.Stores (Controller.Within (Foreseen c (.tick now busy)) fun d lease =>
      c.leases.get? d = some lease ∨ busy = false ∧ (c.extendLeases now).get? d = some lease)
      (c.step (.tick now busy)).2 := by
    apply Controller.step_of_outcomes (by simp) (by simp)
    · exact fun _ => ⟨fun x hx _ => .inl hx, fun d lease hlease => .inl hlease⟩
    · intro hmode
      rw [Controller.Outcomes, Controller.perform, wp_map]
      apply Controller.outcomes_tick (h.consistent hmode)
      · exact fun x hx _ => .inl hx
      · rintro rfl x d lease ⟨hheld, hpast, hd, htask⟩
        exact .inr ⟨now, d, lease, rfl, hheld, hpast, hd, htask⟩
  apply hticked.mono
  rintro d lease - (hheld | ⟨rfl, hextended⟩)
  · exact .kept hheld (by rintro _ ⟨⟩)
  · obtain ⟨hheld, -⟩ | ⟨last, old, hlast, hgap, hold, rfl⟩ := Controller.extendLeases_eq_some.mp hextended
    · exact .kept hheld (by rintro _ ⟨⟩)
    · exact .postponed rfl hlast hgap hold rfl

theorem shifts_boot {pid : Int} {build : Build} :
  Shifts c (.boot pid build now) (c.step (.boot pid build now)).2
  := by
  have hfresh : Controller.Stores (Controller.Within (Foreseen c (.boot pid build now)) fun _ lease =>
      lease.deadline = now + lease.ttlS) (.fresh c.journal c.draws) :=
    ⟨fun x hx _ => .inl hx, fun d lease hlease => by cases hlease⟩
  unfold Controller.step
  cases hboot : Controller.perform (.boot pid build now) (.fresh c.journal c.draws) with
  | ok answer c' =>
    simp only [hboot]
    apply (Controller.keeps_boot_begun.of_ok hfresh hboot).mono
    exact fun d lease _ hdeadline => .begun .boot hdeadline
  | error why c' =>
    simp only [hboot]
    exact ⟨(Controller.keeps_boot_begun.of_error hfresh hboot).1, fun d lease hlease => by cases hlease⟩

theorem shifts_step (h : Sound (fun _ => False) False c) (hfresh : request.Fresh c) :
  Shifts c request (c.step request).2
  := by
  cases request with
  | claim body uuid now busy => exact shifts_claim h hfresh
  | heartbeat body now busy => exact shifts_heartbeat h
  | tick now busy => exact shifts_tick h
  | boot pid build now => exact shifts_boot
  | crash => exact ⟨fun x hx _ => .inl hx, fun d lease hlease => by cases hlease⟩
  | _ => exact shifts_timeless trivial

/-! ### The last tick -/

namespace Controller

end Controller

/-! ### Runs -/

/-- The time at which a request is handled, if the controller reads its clock for it. -/
def Request.time : Request → Option Rat
  | .claim _ _ now _ | .heartbeat _ now _ | .tick now _ | .boot _ _ now => some now
  | _ => none

theorem Touches.time_eq {c c' : Controller}
    (h : Touches c c' d workerId now request) :
  request.time = some now
  := by
  cases h <;> rfl

def Clocked (requests : List Request) : Prop :=
  (requests.filterMap Request.time).Pairwise (· ≤ ·)

def Steady (c : Controller) (request : Request) (_ : Controller) : Prop :=
  ∀ now, request = .tick now false → ∀ last, c.lastTick = some last → now - last ≤ SUSPEND_GAP_S

variable {c₀ : Controller} {first : List Request}

/-- A run has kept a dispatch of a worker alive at a time. -/
def Touched (c₀ : Controller) (requests : List Request) (d workerId : Str) (t : Rat) : Prop :=
  ∃ early request later, requests = early ++ request :: later ∧
    Touches (c₀.run early) ((c₀.run early).step request).2 d workerId t request

def LastTouched (c₀ : Controller) (requests : List Request) (d workerId : Str) (t : Rat) : Prop :=
  Touched c₀ requests d workerId t ∧ ∀ t', Touched c₀ requests d workerId t' → t' ≤ t

theorem touched_append :
  Touched c₀ (first ++ [request]) d workerId t ↔ Touched c₀ first d workerId t ∨
    Touches (c₀.run first) ((c₀.run first).step request).2 d workerId t request
  := by
  constructor
  · rintro ⟨early, r, later, heq, htouches⟩
    obtain rfl | ⟨later, r', rfl⟩ := List.eq_nil_or_concat later
    · obtain ⟨rfl, hr⟩ := List.append_inj' heq rfl
      cases hr
      exact .inr htouches
    · rw [List.concat_eq_append, ← List.cons_append, ← List.append_assoc] at heq
      exact .inl ⟨early, r, later, (List.append_inj' heq rfl).1, htouches⟩
  · rintro (⟨early, r, later, rfl, htouches⟩ | htouches)
    · exact ⟨early, r, later ++ [request], by simp, htouches⟩
    · exact ⟨first, request, [], rfl, htouches⟩

theorem Touched.time_mem {requests : List Request}
    (h : Touched c₀ requests d workerId t) :
  t ∈ requests.filterMap Request.time
  := by
  obtain ⟨early, request, later, rfl, htouches⟩ := h
  simp [htouches.time_eq]

/-- A lease runs out the time it lasts after its dispatch was last kept alive, or later if there were gaps
between the ticks. -/
def Dated (c₀ : Controller) (requests : List Request) (d : Str) (lease : Lease) : Prop :=
  ∃ t, LastTouched c₀ requests d lease.workerId t ∧ t + lease.ttlS ≤ lease.deadline ∧
    (c₀.Admits Steady requests → lease.deadline = t + lease.ttlS)

theorem dated_step (hclock : Clocked (first ++ [request]))
    (hdated : ∀ lease, (c₀.run first).leases.get? d = some lease → Dated c₀ first d lease)
    (horigin : Origin (c₀.run first) ((c₀.run first).step request).2 request d lease) :
  Dated c₀ (first ++ [request]) d lease
  := by
  cases horigin with
  | kept held untouched =>
    obtain ⟨t, ⟨htouched, hlast⟩, hlate, hprompt⟩ := hdated lease held
    refine ⟨t, ⟨touched_append.mpr (.inl htouched), fun t' ht' => ?_⟩, hlate, fun hsteady => ?_⟩
    · exact hlast t' ((touched_append.mp ht').resolve_right (untouched t'))
    · exact hprompt (Controller.admits_append.mp hsteady).1
  | begun touched deadline =>
    rename_i now
    refine ⟨now, ⟨touched_append.mpr (.inr touched), fun t' ht' => ?_⟩, deadline.ge, fun _ => deadline⟩
    obtain ht' | ht' := touched_append.mp ht'
    · rw [Clocked, List.filterMap_append] at hclock
      apply (List.pairwise_append.mp hclock).2.2 t' ht'.time_mem
      simp [touched.time_eq]
    · exact (Option.some.inj (ht'.time_eq.symm.trans touched.time_eq)).le
  | postponed tick ticked gap held later =>
    rename_i now last old
    obtain ⟨t, ⟨htouched, hlast⟩, hlate, -⟩ := hdated old held
    subst later tick
    refine ⟨t, ⟨touched_append.mpr (.inl htouched), fun t' ht' => ?_⟩, ?_, fun hsteady => ?_⟩
    · exact hlast t' ((touched_append.mp ht').resolve_right nofun)
    · have hlater := old.deadline_le_postponed gap
      exact hlate.trans hlater
    · obtain ⟨-, ⟨-, hsoon⟩, -⟩ := Controller.admits_append.mp hsteady
      exact absurd (hsoon now rfl last ticked) (not_le.mpr gap)

theorem dated_of_run (hnew : c₀.New) (hadmits : c₀.Admits (fun _ _ _ => True) first)
    (hclock : Clocked first) (hlease : (c₀.run first).leases.get? d = some lease) :
  Dated c₀ first d lease
  := by
  induction first using List.reverseRecOn generalizing lease with
  | nil =>
    obtain ⟨draws, rfl⟩ := hnew
    cases hlease
  | append_singleton first request ih =>
    obtain ⟨hfirst, ⟨hfresh, -⟩, -⟩ := Controller.admits_append.mp hadmits
    have hsound := sound_of_reached (Controller.Reached.run (.start hnew) hfirst)
    have hclock' : Clocked first := by
      rw [Clocked, List.filterMap_append] at hclock
      exact (List.pairwise_append.mp hclock).1
    rw [Controller.run_append] at hlease
    exact dated_step hclock (fun lease => ih hfirst hclock') ((shifts_step hsound hfresh).2 d lease hlease)

/-! ### Expiries -/

theorem not_expired_of_held {L : EventType → Prop} {X : Str → Prop} (h : Consistent L P Q X c)
    (hlease : c.leases.get? d = some lease) {x : Event} (hx : x ∈ c.journal.events)
    (htype : x.type = .leaseExpired) :
  x.dispatchId ≠ some d
  := by
  obtain ⟨-, s, hs, hactive, hd, -⟩ := h.leased_of_held hlease
  rw [← hd]
  exact h.written.not_expired (by rwa [Journal.taskId_of_task hs]) hactive hx htype

theorem normal_of_tick {x : Event}
    (hx : x ∈ (c.step (.tick now busy)).2.journal.events) (hnew : x ∉ c.journal.events) :
  c.mode = .normal
  := by
  cases hmode : c.mode with
  | booting =>
    have hstep : c.step (.tick now busy) = (.error .environment, { c with raised := [] }) := if_pos hmode
    rw [hstep] at hx
    exact absurd hx hnew
  | normal => rfl

def Expired (c c' : Controller) (x : Event) : Prop :=
  x ∈ c'.journal.events ∧ x ∉ c.journal.events ∧ x.type = .leaseExpired

/-- What the clock has to do with the leases that a step of a run journals to have run out. -/
structure Timed (c₀ : Controller) (first : List Request) (c : Controller) (request : Request)
    (r : Except Exc Answer × Controller) : Prop where
  late : ∀ x, Expired c r.2 x → ∃ now d workerId s t, request = .tick now false ∧ x.dispatchId = some d ∧
    x.taskId = some s.taskId ∧ c.journal.task s.taskId = some s ∧ s.dispatchId = some d ∧
    s.workerId = some workerId ∧ LastTouched c₀ first d workerId t ∧ t + s.leaseTtlS ≤ now
  prompt : c₀.Admits Steady (first ++ [request]) → ∀ now answer, request = .tick now false → c.mode = .normal →
    c.stopping = false → r.1 = .ok answer → ∀ d lease t, c.leases.get? d = some lease →
    (∀ t', Touched c₀ first d lease.workerId t' → t' ≤ t) → t + lease.ttlS ≤ now →
    r.2.leases.get? d = none ∧ ∃ x, Expired c r.2 x ∧ x.dispatchId = some d
  postponed : ∀ now last, request = .tick now false → c.lastTick = some last → SUSPEND_GAP_S < now - last →
    (∀ d lease, r.2.leases.get? d = some lease →
      ∃ old, c.leases.get? d = some old ∧ old.deadline ≤ lease.deadline) ∧
    ∀ x, Expired c r.2 x → ∃ d lease, x.dispatchId = some d ∧ c.leases.get? d = some lease ∧
      lease.deadline + (now - last) ≤ now

theorem late_of_runsOut {L : EventType → Prop} {X : Str → Prop} (h : Consistent L P Q X c) {requests : List Request}
    (hdated : ∀ d lease, c.leases.get? d = some lease → Dated c₀ requests d lease)
    {x : EventFields} (hruns : RunsOut c now x d lease) :
  ∃ workerId s t, x.taskId = some s.taskId ∧ c.journal.task s.taskId = some s ∧ s.dispatchId = some d ∧
    s.workerId = some workerId ∧ LastTouched c₀ requests d workerId t ∧ t + s.leaseTtlS ≤ now
  := by
  obtain ⟨hheld, hpast, -, htask⟩ := hruns
  have hholder : c.holder d = some lease.holder := by
    rw [← Controller.holder_extendLeases c now, hheld]
    rfl
  obtain ⟨-, s, hs, -, hd, hworker, httl⟩ := h.leased d _ hholder
  have hid : s.taskId = lease.taskId := Journal.taskId_of_task hs
  obtain ⟨old, hold, hdeadline, hholder'⟩ : ∃ old, c.leases.get? d = some old ∧ old.deadline ≤ lease.deadline ∧
      old.holder = lease.holder := by
    obtain ⟨hlease, -⟩ | ⟨last, old, -, hgap, hold, rfl⟩ := Controller.extendLeases_eq_some.mp hheld
    · exact ⟨lease, hlease, le_rfl, rfl⟩
    · exact ⟨old, hold, old.deadline_le_postponed hgap, rfl⟩
  obtain ⟨t, hlast, hlate, -⟩ := hdated d old hold
  have hworker' : old.workerId = lease.workerId := congrArg Holder.workerId hholder'
  have httl' : old.ttlS = lease.ttlS := congrArg Holder.ttlS hholder'
  rw [hworker'] at hlast
  refine ⟨lease.workerId, s, t, by rw [htask, hid], by rwa [hid], hd, hworker, hlast, ?_⟩
  have httl'' : s.leaseTtlS = old.ttlS := httl.trans httl'.symm
  rw [httl'']
  exact hlate.trans (hdeadline.trans hpast)

theorem expired_of_tick (h : Sound (fun _ => False) False c) (hmode : c.mode = .normal)
    (hruns : c.stopping = false) {answer : Answer}
    (hanswer : (c.step (.tick now false)).1 = .ok answer) (hlease : (c.extendLeases now).get? d = some lease) (hpast : lease.deadline ≤ now) :
  (c.step (.tick now false)).2.leases.get? d = none ∧
    ∃ x, Expired c (c.step (.tick now false)).2 x ∧ x.dispatchId = some d
  := by
  have htick : wp (Controller.perform (.tick now false)) (fun _ c' =>
      Consistent (fun _ => False) (fun _ => False) False (fun _ => False) c' ∧ Controller.Lapsed c'.journal d)
      (fun _ _ => True) { c with raised := [] } := by
    rw [Controller.perform, wp_map]
    apply wp_mono (Controller.wp_tick (h.consistent hmode))
    · rintro _ c' ⟨h', hlapsed⟩
      exact ⟨h', hlapsed hmode hruns d lease hlease hpast⟩
    · exact fun _ _ _ => trivial
  obtain ⟨h', x, hx, htype, hd⟩ :=
    (Controller.step_of_wp hmode (by simp) (by simp) htick).1 answer hanswer
  constructor
  · cases hleft : (c.step (.tick now false)).2.leases.get? d with
    | none => rfl
    | some lease' => exact absurd hd (not_expired_of_held h' hleft hx htype)
  · have hholder : c.holder d = some lease.holder := by
      rw [← Controller.holder_extendLeases c now, hlease]
      rfl
    obtain ⟨old, hold, -⟩ := Option.map_eq_some_iff.mp hholder
    refine ⟨x, ⟨hx, fun hknown => ?_, htype⟩, hd⟩
    exact not_expired_of_held (h.consistent hmode) hold hknown htype hd

end Runs

section Example

local instance timingPlatform : Platform := Platform.plain

end Example

end Courier
