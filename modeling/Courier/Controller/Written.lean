import Courier.Controller.Work
import Courier.Completion

/-!
# Journals the controller wrote

The controller leaves the de-duplication key of an event to its default, but for late results,
and issues every dispatch id once.  In such a journal a key tells the type of the event and
what it is about, so the state of a task says which keys are still free.
-/

namespace Courier

open Except Run Text
open Json (truthy)

/-! ### Keys -/

def keyPrefixes : List (Str × EventType) :=
  [(text "created:", .taskCreated), (text "claim:", .taskClaimed), (text "start:", .taskStarted),
    (text "result:", .resultReady), (text "accepted:", .resultAccepted),
    (text "complete:", .taskComplete), (text "lease_expired:", .leaseExpired),
    (text "effect_confirmed:", .effectConfirmed), (text "retry_authorized:", .retryAuthorized),
    (text "late:", .lateResultDiscarded)]

def keyType (key : Str) : Option EventType :=
  (keyPrefixes.find? fun p => p.1.isPrefixOf key).map Prod.snd

variable {type : EventType} {id d r : Option Str} {n : Option Int}

theorem keyType_defaultDedupeKey {key : Str} (h : defaultDedupeKey type id n d r = some key) :
  keyType key = some type
  := by
  cases type <;> cases h <;> rfl

theorem colon_append_inj {a b : Str} :
  ∀ {x y : Str}, 58 ∉ x → 58 ∉ y → x ++ 58 :: a = y ++ 58 :: b → x = y ∧ a = b
  | [], [], _, _, h => ⟨rfl, (List.cons.inj h).2⟩
  | [], c :: y, _, hy, h => absurd ((List.cons.inj h).1 ▸ List.mem_cons_self) hy
  | c :: x, [], hx, _, h => absurd ((List.cons.inj h).1 ▸ List.mem_cons_self) hx
  | c :: x, d :: y, hx, hy, h => by
    obtain ⟨hcd, htail⟩ := List.cons.inj h
    obtain ⟨hxy, hab⟩ := colon_append_inj (fun hc => hx (List.mem_cons_of_mem _ hc))
      (fun hc => hy (List.mem_cons_of_mem _ hc)) htail
    exact ⟨congrArg₂ List.cons hcd hxy, hab⟩

theorem append_colon_inj {a b x y : Str} (hx : 58 ∉ x) (hy : 58 ∉ y)
    (h : a ++ text ":" ++ x = b ++ text ":" ++ y) :
  a = b ∧ x = y
  := by
  have hcolon : text ":" = [58] := rfl
  rw [hcolon] at h
  have hrev : x.reverse ++ 58 :: a.reverse = y.reverse ++ 58 :: b.reverse := by
    have hr := congrArg List.reverse h
    simpa using hr
  obtain ⟨hxy, hab⟩ := colon_append_inj (by simpa using hx) (by simpa using hy) hrev
  exact ⟨List.reverse_injective hab, List.reverse_injective hxy⟩

theorem colon_notMem_decimal (n : Int) :
  58 ∉ decimal n
  := by
  intro h
  rcases mem_decimal h with h | h
  · simp at h
  · simp [isDigit] at h

/-! ### The events of the controller -/

def Keyed (e : EventFields) : Prop :=
  e.dedupeKey = defaultDedupeKey e.type e.taskId e.attempt e.dispatchId e.resultId ∨
    e.type = .lateResultDiscarded ∧ ∃ d r, e.dispatchId = some d ∧ e.resultId = some r ∧
      58 ∉ d ∧ e.dedupeKey = some (text "late:" ++ d ++ text ":" ++ r)

/-- An event as the controller writes it. -/
structure Plain (e : EventFields) : Prop where
  keyed : Keyed e
  created : e.type = .taskCreated → ∀ id, e.taskId = some id → id.length ≤ 37
  claimed : e.type = .taskClaimed → ∀ d, e.dispatchId = some d → d.length ≤ 36 ∧ 58 ∉ d

theorem Keyed.keyType {e : EventFields} {key : Str} (h : Keyed e) (hkey : e.dedupeKey = some key) :
  keyType key = some e.type
  := by
  rcases h with h | ⟨htype, d, r, -, -, -, h⟩
  · apply keyType_defaultDedupeKey (h.symm.trans hkey)
  · rw [htype]
    cases h.symm.trans hkey
    rfl

section Journals

variable [Platform]

/-- The claim is given the verified result of another task, as it is in the history before. -/
def Sourced (before : List Event) (dependsOn : Str) (e : EventFields) : Prop :=
  ∃ dep, Accepts apply none (eventsOf dependsOn before) (some dep) ∧ dep.verified = true ∧
    ∃ result ∈ before, result.type = .resultReady ∧ result.dispatchId = dep.dispatchId ∧
      result.resultId = dep.acceptedResultId ∧
      truthy (result.get (text "artifacts")) = true ∧
      e.get (text "input") = Controller.boundInput dep result.toEventFields

/-- A journal the controller wrote. -/
structure Written (j : Journal) : Prop where
  plain : ∀ e ∈ j.events, Plain e.toEventFields
  issued : ∀ e ∈ j.events, ∀ f ∈ j.events, e.type = .taskClaimed → f.type = .taskClaimed →
    e.dispatchId = f.dispatchId → e = f
  sourced : ∀ before e after s d, j.events = before ++ e :: after → e.type = .taskClaimed →
    Accepts apply none (eventsOf e.task before) (some s) → s.dependsOn = some d →
      Sourced before d e.toEventFields

theorem written_empty :
  Written Journal.empty
  := ⟨by simp [Journal.empty], by simp [Journal.empty], by simp [Journal.empty]⟩

namespace Written

variable {j : Journal} {s : TaskState}

theorem mem_of_eventsOf {id : Str} {e : Event} (h : e ∈ eventsOf id j.events) :
  e ∈ j.events ∧ e.taskId = some id
  := by
  obtain ⟨hmem, htask⟩ := List.mem_filter.mp h
  exact ⟨hmem, by simpa using htask⟩

variable {x : Event}

theorem event_of_key (h : Written j) (hx : x ∈ j.events) {key : Str}
    (hdefault : defaultDedupeKey type id n d r = some key) (hkey : x.dedupeKey = some key) :
  x.type = type ∧ defaultDedupeKey type x.taskId x.attempt x.dispatchId x.resultId = some key
  := by
  have htype : x.type = type := by
    have hx := (h.plain x hx).keyed.keyType hkey
    rw [keyType_defaultDedupeKey hdefault] at hx
    exact (Option.some.inj hx).symm
  refine ⟨htype, ?_⟩
  rcases (h.plain x hx).keyed with hx | ⟨hlate, -⟩
  · rw [← htype, ← hx, hkey]
  · rw [← htype, hlate] at hdefault
    cases hdefault

theorem length_taskId (h : Written j) (hs : j.task s.taskId = some s) :
  s.taskId.length ≤ 37
  := by
  obtain ⟨e, he, htype⟩ := (Journal.recorded_of_task hs).2.created
  obtain ⟨hmem, htask⟩ := mem_of_eventsOf he
  apply (h.plain e hmem).created htype _ htask

theorem claim_of_held (hs : j.task s.taskId = some s) (hheld : s.status.isHeld = true) :
  ∃ e ∈ j.events, e.taskId = some s.taskId ∧ Claims e.toEventFields s
  := by
  obtain ⟨e, he, hclaims⟩ := (Journal.recorded_of_task hs).2.current hheld
  obtain ⟨hmem, htask⟩ := mem_of_eventsOf he
  exact ⟨e, hmem, htask, hclaims⟩

theorem length_dispatchId (h : Written j) (hs : j.task s.taskId = some s)
    (hheld : s.status.isHeld = true) {d : Str} (hd : s.dispatchId = some d) :
  d.length ≤ 36
  := by
  obtain ⟨e, hmem, -, htype, -, hdispatch, -⟩ := claim_of_held hs hheld
  apply ((h.plain e hmem).claimed htype d _).1
  rw [hdispatch, hd]

theorem task_of_dispatch (h : Written j) {t : TaskState} (hs : j.task s.taskId = some s)
    (ht : j.task t.taskId = some t) (hsheld : s.status.isHeld = true)
    (htheld : t.status.isHeld = true) (hd : s.dispatchId = t.dispatchId) :
  s.taskId = t.taskId
  := by
  obtain ⟨e, he, hetask, hetype, -, hedispatch, -⟩ := claim_of_held hs hsheld
  obtain ⟨f, hf, hftask, hftype, -, hfdispatch, -⟩ := claim_of_held ht htheld
  have heq : e = f := h.issued e he f hf hetype hftype (by rw [hedispatch, hfdispatch, hd])
  rw [heq, hftask] at hetask
  exact (Option.some.inj hetask).symm

theorem claim_of_dispatch (h : Written j) (hs : j.task s.taskId = some s)
    (hheld : s.status.isHeld = true) {d : Str} (hd : s.dispatchId = some d) {e : Event}
    (he : j.claimForDispatch d = some e) :
  e.taskId = some s.taskId ∧ Claims e.toEventFields s
  := by
  obtain ⟨f, hf, hftask, hclaims⟩ := claim_of_held hs hheld
  have hfound := List.find?_some he
  simp only [decide_eq_true_eq] at hfound
  have heq : e = f := by
    apply h.issued e (List.mem_of_find?_eq_some he) f hf hfound.2 hclaims.1
    rw [hfound.1, hclaims.2.2.1, hd]
  rw [heq]
  exact ⟨hftask, hclaims⟩

/-! ### Keys that are free -/

def Free (j : Journal) (type : EventType) (id : Option Str) (n : Option Int)
    (d r : Option Str) : Prop :=
  ∀ x ∈ j.events, ∀ key, defaultDedupeKey type id n d r = some key → x.dedupeKey ≠ some key

theorem free_of_attempt (h : Written j) {id : Str} {i : Int} (htype : type = .taskClaimed ∨ type = .retryAuthorized)
    (hnone : ∀ x ∈ eventsOf id j.events, x.type = type → x.attempt ≠ some i) :
  Free j type (some id) (some i) d r
  := by
  rintro x hx key hdefault hkey
  obtain ⟨hxtype, hsame⟩ := h.event_of_key hx hdefault hkey
  obtain ⟨id', hid⟩ := Event.taskId_of_task (e := x) (by rw [hxtype]; rcases htype with rfl | rfl <;> rfl)
  obtain ⟨i', hi⟩ := Event.attempt_of_required (e := x) (by rcases htype with rfl | rfl <;> simp [hxtype, REQUIRED])
  rw [hid, hi] at hsame
  have hkeys := hsame.trans hdefault.symm
  have hequal : id' = id ∧ i' = i := by
    rcases htype with rfl | rfl
    all_goals
      obtain ⟨hids, hattempts⟩ := append_colon_inj (colon_notMem_decimal _) (colon_notMem_decimal _)
        (Option.some.inj hkeys)
      exact ⟨List.append_cancel_left hids, decimal_injective hattempts⟩
  obtain ⟨rfl, rfl⟩ := hequal
  exact hnone x (List.mem_filter.mpr ⟨hx, by simp [hid]⟩) hxtype hi

theorem claim_free (h : Written j) (hs : j.task s.taskId = some s) :
  Free j .taskClaimed (some s.taskId) (some (s.attempt + 1)) d r
  := by
  apply h.free_of_attempt (.inl rfl)
  intro x hx htype hattempt
  obtain ⟨m, hm, hle⟩ := (Journal.recorded_of_task hs).2.claims x hx htype
  cases hm.symm.trans hattempt
  omega

theorem attempt_of_dispatch (h : Written j) (hs : j.task s.taskId = some s)
    (hheld : s.status.isHeld = true) (hx : x ∈ j.events)
    (htype : x.type = .taskStarted ∨ x.type = .leaseExpired)
    (hd : x.dispatchId = s.dispatchId) :
  x ∈ eventsOf s.taskId j.events ∧ x.attempt = some s.attempt
  := by
  obtain ⟨id, hid⟩ := Event.taskId_of_task (e := x) (by
    rcases htype with h | h <;> rw [h] <;> rfl)
  obtain ⟨t, ht⟩ := Journal.known_of_event hx hid
  have hmem : x ∈ eventsOf id j.events := List.mem_filter.mpr ⟨hx, by simp [hid]⟩
  obtain ⟨f, hf, hftype, hfattempt, hfdispatch⟩ :=
    (Journal.recorded_of_task ht).2.issued x hmem htype
  obtain ⟨hfmem, hftask⟩ := mem_of_eventsOf hf
  obtain ⟨e, he, hetask, hetype, heattempt, hedispatch, -⟩ := claim_of_held hs hheld
  have heq : e = f := h.issued e he f hfmem hetype hftype (by rw [hedispatch, hfdispatch, hd])
  rw [← heq, hetask] at hftask
  rw [← Option.some.inj hftask] at hmem
  rw [← heq, heattempt] at hfattempt
  exact ⟨hmem, hfattempt.symm⟩

theorem dispatch_of_key {pre : Str}
    (hrequired : Field.dispatchId ∈ (REQUIRED x.type).1) (hd : Named d)
    (h : pre ++ showOption x.dispatchId = pre ++ showOption d) :
  x.dispatchId = d
  := by
  obtain ⟨d', hd'⟩ := Event.dispatchId_of_required hrequired
  obtain ⟨d'', rfl, -⟩ := hd
  rw [hd'] at h ⊢
  have hshow : showOption (some d') = showOption (some d'') := List.append_cancel_left h
  exact congrArg some hshow

theorem start_free (h : Written j) (hs : j.task s.taskId = some s)
    (hstatus : s.status = .claimed) :
  Free j .taskStarted id n s.dispatchId r
  := by
  rintro x hx key hdefault hkey
  have hheld : s.status.isHeld = true := by rw [hstatus]; rfl
  obtain ⟨hlawful, hrecorded⟩ := Journal.recorded_of_task hs
  obtain ⟨htype, hsame⟩ := h.event_of_key hx hdefault hkey
  have hkeys := (Option.some.inj hsame).trans (Option.some.inj hdefault).symm
  have hd := dispatch_of_key (by simp [htype, REQUIRED]) (hlawful.held hheld).2.1 hkeys
  obtain ⟨hmem, hattempt⟩ := h.attempt_of_dispatch hs hheld hx (.inl htype) hd
  obtain ⟨n, hn, -, hnot⟩ := hrecorded.starts x hmem htype
  rw [hattempt] at hn
  exact hnot (Option.some.inj hn).symm hstatus

theorem not_expired (h : Written j) (hs : j.task s.taskId = some s)
    (hstatus : s.status.isActiveLease = true) (hx : x ∈ j.events)
    (htype : x.type = .leaseExpired) :
  x.dispatchId ≠ s.dispatchId
  := by
  intro hd
  have hheld : s.status.isHeld = true := by
    cases hs : s.status <;> simp_all [TaskStatus.isActiveLease, TaskStatus.isHeld]
  obtain ⟨hmem, hattempt⟩ := h.attempt_of_dispatch hs hheld hx (.inr htype) hd
  obtain ⟨n, hn, -, hnot⟩ := (Journal.recorded_of_task hs).2.expiries x hmem htype
  rw [hattempt] at hn
  rw [hnot (Option.some.inj hn).symm] at hstatus
  cases hstatus

theorem expiry_free (h : Written j) (hs : j.task s.taskId = some s)
    (hstatus : s.status.isActiveLease = true) :
  Free j .leaseExpired id n s.dispatchId r
  := by
  rintro x hx key hdefault hkey
  have hheld : s.status.isHeld = true := by
    cases hs : s.status <;> simp_all [TaskStatus.isActiveLease, TaskStatus.isHeld]
  have hlawful := (Journal.recorded_of_task hs).1
  obtain ⟨htype, hsame⟩ := h.event_of_key hx hdefault hkey
  have hkeys := (Option.some.inj hsame).trans (Option.some.inj hdefault).symm
  apply h.not_expired hs hstatus hx htype
  exact dispatch_of_key (by simp [htype, REQUIRED]) (hlawful.held hheld).2.1 hkeys

theorem mem_of_taskKey {pre : Str} (hx : x ∈ j.events)
    (htype : x.type = type) (hsystem : type.isSystem = false)
    (h : pre ++ showOption x.taskId = pre ++ showOption (some s.taskId)) :
  0 < occurrences type (eventsOf s.taskId j.events)
  := by
  obtain ⟨id, hid⟩ := Event.taskId_of_task (e := x) (by rwa [htype])
  rw [hid] at h
  have hshow : id = s.taskId := List.append_cancel_left h
  apply List.countP_pos_iff.mpr
  exact ⟨x, List.mem_filter.mpr ⟨hx, by simp [hid, hshow]⟩, by simp [htype]⟩

theorem free_of_none (h : Written j) {pre : Str} (hsystem : type.isSystem = false)
    (hkeyed : ∀ id n d r, defaultDedupeKey type id n d r = some (pre ++ showOption id))
    (hnone : occurrences type (eventsOf s.taskId j.events) = 0) :
  Free j type (some s.taskId) n d r
  := by
  rintro x hx key hdefault hkey
  obtain ⟨htype, hsame⟩ := h.event_of_key hx hdefault hkey
  rw [hkeyed] at hsame hdefault
  have hkeys := (Option.some.inj hsame).trans (Option.some.inj hdefault).symm
  have hpos := mem_of_taskKey hx htype hsystem hkeys
  omega

theorem accepted_free (h : Written j) (hs : j.task s.taskId = some s)
    (hstatus : s.status = .verifying) :
  Free j .resultAccepted (some s.taskId) n d r
  := by
  apply h.free_of_none rfl fun _ _ _ _ => rfl
  simp [(Journal.settled_of_task hs).accepted, hstatus, TaskState.verified]

theorem complete_free (h : Written j) (hs : j.task s.taskId = some s)
    (hstatus : s.status = .accepted) :
  Free j .taskComplete (some s.taskId) n d r
  := by
  apply h.free_of_none rfl fun _ _ _ _ => rfl
  simp [(Journal.settled_of_task hs).complete, hstatus, TaskState.verified]

theorem created_of_known (h : Written j) {id : Str} (hs : j.task id = some s) :
  ∃ x ∈ j.events, x.dedupeKey = defaultDedupeKey .taskCreated (some id) none none none
  := by
  obtain ⟨e, he, htype⟩ := (Journal.recorded_of_task hs).2.created
  obtain ⟨hmem, htask⟩ := mem_of_eventsOf he
  refine ⟨e, hmem, ?_⟩
  rcases (h.plain e hmem).keyed with hkey | ⟨hlate, -⟩
  · rw [hkey, htype, htask]
    rfl
  · simp [htype] at hlate

theorem result_of_verifying (h : Written j) (hs : j.task s.taskId = some s)
    (hstatus : s.status = .verifying) :
  ∃ x ∈ j.events, x.type = .resultReady ∧ x.dispatchId = s.dispatchId ∧
    x.resultId = s.pendingResultId ∧
    x.dedupeKey = Controller.resultKey s.dispatchId s.pendingResultId
  := by
  obtain ⟨e, he, htype, hdispatch, hresult⟩ := (Journal.recorded_of_task hs).2.reported hstatus
  obtain ⟨hmem, -⟩ := mem_of_eventsOf he
  refine ⟨e, hmem, htype, hdispatch, hresult, ?_⟩
  rcases (h.plain e hmem).keyed with hkey | ⟨hlate, -⟩
  · rw [hkey, htype, hdispatch, hresult]
    rfl
  · simp [htype] at hlate

theorem result_of_verified (h : Written j) {id : Str} (hs : j.task id = some s)
    (hverified : s.verified = true) :
  ∃ x ∈ j.events, x.type = .resultReady ∧ x.dispatchId = s.dispatchId ∧
    x.resultId = s.acceptedResultId ∧
    x.dedupeKey = Controller.resultKey s.dispatchId s.acceptedResultId
  := by
  simp only [TaskState.verified, Bool.and_eq_true, decide_eq_true_eq] at hverified
  obtain ⟨hstatus, hresolution⟩ := hverified
  have hstage : s.stage = completionTypes := by simp [TaskState.stage, hstatus, hresolution]
  have hresult : s.namedResult = s.acceptedResultId := by simp [TaskState.namedResult, hstatus]
  have hbacked := backed_of_run (j.run_of_task id) s hs
  rw [Backed, hstage, hresult] at hbacked
  obtain ⟨x, hx, htype, hbelongs⟩ := hbacked.exists_of_mem .resultReady (by decide)
  obtain ⟨hmem, -⟩ := mem_of_eventsOf hx
  refine ⟨x, hmem, htype, hbelongs.dispatch_eq, hbelongs.result_eq (by simp [htype]), ?_⟩
  rcases (h.plain x hmem).keyed with hkey | ⟨hlate, -⟩
  · rw [hkey, htype, hbelongs.dispatch_eq, hbelongs.result_eq (by simp [htype])]
    rfl
  · simp [htype] at hlate

end Written

end Journals

end Courier
