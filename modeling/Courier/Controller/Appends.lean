import Courier.Controller.Drafts

/-!
# Appends of the controller

The rules by which the programs of the controller are reasoned about.  An event that fits the
journal is stored or fails for a reason outside the controller; either way the memory of the
controller stays as it is.
-/

namespace Courier

open Except Program Run Text

variable [Platform]

/-! ### Journals that grow -/

variable {s' : TaskState} {e : Event}

theorem Step.taskId_eq {s : TaskState} (step : Step s e s') :
  s'.taskId = s.taskId
  := by
  cases step <;> rfl

structure Claimable (j : Journal) (e : Event) : Prop where
  issued : ∀ x ∈ j.events, x.type = .taskClaimed → x.dispatchId ≠ e.dispatchId
  sourced : ∀ s d, j.task e.task = some s → s.dependsOn = some d →
    Sourced j.events d e.toEventFields

variable {j : Journal}

/-- A journal the controller wrote stays one when a plain event is stored. -/
theorem Written.extends {j' : Journal} {state : Option TaskState} (h : Written j)
    (hplain : Plain e.toEventFields) (hextends : j.Extends e state j')
    (hclaim : e.type = .taskClaimed → Claimable j e) :
  Written j'
  := by
  obtain ⟨⟨seq, prevHash, hash, hevents, -, -⟩, -⟩ := hextends
  constructor
  · intro x hx
    rw [hevents] at hx
    rcases List.mem_append.mp hx with hx | hx
    · exact h.plain x hx
    · obtain rfl := List.mem_singleton.mp hx
      exact ⟨hplain.keyed, hplain.created, hplain.claimed⟩
  · intro x hx y hy hxtype hytype hd
    rw [hevents] at hx hy
    rcases List.mem_append.mp hx with hx | hx
    · rcases List.mem_append.mp hy with hy | hy
      · exact h.issued x hx y hy hxtype hytype hd
      · obtain rfl := List.mem_singleton.mp hy
        exact absurd hd ((hclaim hytype).issued x hx hxtype)
    · obtain rfl := List.mem_singleton.mp hx
      rcases List.mem_append.mp hy with hy | hy
      · exact absurd hd.symm ((hclaim hxtype).issued y hy hytype)
      · obtain rfl := List.mem_singleton.mp hy
        rfl
  · intro before x after s d hsplit htype hrun hd
    rw [hevents] at hsplit
    obtain rfl | ⟨after, y, rfl⟩ := List.eq_nil_or_concat' after
    · obtain ⟨rfl, hx⟩ := List.append_inj' hsplit rfl
      obtain rfl : e.place seq prevHash hash = x := List.singleton_inj.mp hx
      exact (hclaim htype).sourced s d ((j.run_of_task _).unique hrun) hd
    · have hsplit : j.events ++ [e.place seq prevHash hash] = (before ++ x :: after) ++ [y] := by
        rw [hsplit, List.append_assoc, List.cons_append]
      exact h.sourced before x after s d (List.append_inj' hsplit rfl).1 htype hrun hd

variable {x : Event}

theorem Written.unique_of_default (h : Written j) {y : Event} (hx : x ∈ j.events)
    (hy : y ∈ j.events)
    (htype : x.type = y.type) (hlate : y.type ≠ .lateResultDiscarded) {key : Str}
    (hxkey : defaultDedupeKey x.type x.taskId x.attempt x.dispatchId x.resultId = some key)
    (hykey : defaultDedupeKey y.type y.taskId y.attempt y.dispatchId y.resultId = some key) :
  x = y
  := by
  have hkeyed : ∀ {z : Event} {k : Str}, z ∈ j.events → z.type ≠ .lateResultDiscarded →
      defaultDedupeKey z.type z.taskId z.attempt z.dispatchId z.resultId = some k →
      z.dedupeKey = some k := by
    intro z k hz hnot hk
    rcases (h.plain z hz).keyed with hdefault | ⟨hz, -⟩
    · exact hdefault.trans hk
    · exact absurd hz hnot
  exact Journal.unique_of_key hx hy (hkeyed hx (htype ▸ hlate) hxkey) (hkeyed hy hlate hykey)

theorem bindAll_known {id : Str} {s : TaskState} (h : j.task id = some s) :
  bindAll [.text id] = .ok ()
  := by
  obtain ⟨e, he, -⟩ := (Journal.recorded_of_task h).2.created
  obtain ⟨hmem, htask⟩ := Written.mem_of_eventsOf he
  apply bindAll_of_mem (j.bound e hmem)
  simp [eventRow, EventRow.values, htask, SqlValue.ofOption]

theorem bindAll_stored (hx : x ∈ j.events) :
  bindAll [.ofOption x.dedupeKey] = .ok ()
  := by
  apply bindAll_of_mem (j.bound x hx)
  simp [eventRow, EventRow.values]

/-! ### Events of drafts -/

structure Drafted (d : Draft) (e : Event) : Prop where
  type : e.type = d.type
  taskId : e.taskId = d.taskId
  attempt : e.attempt = d.attempt
  dispatchId : e.dispatchId = d.dispatchId
  workerId : e.workerId = d.workerId
  resultId : e.resultId = d.resultId
  payload : e.payload = d.payload
  key : e.dedupeKey = d.key
  unsealed : e.seq = none ∧ e.hash = none

variable {d : Draft}

theorem drafted_of_build {draw : Draw}
    (h : Event.build (d.fields draw) = .ok e) :
  Drafted d e
  := by
  have hfields := Event.build_eq_ok.mp h
  constructor <;> rw [hfields] <;> first | rfl | exact ⟨rfl, rfl⟩

variable {why : Exc}

theorem Draft.Proper.fault (h : d.Proper) {draw : Draw}
    (herror : Event.build (d.fields draw) = .error why) :
  why.isFault = true
  := by
  by_cases hs : Platform.tooDeep (canonicalJson (.obj (d.fields draw).payload)) = false
  · rw [Event.build_of_valid h.wf hs (h.valid draw)] at herror
    cases herror
  · unfold Event.build at herror
    have hc : (Json.obj (d.fields draw).payload).wf = true := h.wf
    rw [dif_pos hc, dif_neg hs] at herror
    cases herror
    rfl

/-! ### Memory -/

structure Same (c c' : Controller) : Prop where
  mode : c'.mode = c.mode
  stopping : c'.stopping = c.stopping
  leases : c'.leases = c.leases
  verifyQueue : c'.verifyQueue = c.verifyQueue
  verifying : c'.verifying = c.verifying
  lastTick : c'.lastTick = c.lastTick

variable {c' : Controller}

theorem Same.trans {c c'' : Controller} (h : Same c c') (h' : Same c' c'') :
  Same c c''
  := ⟨h'.mode.trans h.mode, h'.stopping.trans h.stopping, h'.leases.trans h.leases,
    h'.verifyQueue.trans h.verifyQueue, h'.verifying.trans h.verifying, h'.lastTick.trans h.lastTick⟩

theorem Same.redrawn {c : Controller} {draws : Nat → Draw} (h : Same { c with draws := draws } c') :
  Same c c'
  := ⟨h.mode, h.stopping, h.leases, h.verifyQueue, h.verifying, h.lastTick⟩

structure Stored (c : Controller) (e : Event) (s : TaskState) (c' : Controller) : Prop where
  same : Same c c'
  raised : c'.raised = c.raised
  written : Written c'.journal
  events : ∃ seq prevHash hash,
    c'.journal.events = c.journal.events ++ [e.place seq prevHash hash]
  tasks : ∃ seq, ∀ id, c'.journal.task id =
    if id = s.taskId then some { s with updatedSeq := seq } else c.journal.task id

theorem Stored.redrawn {c : Controller} {draws : Nat → Draw} {s : TaskState}
    (h : Stored { c with draws := draws } e s c') :
  Stored c e s c'
  := by
  obtain ⟨hsame, hraised, hwritten, hevents, htasks⟩ := h
  exact ⟨hsame.redrawn, hraised, hwritten, hevents, htasks⟩

structure Failed (c : Controller) (type : EventType) (why : Exc) (c' : Controller) : Prop where
  same : Same c c'
  journal : c'.journal = c.journal
  raised : c'.raised = c.raised ++ [(type, why)]

theorem failed_of_raise {c : Controller} (draws : Nat → Draw) (type : EventType) (why : Exc) :
  Failed c type why { c with draws := draws, raised := c.raised ++ [(type, why)] }
  := ⟨⟨rfl, rfl, rfl, rfl, rfl, rfl⟩, rfl, rfl⟩

variable {type : EventType}

theorem Failed.noted {c : Controller} (h : Failed c type why c') :
  c'.raised ≠ []
  := by
  rw [h.raised]
  simp

structure Fits (j : Journal) (e : Event) (s s' : TaskState) : Prop where
  known : j.task s.taskId = some s
  taskId : e.taskId = some s.taskId
  step : Step s e s'
  new : j.existing e = none
  plain : Plain e.toEventFields
  unsealed : e.seq = none ∧ e.hash = none
  claim : e.type = .taskClaimed → Claimable j e

theorem free_of_keyless {id : Option Str} {n : Option Int}
    {d r : Option Str} (h : defaultDedupeKey type id n d r = none) :
  Written.Free j type id n d r
  := by
  rintro x - key hkey
  rw [h] at hkey
  cases hkey

theorem Drafted.free (he : Drafted d e)
    (hkey : d.dedupeKey = none) (hnew : j.existing e = none) :
  Written.Free j d.type d.taskId d.attempt d.dispatchId d.resultId
  := by
  intro x hx key hdefault
  apply Journal.existing_eq_none.mp hnew key _ x hx
  rw [he.key, Draft.key, hkey]
  exact hdefault

theorem Drafted.fits {s : TaskState} (he : Drafted d e)
    (hkey : d.dedupeKey = none) (hknown : j.task s.taskId = some s)
    (hid : d.taskId = some s.taskId)
    (hfree : Written.Free j d.type d.taskId d.attempt d.dispatchId d.resultId)
    (hclaim : d.type = .taskClaimed →
      Claimable j e ∧ ∀ id, d.dispatchId = some id → id.length ≤ 36 ∧ 58 ∉ id)
    (step : Step s e s') :
  Fits j e s s'
  := by
  have hdefault : e.dedupeKey =
      defaultDedupeKey d.type d.taskId d.attempt d.dispatchId d.resultId := by
    rw [he.key, Draft.key, hkey]
    rfl
  refine ⟨hknown, he.taskId.trans hid, step, ?_, ⟨?_, ?_, ?_⟩, he.unsealed, ?_⟩
  · apply Journal.existing_eq_none.mpr
    intro key hkey x hx
    exact hfree x hx key (hdefault.symm.trans hkey)
  · left
    rw [hdefault, he.type, he.taskId, he.attempt, he.dispatchId, he.resultId]
  · intro hcreated
    exact absurd hcreated step.type_of.2
  · intro htype id hd
    exact (hclaim (he.type.symm.trans htype)).2 id (he.dispatchId.symm.trans hd)
  · intro htype
    exact (hclaim (he.type.symm.trans htype)).1

theorem Fits.state_eq {j' : Journal} {s : TaskState} {state : Option TaskState}
    (h : Fits j e s s') (hextends : j.Extends e state j') :
  ∃ seq, state = some { s' with updatedSeq := seq }
  := by
  obtain ⟨⟨seq, prevHash, hash, -, -, hstep⟩, -⟩ := hextends
  obtain ⟨hsystem, hcreated⟩ := h.step.type_of
  have htask : j.task e.task = some s := by simpa [Event.task, h.taskId] using h.known
  obtain ⟨t, ht, hstate⟩ := hstep s hsystem hcreated htask
  have hok := (transition_iff.mpr ht).symm.trans (transition_iff.mpr h.step)
  cases hok
  exact ⟨_, hstate⟩

structure Clear (j : Journal) (e : Event) : Prop where
  new : j.existing e = none
  accepted : ∀ seq prevHash hash, ∃ state,
    apply (j.task e.task) (e.place seq prevHash hash) = .ok state
  plain : Plain e.toEventFields
  unsealed : e.seq = none ∧ e.hash = none
  claim : e.type = .taskClaimed → Claimable j e

theorem Fits.clear {s : TaskState} (h : Fits j e s s') :
  Clear j e
  := by
  refine ⟨h.new, ?_, h.plain, h.unsealed, h.claim⟩
  intro seq prevHash hash
  have htask : j.task e.task = some s := by simpa [Event.task, h.taskId] using h.known
  obtain ⟨hsystem, hcreated⟩ := h.step.type_of
  exact ⟨_, by rw [htask, apply_place hsystem hcreated h.taskId h.step]⟩

theorem Clear.fault (h : Clear j e)
    (happend : j.append e = .error why) :
  why.isFault = true
  := by
  by_contra hfault
  obtain ⟨message, x, -, hx⟩ | ⟨-, seq, prevHash, hash, happly⟩ :=
    Journal.refusal_of_append h.unsealed happend (by simpa using hfault)
  · rw [h.new] at hx
    cases hx
  · obtain ⟨state, hstate⟩ := h.accepted seq prevHash hash
    rw [hstate] at happly
    cases happly

theorem clear_of_system (he : Drafted d e)
    (hsystem : d.type.isSystem = true) (hkey : d.dedupeKey = none) :
  Clear j e
  := by
  have hdefault : ∀ {id : Option Str} {n : Option Int} {a r : Option Str},
      defaultDedupeKey d.type id n a r = none := by
    intro id n a r
    cases htype : d.type <;> first | rfl | simp [htype, EventType.isSystem] at hsystem
  have hnone : e.dedupeKey = none := by
    rw [he.key, Draft.key, hkey, hdefault]
    rfl
  refine ⟨?_, ?_, ⟨?_, ?_, ?_⟩, he.unsealed, ?_⟩
  · apply Journal.existing_eq_none.mpr
    intro key hkey
    rw [hnone] at hkey
    cases hkey
  · intro seq prevHash hash
    exact ⟨_, apply_iff.mpr (.system (he.type ▸ hsystem))⟩
  · left
    rw [hnone, he.type, hdefault]
  all_goals
    intro htype
    rw [← he.type, htype] at hsystem
    cases hsystem

/-- The creation of a task that is not known is not refused. -/
theorem clear_of_created {id : Str} (hwritten : Written j)
    (he : Drafted d e) (htype : d.type = .taskCreated) (hid : d.taskId = some id)
    (hlength : id.length ≤ 37) (hkey : d.dedupeKey = none) (hunknown : j.task id = none) :
  Clear j e
  := by
  have hdefault : e.dedupeKey = defaultDedupeKey .taskCreated (some id) none none none := by
    rw [he.key, Draft.key, hkey, htype, hid]
    rfl
  have htype' : e.type = .taskCreated := he.type.trans htype
  refine ⟨?_, ?_, ⟨?_, ?_, ?_⟩, he.unsealed, ?_⟩
  · apply Journal.existing_eq_none.mpr
    intro key hkey x hx hxkey
    have hdefault' := hdefault.symm.trans hkey
    obtain ⟨hxtype, hsame⟩ := hwritten.event_of_key hx hdefault' hxkey
    obtain ⟨xid, hxid⟩ := Event.taskId_of_task (e := x) (by rw [hxtype]; rfl)
    rw [hxid] at hsame
    have hkeys := (Option.some.inj hsame).trans (Option.some.inj hdefault').symm
    have hids : xid = id := List.append_cancel_left hkeys
    obtain ⟨s, hs⟩ := Journal.known_of_event hx hxid
    rw [hids, hunknown] at hs
    cases hs
  · intro seq prevHash hash
    have htask : j.task e.task = none := by
      simpa [Event.task, he.taskId, hid] using hunknown
    rw [htask]
    exact ⟨_, apply_iff.mpr (.created htype')⟩
  · left
    rw [hdefault, htype', he.taskId, hid]
    rfl
  · intro _ i hi
    rw [he.taskId, hid] at hi
    cases hi
    exact hlength
  · intro hclaimed
    simp [htype'] at hclaimed
  · intro hclaimed
    simp [htype'] at hclaimed

/-! ### Rules -/

namespace Controller

variable {α : Type} {c : Controller}

variable {normal : α → Controller → Prop} {raised : Exc → Controller → Prop}

@[simp]
theorem wp_noting {m : Act α} :
  wp (noting type m) normal raised c ↔
    wp m normal (fun why c' => raised why { c' with raised := c'.raised ++ [(type, why)] }) c
  := by
  simp [noting]

@[simp]
theorem wp_locked {busy : Bool} {m : Act α} :
  wp (locked busy m) normal raised c ↔
    (busy = true → raised (refusal 503 "busy" "controller is busy; retry" []) c) ∧
      (busy = false → wp m normal raised c)
  := by
  cases busy with
  | true => simp [locked]
  | false => simp [locked]

theorem wp_append_of {normal : AppendResult → Controller → Prop}
    (hnormal : ∀ r c', c.journal.append e = .ok (r, c'.journal) → Same c c' →
      c'.raised = c.raised → normal r c')
    (hraised : ∀ why c', why = .environment ∨ c.journal.append e = .error why →
      Failed c e.type why c' → raised why c') :
  wp (append e) normal raised c
  := by
  simp only [append, wp_noting, nextDraw, wp_bind, wp_get, wp_set, wp_pure]
  cases hfails : (c.draws 0).fails with
  | true => exact hraised _ _ (.inl rfl) ⟨⟨rfl, rfl, rfl, rfl, rfl, rfl⟩, rfl, rfl⟩
  | false =>
    simp only [Bool.false_eq_true, if_false, wp_bind, wp_get, wp_lift, wp_set, wp_pure]
    constructor
    · rintro ⟨r, j'⟩ happend
      exact hnormal _ _ happend ⟨rfl, rfl, rfl, rfl, rfl, rfl⟩ rfl
    · intro why happend
      exact hraised _ _ (.inr happend) ⟨⟨rfl, rfl, rfl, rfl, rfl, rfl⟩, rfl, rfl⟩

theorem wp_append_clear (hwritten : Written c.journal) (hclear : Clear c.journal e) :
  wp (append e) (fun r c' => r.duplicate = false ∧ r.event ∈ c'.journal.events ∧ Same c c' ∧
      c'.raised = c.raised ∧ Written c'.journal ∧ c.journal.Extends e r.state c'.journal)
    (fun why c' => why.isFault = true ∧ Failed c e.type why c') c
  := by
  apply wp_append_of
  · intro r c' happend hsame hraised
    obtain ⟨-, -, hexisting, -⟩ | ⟨hr, -, hextends, hmem⟩ := Journal.append_ok happend
    · rw [hclear.new] at hexisting
      cases hexisting
    · exact ⟨hr, hmem, hsame, hraised, hwritten.extends hclear.plain hextends hclear.claim,
        hextends⟩
  · rintro why c' (rfl | happend) hfailed
    · exact ⟨rfl, hfailed⟩
    · exact ⟨hclear.fault happend, hfailed⟩

theorem wp_append {s : TaskState} (hwritten : Written c.journal)
    (hfits : Fits c.journal e s s') :
  wp (append e) (fun r c' => r.duplicate = false ∧ r.event ∈ c'.journal.events ∧ Stored c e s' c')
    (fun why c' => why.isFault = true ∧ Failed c e.type why c') c
  := by
  apply wp_mono (wp_append_clear hwritten hfits.clear)
  · rintro r c' ⟨hr, hmem, hsame, hraised, hwritten', hextends⟩
    refine ⟨hr, hmem, hsame, hraised, hwritten', ?_, ?_⟩
    · obtain ⟨seq, prevHash, hash, hevents, -⟩ := hextends.events
      exact ⟨seq, prevHash, hash, hevents⟩
    · obtain ⟨seq, hstate⟩ := hfits.state_eq hextends
      refine ⟨seq, ?_⟩
      intro id
      rw [hextends.tasks, hfits.taskId, ← hfits.step.taskId_eq, hstate]
      simp only [Option.some.injEq, eq_comm]
  · rintro why c' herror
    exact herror

theorem wp_append_existing (hunsealed : e.seq = none ∧ e.hash = none)
    (hexisting : c.journal.existing e = some x) :
  wp (append e) (fun r c' => r.duplicate = true ∧ r.event = x ∧ Same c c' ∧
      c'.raised = c.raised ∧ c'.journal = c.journal)
    (fun why c' => (why.isFault = true ∨ ∃ message, why = .dedupeConflict message) ∧
      Failed c e.type why c') c
  := by
  apply wp_append_of
  · intro r c' happend hsame hraised
    obtain ⟨hr, hj, hx, -⟩ | ⟨-, hnew, -⟩ := Journal.append_ok happend
    · rw [hexisting] at hx
      exact ⟨hr, (Option.some.inj hx).symm, hsame, hraised, hj⟩
    · rw [hexisting] at hnew
      cases hnew
  · rintro why c' (rfl | happend) hfailed
    · exact ⟨.inl rfl, hfailed⟩
    · refine ⟨?_, hfailed⟩
      by_cases hfault : why.isFault = true
      · exact .inl hfault
      · obtain ⟨message, y, hwhy, -⟩ | ⟨hnew, -⟩ :=
          Journal.refusal_of_append hunsealed happend (by simpa using hfault)
        · exact .inr ⟨message, hwhy⟩
        · rw [hexisting] at hnew
          cases hnew

theorem wp_newEvent (h : d.Proper) :
  wp (newEvent d) (fun e c' => Drafted d e ∧ ∃ draws, c' = { c with draws := draws })
    (fun why c' => why.isFault = true ∧ ∃ draws, c' = { c with draws := draws }) c
  := by
  simp only [newEvent, nextDraw, wp_bind, wp_get, wp_set, wp_pure, wp_lift]
  constructor
  · intro e he
    exact ⟨drafted_of_build he, _, rfl⟩
  · intro why hwhy
    exact ⟨h.fault hwhy, _, rfl⟩

theorem wp_record {s : TaskState} {p : Event → TaskState → Prop}
    (hwritten : Written c.journal) (h : d.Proper)
    (hfits : ∀ e, Drafted d e → ∃ s', Fits c.journal e s s' ∧ p e s') :
  wp (record d) (fun r c' => r.duplicate = false ∧ r.event ∈ c'.journal.events ∧
      ∃ e s', Drafted d e ∧ s'.taskId = s.taskId ∧ p e s' ∧ Stored c e s' c')
    (fun why c' => why.isFault = true ∧ Failed c d.type why c') c
  := by
  simp only [record, wp_bind, wp_noting]
  apply wp_mono (wp_newEvent h)
  · rintro e _ ⟨he, draws, rfl⟩
    obtain ⟨s', hfits, hp⟩ := hfits e he
    apply wp_mono (wp_append (c := { c with draws := draws }) hwritten hfits)
    · rintro r c' ⟨hr, hmem, hstored⟩
      exact ⟨hr, hmem, e, s', he, hfits.step.taskId_eq, hp, hstored.redrawn⟩
    · rintro why c' ⟨hwhy, hsame, hjournal, hraised⟩
      rw [he.type] at hraised
      exact ⟨hwhy, hsame.redrawn, hjournal, hraised⟩
  · rintro why _ ⟨hwhy, draws, rfl⟩
    exact ⟨hwhy, ⟨rfl, rfl, rfl, rfl, rfl, rfl⟩, rfl, rfl⟩

/-! ### Reads -/

variable {s : TaskState} {id : Str}

@[simp]
theorem wp_require (a : α) :
  wp (require (some a)) normal raised c ↔ normal a c
  := Iff.rfl

theorem wp_readTask_known {normal : Option TaskState → Controller → Prop}
    (h : c.journal.task id = some s) :
  wp (readTask id) normal raised c ↔ normal (some s) c
  := by
  simp [readTask, bindAll_known h, h]

theorem wp_readEventByKey_stored {key : Option Str}
    {normal : Option Event → Controller → Prop}
    (hx : x ∈ c.journal.events) (hkey : x.dedupeKey = key) (hsome : key.isSome = true) :
  wp (readEventByKey key) normal raised c ↔ normal (some x) c
  := by
  obtain ⟨k, rfl⟩ := Option.isSome_iff_exists.mp hsome
  have hbind : bindAll [.ofOption (some k)] = .ok () := hkey ▸ bindAll_stored hx
  simp [readEventByKey, hbind, Journal.getEventByDedupeKey_of_mem hx hkey]

theorem wp_readEventByKey {key : Option Str} {normal : Option Event → Controller → Prop}
    (hnormal : normal (key.bind c.journal.getEventByDedupeKey) c)
    (hraised : ∀ why, why.isFault = true → raised why c) :
  wp (readEventByKey key) normal raised c
  := by
  simp only [readEventByKey, wp_bind, wp_lift, wp_get, wp_pure]
  exact ⟨fun _ _ => hnormal, fun why hwhy => hraised why (fault_of_bindAll hwhy)⟩

theorem wp_readClaim {dispatchId : Str} {normal : Option Event → Controller → Prop}
    (hnormal : normal (c.journal.claimForDispatch dispatchId) c)
    (hraised : ∀ why, why.isFault = true → raised why c) :
  wp (readClaim dispatchId) normal raised c
  := by
  simp only [readClaim, wp_bind, wp_lift, wp_get, wp_pure]
  exact ⟨fun _ _ => hnormal, fun why hwhy => hraised why (fault_of_bindAll hwhy)⟩

theorem wp_readTask {normal : Option TaskState → Controller → Prop}
    (hnormal : normal (c.journal.task id) c)
    (hraised : ∀ why, why.isFault = true → c.journal.task id = none → raised why c) :
  wp (readTask id) normal raised c
  := by
  simp only [readTask, wp_bind, wp_lift, wp_get, wp_pure]
  refine ⟨fun _ _ => hnormal, ?_⟩
  intro why hwhy
  apply hraised why (fault_of_bindAll hwhy)
  cases h : c.journal.task id with
  | none => rfl
  | some s =>
    rw [bindAll_known h] at hwhy
    cases hwhy

end Controller

end Courier
