import Courier.Controller.Appends

/-!
# The memory of the controller

Every lease is that of a claimed or running task; every such task has a lease and every result that waits is queued or
being verified, unless an event could not be journaled; and so for events that belong together.
-/

namespace Courier

open Except Program Run Text

/-! ### Leases and the tasks that hold them -/

structure Holder where
  taskId : Str
  dispatchId : Str
  workerId : Str
  ttlS : Int
  deriving DecidableEq

def Lease.holder (lease : Lease) : Holder where
  taskId := lease.taskId
  dispatchId := lease.dispatchId
  workerId := lease.workerId
  ttlS := lease.ttlS

def TaskState.Decided (s : TaskState) : Prop :=
  s.status ≠ .accepted ∧ s.status ≠ .retryPending

def Calm (raised : List (EventType × Exc)) : Prop :=
  ∀ x ∈ raised, x.1 ∉ [EventType.leaseExpired, .resultAccepted, .resultRejected]

/-- No event that finishes what another has begun failed to be journaled. -/
def Quiet (raised : List (EventType × Exc)) : Prop :=
  ∀ x ∈ raised, x.1 ∉ [EventType.taskComplete, .taskRetryScheduled, .taskFailed, .taskBlocked,
    .taskCancelled]

variable [Platform]

def Controller.holder (c : Controller) (dispatchId : Str) : Option Holder :=
  (c.leases.get? dispatchId).map Lease.holder

structure Leased (j : Journal) (dispatchId : Str) (h : Holder) : Prop where
  dispatch : h.dispatchId = dispatchId
  task : ∃ s, j.task h.taskId = some s ∧ s.status.isActiveLease = true ∧
    s.dispatchId = some dispatchId ∧ s.workerId = some h.workerId ∧ s.leaseTtlS = h.ttlS

/-- The ticker will act on the task if it has to, and so will the verifier if `P` holds of the
controller's stopping. -/
structure Attended (P : Bool → Prop) (c : Controller) (s : TaskState) : Prop where
  leased : s.status.isActiveLease = true →
    ∃ d h, s.dispatchId = some d ∧ c.holder d = some h ∧ h.taskId = s.taskId
  queued : P c.stopping → s.status = .verifying → s.taskId ∈ c.verifyQueue ∨ ∃ v ∈ c.verifying,
    v.task.taskId = s.taskId ∧ v.task.dispatchId = s.dispatchId ∧
      v.task.pendingResultId = s.pendingResultId

structure Reports (j : Journal) (v : Verification) : Prop where
  result : v.result ∈ j.events
  type : v.result.type = .resultReady
  dispatch : v.result.dispatchId = v.task.dispatchId
  resultId : v.result.resultId = v.task.pendingResultId
  task : ∃ before after, j.events = before ++ after ∧
    Accepts apply none (eventsOf v.task.taskId before) (some v.task)

/-- The invariant of the controller: appends of the types `L` may conflict, tasks are attended as far as `P` holds, and
decided as far as `Q` does, but for those in `X`. -/
structure Consistent (L : EventType → Prop) (P : Bool → Prop) (Q : Prop) (X : Str → Prop)
    (c : Controller) : Prop where
  written : Written c.journal
  legal : ∀ x ∈ c.raised, x.2.isRefusal = true → L x.1 ∧ ∃ message, x.2 = .dedupeConflict message
  leased : ∀ d h, c.holder d = some h → Leased c.journal d h
  reports : ∀ v ∈ c.verifying, Reports c.journal v
  attended : P false → Calm c.raised → ∀ id s, ¬ X id → c.journal.task id = some s →
    Attended P c s
  decided : Q → Quiet c.raised → ∀ id s, ¬ X id → c.journal.task id = some s → s.Decided

/-- Nothing but what concerns one task has changed. -/
structure Frame (k : Str) (c c' : Controller) : Prop where
  stopping : c'.stopping = c.stopping
  raised : ∃ more, c'.raised = c.raised ++ more
  events : ∃ more, c'.journal.events = c.journal.events ++ more
  tasks : ∀ id, id ≠ k → c'.journal.task id = c.journal.task id
  holders : ∀ d h, h.taskId ≠ k → (c'.holder d = some h ↔ c.holder d = some h)
  verifyQueue : ∀ id, id ≠ k → id ∈ c.verifyQueue → id ∈ c'.verifyQueue
  verifying : ∀ v ∈ c.verifying, v.task.taskId ≠ k → v ∈ c'.verifying
  reports : ∀ v ∈ c'.verifying, v ∈ c.verifying ∨ Reports c'.journal v

section Invariant

variable {L : EventType → Prop} {P : Bool → Prop} {Q : Prop} {X : Str → Prop} {c c' : Controller}

variable {raised : List (EventType × Exc)}

omit [Platform] in
theorem Calm.of_append {more : List (EventType × Exc)} (h : Calm (raised ++ more)) :
  Calm raised
  := fun x hx => h x (List.mem_append_left _ hx)

variable {type : EventType} {why : Exc}

section

omit [Platform]

theorem not_calm
    (htype : type ∈ [EventType.leaseExpired, .resultAccepted, .resultRejected]) :
  ¬ Calm (raised ++ [(type, why)])
  := fun hcalm => hcalm (type, why) (by simp) htype

theorem Quiet.of_append {more : List (EventType × Exc)} (h : Quiet (raised ++ more)) :
  Quiet raised
  := fun x hx => h x (List.mem_append_left _ hx)

end

theorem Reports.mono {j j' : Journal} {v : Verification} (h : Reports j v)
    (hevents : ∃ more, j'.events = j.events ++ more) :
  Reports j' v
  := by
  obtain ⟨hresult, htype, hdispatch, hid, before, after, hsplit, hrun⟩ := h
  obtain ⟨more, hmore⟩ := hevents
  refine ⟨?_, htype, hdispatch, hid, before, after ++ more, ?_, hrun⟩
  · rw [hmore]
    exact List.mem_append_left _ hresult
  · rw [hmore, hsplit, List.append_assoc]

namespace Consistent

variable {k : Str}

theorem change (h : Consistent L P Q X c) (frame : Frame k c c')
    (hwritten : Written c'.journal)
    (hlegal : ∀ x ∈ c'.raised, x.2.isRefusal = true →
      L x.1 ∧ ∃ message, x.2 = .dedupeConflict message)
    (hleased : ∀ d h, h.taskId = k → c'.holder d = some h → Leased c'.journal d h) :
  Consistent L P Q (fun id => X id ∨ id = k) c'
  := by
  obtain ⟨hstopping, ⟨more, hraised⟩, hevents, htasks, hholders, hqueue, hverifying, hreports⟩ := frame
  constructor
  · exact hwritten
  · exact hlegal
  · intro d holder hholder
    by_cases hk : holder.taskId = k
    · exact hleased d holder hk hholder
    · obtain ⟨hdispatch, s, hs, hrest⟩ := h.leased d holder ((hholders d holder hk).mp hholder)
      refine ⟨hdispatch, s, ?_, hrest⟩
      rwa [htasks _ hk]
  · intro v hv
    obtain hv | hv := hreports v hv
    · exact (h.reports v hv).mono hevents
    · exact hv
  · intro hP hcalm id s hX hs
    obtain ⟨hX, hk⟩ := not_or.mp hX
    rw [htasks id hk] at hs
    rw [hraised] at hcalm
    have hid := Journal.taskId_of_task hs
    obtain ⟨hlease, hqueued⟩ := h.attended hP hcalm.of_append id s hX hs
    constructor
    · intro hactive
      obtain ⟨d, holder, hd, hholder, htask⟩ := hlease hactive
      refine ⟨d, holder, hd, (hholders d holder ?_).mpr hholder, htask⟩
      rwa [htask, hid]
    · intro hstopped hstatus
      rw [hstopping] at hstopped
      obtain hmem | ⟨v, hv, htask, hsame⟩ := hqueued hstopped hstatus
      · left
        apply hqueue _ _ hmem
        rwa [hid]
      · right
        refine ⟨v, hverifying v hv ?_, htask, hsame⟩
        rwa [htask, hid]
  · intro hQ hquiet id s hX hs
    obtain ⟨hX, hk⟩ := not_or.mp hX
    rw [htasks id hk] at hs
    rw [hraised] at hquiet
    exact h.decided hQ hquiet.of_append id s hX hs

theorem keep (h : Consistent L P Q (fun id => X id ∨ id = k) c)
    (hattended : ¬ X k → P false → Calm c.raised → ∀ s, c.journal.task k = some s →
      Attended P c s)
    (hdecided : ¬ X k → Q → Quiet c.raised → ∀ s, c.journal.task k = some s → s.Decided) :
  Consistent L P Q X c
  := by
  refine ⟨h.written, h.legal, h.leased, h.reports, ?_, ?_⟩
  · intro hP hcalm id s hX hs
    by_cases hk : id = k
    · exact hattended (hk ▸ hX) hP hcalm s (hk ▸ hs)
    · exact h.attended hP hcalm id s (by simp [hX, hk]) hs
  · intro hQ hquiet id s hX hs
    by_cases hk : id = k
    · exact hdecided (hk ▸ hX) hQ hquiet s (hk ▸ hs)
    · exact h.decided hQ hquiet id s (by simp [hX, hk]) hs

theorem congr (h : Consistent L P Q X c) (hjournal : c'.journal = c.journal)
    (hstopping : c'.stopping = c.stopping)
    (hraised : c'.raised = c.raised) (hholder : ∀ d, c'.holder d = c.holder d)
    (hqueue : c'.verifyQueue = c.verifyQueue) (hverifying : c'.verifying = c.verifying) :
  Consistent L P Q X c'
  := by
  obtain ⟨hwritten, hlegal, hleased, hreports, hattended, hdecided⟩ := h
  rw [← hjournal] at hwritten hleased hreports hattended hdecided
  rw [← hraised] at hlegal hattended hdecided
  rw [← hverifying] at hreports
  refine ⟨hwritten, hlegal, ?_, hreports, ?_, hdecided⟩
  · intro d holder hd
    exact hleased d holder ((hholder d).symm.trans hd)
  · intro hP hcalm id s hX hs
    obtain ⟨hlease, hqueued⟩ := hattended hP hcalm id s hX hs
    constructor
    · simpa only [hholder] using hlease
    · simpa only [hqueue, hverifying, hstopping] using hqueued

theorem grow (h : Consistent L P Q X c) (hwritten : Written c'.journal)
    (hevents : ∃ more, c'.journal.events = c.journal.events ++ more)
    (htasks : ∀ id, c'.journal.task id = c.journal.task id) (hsame : Same c c')
    (hraised : c'.raised = c.raised) :
  Consistent L P Q X c'
  := by
  have hholder : ∀ d, c'.holder d = c.holder d := by
    intro d
    rw [Controller.holder, Controller.holder, hsame.leases]
  constructor
  · exact hwritten
  · rw [hraised]
    exact h.legal
  · intro d holder hd
    obtain ⟨hdispatch, s, hs, hrest⟩ := h.leased d holder ((hholder d).symm.trans hd)
    exact ⟨hdispatch, s, (htasks _).trans hs, hrest⟩
  · intro v hv
    rw [hsame.verifying] at hv
    exact (h.reports v hv).mono hevents
  · intro hP hcalm id s hX hs
    rw [hraised] at hcalm
    rw [htasks] at hs
    obtain ⟨hlease, hqueued⟩ := h.attended hP hcalm id s hX hs
    constructor
    · simpa only [hholder] using hlease
    · simpa only [hsame.verifyQueue, hsame.verifying, hsame.stopping] using hqueued
  · intro hQ hquiet id s hX hs
    rw [hraised] at hquiet
    rw [htasks] at hs
    exact h.decided hQ hquiet id s hX hs

theorem noted (h : Consistent L P Q X c)
    (hfailed : Failed c type why c')
    (hwhy : why.isRefusal = true → L type ∧ ∃ message, why = .dedupeConflict message) :
  Consistent L P Q X c'
  := by
  obtain ⟨⟨-, hstopping, hleases, hqueue, hverifying⟩, hjournal, hraised⟩ := hfailed
  have hraise : Consistent L P Q X { c with raised := c'.raised } := by
    refine ⟨h.written, ?_, h.leased, h.reports, ?_, ?_⟩
    · intro x hx hrefusal
      rw [hraised] at hx
      rcases List.mem_append.mp hx with hx | hx
      · exact h.legal x hx hrefusal
      · obtain rfl := List.mem_singleton.mp hx
        exact hwhy hrefusal
    · intro hP hcalm id s hX hs
      rw [hraised] at hcalm
      obtain ⟨hlease, hqueued⟩ := h.attended hP hcalm.of_append id s hX hs
      exact ⟨hlease, hqueued⟩
    · intro hQ hquiet
      rw [hraised] at hquiet
      exact h.decided hQ hquiet.of_append
  apply hraise.congr hjournal hstopping rfl ?_ hqueue hverifying
  intro d
  simp only [Controller.holder, hleases]

theorem failed (h : Consistent L P Q X c)
    (hfailed : Failed c type why c') (hwhy : why.isFault = true) :
  Consistent L P Q X c'
  := by
  apply h.noted hfailed
  intro hrefusal
  rw [Exc.not_refusal_of_fault hwhy] at hrefusal
  cases hrefusal

variable {d : Str}

theorem leased_of_held {lease : Lease} (h : Consistent L P Q X c)
    (hlease : c.leases.get? d = some lease) :
  Leased c.journal d lease.holder
  := by
  apply h.leased d
  rw [Controller.holder, hlease]
  rfl

theorem unleased {s : TaskState} (h : Consistent L P Q X c)
    (hs : c.journal.task k = some s) (hinactive : s.status.isActiveLease = false)
    {holder : Holder} (hholder : c.holder d = some holder) :
  holder.taskId ≠ k
  := by
  rintro rfl
  obtain ⟨-, t, ht, hactive, -⟩ := h.leased d holder hholder
  cases hs.symm.trans ht
  simp [hinactive] at hactive

theorem holder_of_dispatch {s : TaskState} (h : Consistent L P Q X c)
    (hs : c.journal.task s.taskId = some s) (hheld : s.status.isHeld = true)
    (hd : s.dispatchId = some d) {holder : Holder} (hholder : c.holder d = some holder) :
  holder.taskId = s.taskId
  := by
  obtain ⟨-, t, ht, hactive, htd, -⟩ := h.leased d holder hholder
  have hid := Journal.taskId_of_task ht
  have htheld : t.status.isHeld = true := by
    cases hstatus : t.status <;> simp_all [TaskStatus.isActiveLease, TaskStatus.isHeld]
  rw [← hid]
  apply h.written.task_of_dispatch (by rwa [hid]) hs htheld hheld
  rw [htd, hd]

end Consistent

/-! ### Events that are stored -/

variable {s : TaskState} {e : Event}

theorem Stored.frame (h : Stored c e s c') :
  Frame s.taskId c c'
  := by
  obtain ⟨⟨-, hstopping, hleases, hqueue, hverifying⟩, hraised, -, hevents, seq, htasks⟩ := h
  obtain ⟨n, prevHash, hash, hevents⟩ := hevents
  refine ⟨hstopping, ⟨[], by rw [hraised, List.append_nil]⟩, ⟨_, hevents⟩, ?_, ?_, ?_, ?_, ?_⟩
  · intro id hid
    rw [htasks, if_neg hid]
  · intro d holder _
    rw [Controller.holder, Controller.holder, hleases]
  · intro id _ hmem
    rwa [hqueue]
  · intro v hv _
    rwa [hverifying]
  · intro v hv
    left
    rwa [hverifying] at hv

theorem Same.holder (h : Same c c') (d : Str) :
  c'.holder d = c.holder d
  := by
  rw [Controller.holder, Controller.holder, h.leases]

theorem Stored.holder (h : Stored c e s c') (d : Str) :
  c'.holder d = c.holder d
  := h.same.holder d

theorem Stored.task {k : Str} (h : Stored c e s c')
    (hk : s.taskId = k) :
  ∃ seq, c'.journal.task k = some { s with updatedSeq := seq }
  := by
  obtain ⟨seq, htasks⟩ := h.tasks
  refine ⟨seq, ?_⟩
  rw [htasks, if_pos hk.symm]

/-- The memory of the controller has to say the same of both states. -/
structure Alike (s s' : TaskState) : Prop where
  taskId : s'.taskId = s.taskId
  active : s'.status.isActiveLease = s.status.isActiveLease
  lease : s.status.isActiveLease = true → s'.dispatchId = s.dispatchId ∧ s'.workerId = s.workerId
  ttl : s'.leaseTtlS = s.leaseTtlS
  verifying : s'.status = .verifying → s.status = .verifying ∧ s'.dispatchId = s.dispatchId ∧
    s'.pendingResultId = s.pendingResultId
  decided : s.Decided → s'.Decided

variable {s' : TaskState}

theorem Consistent.alike (h : Consistent L P Q X c)
    (hs : c.journal.task s.taskId = some s) (hstored : Stored c e s' c') (halike : Alike s s') :
  Consistent L P Q X c'
  := by
  obtain ⟨hid, hactive, hlease, httl, hverifying, hdecided⟩ := halike
  obtain ⟨seq, hs'⟩ := hstored.task hid
  have hsame := hstored.same
  have hframe : Frame s.taskId c c' := hid ▸ hstored.frame
  apply (h.change hframe hstored.written ?_ ?_).keep
  · intro hX hP hcalm t ht
    cases hs'.symm.trans ht
    rw [hstored.raised] at hcalm
    obtain ⟨hleased, hqueued⟩ := h.attended hP hcalm _ s hX hs
    constructor
    · intro hactive'
      obtain ⟨d, holder, hd, hholder, htask⟩ := hleased (by rwa [← hactive])
      refine ⟨d, holder, ?_, by rwa [hstored.holder], htask.trans hid.symm⟩
      rw [← hd]
      exact (hlease (by rwa [← hactive])).1
    · intro hstopped hstatus
      obtain ⟨hstatus', hd, hr⟩ := hverifying hstatus
      show s'.taskId ∈ c'.verifyQueue ∨ ∃ v ∈ c'.verifying, v.task.taskId = s'.taskId ∧
        v.task.dispatchId = s'.dispatchId ∧ v.task.pendingResultId = s'.pendingResultId
      rw [hsame.verifyQueue, hsame.verifying, hid, hd, hr]
      exact hqueued (hsame.stopping ▸ hstopped) hstatus'
  · intro hX hQ hquiet t ht
    cases hs'.symm.trans ht
    rw [hstored.raised] at hquiet
    exact hdecided (h.decided hQ hquiet _ s hX hs)
  · rw [hstored.raised]
    exact h.legal
  · intro d holder hk hholder
    rw [hstored.holder] at hholder
    obtain ⟨hdispatch, t, ht, htactive, htd, htw, httl'⟩ := h.leased d holder hholder
    rw [hk] at ht
    cases hs.symm.trans ht
    refine ⟨hdispatch, _, by rwa [hk], by rwa [← hactive] at htactive, ?_, ?_, ?_⟩
    · rw [← htd]
      exact (hlease htactive).1
    · rw [← htw]
      exact (hlease htactive).2
    · rw [← httl']
      exact httl

theorem Consistent.permit {L' : EventType → Prop} (h : Consistent L P Q X c)
    (hL : ∀ type, L type → L' type) :
  Consistent L' P Q X c
  := by
  refine ⟨h.written, ?_, h.leased, h.reports, h.attended, h.decided⟩
  intro x hx hrefusal
  obtain ⟨htype, hconflict⟩ := h.legal x hx hrefusal
  exact ⟨hL _ htype, hconflict⟩

theorem Consistent.mono {Y : Str → Prop} (h : Consistent L P Q X c) (hXY : ∀ id, X id → Y id) :
  Consistent L P Q Y c
  := by
  refine ⟨h.written, h.legal, h.leased, h.reports, ?_, ?_⟩
  · intro hP hcalm id s hY
    exact h.attended hP hcalm id s (fun hX => hY (hXY id hX))
  · intro hQ hquiet id s hY
    exact h.decided hQ hquiet id s (fun hX => hY (hXY id hX))

/-- Nobody has to act on the task. -/
structure TaskState.Idle (s : TaskState) : Prop where
  inactive : s.status.isActiveLease = false
  settled : s.status ≠ .verifying

theorem attended_of_idle (h : s.Idle) :
  Attended P c s
  := by
  constructor
  · intro hactive
    rw [h.inactive] at hactive
    cases hactive
  · intro _ hstatus
    exact absurd hstatus h.settled

theorem Consistent.finished
    (h : Consistent L P Q (fun id => X id ∨ id = s.taskId) c)
    (hs : c.journal.task s.taskId = some s) (hinactive : s.status.isActiveLease = false)
    (hstored : Stored c e s' c') (hid : s'.taskId = s.taskId) (hidle : s'.Idle)
    (hdecided : s'.Decided) :
  Consistent L P Q X c'
  := by
  have hframe : Frame s.taskId c c' := hid ▸ hstored.frame
  obtain ⟨seq, hs'⟩ := hstored.task hid
  have hchange := h.change hframe hstored.written (by
    rw [hstored.raised]
    exact h.legal) (by
    intro d holder hk hholder
    rw [hstored.holder] at hholder
    exact absurd hk (h.unleased hs hinactive hholder))
  apply (hchange.mono (Y := fun id => X id ∨ id = s.taskId) ?_).keep
  · intro _ _ _ t ht
    cases hs'.symm.trans ht
    exact attended_of_idle ⟨hidle.1, hidle.2⟩
  · intro _ _ _ t ht
    cases hs'.symm.trans ht
    exact hdecided
  · rintro id (hX | rfl)
    · exact hX
    · exact .inr rfl

def EventType.finishes (type : EventType) : Prop :=
  type ∈ [EventType.taskComplete, .taskRetryScheduled, .taskFailed, .taskBlocked, .taskCancelled]

theorem Consistent.abandoned
    (h : Consistent L P Q (fun id => X id ∨ id = s.taskId) c)
    (hs : c.journal.task s.taskId = some s) (hidle : s.Idle) (htype : type.finishes)
    (hfailed : Failed c type why c') (hwhy : why.isFault = true) :
  Consistent L P Q X c'
  := by
  apply (h.failed hfailed hwhy).keep
  · intro _ _ _ t ht
    rw [hfailed.journal] at ht
    cases hs.symm.trans ht
    exact attended_of_idle hidle
  · intro _ _ hquiet
    rw [hfailed.raised] at hquiet
    exact absurd htype (hquiet (type, why) (by simp))

theorem Consistent.created {state : Option TaskState} {id : Str}
    (h : Consistent L P Q X c) (hunknown : c.journal.task id = none) (hid : e.taskId = some id)
    (htype : e.type = .taskCreated) (hsame : Same c c') (hraised : c'.raised = c.raised)
    (hwritten : Written c'.journal) (hextends : c.journal.Extends e state c'.journal) :
  Consistent L P Q X c'
  := by
  obtain ⟨⟨seq, prevHash, hash, hevents, hstate, -⟩, htasks⟩ := hextends
  have hnew : c'.journal.task id = some (Courier.created (e.place seq prevHash hash)) := by
    rw [htasks, hid, if_pos rfl, hstate htype]
  have hframe : Frame id c c' := by
    refine ⟨hsame.stopping, ⟨[], by rw [hraised, List.append_nil]⟩, ⟨_, hevents⟩, ?_, ?_, ?_, ?_,
      ?_⟩
    · intro i hi
      rw [htasks, hid, if_neg (by simpa using Ne.symm hi)]
    · intro d holder _
      rw [hsame.holder]
    · intro i _ hmem
      rwa [hsame.verifyQueue]
    · intro v hv _
      rwa [hsame.verifying]
    · intro v hv
      left
      rwa [hsame.verifying] at hv
  apply (h.change hframe hwritten (by rw [hraised]; exact h.legal) ?_).keep
  · intro _ _ _ t ht
    cases hnew.symm.trans ht
    exact attended_of_idle ⟨rfl, by simp [Courier.created]⟩
  · intro _ _ _ t ht
    cases hnew.symm.trans ht
    simp [TaskState.Decided, Courier.created]
  · intro d holder hk hholder
    rw [hsame.holder] at hholder
    obtain ⟨-, t, ht, -⟩ := h.leased d holder hholder
    rw [hk, hunknown] at ht
    cases ht

/-! ### Rules -/

/-- The answers that blame the request. -/
def Exc.isClient : Exc → Bool
  | .api answer => 400 ≤ answer.status && answer.status < 500
  | _ => false

structure Untouched (c c' : Controller) : Prop where
  journal : c'.journal = c.journal
  leases : c'.leases = c.leases
  verifyQueue : c'.verifyQueue = c.verifyQueue

/-- What a request that raises leaves: the invariant, and nothing else if it is to blame. -/
structure Raises (L : EventType → Prop) (P : Bool → Prop) (Q : Prop) (X : Str → Prop) (c : Controller) (why : Exc)
    (c' : Controller) : Prop where
  answer : why.isRefusal = false
  consistent : Consistent L P Q X c'
  untouched : why.isClient = true → Untouched c c'

omit [Platform] in
theorem Exc.not_client_of_fault (h : why.isFault = true) :
  why.isClient = false
  := by
  cases why <;> first | rfl | cases h

theorem Raises.of_fault {c₀ : Controller} (h : Consistent L P Q X c)
    (hwhy : why.isFault = true) :
  Raises L P Q X c₀ why c
  := by
  refine ⟨Exc.not_refusal_of_fault hwhy, h, ?_⟩
  intro hclient
  rw [Exc.not_client_of_fault hwhy] at hclient
  cases hclient

theorem Raises.at_once (h : Consistent L P Q X c) (hwhy : why.isRefusal = false) :
  Raises L P Q X c why c
  := ⟨hwhy, h, fun _ => ⟨rfl, rfl, rfl⟩⟩

namespace Controller

theorem wp_record_system {d : Draft} (h : Consistent L P Q X c) (hproper : d.Proper)
    (hsystem : d.type.isSystem = true) (hkey : d.dedupeKey = none) (hid : d.taskId = none) :
  wp (record d) (fun _ c' => Consistent L P Q X c' ∧
      (∀ id, c'.journal.task id = c.journal.task id) ∧ Same c c')
    (fun why c' => why.isFault = true ∧ Consistent L P Q X c') c
  := by
  simp only [record, wp_bind, wp_noting]
  apply wp_mono (wp_newEvent hproper)
  · rintro e _ ⟨he, draws, rfl⟩
    have h₁ : Consistent L P Q X { c with draws := draws } :=
      h.congr rfl rfl rfl (fun _ => rfl) rfl rfl
    apply wp_mono (wp_append_clear h₁.written (clear_of_system he hsystem hkey))
    · rintro r c' ⟨-, -, hsame, hraised, hwritten, ⟨⟨seq, prevHash, hash, hevents, -⟩, htasks⟩⟩
      have htasks' : ∀ id, c'.journal.task id = c.journal.task id := by
        intro id
        rw [htasks, he.taskId, hid, if_neg (by simp)]
      exact ⟨h₁.grow hwritten ⟨_, hevents⟩ htasks' hsame hraised, htasks', hsame.redrawn⟩
    · rintro why c' ⟨hwhy, hfailed⟩
      exact ⟨hwhy, h₁.failed hfailed hwhy⟩
  · rintro why _ ⟨hwhy, draws, rfl⟩
    exact ⟨hwhy, h.failed (failed_of_raise draws d.type why) hwhy⟩

theorem wp_record_alike {d : Draft} {p : Event → TaskState → Prop}
    (h : Consistent L P Q X c) (hs : c.journal.task s.taskId = some s) (hproper : d.Proper)
    (hfits : ∀ e, Drafted d e → ∃ s', Fits c.journal e s s' ∧ Alike s s' ∧ p e s') :
  wp (record d) (fun r c' => Consistent L P Q X c' ∧ r.duplicate = false ∧
      r.event ∈ c'.journal.events ∧
      ∃ e s', Drafted d e ∧ s'.taskId = s.taskId ∧ p e s' ∧ Stored c e s' c')
    (fun why c' => why.isFault = true ∧ Consistent L P Q X c') c
  := by
  apply wp_mono (wp_record (p := fun e s' => Alike s s' ∧ p e s') h.written hproper hfits)
  · rintro r c' ⟨hr, hmem, e, s', he, hid, ⟨halike, hp⟩, hstored⟩
    exact ⟨h.alike hs hstored halike, hr, hmem, e, s', he, hid, hp, hstored⟩
  · rintro why c' ⟨hwhy, hfailed⟩
    exact ⟨hwhy, h.failed hfailed hwhy⟩

theorem wp_append_alike (h : Consistent L P Q X c)
    (hfits : Fits c.journal e s s') (halike : Alike s s') :
  wp (append e) (fun _ c' => Consistent L P Q X c' ∧ Stored c e s' c')
    (fun why c' => why.isFault = true ∧ Consistent L P Q X c') c
  := by
  apply wp_mono (wp_append h.written hfits)
  · rintro r c' ⟨-, -, hstored⟩
    exact ⟨h.alike hfits.known hstored halike, hstored⟩
  · rintro why c' ⟨hwhy, hfailed⟩
    exact ⟨hwhy, h.failed hfailed hwhy⟩

theorem wp_record_finish {d : Draft} {p : Event → TaskState → Prop}
    (h : Consistent L P Q (fun id => X id ∨ id = s.taskId) c)
    (hs : c.journal.task s.taskId = some s) (hidle : s.Idle) (hproper : d.Proper)
    (htype : d.type.finishes)
    (hfits : ∀ e, Drafted d e → ∃ s', Fits c.journal e s s' ∧ s'.Idle ∧ s'.Decided ∧ p e s') :
  wp (record d) (fun _ c' => Consistent L P Q X c' ∧
      ∃ e s', Drafted d e ∧ s'.taskId = s.taskId ∧ p e s' ∧ Stored c e s' c')
    (fun why c' => why.isFault = true ∧ Consistent L P Q X c') c
  := by
  apply wp_mono (wp_record (p := fun e s' => s'.Idle ∧ s'.Decided ∧ p e s') h.written hproper hfits)
  · rintro r c' ⟨-, -, e, s', he, hid, ⟨hidle', hdecided, hp⟩, hstored⟩
    exact ⟨h.finished hs hidle.inactive hstored hid hidle' hdecided, e, s', he, hid, hp, hstored⟩
  · rintro why c' ⟨hwhy, hfailed⟩
    exact ⟨hwhy, h.abandoned hs hidle htype hfailed hwhy⟩

end Controller

end Invariant

end Courier
