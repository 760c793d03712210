import Courier.Controller.Runs

/-!
# The leases mirror the journal

Without failures the leases are those of the active tasks, every result that waits gets a verdict, and no task rests
between two events that belong together.  A failure strands a task only where an attempt is ended or a result is
settled, since the task is forgotten before that is journaled.
-/

namespace Courier

open Program Run Text

section Runs

variable [Platform] {c : Controller} {request : Request}

/-! ### Nothing is stranded -/

def Attentive (c : Controller) (request : Request) (c' : Controller) : Prop :=
  Calm c'.raised ∧ request.Ready (fun _ => True) c

/-- The ticker or the verifier of this process will still act on the task. -/
structure Followed (c : Controller) (s : TaskState) : Prop where
  leased : s.status.isActiveLease = true →
    ∃ d lease, s.dispatchId = some d ∧ c.leases.get? d = some lease ∧ lease.taskId = s.taskId
  queued : s.status = .verifying → s.taskId ∈ c.verifyQueue ∨
    ∃ v ∈ c.verifying, v.task.taskId = s.taskId ∧ v.task.dispatchId = s.dispatchId ∧
      v.task.pendingResultId = s.pendingResultId

theorem Attended.leased_lease {P : Bool → Prop} {s : TaskState} (h : Attended P c s)
    (hactive : s.status.isActiveLease = true) :
  ∃ d lease, s.dispatchId = some d ∧ c.leases.get? d = some lease ∧ lease.taskId = s.taskId
  := by
  obtain ⟨d, holder, hd, hholder, htask⟩ := h.leased hactive
  obtain ⟨lease, hlease, rfl⟩ := Option.map_eq_some_iff.mp hholder
  exact ⟨d, lease, hd, hlease, htask⟩

theorem sound_of_attentive (h : Controller.Reached Attentive c) :
  Sound (fun _ => True) False c
  := by
  apply h.invariant
  · intro c hnew
    exact sound_new hnew
  · rintro c _ hsound ⟨request, hfresh, rfl, hcalm, hready⟩
    exact hsound.step hfresh hready (fun _ => hcalm) (by rintro ⟨⟩)

/-- In every run whose steps are attentive no task is stranded. -/
theorem followed_of_attentive {c : Controller} {id : Str} {s : TaskState}
    (hreached : Controller.Reached Attentive c) (hmode : c.mode = .normal)
    (hs : c.journal.task id = some s) :
  Followed c s
  := by
  have hconsistent := (sound_of_attentive hreached).consistent hmode
  have hattended := hconsistent.attended trivial (by simp [Calm]) id s (by simp) hs
  exact ⟨hattended.leased_lease, hattended.queued trivial⟩

/-! ### The leases are those of the active tasks -/

def Faultless (c : Controller) (request : Request) (c' : Controller) : Prop :=
  (∀ x ∈ c'.raised, x.2.isRefusal = true) ∧ request.Ready (fun stopping => stopping = false) c

structure Mirrors (c : Controller) : Prop where
  leases : ∀ d, (∃ lease, c.leases.get? d = some lease) ↔
    ∃ id s, c.journal.task id = some s ∧ s.status.isActiveLease = true ∧ s.dispatchId = some d
  carries : ∀ d lease, c.leases.get? d = some lease →
    ∃ s, c.journal.task lease.taskId = some s ∧ s.status.isActiveLease = true ∧
      s.dispatchId = some d ∧ lease.dispatchId = d ∧ s.workerId = some lease.workerId ∧
      s.leaseTtlS = lease.ttlS
  verifying : c.stopping = false → ∀ id s, c.journal.task id = some s → s.status = .verifying →
    id ∈ c.verifyQueue ∨ ∃ v ∈ c.verifying, v.task.taskId = id ∧
      v.task.dispatchId = s.dispatchId ∧ v.task.pendingResultId = s.pendingResultId
  decided : ∀ id s, c.journal.task id = some s → s.status ≠ .accepted ∧ s.status ≠ .retryPending

theorem sound_of_faultless (h : Controller.Reached Faultless c) :
  Sound (fun stopping => stopping = false) True c
  := by
  apply h.invariant
  · intro c hnew
    exact sound_new hnew
  · rintro c _ hsound ⟨request, hfresh, rfl, hrefused, hready⟩
    have hlegal := (outcome_step hsound hfresh hready).legal
    apply hsound.step hfresh hready
    · rintro - x hx
      obtain ⟨-, why, -, hpermitted⟩ := hlegal x hx (hrefused x hx)
      generalize x.1 = type at hpermitted
      cases hpermitted <;> simp
    · rintro - x hx
      obtain ⟨-, why, -, hpermitted⟩ := hlegal x hx (hrefused x hx)
      generalize x.1 = type at hpermitted
      cases hpermitted <;> simp

/-- In every run without failures the leases mirror the journal. -/
theorem mirrors_of_faultless {c : Controller} (hreached : Controller.Reached Faultless c)
    (hmode : c.mode = .normal) :
  Mirrors c
  := by
  have hconsistent := (sound_of_faultless hreached).consistent hmode
  have hattended := hconsistent.attended rfl (by simp [Calm])
  have hcarries : ∀ d lease, c.leases.get? d = some lease → Leased c.journal d lease.holder := by
    intro d lease hlease
    exact hconsistent.leased_of_held hlease
  refine ⟨?_, ?_, ?_, ?_⟩
  · intro d
    constructor
    · rintro ⟨lease, hlease⟩
      obtain ⟨-, s, hs, hactive, hd, -⟩ := hcarries d lease hlease
      exact ⟨_, s, hs, hactive, hd⟩
    · rintro ⟨id, s, hs, hactive, hd⟩
      obtain ⟨d', lease, hd', hlease, -⟩ := (hattended id s (by simp) hs).leased_lease hactive
      obtain rfl := Option.some.inj (hd'.symm.trans hd)
      exact ⟨lease, hlease⟩
  · intro d lease hlease
    obtain ⟨hdispatch, s, hs, hactive, hd, hworker, httl⟩ := hcarries d lease hlease
    exact ⟨s, hs, hactive, hd, hdispatch, hworker, httl⟩
  · intro hstopping id s hs hstatus
    obtain rfl := Journal.taskId_of_task hs
    exact (hattended _ s (by simp) hs).queued hstopping hstatus
  · intro id s hs
    exact hconsistent.decided trivial (by simp [Quiet]) id s (by simp) hs

end Runs

section Example

local instance leasesPlatform : Platform := Platform.plain

def silentRequests : List Request :=
  [.boot 1 plainBuild 0, .createTask echoBody (numberedUuid 0) false,
    .claim (.obj [(text "worker_id", .str (text "w"))]) (numberedUuid 1) 0 false]

/-- The worker reports a result, whose verification is begun. -/
def reportedRequests : List Request :=
  silentRequests ++ [
    .start (.obj [(text "dispatch_id", .str (Controller.newDispatchId (numberedUuid 1)))]) false,
    .result (.obj [(text "artifacts", .arr []),
      (text "dispatch_id", .str (Controller.newDispatchId (numberedUuid 1))),
      (text "outcome", .str (text "success")), (text "result_id", .str (text "r"))]) false,
    .verifyTake false]

instance decidableAttentive (c : Controller) (request : Request) (c' : Controller) :
    Decidable (Attentive c request c') :=
  have : Decidable (request.Ready (fun _ => True) c) := by
    cases request <;> unfold Request.Ready <;> infer_instance
  inferInstanceAs (Decidable ((∀ x ∈ c'.raised, x.1 ∉ [EventType.leaseExpired, .resultAccepted,
    .resultRejected]) ∧ _))

instance decidableFaultless (c : Controller) (request : Request) (c' : Controller) :
    Decidable (Faultless c request c') :=
  have : Decidable (request.Ready (fun stopping => stopping = false) c) := by
    cases request <;> unfold Request.Ready <;> infer_instance
  inferInstanceAs (Decidable (_ ∧ _))

theorem exists_task {c : Controller} {status : TaskStatus}
    (h : c.journal.tasks.values.any (fun s => s.status = status) = true) :
  ∃ id s, c.journal.task id = some s ∧ s.status = status
  := by
  obtain ⟨s, hs, hstatus⟩ := List.any_eq_true.mp h
  obtain ⟨id, hs⟩ := Dict.mem_values.mp hs
  exact ⟨id, s, hs, by simpa using hstatus⟩

def silent : Controller :=
  (freshFailing fun _ => false).run silentRequests

theorem followed_silent :
  ∃ s, silent.journal.task (text "task-" ++ (numberedUuid 0).hex) = some s ∧
    s.status = .claimed ∧ Followed silent s
  := by
  have hrun : (freshFailing fun _ => false).Admits Attentive silentRequests ∧
      silent.mode = .normal ∧ (silent.journal.task (text "task-" ++ (numberedUuid 0).hex)).any
        (fun s => s.status = .claimed) = true := by
    decide +kernel
  obtain ⟨hadmits, hmode, hstatus⟩ := hrun
  obtain ⟨s, hs, hstatus⟩ := (Option.any_eq_true _ _).mp hstatus
  exact ⟨s, hs, by simpa using hstatus,
    followed_of_attentive (reached_of_admits hadmits) hmode hs⟩

def abandoned : Controller :=
  (freshFailing (· = 7)).run (silentRequests ++ [.tick 100 false])

/-- A failure to journal that a lease has expired strands the task: it stays claimed, and there
is no lease any more to expire. -/
theorem not_followed :
  ∃ c id s, Controller.Reached (fun _ _ _ => True) c ∧ c.mode = .normal ∧
    c.journal.task id = some s ∧ ¬ Followed c s
  := by
  have hrun : (freshFailing (· = 7)).Admits (fun _ _ _ => True)
        (silentRequests ++ [.tick 100 false]) ∧
      abandoned.mode = .normal ∧ abandoned.leases.entries = [] ∧
      abandoned.journal.tasks.values.any (fun s => s.status = .claimed) = true := by
    decide +kernel
  obtain ⟨hadmits, hmode, hleases, hclaimed⟩ := hrun
  obtain ⟨id, s, hs, hstatus⟩ := exists_task hclaimed
  refine ⟨abandoned, id, s, reached_of_admits hadmits, hmode, hs, ?_⟩
  intro h
  obtain ⟨d, lease, -, hlease, -⟩ := h.leased (by rw [hstatus]; rfl)
  rw [Dict.get?, hleases] at hlease
  cases hlease

def reported : Controller :=
  (freshFailing fun _ => false).run reportedRequests

/-- The leases mirror the journal while a result is verified. -/
theorem mirrors_reported :
  Mirrors reported
  := by
  have hrun : (freshFailing fun _ => false).Admits Faultless reportedRequests ∧
      reported.mode = .normal := by
    decide +kernel
  exact mirrors_of_faultless (reached_of_admits hrun.1) hrun.2

def overtaken : Controller :=
  (freshFailing fun _ => false).run
    (reportedRequests ++ [.stop 1 false, .verifyDecide 0 .missing false])

/-- A stop that overtakes a verification leaves a result that waits for a verdict outside the
queue, without any failure. -/
theorem not_queued :
  ∃ c id s, Controller.Reached Faultless c ∧ c.mode = .normal ∧ c.verifying = [] ∧
    c.journal.task id = some s ∧ s.status = .verifying ∧ id ∉ c.verifyQueue
  := by
  have hrun : (freshFailing fun _ => false).Admits Faultless
        (reportedRequests ++ [.stop 1 false, .verifyDecide 0 .missing false]) ∧
      overtaken.mode = .normal ∧ overtaken.verifyQueue = [] ∧ overtaken.verifying.length = 0 ∧
      overtaken.journal.tasks.values.any (fun s => s.status = .verifying) = true := by
    decide +kernel
  obtain ⟨hadmits, hmode, hqueue, hverifying, htask⟩ := hrun
  obtain ⟨id, s, hs, hstatus⟩ := exists_task htask
  refine ⟨overtaken, id, s, reached_of_admits hadmits, hmode,
    List.length_eq_zero_iff.mp hverifying, hs, hstatus, ?_⟩
  simp [hqueue]

end Example

end Courier
