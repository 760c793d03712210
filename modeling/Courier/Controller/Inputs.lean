import Courier.Controller.Leases

/-!
# The inputs of dependent tasks

A task that depends on another is claimed only when the other is verified, and is given the
artifacts of the very result that was accepted.  Since that result is the only one, every
attempt is given the same; a task whose dependency ends otherwise is never claimed.
-/

namespace Courier

open Except Run Text

section Journals

variable [Platform]

/-! ### What does not change -/

variable {s s' : TaskState} {e : Event}

theorem Step.dependsOn_eq (step : Step s e s') :
  s'.dependsOn = s.dependsOn
  := by
  cases step <;> rfl

theorem Step.createdSeq_eq (step : Step s e s') :
  s'.createdSeq = s.createdSeq
  := by
  cases step <;> rfl

theorem Step.ended {s s' : TaskState} {e : Event} (step : Step s e s')
    (h : s.status.isTerminal = true) :
  s'.status = s.status ∧ s'.resolution = s.resolution
  := by
  by_cases htype : e.type = .lateResultDiscarded
  · cases step with
    | lateResult => exact ⟨rfl, rfl⟩
    | _ type => simp [type] at htype
  · simp [step.not_terminal htype] at h

variable {events : List Event}

theorem kept_of_run {α : Type} {f : TaskState → α} {p : TaskState → Prop}
    (hstep : ∀ s e s', p s → Step s e s' → p s' ∧ f s' = f s)
    (hseq : ∀ s seq, p s → p { s with updatedSeq := seq } ∧ f { s with updatedSeq := seq } = f s)
    {state : Option TaskState} (hs : p s)
    (hrun : Accepts apply (some s) events state) :
  ∃ s', state = some s' ∧ p s' ∧ f s' = f s
  := by
  refine Accepts.invariant (p := fun _ => True)
    (I := fun state => ∃ s', state = some s' ∧ p s' ∧ f s' = f s) ?_ ⟨s, rfl, hs, rfl⟩ (by simp)
    hrun
  rintro _ e t ⟨s', rfl, hp, hf⟩ - ht
  cases apply_iff.mp ht with
  | system => exact ⟨s', rfl, hp, hf⟩
  | step _ _ _ step =>
    obtain ⟨hp', hf'⟩ := hstep _ _ _ hp step
    obtain ⟨hp'', hf''⟩ := hseq _ e.seq hp'
    exact ⟨_, rfl, hp'', hf''.trans (hf'.trans hf)⟩

theorem creation_of_run {state : Option TaskState}
    (hsystem : ∀ e ∈ events, e.type.isSystem = false) (hrun : Accepts apply none events state) :
  ∀ s, state = some s → ∀ c ∈ events, c.type = .taskCreated →
    s.dependsOn = (created c).dependsOn ∧ s.createdSeq = c.seq
  := by
  refine history_of_run (I := fun events s => ∀ c ∈ events, c.type = .taskCreated →
    s.dependsOn = (created c).dependsOn ∧ s.createdSeq = c.seq) ?_ ?_ hsystem hrun
  · intro e _ c hc _
    obtain rfl := List.mem_singleton.mp hc
    exact ⟨rfl, rfl⟩
  · intro before s e s' ih _ step c hc hcreated
    rcases List.mem_append.mp hc with hc | hc
    · obtain ⟨hdepends, hseq⟩ := ih c hc hcreated
      exact ⟨step.dependsOn_eq.trans hdepends, step.createdSeq_eq.trans hseq⟩
    · obtain rfl := List.mem_singleton.mp hc
      exact absurd hcreated step.type_of.2

/-! ### Claims of dependent tasks -/

/-- The input is the verified result of the task `d` at a point of the journal: the references
of the only result that was accepted of it. -/
def SuppliedBy (j : Journal) (before : List Event) (d : Str) (input : Json) : Prop :=
  ∃ tasks dep, fold before = .ok tasks ∧ tasks.get? d = some dep ∧ dep.status = .complete ∧
    dep.resolution = some .verified ∧
  ∃ accepted ready : Event,
    (accepted ∈ before ∧ accepted.type = .resultAccepted ∧ accepted.taskId = some d ∧
      ∀ x ∈ j.events, x.type = .resultAccepted → x.taskId = some d → x = accepted) ∧
    (ready ∈ before ∧ ready.type = .resultReady ∧ ready.dispatchId = accepted.dispatchId ∧
      ready.resultId = accepted.resultId ∧ ∀ x ∈ j.events, x.type = .resultReady →
        x.dispatchId = accepted.dispatchId → x.resultId = accepted.resultId → x = ready) ∧
    input = .obj [(text "artifacts", .arr (Controller.artifactRefs ready.toEventFields)),
      (text "dispatch_id", Event.optionJson accepted.dispatchId),
      (text "result_id", Event.optionJson accepted.resultId), (text "task_id", .str d)]

structure InputsVerified (j : Journal) : Prop where
  /-- The claim of a dependent task is given the verified result of its dependency. -/
  supplied : ∀ {before e after creation} (d : Str), j.events = before ++ e :: after →
    e.type = .taskClaimed → creation ∈ j.events → creation.type = .taskCreated →
    creation.taskId = e.taskId → creation.get (text "depends_on") = .str d →
    SuppliedBy j before d (e.get (text "input"))
  /-- All claims of a task are given the same. -/
  same : ∀ {e f : Event}, e ∈ j.events → f ∈ j.events → e.type = .taskClaimed →
    f.type = .taskClaimed → e.taskId = f.taskId → e.get (text "input") = f.get (text "input")
  /-- A task whose dependency ends without a verified result is never claimed. -/
  never : ∀ {before after tasks dep creation} {e : Event} (d : Str), j.events = before ++ after →
    fold before = .ok tasks → tasks.get? d = some dep → dep.status.isTerminal = true →
    ¬ (dep.status = .complete ∧ dep.resolution = some .verified) → creation ∈ j.events →
    creation.type = .taskCreated → creation.get (text "depends_on") = .str d → e ∈ j.events →
    e.taskId = creation.taskId → e.type ≠ .taskClaimed

namespace Journal

variable {j : Journal}

theorem step_of_event {before after : List Event}
    (hsplit : j.events = before ++ e :: after) (hsystem : e.type.isSystem = false)
    (hcreated : e.type ≠ .taskCreated) :
  ∃ tasks s s', fold before = .ok tasks ∧ tasks.get? e.task = some s ∧
    e.taskId = some s.taskId ∧ Step s e s'
  := by
  have hrun := j.replayed
  rw [hsplit] at hrun
  obtain ⟨t, u, ht, hu, -⟩ := accepts_split.mp hrun
  obtain ⟨new, happly, -⟩ := (foldEvent_eq_ok hsystem).mp hu
  generalize hold : t.get? e.task = old at happly
  generalize hnew : some new = state at happly
  cases apply_iff.mp happly with
  | system type => simp [hsystem] at type
  | created type => exact absurd type hcreated
  | step _ _ task step => exact ⟨t, _, _, ht, hold, task, step⟩

end Journal

theorem evidence_of_verified
    (hrun : Accepts apply none events (some s)) (hverified : s.verified = true) :
  Evidence s.taskId s.attempt s.dispatchId s.workerId s.acceptedResultId completionTypes events
  := by
  simp only [TaskState.verified, Bool.and_eq_true, decide_eq_true_eq] at hverified
  obtain ⟨hstatus, hresolution⟩ := hverified
  have hbacked := backed_of_run hrun s rfl
  have hstage : s.stage = completionTypes := by simp [TaskState.stage, hstatus, hresolution]
  have hresult : s.namedResult = s.acceptedResultId := by simp [TaskState.namedResult, hstatus]
  rwa [Backed, hstage, hresult] at hbacked

namespace Written

variable {j : Journal}

theorem suppliedBy (h : Written j) {before after : List Event} {d : Str}
    (hsplit : j.events = before ++ e :: after) (hsourced : Sourced before d e.toEventFields) :
  SuppliedBy j before d (e.get (text "input"))
  := by
  obtain ⟨dep, hrun, hverified, ready, hready, hrtype, hrdispatch, hrid, -, hinput⟩ := hsourced
  have hmem : ∀ {x : Event}, x ∈ before → x ∈ j.events := by
    intro x hx
    rw [hsplit]
    exact List.mem_append_left _ hx
  have hreplay := j.replayed
  rw [hsplit] at hreplay
  obtain ⟨tasks, -, hfold, -⟩ := accepts_split.mp hreplay
  have hdep : tasks.get? d = some dep := (run_of_fold_empty hfold d).unique hrun
  have hid : dep.taskId = d := (wellFormed_fold hfold d dep hdep).1
  obtain ⟨accepted, haccepted, hatype, hbelongs⟩ :=
    (evidence_of_verified hrun hverified).exists_of_mem .resultAccepted (by decide)
  have haresult : accepted.resultId = dep.acceptedResultId := hbelongs.result_eq (by simp [hatype])
  have hadispatch := hbelongs.dispatch_eq
  have hatask : accepted.taskId = some d := by rw [hbelongs.task, hid]
  obtain ⟨hamem, -⟩ := List.mem_filter.mp haccepted
  simp only [TaskState.verified, Bool.and_eq_true, decide_eq_true_eq] at hverified
  refine ⟨tasks, dep, hfold, hdep, hverified.1, hverified.2, accepted, ready,
    ⟨hamem, hatype, hatask, ?_⟩, ⟨hready, hrtype, by rw [hrdispatch, hadispatch],
      by rw [hrid, haresult], ?_⟩, ?_⟩
  · intro x hx hxtype hxtask
    apply h.unique_of_default hx (hmem hamem) (by rw [hxtype, hatype]) (by simp [hatype])
    · rw [hxtype, hxtask]
      rfl
    · rw [hatype, hatask]
      rfl
  · intro x hx hxtype hxdispatch hxid
    apply h.unique_of_default hx (hmem hready) (by rw [hxtype, hrtype]) (by simp [hrtype])
    · rw [hxtype, hxdispatch, hxid]
      rfl
    · rw [hrtype, hrdispatch, hrid, hadispatch, haresult]
      rfl
  · rw [hinput, hadispatch, haresult, ← hid]
    rfl

theorem input_of_claim (h : Written j) (he : e ∈ j.events)
    (htype : e.type = .taskClaimed) (hs : j.task e.task = some s) :
  (s.dependsOn = none → e.get (text "input") = .null) ∧
    ∀ before after, j.events = before ++ e :: after → ∀ d, s.dependsOn = some d →
      SuppliedBy j before d (e.get (text "input"))
  := by
  have hkept : ∀ {before after : List Event}, j.events = before ++ e :: after →
      ∃ t t', Accepts apply none (eventsOf e.task before) (some t) ∧ Step t e t' ∧
        s.dependsOn = t.dependsOn := by
    intro before after hsplit
    obtain ⟨tasks, t, t', hfold, ht, htask, step⟩ := Journal.step_of_event hsplit
      (by rw [htype]; rfl) (by simp [htype])
    have hrun := run_of_fold_empty hfold e.task
    rw [ht] at hrun
    have hall := j.run_of_task e.task
    rw [hsplit, eventsOf, List.filter_append, hs] at hall
    obtain ⟨u, hu, hrest⟩ := accepts_append.mp hall
    obtain rfl := hu.unique hrun
    obtain ⟨s', hs', -, hdepends⟩ := kept_of_run (f := TaskState.dependsOn) (p := fun _ => True)
      (fun _ _ _ _ step => ⟨trivial, step.dependsOn_eq⟩) (fun _ _ _ => ⟨trivial, rfl⟩) trivial
      hrest
    cases hs'
    exact ⟨t, t', hrun, step, hdepends⟩
  constructor
  · intro hnone
    obtain ⟨before, after, hsplit⟩ := List.append_of_mem he
    obtain ⟨t, t', -, step, hdepends⟩ := hkept hsplit
    rw [hnone] at hdepends
    cases step with
    | claimed _ _ _ _ _ bound =>
      unfold Bound at bound
      rwa [← hdepends] at bound
    | _ type => simp [type] at htype
  · intro before after hsplit d hd
    obtain ⟨t, t', hrun, -, hdepends⟩ := hkept hsplit
    exact h.suppliedBy hsplit (h.sourced before e after t d hsplit htype hrun
      (hdepends.symm.trans hd))

end Written

variable {d : Str}

theorem SuppliedBy.unique {j : Journal} {before before' : List Event}
    {input input' : Json} (h : SuppliedBy j before d input) (h' : SuppliedBy j before' d input')
    (hmem : ∀ x ∈ before, x ∈ j.events) :
  input = input'
  := by
  obtain ⟨-, -, -, -, -, -, accepted, ready, ⟨hamem, hatype, hatask, -⟩,
    ⟨hrmem, hrtype, hrdispatch, hrid, -⟩, rfl⟩ := h
  obtain ⟨-, -, -, -, -, -, accepted', ready', ⟨-, -, -, haunique⟩,
    ⟨-, -, -, -, hrunique⟩, rfl⟩ := h'
  obtain rfl := haunique accepted (hmem _ hamem) hatype hatask
  obtain rfl := hrunique ready (hmem _ hrmem) hrtype hrdispatch hrid
  rfl

theorem Journal.dependsOn_of_creation {j : Journal} {creation : Event}
    (hcreation : creation ∈ j.events) (htype : creation.type = .taskCreated)
    (hd : creation.get (text "depends_on") = .str d) :
  ∃ s, j.task creation.task = some s ∧ s.dependsOn = some d
  := by
  obtain ⟨id, hid⟩ := Event.taskId_of_task (e := creation) (by rw [htype]; rfl)
  have htask : creation.task = id := by rw [Event.task, hid]; rfl
  obtain ⟨s, hs⟩ := Journal.known_of_event hcreation hid
  rw [htask]
  refine ⟨s, hs, ?_⟩
  rw [(creation_of_run (fun _ => Journal.not_system_of_eventsOf) (j.run_of_task id) s hs creation
    (List.mem_filter.mpr ⟨hcreation, by simp [hid]⟩) htype).1]
  show (creation.get (text "depends_on")).str? = some d
  rw [hd]
  rfl

theorem ended_of_prefix {first more : List Event} {tasks tasks' : Tasks}
    (hfold : fold first = .ok tasks) (hfold' : fold (first ++ more) = .ok tasks')
    (hs : tasks.get? d = some s) (hs' : tasks'.get? d = some s') (hended : s.status.isTerminal = true) :
  s'.status = s.status ∧ s'.resolution = s.resolution
  := by
  have hrun := run_of_fold_empty hfold' d
  rw [eventsOf, List.filter_append, hs'] at hrun
  obtain ⟨state, hfirst, hmore⟩ := accepts_append.mp hrun
  obtain rfl := hfirst.unique (run_of_fold_empty hfold d)
  rw [hs] at hmore
  obtain ⟨t, ht, -, hkept⟩ := kept_of_run (f := fun s => (s.status, s.resolution))
    (p := fun s => s.status.isTerminal = true)
    (fun s e s' hended step => by
      obtain ⟨hstatus, hresolution⟩ := step.ended hended
      exact ⟨by rw [hstatus, hended], by rw [hstatus, hresolution]⟩)
    (fun s seq hended => ⟨hended, rfl⟩) hended hmore
  cases ht
  exact ⟨congrArg Prod.fst hkept, congrArg Prod.snd hkept⟩

/-- In a journal the controller wrote dependent tasks run on verified inputs only. -/
theorem inputsVerified_of_written {j : Journal} (h : Written j) :
  InputsVerified j
  := by
  have hsupplied : ∀ {before after : List Event} {e creation : Event} (d : Str),
      j.events = before ++ e :: after → e.type = .taskClaimed → creation ∈ j.events →
      creation.type = .taskCreated → creation.taskId = e.taskId →
      creation.get (text "depends_on") = .str d → SuppliedBy j before d (e.get (text "input")) := by
    intro before after e creation d hsplit htype hcreation hctype htask hd
    obtain ⟨s, hs, hdepends⟩ := Journal.dependsOn_of_creation hcreation hctype hd
    have he : e ∈ j.events := by simp [hsplit]
    rw [Event.task, htask] at hs
    exact (h.input_of_claim he htype hs).2 before after hsplit d hdepends
  constructor
  · exact hsupplied
  · intro e f he hf hetype hftype htask
    obtain ⟨id, hid⟩ := Event.taskId_of_task (e := e) (by rw [hetype]; rfl)
    obtain ⟨s, hs⟩ := Journal.known_of_event he hid
    have hes : j.task e.task = some s := by rwa [Event.task, hid]
    have hfs : j.task f.task = some s := by rwa [Event.task, ← htask, hid]
    cases hdepends : s.dependsOn with
    | none =>
      rw [(h.input_of_claim he hetype hes).1 hdepends,
        (h.input_of_claim hf hftype hfs).1 hdepends]
    | some d =>
      obtain ⟨before, after, hsplit⟩ := List.append_of_mem he
      obtain ⟨before', after', hsplit'⟩ := List.append_of_mem hf
      apply ((h.input_of_claim he hetype hes).2 before after hsplit d hdepends).unique
        ((h.input_of_claim hf hftype hfs).2 before' after' hsplit' d hdepends)
      intro x hx
      rw [hsplit]
      exact List.mem_append_left _ hx
  · intro before after tasks dep creation e d hsplit hfold hdep hended hunverified hcreation hctype
      hd he htask htype
    obtain ⟨before', after', hsplit'⟩ := List.append_of_mem he
    obtain ⟨tasks', dep', hfold', hdep', hstatus, hresolution, -⟩ :=
      hsupplied d hsplit' htype hcreation hctype htask.symm hd
    obtain ⟨more, rfl⟩ | ⟨more, rfl⟩ := List.prefix_or_prefix_of_prefix
      (⟨after, hsplit.symm⟩ : before <+: j.events) (⟨e :: after', hsplit'.symm⟩)
    · obtain ⟨hs, hr⟩ := ended_of_prefix hfold hfold' hdep hdep' hended
      exact hunverified ⟨hs ▸ hstatus, hr ▸ hresolution⟩
    · obtain ⟨hs, hr⟩ := ended_of_prefix hfold' hfold hdep' hdep (by rw [hstatus]; rfl)
      exact hunverified ⟨hs.trans hstatus, hr.trans hresolution⟩

/-- In every run of the controller dependent tasks run on verified inputs only. -/
theorem inputs_verified {c : Controller} (hreached : Controller.Reached (fun _ _ _ => True) c) :
  InputsVerified c.journal
  := inputsVerified_of_written (sound_of_reached hreached).written

end Journals

section Example

local instance inputsPlatform : Platform := Platform.plain

def numberedTask (n : Nat) : Str :=
  text "task-" ++ (numberedUuid n).hex

def acceptedRequests : List Request :=
  silentRequests ++ [
    .start (.obj [(text "dispatch_id", .str (Controller.newDispatchId (numberedUuid 1)))]) false,
    .result (.obj [(text "artifacts", .arr [.obj [(text "path", .str (text "out")),
        (text "sha256", .str (List.replicate 64 48))]]),
      (text "dispatch_id", .str (Controller.newDispatchId (numberedUuid 1))),
      (text "outcome", .str (text "success")), (text "result_id", .str (text "r"))]) false,
    .verifyTake false,
    .verifyDecide 0 (.verdict ⟨text "v", none, none⟩ true (text "ok") false) false]

def dependentRequests : List Request :=
  acceptedRequests ++ [
    .createTask (.obj [(text "adapter", .str (text "echo")),
      (text "depends_on", .str (numberedTask 0)), (text "effect_class", .str (text "idempotent")),
      (text "lease_ttl_s", .int 30), (text "max_attempts", .int 2), (text "params", .obj [])])
      (numberedUuid 2) false,
    .claim (.obj [(text "worker_id", .str (text "w"))]) (numberedUuid 3) 0 false]

theorem inputs_verified_dependent :
  InputsVerified ((freshFailing fun _ => false).run dependentRequests).journal ∧
    ((freshFailing fun _ => false).run dependentRequests).journal.tasks.values.any (fun s =>
      s.status = .claimed && s.dependsOn = some (numberedTask 0)) = true
  := by
  have hrun : (freshFailing fun _ => false).Admits (fun _ _ _ => True) dependentRequests ∧
      ((freshFailing fun _ => false).run dependentRequests).journal.tasks.values.any (fun s =>
        s.status = .claimed && s.dependsOn = some (numberedTask 0)) = true := by
    decide +kernel
  exact ⟨inputs_verified (reached_of_admits hrun.1), hrun.2⟩

end Example

end Courier
