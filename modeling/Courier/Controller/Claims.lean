import Courier.Controller.Reports

/-!
# Claims

A claim keeps the invariant when the dispatch id it issues is fresh.  The task it is answered
with is the first one that waits and can run: a task that depends on another is given the
verified result of it, and fails if there will be none.
-/

namespace Courier

open Except Program Text
open Json (truthy)

variable [Platform]

/-! ### What a claim may be given -/

def BoundTo (j : Journal) (dependsOn : Str) (bound : Json) : Prop :=
  ∃ dep, j.task dependsOn = some dep ∧ dep.verified = true ∧
    ∃ result ∈ j.events, result.type = .resultReady ∧ result.dispatchId = dep.dispatchId ∧
      result.resultId = dep.acceptedResultId ∧
      truthy (result.get (text "artifacts")) = true ∧
      bound = Controller.boundInput dep result.toEventFields

/-- A task that depends on another is given its verified result, and no other task is given
anything. -/
def Bindable (j : Journal) (s : TaskState) (bound : Option Json) : Prop :=
  match s.dependsOn with
  | none => bound = none
  | some d => ∃ b, bound = some b ∧ BoundTo j d b

def Fresh (j : Journal) (dispatchId : Str) : Prop :=
  ∀ e ∈ j.events, e.type = .taskClaimed → e.dispatchId ≠ some dispatchId

structure Issues (j : Journal) (reply : ClaimReply) : Prop where
  claim : ∃ e ∈ j.events, e.type = .taskClaimed ∧ e.taskId = some reply.taskId ∧
    e.attempt = some reply.attempt ∧ e.dispatchId = some reply.dispatchId ∧
    e.workerId = some reply.workerId ∧ e.get (text "input") = reply.spec.input.getD .null
  task : ∃ s, j.task reply.taskId = some s ∧ s.status = .claimed ∧
    s.dispatchId = some reply.dispatchId ∧ s.attempt = reply.attempt ∧
    s.leaseTtlS = reply.ttlS ∧ reply.spec = {
      adapter := s.adapter, params := s.params, effectClass := s.effectClass
      timeoutS := s.timeoutS, effectKey := effectKey s.taskId
      input := reply.spec.input } ∧
    Bindable j s reply.spec.input

omit [Platform] in
theorem issued_newDispatchId (uuid : Uuid) :
  (Controller.newDispatchId uuid).length ≤ 36 ∧ 58 ∉ Controller.newDispatchId uuid
  := by
  constructor
  · simp only [Controller.newDispatchId, List.length_append, uuid.length]
    decide
  · intro h
    rcases List.mem_append.mp h with h | h
    · revert h
      decide
    · have hdigit := uuid.digits 58 h
      revert hdigit
      decide

variable {j : Journal} {d : Str}

theorem BoundTo.mono {j' : Journal} {bound : Json} (h : BoundTo j d bound)
    (hevents : ∃ more, j'.events = j.events ++ more) (htask : j'.task d = j.task d) :
  BoundTo j' d bound
  := by
  obtain ⟨dep, hdep, hverified, result, hresult, hrest⟩ := h
  obtain ⟨more, hmore⟩ := hevents
  refine ⟨dep, htask.trans hdep, hverified, result, ?_, hrest⟩
  rw [hmore]
  exact List.mem_append_left _ hresult

variable {bound : Option Json} {s : TaskState}

theorem Bindable.valid
    (h : Bindable j s bound) :
  ∀ b, bound = some b → b.wf = true ∧ validateInput b = .ok ()
  := by
  rintro b rfl
  unfold Bindable at h
  split at h
  · cases h
  · obtain ⟨b', hb, dep, hdep, hverified, result, -, htype, -, -, hsome, rfl⟩ := h
    cases hb
    have hlawful := (Journal.recorded_of_task (Journal.taskId_of_task hdep ▸ hdep)).1
    exact valid_boundInput hlawful hverified htype hsome

section Invariant

variable {L : EventType → Prop} {P : Bool → Prop} {Q : Prop} {X : Str → Prop} {c : Controller}

namespace Controller

/-! ### Claims -/

def claimedState (s : TaskState) (workerId : Str) (uuid : Uuid) (bound : Option Json) :
    TaskState :=
  { s with
    status := .claimed, attempt := s.attempt + 1, dispatchId := some (newDispatchId uuid)
    workerId := some workerId, started := false, pendingResultId := none
    failureKind := none, retryable := none, lastReason := none, input := bound.getD .null }

variable {workerId : Str} {uuid : Uuid}

/-- The claim of a task that waits, under a fresh dispatch, is a legal next step. -/
theorem fits_claimed {e : Event} (hwritten : Written j) (hs : j.task s.taskId = some s)
    (hstatus : s.status = .queued) (hwanted : s.cancelRequested = false)
    (hfresh : Fresh j (newDispatchId uuid)) (hbound : Bindable j s bound)
    (he : Drafted (claimedDraft s workerId (newDispatchId uuid) bound) e) :
  ∃ s', Fits j e s s' ∧ s' = claimedState s workerId uuid bound
  := by
  have hinput : e.get (text "input") = bound.getD .null := by
    rw [EventFields.get, he.payload]
    cases bound <;> rfl
  have hbudget := (Journal.recorded_of_task hs).1.queued hstatus
  have hstep : Bound s e := by
    unfold Bindable at hbound
    unfold Bound
    split
    · next hdepends =>
      rw [hdepends] at hbound
      rw [hinput, hbound]
      rfl
    · next d hdepends =>
      rw [hdepends] at hbound
      obtain ⟨b, rfl, dep, hdep, -, result, -, -, -, -, -, rfl⟩ := hbound
      rw [hinput]
      refine ⟨by simp [boundInput], ?_⟩
      rw [← Journal.taskId_of_task hdep]
      rfl
  have hstep := Step.claimed he.type hstatus hwanted he.attempt (by omega) hstep
  rw [hinput, he.dispatchId, he.workerId] at hstep
  refine ⟨_, he.fits rfl hs rfl (hwritten.claim_free hs) ?_ hstep, rfl⟩
  intro _
  constructor
  · constructor
    · intro x hx hxtype
      rw [he.dispatchId]
      exact hfresh x hx hxtype
    · intro t d ht hd
      have htask : e.task = s.taskId := by
        rw [Event.task, he.taskId]
        rfl
      rw [htask] at ht
      cases hs.symm.trans ht
      unfold Bindable at hbound
      rw [hd] at hbound
      obtain ⟨b, rfl, dep, hdep, hverified, result, hresult, hrtype, hrdispatch, hrid, hsome,
        rfl⟩ := hbound
      exact ⟨dep, hdep ▸ j.run_of_task d, hverified, result, hresult, hrtype, hrdispatch, hrid,
        hsome, hinput⟩
  · rintro _ ⟨⟩
    exact issued_newDispatchId uuid

variable {now : Rat}

/-- A task that waits is claimed, and its lease begins. -/
theorem wp_claimTask (h : Consistent L P Q X c) (hs : c.journal.task s.taskId = some s)
    (hstatus : s.status = .queued) (hwanted : s.cancelRequested = false) (hworker : isId workerId)
    (hfresh : Fresh c.journal (newDispatchId uuid)) (hbound : Bindable c.journal s bound) :
  wp (claimTask s workerId uuid now bound)
    (fun reply c' => Consistent L P Q X c' ∧ Issues c'.journal reply ∧
      reply.workerId = workerId ∧ reply.dispatchId = newDispatchId uuid ∧ reply.taskId = s.taskId)
    (fun why c' => why.isFault = true ∧ Consistent L P Q X c' ∧ c'.raised ≠ []) c
  := by
  have hlawful := (Journal.recorded_of_task hs).1
  have hproper := proper_claimed hlawful hstatus (h.written.length_taskId hs) hworker uuid
    hbound.valid
  rw [claimTask, wp_bind]
  apply wp_mono (wp_record h.written hproper fun e he =>
    fits_claimed h.written hs hstatus hwanted hfresh hbound he)
  · rintro r c' ⟨-, -, e, s', he, hid, rfl, hstored⟩
    obtain ⟨seq, hs'⟩ := hstored.task hid
    obtain ⟨n, prevHash, hash, hevents⟩ := hstored.events
    have hframe : Frame s.taskId c c' := hstored.frame
    have h₁ := h.change hframe hstored.written (by
      rw [hstored.raised]
      exact h.legal) (by
      intro d holder hk hold
      rw [hstored.holder] at hold
      exact absurd hk (h.unleased hs (by rw [hstatus]; rfl) hold))
    rw [wp_bind, wp_modify, wp_pure]
    refine ⟨consistent_set (s := { claimedState s workerId uuid bound with updatedSeq := seq })
      h₁ hs' rfl rfl rfl rfl rfl rfl, ⟨?_, ?_⟩, rfl, rfl, rfl⟩
    · refine ⟨e.place n prevHash hash, ?_, he.type, he.taskId, he.attempt, he.dispatchId,
        he.workerId, ?_⟩
      · show _ ∈ c'.journal.events
        rw [hevents]
        simp
      · show e.get (text "input") = _
        rw [EventFields.get, he.payload]
        cases bound <;> rfl
    · refine ⟨_, hs', rfl, rfl, rfl, rfl, rfl, ?_⟩
      unfold Bindable at hbound
      show match s.dependsOn with
        | none => bound = none
        | some d => ∃ b, bound = some b ∧ BoundTo c'.journal d b
      split
      · next hdepends =>
        rw [hdepends] at hbound
        exact hbound
      · next d hdepends =>
        rw [hdepends] at hbound
        obtain ⟨b, hb, hboundTo⟩ := hbound
        refine ⟨b, hb, hboundTo.mono ⟨_, hevents⟩ (hframe.tasks d ?_)⟩
        rintro rfl
        obtain ⟨dep, hdep, hverified, -⟩ := hboundTo
        cases hs.symm.trans hdep
        simp [TaskState.verified, hstatus] at hverified
  · rintro why c' ⟨hwhy, hfailed⟩
    exact ⟨hwhy, h.failed hfailed hwhy, hfailed.noted⟩

/-- What handling another task leaves of the tasks that wait. -/
structure Passes (k : Str) (c c' : Controller) : Prop where
  tasks : ∀ id, id ≠ k → c'.journal.task id = c.journal.task id
  events : ∃ more, c'.journal.events = c.journal.events ++ more ∧ ∀ e ∈ more, e.type = .taskFailed

theorem Passes.refl {k : Str} :
  Passes k c c
  := ⟨fun _ _ => rfl, [], by simp⟩

theorem Passes.claims {k : Str} {c c' : Controller} (h : Passes k c c')
    (hfresh : Fresh c.journal d) :
  Fresh c'.journal d
  := by
  obtain ⟨more, hevents, hmore⟩ := h.events
  intro x hx hxtype
  rw [hevents] at hx
  rcases List.mem_append.mp hx with hx | hx
  · exact hfresh x hx hxtype
  · simp [hmore x hx] at hxtype

theorem wp_failDependent {dependsOn why : Str} (h : Consistent L P Q X c)
    (hs : c.journal.task s.taskId = some s) (hstatus : s.status = .queued) :
  wp (failDependent s dependsOn why)
    (fun bound c' => Consistent L P Q X c' ∧ Passes s.taskId c c' ∧ bound = none ∧
      ∃ s', c'.journal.task s.taskId = some s' ∧ s'.status = .failed)
    (fun why c' => why.isFault = true ∧ Consistent L P Q X c' ∧ c'.raised ≠ []) c
  := by
  have hproper := proper_note .taskFailed
    [(text "reason", .str (text "dependency " ++ dependsOn
      ++ text " cannot provide an input: " ++ why))] (by simp)
    (Journal.recorded_of_task hs).1.id rfl rfl (by rintro ⟨⟩)
  rw [failDependent, wp_bind]
  apply wp_mono (wp_record (p := fun _ s' => Alike s s' ∧ s'.status = .failed) h.written hproper ?_)
  · rintro r c' ⟨-, -, e, s', he, hid, ⟨halike, hfailed⟩, hstored⟩
    obtain ⟨seq, hs'⟩ := hstored.task hid
    obtain ⟨n, prevHash, hash, hevents⟩ := hstored.events
    refine ⟨h.alike hs hstored halike, ⟨hid ▸ hstored.frame.tasks, _, hevents, ?_⟩, rfl, _, hs', hfailed⟩
    intro x hx
    obtain rfl := List.mem_singleton.mp hx
    exact he.type
  · rintro why c' ⟨hwhy, hfailed⟩
    exact ⟨hwhy, h.failed hfailed hwhy, hfailed.noted⟩
  · intro e he
    refine ⟨_, he.fits rfl hs rfl (free_of_keyless rfl) (by rintro ⟨⟩)
      (.failed he.type (.inr hstatus) (by simp [hstatus])), ⟨rfl, ?_, ?_, rfl, ?_, ?_⟩, rfl⟩ <;>
      simp [hstatus, TaskStatus.isActiveLease, TaskState.Decided]

structure Supplies (s : TaskState) (d : Str) (bound : Option Json) (c c' : Controller) : Prop where
  passes : Passes s.taskId c c'
  input : ∀ b, bound = some b → c' = c ∧ Bindable c.journal s bound
  vain : bound = none → (∀ b, ¬ Bindable c.journal s b) ∧
    (c' = c ∧ (∃ dep, c.journal.task d = some dep ∧ dep.status.isTerminal = false) ∨
      ∃ s', c'.journal.task s.taskId = some s' ∧ s'.status = .failed)

def Excused (tasks : List TaskState) (c c' : Controller) : Prop :=
  (∀ s ∈ tasks, ∀ d, s.dependsOn = some d → c.journal.task d ≠ none) → c'.raised ≠ []

theorem Excused.mono {tasks tasks' : List TaskState} {c c' : Controller} (h : Excused tasks c c')
    (hsub : tasks ⊆ tasks') :
  Excused tasks' c c'
  := fun hknown => h fun s hs => hknown s (hsub hs)

theorem wp_verifiedInput (h : Consistent L P Q X c)
    (hs : c.journal.task s.taskId = some s) (hstatus : s.status = .queued)
    (hd : s.dependsOn = some d) :
  wp (verifiedInput s d)
    (fun bound c' => Consistent L P Q X c' ∧ Supplies s d bound c c')
    (fun why c' => why.isFault = true ∧ Consistent L P Q X c' ∧ Excused [s] c c') c
  := by
  have hbindable : ∀ {b}, Bindable c.journal s b → ∃ b', BoundTo c.journal d b' := by
    intro b hb
    unfold Bindable at hb
    rw [hd] at hb
    obtain ⟨b', -, hb'⟩ := hb
    exact ⟨b', hb'⟩
  have hfail : ∀ why, (∀ b, ¬ BoundTo c.journal d b) → wp (failDependent s d why)
      (fun bound c' => Consistent L P Q X c' ∧ Supplies s d bound c c')
      (fun why c' => why.isFault = true ∧ Consistent L P Q X c' ∧ Excused [s] c c') c := by
    intro why hvain
    apply wp_mono (wp_failDependent h hs hstatus)
    · rintro bound c' ⟨h', hpasses, rfl, hfailed⟩
      refine ⟨h', hpasses, by simp, fun _ => ⟨?_, .inr hfailed⟩⟩
      intro b hb
      obtain ⟨b', hb'⟩ := hbindable hb
      exact hvain b' hb'
    · rintro why c' ⟨hwhy, h', hraised⟩
      exact ⟨hwhy, h', fun _ => hraised⟩
  rw [verifiedInput, wp_bind]
  apply wp_readTask
  · cases hdep : c.journal.task d with
    | none =>
      apply hfail
      rintro b ⟨dep, hdep', -⟩
      cases hdep.symm.trans hdep'
    | some dep =>
      dsimp only
      split
      · next hverified =>
        obtain ⟨x, hx, htype, hdispatch, hresult, hkey⟩ :=
          h.written.result_of_verified hdep hverified
        rw [wp_bind, wp_readEventByKey_stored hx hkey rfl]
        dsimp only
        split
        · next hsome =>
          refine ⟨h, .refl, ?_, by simp⟩
          rintro b hb
          refine ⟨rfl, ?_⟩
          unfold Bindable
          rw [hd]
          exact ⟨_, rfl, dep, hdep, hverified, x, hx, htype, hdispatch, hresult, hsome, rfl⟩
        · next hempty =>
          apply hfail
          rintro b ⟨dep', hdep', -, y, hy, hytype, hydispatch, hyresult, hsome, -⟩
          cases hdep.symm.trans hdep'
          obtain rfl : x = y := h.written.unique_of_default hx hy (htype.trans hytype.symm)
            (by simp [hytype]) (by rw [htype, hdispatch, hresult]; rfl)
            (by rw [hytype, hydispatch, hyresult]; rfl)
          exact hempty hsome
      · next hunverified =>
        have hvain : ∀ b, ¬ BoundTo c.journal d b := by
          rintro b ⟨dep', hdep', hverified, -⟩
          cases hdep.symm.trans hdep'
          exact hunverified hverified
        split
        · exact hfail _ hvain
        · next hruns =>
          refine ⟨h, .refl, by simp, fun _ => ⟨?_, .inl ⟨rfl, dep, hdep, by simpa using hruns⟩⟩⟩
          intro b hb
          obtain ⟨b', hb'⟩ := hbindable hb
          exact hvain b' hb'
  · intro why hwhy hnone
    exact ⟨hwhy, h, fun hknown => absurd hnone (hknown s (by simp) d hd)⟩

def Grants (workerId : Str) (uuid : Uuid) (r : Option ClaimReply) (c : Controller) : Prop :=
  ∀ reply, r = some reply → Issues c.journal reply ∧ reply.workerId = workerId ∧
    reply.dispatchId = newDispatchId uuid

/-- What the loop does with the tasks that wait, one after the other. -/
inductive Pass : List TaskState → Controller → Option ClaimReply → Controller → Prop where
  | done {c : Controller} : Pass [] c none c
  | cancelled {s : TaskState} {rest : List TaskState} {c c' : Controller} {r : Option ClaimReply}
      (unwanted : s.cancelRequested = true) (next : Pass rest c r c') : Pass (s :: rest) c r c'
  | waits {s dep : TaskState} {d : Str} {rest : List TaskState} {c c' : Controller} {r : Option ClaimReply}
      (depends : s.dependsOn = some d) (vain : ∀ b, ¬ Bindable c.journal s b)
      (known : c.journal.task d = some dep) (runs : dep.status.isTerminal = false)
      (next : Pass rest c r c') : Pass (s :: rest) c r c'
  | fails {s s' : TaskState} {rest : List TaskState} {c c₁ c' : Controller} {r : Option ClaimReply}
      (vain : ∀ b, ¬ Bindable c.journal s b) (passes : Passes s.taskId c c₁)
      (task : c₁.journal.task s.taskId = some s') (failed : s'.status = .failed)
      (next : Pass rest c₁ r c') : Pass (s :: rest) c r c'
  | claims {s : TaskState} {rest : List TaskState} {c c' : Controller} {reply : ClaimReply} {b : Option Json}
      (wanted : s.cancelRequested = false) (bound : Bindable c.journal s b)
      (task : reply.taskId = s.taskId) : Pass (s :: rest) c (some reply) c'

theorem wp_claimFirst {tasks : List TaskState}
    (h : Consistent L P Q X c) (hworker : isId workerId)
    (hfresh : Fresh c.journal (newDispatchId uuid))
    (htasks : ∀ s ∈ tasks, c.journal.task s.taskId = some s ∧ s.status = .queued)
    (hnodup : (tasks.map (·.taskId)).Nodup) :
  wp (claimFirst workerId uuid now tasks)
    (fun r c' => Consistent L P Q X c' ∧ Grants workerId uuid r c' ∧ Pass tasks c r c')
    (fun why c' => why.isFault = true ∧ Consistent L P Q X c' ∧ Excused tasks c c') c
  := by
  induction tasks generalizing c with
  | nil => exact ⟨h, by simp [Grants], .done⟩
  | cons s rest ih =>
    obtain ⟨hnotin, hnodup⟩ := List.nodup_cons.mp hnodup
    obtain ⟨hs, hstatus⟩ := htasks s (by simp)
    have hrest : ∀ {c' : Controller}, Consistent L P Q X c' → Passes s.taskId c c' →
        c'.journal.task s.taskId ≠ none → (∀ r c'', Pass rest c' r c'' → Pass (s :: rest) c r c'') →
        wp (claimFirst workerId uuid now rest)
          (fun r c' => Consistent L P Q X c' ∧ Grants workerId uuid r c' ∧ Pass (s :: rest) c r c')
          (fun why c' => why.isFault = true ∧ Consistent L P Q X c' ∧ Excused (s :: rest) c c') c' := by
      intro c' h' hpasses hkept hpass
      apply wp_mono (ih h' (hpasses.claims hfresh) ?_ hnodup)
      · rintro r c'' ⟨h'', hgrants, hnext⟩
        exact ⟨h'', hgrants, hpass r c'' hnext⟩
      · rintro why c'' ⟨hwhy, h'', hraised⟩
        refine ⟨hwhy, h'', fun hknown => hraised fun t ht d hd => ?_⟩
        by_cases hid : d = s.taskId
        · rwa [hid]
        · rw [hpasses.tasks d hid]
          exact hknown t (List.mem_cons_of_mem _ ht) d hd
      · intro t ht
        rw [hpasses.tasks]
        · exact htasks t (List.mem_cons_of_mem _ ht)
        · intro hid
          exact hnotin (List.mem_map.mpr ⟨t, ht, hid⟩)
    have hclaim : ∀ {bound}, s.cancelRequested = false → Bindable c.journal s bound →
        wp (some <$> claimTask s workerId uuid now bound)
          (fun r c' => Consistent L P Q X c' ∧ Grants workerId uuid r c' ∧ Pass (s :: rest) c r c')
          (fun why c' => why.isFault = true ∧ Consistent L P Q X c' ∧ Excused (s :: rest) c c') c := by
      intro bound hwanted hbound
      rw [wp_map]
      apply wp_mono (wp_claimTask h hs hstatus hwanted hworker hfresh hbound)
      · rintro reply c' ⟨h', hissues, hreply, hdispatch, htask⟩
        refine ⟨h', ?_, .claims hwanted hbound htask⟩
        rintro _ ⟨⟩
        exact ⟨hissues, hreply, hdispatch⟩
      · rintro why c' ⟨hwhy, h', hraised⟩
        exact ⟨hwhy, h', fun _ => hraised⟩
    unfold claimFirst
    split
    · next hunwanted => exact hrest h .refl (by simp [hs]) fun r c'' hnext => .cancelled hunwanted hnext
    · next hwanted =>
      have hwanted : s.cancelRequested = false := by simpa using hwanted
      cases hd : s.dependsOn with
      | none =>
        apply hclaim hwanted
        unfold Bindable
        rw [hd]
      | some d =>
        dsimp only
        rw [wp_bind]
        apply wp_mono (wp_verifiedInput h hs hstatus hd)
        · rintro bound c' ⟨h', ⟨hpasses, hbound, hvain⟩⟩
          cases bound with
          | none =>
            obtain ⟨hvain, ⟨rfl, dep, hdep, hruns⟩ | ⟨s', hs', hfailed⟩⟩ := hvain rfl
            · exact hrest h' hpasses (by simp [hs]) fun r c'' hnext => .waits hd hvain hdep hruns hnext
            · exact hrest h' hpasses (by simp [hs']) fun r c'' hnext =>
                .fails hvain hpasses hs' hfailed hnext
          | some b =>
            obtain ⟨rfl, hbound⟩ := hbound b rfl
            exact hclaim hwanted hbound
        · rintro why c' ⟨hwhy, h', hraised⟩
          exact ⟨hwhy, h', hraised.mono (by simp)⟩

theorem wp_claim {body : Json} {busy : Bool}
    (h : Consistent L P Q X c) (hfresh : Fresh c.journal (newDispatchId uuid)) :
  wp (claim body uuid now busy)
    (fun r c' => Consistent L P Q X c' ∧ (∃ workerId, Grants workerId uuid r c') ∧
      Pass (c.journal.listTasks (some .queued)) c r c')
    (Raises L P Q X c) c
  := by
  have hraised : ∀ why, why.isPlain = true → Raises L P Q X c why c := fun why hwhy =>
    .at_once h (Exc.not_refusal_of_plain hwhy)
  unfold claim
  apply wp_writable hraised
  intro _ _
  apply wp_checked hraised (throws_onlyFields _ _)
  intro body' _
  apply wp_checked hraised (throws_requireId _ _)
  intro workerId hworker
  apply wp_unlocked hraised
  rw [wp_bind, wp_get]
  apply wp_mono (wp_claimFirst h (isId_of_requireId hworker) hfresh ?_ (nodup_listTasks _ _))
  · rintro r c' ⟨h', hgrants, hpass⟩
    exact ⟨h', ⟨workerId, hgrants⟩, hpass⟩
  · rintro why c' ⟨hwhy, h', -⟩
    exact .of_fault h' hwhy
  · intro s hs
    obtain ⟨hs, hstatus⟩ := mem_listTasks.mp hs
    exact ⟨hs, hstatus _ rfl⟩

end Controller

end Invariant

end Courier
