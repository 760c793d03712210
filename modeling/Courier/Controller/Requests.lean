import Courier.Controller.Recovery

/-!
# The requests keep the invariant

Whatever a worker or a human asks of the controller, the invariant holds after it.  The journal
never refuses an event of a request, but for the creation of a task under a key that is taken and
for a second report of a late result; and a request that is refused has changed nothing.
-/

namespace Courier

open Except Program Text

variable [Platform]

/-! ### Checks of requests -/

def Exc.ofRequest (why : Exc) : Prop :=
  why.isFault = true ∨ ∃ message, why = invalidRequest message

def Controller.staleDispatch (s : TaskState) : Exc :=
  refusal 409 "stale_dispatch" "result belongs to a superseded or finished dispatch"
    (statusMember s)

/-- The exceptions that are neither a refusal of the journal nor the answer to a late result. -/
def Exc.isPlain : Exc → Bool
  | .api answer => answer.code ≠ text "stale_dispatch" ||
      answer.message ≠ text "result belongs to a superseded or finished dispatch"
  | why => !why.isRefusal

variable {why : Exc}

section

omit [Platform]

theorem Exc.plain_of_fault (h : why.isFault = true) :
  why.isPlain = true
  := by
  cases why <;> first | rfl | cases h

theorem Exc.not_refusal_of_plain (h : why.isPlain = true) :
  why.isRefusal = false
  := by
  cases why <;> first | rfl | cases h

theorem Exc.ne_staleDispatch (h : why.isPlain = true) (s : TaskState) :
  why ≠ Controller.staleDispatch s
  := by
  rintro rfl
  cases h

theorem Exc.ofRequest.plain (h : why.ofRequest) :
  why.isPlain = true
  := by
  obtain h | ⟨message, rfl⟩ := h
  · exact Exc.plain_of_fault h
  · rfl

theorem throws_invalid (p : Prop) [Decidable p] (message : Str) :
  Throws Exc.ofRequest (check p (invalidRequest message))
  := throws_check.mpr fun _ => .inr ⟨message, rfl⟩

theorem throws_requireId (body : Members) (name : Str) :
  Throws Exc.ofRequest (requireId body name)
  := by
  unfold requireId
  split
  · split_ifs
    · exact throws_ok _
    · exact throws_error.mpr (.inr ⟨_, rfl⟩)
  · exact throws_error.mpr (.inr ⟨_, rfl⟩)

theorem throws_requireInt (body : Members) (name : Str) (low high : Int) :
  Throws Exc.ofRequest (requireInt body name low high)
  := by
  unfold requireInt
  split
  · split_ifs
    · exact throws_ok _
    · exact throws_error.mpr (.inr ⟨_, rfl⟩)
  · exact throws_error.mpr (.inr ⟨_, rfl⟩)

theorem throws_requireReason (body : Members) :
  Throws Exc.ofRequest (requireReason body)
  := by
  unfold requireReason
  split
  · split_ifs
    · exact throws_ok _
    · exact throws_error.mpr (.inr ⟨_, rfl⟩)
  · exact throws_error.mpr (.inr ⟨_, rfl⟩)

theorem throws_optionalId (body : Members) (name : Str) :
  Throws Exc.ofRequest (optionalId body name)
  := by
  unfold optionalId
  split_ifs
  · exact throws_ok _
  · exact throws_map (throws_requireId body name)

theorem throws_optionalInt (body : Members) (name : Str) (low high : Int) :
  Throws Exc.ofRequest (optionalInt body name low high)
  := by
  unfold optionalInt
  split_ifs
  · exact throws_ok _
  · exact throws_map (throws_requireInt body name low high)

theorem throws_optionalReason (body : Members) :
  Throws Exc.ofRequest (optionalReason body)
  := by
  unfold optionalReason
  split_ifs
  · exact throws_ok _
  · exact throws_map (throws_requireReason body)

theorem throws_onlyFields (body : Json) (allowed : List Str) :
  Throws Exc.ofRequest (onlyFields body allowed)
  := by
  unfold onlyFields
  split
  · split_ifs
    · exact throws_ok _
    · exact throws_error.mpr (.inr ⟨_, rfl⟩)
  · exact throws_error.mpr (.inr ⟨_, rfl⟩)

theorem throws_requireMember (choices : List Str) (value : Json) (message : Str) :
  Throws Exc.ofRequest (requireMember choices value message)
  := by
  unfold requireMember
  split
  · exact throws_error.mpr (.inl rfl)
  · exact throws_error.mpr (.inl rfl)
  · split_ifs
    · exact throws_ok _
    · exact throws_error.mpr (.inr ⟨_, rfl⟩)
  · exact throws_error.mpr (.inr ⟨_, rfl⟩)

theorem isId_of_requireId {body : Members} {name id : Str} (h : requireId body name = .ok id) :
  isId id
  := by
  unfold requireId at h
  split at h
  · split_ifs at h with hid
    cases h
    exact hid
  · cases h

theorem isId_of_optionalId {body : Members} {name : Str} {id : Option Str}
    (h : optionalId body name = .ok id) :
  ∀ a, id = some a → isId a
  := by
  rintro a rfl
  unfold optionalId at h
  split_ifs at h
  · cases h
  · obtain ⟨b, hb, hab⟩ := map_eq_ok.mp h
    cases hab
    exact isId_of_requireId hb

end

theorem throws_newTaskId (body : Members) (uuid : Uuid) :
  Throws Exc.ofRequest (Controller.newTaskId body uuid)
  := by
  unfold Controller.newTaskId
  split_ifs
  · exact throws_ok _
  · apply throws_bind (throws_requireId _ _)
    intro key
    apply throws_bind
    · exact throws_check.mpr fun _ => .inl rfl
    · intro _
      exact throws_pure _

theorem throws_checkCreation (body : Json) (uuid : Uuid) :
  Throws Exc.ofRequest (Controller.checkCreation body uuid)
  := by
  unfold Controller.checkCreation
  apply throws_bind (throws_onlyFields _ _)
  intro body
  apply throws_bind (throws_requireId _ _)
  intro adapter
  apply throws_bind (throws_invalid _ _)
  intro _
  apply throws_bind (throws_invalid _ _)
  intro _
  apply throws_bind (throws_requireMember _ _ _)
  intro _
  apply throws_bind (throws_requireInt _ _ _ _)
  intro _
  apply throws_bind (throws_requireInt _ _ _ _)
  intro _
  apply throws_bind (throws_optionalInt _ _ _ _)
  intro timeoutS
  apply throws_bind (throws_newTaskId _ _)
  intro taskId
  apply throws_bind (throws_optionalId _ _)
  intro dependsOn
  exact throws_pure _

section

omit [Platform]

theorem throws_checkResult (body : Json) :
  Throws Exc.ofRequest (Controller.checkResult body)
  := by
  unfold Controller.checkResult
  apply throws_bind (throws_onlyFields _ _)
  intro body
  apply throws_bind (throws_requireId _ _)
  intro dispatchId
  apply throws_bind (throws_requireId _ _)
  intro resultId
  apply throws_bind (throws_invalid _ _)
  intro _
  apply throws_bind (throws_requireMember _ _ _)
  intro outcome
  apply throws_bind
  · exact throws_checkWhen (throws_invalid _ _)
  · intro _
    exact throws_pure _

theorem throws_checkResolve (body : Json) :
  Throws Exc.ofRequest (Controller.checkResolve body)
  := by
  unfold Controller.checkResolve
  apply throws_bind (throws_onlyFields _ _)
  intro body
  apply throws_bind (throws_requireMember _ _ _)
  intro name
  apply throws_bind (throws_requireId _ _)
  intro actor
  apply throws_bind (throws_requireInt _ _ _ _)
  intro attempt
  apply throws_bind (throws_requireReason _)
  intro reason
  exact throws_pure _

theorem throws_reportedIds (value : Json) :
  Throws Exc.ofRequest (Controller.reportedIds value)
  := by
  unfold Controller.reportedIds
  split
  · split_ifs
    · exact throws_ok _
    · exact throws_error.mpr (.inr ⟨_, rfl⟩)
  · exact throws_error.mpr (.inr ⟨_, rfl⟩)

end

/-! ### Rules -/

section Invariant

variable {L : EventType → Prop} {P : Bool → Prop} {Q : Prop} {X : Str → Prop} {c : Controller}

namespace Controller

variable {α : Type} {normal : α → Controller → Prop} {raised : Exc → Controller → Prop}

theorem wp_writable {next : Unit → Act α} (hraised : ∀ why, why.isPlain = true → raised why c)
    (hnext : c.stopping = false → c.mode = .normal → wp (next ()) normal raised c) :
  wp (requireWritable >>= next) normal raised c
  := by
  simp only [requireWritable, wp_bind, wp_get]
  split
  · exact hraised _ rfl
  · next hstopping =>
    split
    · exact hraised _ rfl
    · next hmode => exact hnext (by simpa using hstopping) (by simpa using hmode)

theorem wp_checked {β : Type} {x : Except Exc β} {next : β → Act α}
    (hraised : ∀ why, why.isPlain = true → raised why c) (hx : Throws Exc.ofRequest x)
    (hnext : ∀ b, x = .ok b → wp (next b) normal raised c) :
  wp (lift x >>= next) normal raised c
  := by
  simp only [wp_bind, wp_lift]
  exact ⟨hnext, fun why hwhy => hraised why (hx why hwhy).plain⟩

variable {busy : Bool}

theorem wp_unlocked {m : Act α}
    (hraised : ∀ why, why.isPlain = true → raised why c) (hm : wp m normal raised c) :
  wp (locked busy m) normal raised c
  := by
  rw [wp_locked]
  exact ⟨fun _ => hraised _ rfl, fun _ => hm⟩

theorem wp_requestedEvent {d : Draft} {normal : Event → Controller → Prop}
    {raised : Exc → Controller → Prop}
    (hnormal : ∀ e draws, Drafted d e → normal e { c with draws := draws })
    (hraised : ∀ why draws, why.ofRequest → raised why { c with draws := draws }) :
  wp (requestedEvent d) normal raised c
  := by
  simp only [requestedEvent, newEvent, nextDraw, wp_tryCatch, wp_bind, wp_get, wp_set, wp_pure,
    wp_lift]
  constructor
  · intro e he
    exact hnormal e _ (drafted_of_build he)
  · intro why hwhy
    have hcheck : (∃ message, why = .eventValidation message) ∨ why.isFault = true := by
      unfold Event.build at hwhy
      split at hwhy
      · split at hwhy
        · split at hwhy
          · cases hwhy
          · next hv =>
            cases hwhy
            obtain rfl | ⟨message, rfl⟩ := throws_validate _ _ hv
            · exact .inr rfl
            · exact .inl ⟨message, rfl⟩
        · cases hwhy
          exact .inr rfl
      · cases hwhy
        exact .inl ⟨_, rfl⟩
    obtain ⟨message, rfl⟩ | hfault := hcheck
    · exact hraised _ _ (.inr ⟨_, rfl⟩)
    · cases why <;> exact hraised _ _ (.inl hfault)

/-! ### Creation -/

variable {uuid : Uuid} {taskId : Str}

theorem length_newTaskId {body : Members}
    (h : newTaskId body uuid = .ok taskId) :
  taskId.length ≤ 37
  := by
  have htask : (text "task-").length = 5 := rfl
  unfold newTaskId at h
  split_ifs at h
  · cases h
    rw [List.length_append, htask, uuid.length]
  · obtain ⟨key, -, h⟩ := bind_eq_ok.mp h
    obtain ⟨_, -, h⟩ := bind_eq_ok.mp h
    cases h
    have htake := List.length_take_le 32 (Platform.sha256 key)
    rw [List.length_append, htask]
    omega

variable {body : Json}

theorem checkCreation_eq_ok {body' : Members}
    {timeoutS : Option Int} {dependsOn : Option Str}
    (h : checkCreation body uuid = .ok (taskId, body', timeoutS, dependsOn)) :
  body = .obj body' ∧ newTaskId body' uuid = .ok taskId ∧
    optionalInt body' (text "timeout_s") 1 MAX_TIMEOUT_S = .ok timeoutS ∧
    optionalId body' (text "depends_on") = .ok dependsOn
  := by
  obtain ⟨d, hd, h⟩ := bind_eq_ok.mp h
  obtain ⟨_, -, h⟩ := bind_eq_ok.mp h
  obtain ⟨_, -, h⟩ := bind_eq_ok.mp h
  obtain ⟨_, -, h⟩ := bind_eq_ok.mp h
  obtain ⟨_, -, h⟩ := bind_eq_ok.mp h
  obtain ⟨_, -, h⟩ := bind_eq_ok.mp h
  obtain ⟨_, -, h⟩ := bind_eq_ok.mp h
  obtain ⟨timeout, htimeout, h⟩ := bind_eq_ok.mp h
  obtain ⟨id, hid, h⟩ := bind_eq_ok.mp h
  obtain ⟨depends, hdepends, h⟩ := bind_eq_ok.mp h
  cases h
  unfold onlyFields at hd
  split at hd
  · split_ifs at hd
    cases hd
    exact ⟨rfl, hid, htimeout, hdepends⟩
  · cases hd

def idempotencyConflict : Exc :=
  refusal 409 "idempotency_conflict" "idempotency_key was already used for a different task" []

theorem wp_append_created {d : Draft} {e : Event} {id : Str}
    (h : Consistent (fun _ => False) P Q X c) (he : Drafted d e) (htype : d.type = .taskCreated)
    (hid : d.taskId = some id) (hlength : id.length ≤ 37) (hkey : d.dedupeKey = none) :
  wp (append e) (fun _ c' => Consistent (fun _ => False) P Q X c')
    (fun why c' => (why.isFault = true ∧ Consistent (fun _ => False) P Q X c') ∨
      (∃ message, why = .dedupeConflict message) ∧
        Consistent (fun type => type = .taskCreated) P Q X c' ∧ Untouched c c') c
  := by
  have hetype : e.type = .taskCreated := he.type.trans htype
  cases htask : c.journal.task id with
  | none =>
    apply wp_mono (wp_append_clear h.written
      (clear_of_created h.written he htype hid hlength hkey htask))
    · rintro r c' ⟨-, -, hsame, hraised, hwritten, hextends⟩
      exact h.created htask (he.taskId.trans hid) hetype hsame hraised hwritten hextends
    · rintro why c' ⟨hwhy, hfailed⟩
      exact .inl ⟨hwhy, h.failed hfailed hwhy⟩
  | some s =>
    obtain ⟨x, hx, hxkey⟩ := h.written.created_of_known htask
    have hexisting : c.journal.existing e = some x := by
      have hekey : e.dedupeKey = defaultDedupeKey .taskCreated (some id) none none none := by
        rw [he.key, Draft.key, hkey, htype, hid]
        rfl
      rw [Journal.existing, hekey]
      exact Journal.getEventByDedupeKey_of_mem hx hxkey
    apply wp_mono (wp_append_existing he.unsealed hexisting)
    · rintro r c' ⟨-, -, hsame, hraised, hjournal⟩
      exact h.congr hjournal hsame.stopping hraised hsame.holder hsame.verifyQueue hsame.verifying
    · rintro why c' ⟨hfault | hconflict, hfailed⟩
      · exact .inl ⟨hfault, h.failed hfailed hfault⟩
      · refine .inr ⟨hconflict, (h.permit (by simp)).noted hfailed fun _ => ⟨hetype, hconflict⟩,
          hfailed.journal, hfailed.same.leases, hfailed.same.verifyQueue⟩

/-- The end of `createTask`: the event is appended. -/
def appendCreated (e : Event) (taskId : Str) : Act CreateReply := do
  let result ← tryCatch (append e) fun
    | .dedupeConflict _ => throw idempotencyConflict
    | why => throw why
  return { status := if result.duplicate then 200 else 201, taskId, duplicate := result.duplicate }

theorem wp_createTask
    (h : Consistent (fun _ => False) P Q X c) :
  wp (createTask body uuid busy) (fun _ c' => Consistent (fun _ => False) P Q X c')
    (fun why c' => Raises (fun type => type = .taskCreated ∧ why = idempotencyConflict) P Q X c why c')
    c
  := by
  have hpermit : ∀ {why : Exc} {c' : Controller}, Consistent (fun _ => False) P Q X c' →
      Consistent (fun type => type = .taskCreated ∧ why = idempotencyConflict) P Q X c' :=
    fun h => h.permit (by simp)
  unfold createTask
  apply wp_writable fun why hwhy =>
    .at_once (hpermit h) (Exc.not_refusal_of_plain hwhy)
  intro _ _
  apply wp_checked (fun why hwhy =>
    .at_once (hpermit h) (Exc.not_refusal_of_plain hwhy)) (throws_checkCreation body uuid)
  rintro ⟨taskId, body', timeoutS, dependsOn⟩ hcheck
  dsimp only
  rw [wp_bind]
  apply wp_requestedEvent
  · intro e draws he
    have h₁ : Consistent (fun _ => False) P Q X { c with draws := draws } :=
      h.congr rfl rfl rfl (fun _ => rfl) rfl rfl
    have hraised : ∀ why, why.isPlain = true →
        Raises (fun type => type = .taskCreated ∧ why = idempotencyConflict) P Q X c why
          { c with draws := draws } :=
      fun why hwhy => ⟨Exc.not_refusal_of_plain hwhy, hpermit h₁, fun _ => ⟨rfl, rfl, rfl⟩⟩
    have hlength := length_newTaskId (checkCreation_eq_ok hcheck).2.1
    have happend : wp (appendCreated e taskId) (fun _ c' => Consistent (fun _ => False) P Q X c')
        (fun why c' => Raises (fun type => type = .taskCreated ∧ why = idempotencyConflict) P Q X
          c why c') { c with draws := draws } := by
      simp only [appendCreated, wp_bind, wp_tryCatch, wp_pure]
      apply wp_mono (wp_append_created h₁ he rfl rfl hlength rfl)
      · rintro r c' h'
        exact h'
      · rintro why c' (⟨hfault, h'⟩ | ⟨⟨message, rfl⟩, h', huntouched⟩)
        · cases why <;> exact .of_fault (hpermit h') hfault
        · refine ⟨rfl, h'.permit fun _ htype => ⟨htype, rfl⟩, fun _ => ?_⟩
          exact ⟨huntouched.journal, huntouched.leases, huntouched.verifyQueue⟩
    apply wp_unlocked hraised
    cases dependsOn with
    | none => exact happend
    | some d =>
      dsimp only
      rw [wp_bind]
      apply wp_readTask
      · split
        · exact hraised _ rfl
        · exact happend
      · intro why hwhy _
        exact hraised why (Exc.plain_of_fault hwhy)
  · intro why draws hwhy
    exact ⟨Exc.not_refusal_of_plain hwhy.plain, hpermit (h.congr rfl rfl rfl (fun _ => rfl) rfl rfl),
      fun _ => ⟨rfl, rfl, rfl⟩⟩

/-! ### Starts -/

theorem wp_claimOf {d : Str} {normal : Event → Controller → Prop}
    (hnormal : ∀ e, c.journal.claimForDispatch d = some e → normal e c)
    (hraised : ∀ why, why.isPlain = true → raised why c) :
  wp (claimOf d) normal raised c
  := by
  unfold claimOf
  rw [wp_bind]
  apply wp_readClaim
  · cases hclaim : c.journal.claimForDispatch d with
    | none => exact hraised _ rfl
    | some e => exact hnormal e hclaim
  · intro why hwhy
    exact hraised why (Exc.plain_of_fault hwhy)

variable {s : TaskState}

theorem wp_record_started {claim : Event} {d : Str} (h : Consistent L P Q X c)
    (hs : c.journal.task s.taskId = some s) (hstatus : s.status = .claimed)
    (hd : s.dispatchId = some d) (hclaim : c.journal.claimForDispatch d = some claim) :
  wp (record {
      type := .taskStarted, taskId := s.taskId, attempt := claim.attempt, dispatchId := d
      workerId := claim.workerId })
    (fun _ c' => Consistent L P Q X c' ∧ ∃ e s', Drafted {
      type := .taskStarted, taskId := s.taskId, attempt := s.attempt, dispatchId := s.dispatchId
      workerId := s.workerId } e ∧ s'.taskId = s.taskId ∧ s' = { s with
      status := .running, started := true } ∧ Stored c e s' c')
    (fun why c' => why.isFault = true ∧ Consistent L P Q X c') c
  := by
  have hheld : s.status.isHeld = true := by rw [hstatus]; rfl
  obtain ⟨-, -, hattempt, -, hworker⟩ := h.written.claim_of_dispatch hs hheld hd hclaim
  have hlawful := (Journal.recorded_of_task hs).1
  rw [hattempt, hworker, ← hd]
  apply wp_mono (wp_record_alike
    (p := fun _ s' => s' = { s with status := .running, started := true }) h hs
    (proper_started hlawful hheld
      ⟨h.written.length_taskId hs, fun d => h.written.length_dispatchId hs hheld⟩) ?_)
  · rintro r c' ⟨h', -, -, hstored⟩
    exact ⟨h', hstored⟩
  · rintro why c' herror
    exact herror
  · intro e he
    refine ⟨_, he.fits rfl hs rfl (h.written.start_free hs hstatus) (by rintro ⟨⟩)
      (.started he.type hstatus ⟨he.attempt, he.dispatchId, fun _ _ => he.workerId⟩), ?_, rfl⟩
    refine ⟨rfl, by rw [hstatus]; rfl, fun _ => ⟨rfl, rfl⟩, rfl, by rintro ⟨⟩, ?_⟩
    simp [TaskState.Decided]

theorem wp_start (h : Consistent L P Q X c) :
  wp (start body busy) (fun _ c' => Consistent L P Q X c') (Raises L P Q X c) c
  := by
  have hraised : ∀ why, why.isPlain = true → Raises L P Q X c why c := fun why hwhy =>
    .at_once h (Exc.not_refusal_of_plain hwhy)
  unfold start
  apply wp_writable hraised
  intro _ _
  apply wp_checked hraised (throws_onlyFields _ _)
  intro body' _
  apply wp_checked hraised (throws_requireId _ _)
  intro d _
  apply wp_unlocked hraised
  rw [wp_bind]
  apply wp_claimOf _ hraised
  intro claim hclaim
  dsimp only
  split
  · exact hraised _ rfl
  · rw [wp_bind]
    apply wp_readTask
    · cases hs : c.journal.task claim.task with
      | none => exact hraised _ rfl
      | some s =>
        simp only [require, wp_bind, wp_pure]
        split
        · exact hraised _ rfl
        · next hactive =>
          split
          · exact hraised _ rfl
          · split
            · exact h
            · next hrunning =>
              simp only [not_or, not_not, Bool.not_eq_false] at hactive
              obtain ⟨hd, hactive⟩ := hactive
              have hstatus : s.status = .claimed := by
                cases hstatus : s.status <;> simp_all [TaskStatus.isActiveLease]
              rw [← Journal.taskId_of_task hs] at hs
              simp only [wp_bind, wp_pure]
              apply wp_mono (wp_record_started h hs hstatus hd hclaim)
              · rintro _ c' ⟨h', -⟩
                exact h'
              · rintro why c' ⟨hwhy, h'⟩
                exact .of_fault h' hwhy
    · intro why hwhy _
      exact hraised why (Exc.plain_of_fault hwhy)

/-! ### Cancellations -/

variable {actor : Option Str} {reason : Str}

theorem wp_record_cancelled
    (h : Consistent L P Q X c) (hs : c.journal.task s.taskId = some s)
    (hrequested : s.cancelRequested = true) (hstatus : s.status = .queued ∨ s.status = .blocked)
    (hactor : ∀ a, actor = some a → isId a) (hhuman : s.status = .blocked → actor ≠ none) :
  wp (record (cancelDraft .taskCancelled s actor reason)) (fun _ c' => Consistent L P Q X c' ∧
      ∃ t, c'.journal.task s.taskId = some t)
    (fun why c' => why.isFault = true ∧ Consistent L P Q X c') c
  := by
  have hid := (Journal.recorded_of_task hs).1.id
  have hidle : s.status.isActiveLease = false ∧ s.Decided := by
    rcases hstatus with hstatus | hstatus <;>
      simp [hstatus, TaskStatus.isActiveLease, TaskState.Decided]
  apply wp_mono (wp_record_alike (p := fun _ _ => True) h hs
    (proper_cancel hid (by simp) (fun _ _ => rfl) hactor reason) ?_)
  · rintro r c' ⟨h', -, -, e, s', -, hid', -, hstored⟩
    obtain ⟨seq, hs'⟩ := hstored.task hid'
    exact ⟨h', _, hs'⟩
  · rintro why c' herror
    exact herror
  · intro e he
    have hkey : ∀ s', Step s e s' → Fits c.journal e s s' := fun s' step =>
      he.fits rfl hs rfl (free_of_keyless rfl) (by rintro ⟨⟩) step
    have halike : ∀ s' : TaskState, s'.taskId = s.taskId → s'.status = .cancelled →
        s'.leaseTtlS = s.leaseTtlS → Alike s s' := by
      intro s' hid' hcancelled httl
      refine ⟨hid', ?_, ?_, httl, ?_, ?_⟩
      · rw [hcancelled, hidle.1]
        rfl
      · simp [hidle.1]
      · simp [hcancelled]
      · simp [TaskState.Decided, hcancelled]
    rcases hstatus with hstatus | hstatus
    · refine ⟨_, hkey _ (.cancelled he.type (by simp [hstatus]) hrequested (by simp [hstatus])), ?_,
        trivial⟩
      exact halike _ rfl rfl rfl
    · obtain ⟨a, rfl⟩ := Option.ne_none_iff_exists'.mp (hhuman hstatus)
      have hget : e.get (text "actor") ≠ .null := by
        rw [EventFields.get, he.payload]
        simp [cancelDraft, optionalMember, Json.get]
      refine ⟨_, hkey _ (.cancelledBlocked he.type hstatus hrequested hget), ?_, trivial⟩
      exact halike _ rfl rfl rfl

theorem wp_record_cancelRequested
    (h : Consistent L P Q X c) (hs : c.journal.task s.taskId = some s)
    (hwanted : s.cancelRequested = false) (hlive : s.status.isTerminal = false)
    (hactor : ∀ a, actor = some a → isId a) :
  wp (record (cancelDraft .taskCancelRequested s actor reason))
    (fun _ c' => Consistent L P Q X c' ∧ ∃ seq, c'.journal.task s.taskId =
      some { s with cancelRequested := true, updatedSeq := seq })
    (fun why c' => why.isFault = true ∧ Consistent L P Q X c') c
  := by
  have hid := (Journal.recorded_of_task hs).1.id
  apply wp_mono (wp_record_alike (p := fun _ s' => s' = { s with cancelRequested := true }) h hs
    (proper_cancel hid (by simp) (fun _ _ => rfl) hactor reason) ?_)
  · rintro r c' ⟨h', -, -, e, s', -, hid', rfl, hstored⟩
    obtain ⟨seq, hs'⟩ := hstored.task hid'
    exact ⟨h', seq, hs'⟩
  · rintro why c' herror
    exact herror
  · intro e he
    refine ⟨_, he.fits rfl hs rfl (free_of_keyless rfl) (by rintro ⟨⟩)
      (.cancelRequested he.type hlive hwanted), ?_, rfl⟩
    exact ⟨rfl, rfl, fun _ => ⟨rfl, rfl⟩, rfl, fun hv => ⟨hv, rfl, rfl⟩, fun hd => hd⟩

def cancelNow (s : TaskState) (actor reason : Option Str) : Act TaskStatus := do
  if s.status = .queued ∨ s.status = .blocked then
    let _ ← record (cancelDraft .taskCancelled s actor (reason.getD (text "cancelled")))
  else if s.status = .retryPending then
    Controller.decide s
  let task ← readTask s.taskId
  let s ← require task
  return s.status

theorem wp_cancelNow {reason : Option Str} (h : Consistent L P Q X c)
    (hs : c.journal.task s.taskId = some s) (hrequested : s.cancelRequested = true)
    (hactor : ∀ a, actor = some a → isId a) (hhuman : s.status = .blocked → actor ≠ none) :
  wp (cancelNow s actor reason) (fun _ c' => Consistent L P Q X c')
    (fun why c' => why.isFault = true ∧ Consistent L P Q X c') c
  := by
  have hread : ∀ {c' : Controller} {t : TaskState}, Consistent L P Q X c' →
      c'.journal.task s.taskId = some t → wp (do
        let task ← readTask s.taskId
        let s ← require task
        return s.status) (fun _ c' => Consistent L P Q X c')
        (fun why c' => why.isFault = true ∧ Consistent L P Q X c') c' := by
    intro c' t h' ht
    rw [wp_bind, wp_readTask_known ht]
    exact h'
  unfold cancelNow
  dsimp only
  split
  · next hstatus =>
    rw [wp_bind]
    apply wp_mono (wp_record_cancelled h hs hrequested hstatus hactor hhuman)
    · rintro _ c' ⟨h', t, ht⟩
      exact hread h' ht
    · rintro why c' herror
      exact herror
  · split
    · next hstatus =>
      rw [wp_bind]
      apply wp_mono (wp_decide (h.mono fun _ => .inl) hs hstatus)
      · rintro _ c' ⟨h', hsettles⟩
        obtain ⟨t, ht, -⟩ := hsettles.task
        exact hread h' ht
      · rintro why c' herror
        exact herror
    · exact hread h hs

theorem wp_cancelTask {reason : Option Str} (h : Consistent L P Q X c)
    (hs : c.journal.task s.taskId = some s) (hactor : ∀ a, actor = some a → isId a) :
  wp (cancelTask s actor reason) (fun _ c' => Consistent L P Q X c') (Raises L P Q X c) c
  := by
  unfold cancelTask
  dsimp only
  split
  · exact .at_once h rfl
  · next hlive =>
    split
    · exact .at_once h rfl
    · next hhuman =>
      have hhuman : s.status = .blocked → actor ≠ none := fun hstatus hnone =>
        hhuman ⟨hstatus, hnone⟩
      split
      · next hrequested =>
        apply wp_mono (wp_cancelNow h hs hrequested hactor hhuman)
        · intro _ _ h'
          exact h'
        · rintro why c' ⟨hwhy, h'⟩
          exact .of_fault h' hwhy
      · next hwanted =>
        rw [wp_bind]
        apply wp_mono (wp_record_cancelRequested h hs (by simpa using hwanted)
          (by simpa using hlive) hactor)
        · rintro _ c₁ ⟨h₁, seq, hs₁⟩
          rw [wp_bind, wp_readTask_known hs₁, wp_bind, wp_require]
          refine wp_mono (wp_cancelNow
            (s := { s with cancelRequested := true, updatedSeq := seq })
            h₁ hs₁ rfl hactor hhuman) ?_ ?_
          · intro _ _ h'
            exact h'
          · rintro why c' ⟨hwhy, h'⟩
            exact .of_fault h' hwhy
        · rintro why c₁ ⟨hwhy, h₁⟩
          exact .of_fault h₁ hwhy

theorem wp_cancel (h : Consistent L P Q X c) :
  wp (cancel taskId body busy) (fun _ c' => Consistent L P Q X c') (Raises L P Q X c) c
  := by
  have hraised : ∀ why, why.isPlain = true → Raises L P Q X c why c := fun why hwhy =>
    .at_once h (Exc.not_refusal_of_plain hwhy)
  unfold cancel
  apply wp_writable hraised
  intro _ _
  apply wp_checked hraised (throws_onlyFields _ _)
  intro body' _
  apply wp_checked hraised (throws_optionalId _ _)
  intro actor hactor
  apply wp_checked hraised (throws_optionalReason _)
  intro reason _
  apply wp_unlocked hraised
  rw [wp_bind]
  apply wp_readTask
  · cases hs : c.journal.task taskId with
    | none => exact hraised _ rfl
    | some s =>
      rw [← Journal.taskId_of_task hs] at hs
      exact wp_cancelTask h hs (isId_of_optionalId hactor)
  · intro why hwhy _
    exact hraised why (Exc.plain_of_fault hwhy)

/-! ### Human decisions -/

variable {decision : HumanDecision} {attempt : Int}

omit [Platform] in
theorem checkResolve_eq_ok {actor : Str}
    (h : checkResolve body = .ok (decision, actor, attempt, reason)) :
  isId actor ∧ (1 ≤ attempt ∧ attempt ≤ MAX_ATTEMPTS_LIMIT) ∧ blank reason = false
  := by
  obtain ⟨body', -, h⟩ := bind_eq_ok.mp h
  obtain ⟨name, -, h⟩ := bind_eq_ok.mp h
  obtain ⟨a, ha, h⟩ := bind_eq_ok.mp h
  obtain ⟨n, hn, h⟩ := bind_eq_ok.mp h
  obtain ⟨r, hr, h⟩ := bind_eq_ok.mp h
  cases h
  refine ⟨isId_of_requireId ha, ?_, ?_⟩
  · unfold requireInt at hn
    split at hn
    · split_ifs at hn with hrange
      cases hn
      exact hrange
    · cases hn
  · unfold requireReason at hr
    split at hr
    · split_ifs at hr with hreason
      cases hr
      exact hreason.1
    · cases hr

theorem fits_decided {j : Journal}
    {actor : Str} {e : Event} (hs : j.task s.taskId = some s)
    (he : Drafted (decidedDraft decision s.taskId attempt actor reason) e)
    (hdecision : decision ≠ .cancel) (hnew : j.existing e = none) (hstatus : s.status = .blocked)
    (hattempt : attempt = s.attempt)
    (hretry : decision = .retryAuthorized → s.cancelRequested = false ∧
      s.attempt < MAX_ATTEMPTS_LIMIT) :
  ∃ s', Fits j e s s' ∧ Alike s s'
  := by
  have hkey : ∀ s', Step s e s' → Fits j e s s' := fun s' step =>
    he.fits rfl hs rfl (he.free rfl hnew) (by cases decision <;> rintro ⟨⟩) step
  have hattempt' : e.attempt = some s.attempt := by
    rw [he.attempt, decidedDraft, hattempt]
  cases decision with
  | cancel => exact absurd rfl hdecision
  | effectConfirmed =>
    refine ⟨_, hkey _ (.effectConfirmed he.type hstatus hattempt'), rfl, ?_, ?_, rfl, ?_, ?_⟩ <;>
      simp [hstatus, TaskStatus.isActiveLease, TaskState.Decided]
  | retryAuthorized =>
    obtain ⟨hwanted, hlimit⟩ := hretry rfl
    refine ⟨_, hkey _ (.retryAuthorized he.type hstatus hattempt' hwanted hlimit), rfl, ?_, ?_,
      rfl, ?_, ?_⟩ <;>
      simp [hstatus, TaskStatus.isActiveLease, TaskState.Decided]

theorem wp_requireBlocked {next : Unit → Act α}
    (hraised : ∀ why, why.isPlain = true → raised why c)
    (hnext : s.status = .blocked → attempt = s.attempt → wp (next ()) normal raised c) :
  wp (requireBlocked s attempt >>= next) normal raised c
  := by
  simp only [requireBlocked, wp_bind]
  split
  · exact hraised _ rfl
  · next hstatus =>
    split
    · exact hraised _ rfl
    · next hattempt => exact hnext (by simpa using hstatus) (by simpa using hattempt)

theorem wp_decideBlocked {actor : Str} (h : Consistent L P Q X c)
    (hs : c.journal.task s.taskId = some s)
    (hdecision : decision ≠ .cancel) (hactor : isId actor)
    (hattempt : 1 ≤ attempt ∧ attempt ≤ MAX_ATTEMPTS_LIMIT) (hreason : blank reason = false) :
  wp (decideBlocked s s.taskId decision actor attempt reason)
    (fun _ c' => Consistent L P Q X c') (Raises L P Q X c) c
  := by
  have hid := (Journal.recorded_of_task hs).1.id
  simp only [decideBlocked, wp_bind, wp_noting]
  apply wp_mono (wp_newEvent (proper_decided hdecision hid (h.written.length_taskId hs) hattempt
    hactor hreason))
  · rintro e _ ⟨he, draws, rfl⟩
    have h₁ : Consistent L P Q X { c with draws := draws } :=
      h.congr rfl rfl rfl (fun _ => rfl) rfl rfl
    have hraised : ∀ why, why.isPlain = true → Raises L P Q X c why { c with draws := draws } :=
      fun why hwhy => ⟨Exc.not_refusal_of_plain hwhy, h₁, fun _ => ⟨rfl, rfl, rfl⟩⟩
    apply wp_readEventByKey
    · cases hexisting : e.dedupeKey.bind c.journal.getEventByDedupeKey with
      | some x =>
        dsimp only
        split
        · exact hraised _ rfl
        · exact h₁
      | none =>
        apply wp_requireBlocked hraised
        intro hstatus hsame
        split
        · exact hraised _ rfl
        · next hwanted =>
          split
          · exact hraised _ rfl
          · next hlimit =>
            have hretry : decision = .retryAuthorized → s.cancelRequested = false ∧
                s.attempt < MAX_ATTEMPTS_LIMIT := by
              intro hd
              simp only [hd, true_and, Bool.not_eq_true, not_le] at hwanted hlimit
              exact ⟨hwanted, hlimit⟩
            obtain ⟨s', hfits, halike⟩ :=
              fits_decided hs he hdecision hexisting hstatus hsame hretry
            rw [wp_bind]
            apply wp_mono (wp_append_alike h₁ hfits halike)
            · rintro _ c' ⟨h', hstored⟩
              obtain ⟨seq, hs'⟩ := hstored.task halike.taskId
              rw [wp_bind, wp_readTask_known hs', wp_bind, wp_require]
              exact h'
            · rintro why c' ⟨hwhy, h'⟩
              exact .of_fault h' hwhy
    · intro why hwhy
      exact hraised why (Exc.plain_of_fault hwhy)
  · rintro why _ ⟨hwhy, draws, rfl⟩
    exact .of_fault (h.failed (failed_of_raise draws _ why) hwhy) hwhy

theorem wp_resolve (h : Consistent L P Q X c) :
  wp (resolve taskId body busy) (fun _ c' => Consistent L P Q X c') (Raises L P Q X c) c
  := by
  have hraised : ∀ why, why.isPlain = true → Raises L P Q X c why c := fun why hwhy =>
    .at_once h (Exc.not_refusal_of_plain hwhy)
  unfold resolve
  apply wp_writable hraised
  intro _ _
  apply wp_checked hraised (throws_checkResolve _)
  rintro ⟨decision, actor, attempt, reason⟩ hcheck
  obtain ⟨hactor, hattempt, hreason⟩ := checkResolve_eq_ok hcheck
  apply wp_unlocked hraised
  rw [wp_bind]
  apply wp_readTask
  · cases hs : c.journal.task taskId with
    | none => exact hraised _ rfl
    | some s =>
      obtain rfl := Journal.taskId_of_task hs
      dsimp only
      split
      · apply wp_requireBlocked hraised
        intro _ _
        rw [wp_bind]
        apply wp_mono (wp_cancelTask h hs ?_)
        · intro _ _ h'
          exact h'
        · intro _ _ hraises
          exact hraises
        · rintro a ⟨⟩
          exact hactor
      · next hdecision => exact wp_decideBlocked h hs hdecision hactor hattempt hreason
  · intro why hwhy _
    exact hraised why (Exc.plain_of_fault hwhy)

end Controller

end Invariant

end Courier
