import Courier.Controller.Requests

/-!
# The journal only grows

Whatever a controller does, it journals by `append`, which adds to the end.  So every event that is
stored stays stored, and every task that is known stays known, whatever the controller is asked and
whether it answers, refuses or fails.
-/

namespace Courier

open Program

variable [Platform]

def EventType.isRoutine : EventType → Bool
  | .taskCreated | .leaseExpired => false
  | _ => true

/-- The event neither creates a task, nor ends a lease, nor asks a human. -/
def EventType.isUnasking : EventType → Bool
  | .taskCreated | .leaseExpired | .taskBlocked => false
  | _ => true

omit [Platform] in
theorem EventType.routine_of_unasking {type : EventType} (h : type.isUnasking = true) :
  type.isRoutine = true
  := by
  cases type <;> first | rfl | cases h

namespace Journal

theorem known_of_prefix {j j' : Journal} {id : Str} {s : TaskState} (h : j.events <+: j'.events)
    (hs : j.task id = some s) :
  ∃ s', j'.task id = some s'
  := by
  cases hevents : eventsOf id j.events with
  | nil =>
    have hrun := j.run_of_task id
    rw [hevents, hs, Run.accepts_nil] at hrun
    cases hrun
  | cons e rest =>
    have hmem : e ∈ eventsOf id j.events := by simp [hevents]
    obtain ⟨he, htask⟩ := List.mem_filter.mp hmem
    exact known_of_event (h.subset he) (by simpa using htask)

end Journal

namespace Controller

variable {I : Option Rat → Journal → Dict Str Lease → Prop} {j : Journal} {α : Type}

def Stores (I : Option Rat → Journal → Dict Str Lease → Prop) (c : Controller) : Prop :=
  I c.lastTick c.journal c.leases

abbrev Grown (j : Journal) : Controller → Prop :=
  Stores fun _ j' _ => j.events <+: j'.events

/-! ### Parts of the programs -/

variable {d : Draft}

theorem keeps_drafted {f : Event → Act α} (hf : ∀ e, Drafted d e → Keeps (Stores I) (f e)) :
  Keeps (Stores I) (noting d.type (newEvent d) >>= f)
  := by
  intro c h
  simp only [newEvent, nextDraw, wp_bind, wp_noting, wp_get, wp_set, wp_pure, wp_lift]
  exact ⟨fun e he => hf e (drafted_of_build he) { c with draws := _ } h, fun _ _ => h⟩

theorem keeps_requested {f : Event → Act α} (hf : ∀ e, Drafted d e → Keeps (Stores I) (f e)) :
  Keeps (Stores I) (requestedEvent d >>= f)
  := by
  intro c h
  rw [wp_bind]
  exact wp_requestedEvent (fun e draws he => hf e he { c with draws := draws } h) fun _ _ _ => h

structure Lasts (I : Option Rat → Journal → Dict Str Lease → Prop) : Prop where
  append : ∀ e : Event, e.type.isRoutine = true → Keeps (Stores I) (append e)
  erase : ∀ {last j leases} (d : Str), I last j leases → I last j (leases.erase d)

structure Endures (I : Option Rat → Journal → Dict Str Lease → Prop) : Prop where
  append : ∀ e : Event, e.type.isUnasking = true → Keeps (Stores I) (append e)
  decide : ∀ (s : TaskState) (c : Controller), Stores I c → c.journal.task s.taskId = some s →
    wp (Controller.decide s) (fun _ c' => Stores I c') (fun _ c' => Stores I c') c
  erase : ∀ {last j leases} (d : Str), I last j leases → I last j (leases.erase d)

theorem keeps_recorded (hI : Endures I) (hd : d.type.isUnasking = true)
    {f : AppendResult → Act α} (hf : ∀ r, Keeps (Stores I) (f r)) :
  Keeps (Stores I) (record d >>= f)
  := keeps_bind (keeps_drafted fun e he => hI.append e (he.type ▸ hd)) hf

omit [Platform] in
theorem routine_decisionDraft (s : TaskState) (decision : Decision) :
  (decisionDraft s decision).type.isRoutine = true
  := by
  cases decision <;> rfl

theorem Lasts.endures (hI : Lasts I) :
  Endures I
  := by
  refine ⟨fun e he => hI.append e (EventType.routine_of_unasking he), fun s c hc _ => ?_, hI.erase⟩
  have hdecide : Keeps (Stores I) (Controller.decide s) := by
    apply keeps_bind (keeps_lift _)
    intro _
    apply keeps_bind
    · exact keeps_drafted fun e he => hI.append e (he.type ▸ routine_decisionDraft s _)
    · intro _
      exact keeps_pure _
  exact hdecide c hc

omit [Platform] in
theorem unasking_verdictDraft (s : TaskState) (verdict : Verdict) :
  (verdictDraft s verdict).type.isUnasking = true
  := by
  unfold verdictDraft
  dsimp only
  split <;> rfl

theorem grown_append (e : Event) :
  Keeps (Grown j) (append e)
  := by
  intro c h
  apply wp_append_of
  · intro r c' happend _ _
    obtain ⟨-, hj, -⟩ | ⟨-, -, hextends, -⟩ := Journal.append_ok happend
    · show j.events <+: c'.journal.events
      rw [hj]
      exact h
    · obtain ⟨seq, prevHash, hash, hevents, -⟩ := hextends.events
      show j.events <+: c'.journal.events
      rw [hevents]
      exact h.trans (List.prefix_append _ _)
  · intro why c' _ hfailed
    show j.events <+: c'.journal.events
    rw [hfailed.journal]
    exact h

theorem keeps_require {o : Option α} :
  Keeps (Stores I) (require o)
  := by
  cases o with
  | none => exact keeps_throw _
  | some a => exact keeps_pure a

theorem keeps_readTask (taskId : Str) :
  Keeps (Stores I) (readTask taskId)
  := by
  apply keeps_bind (keeps_lift _)
  intro _
  apply keeps_get
  intro c _
  exact keeps_pure _

theorem keeps_current {taskId : Str} {f : TaskState → Act α}
    (hf : ∀ s c, Stores I c → c.journal.task s.taskId = some s →
      wp (f s) (fun _ c' => Stores I c') (fun _ c' => Stores I c') c) :
  Keeps (Stores I) (readTask taskId >>= fun task => require task >>= f)
  := by
  intro c h
  rw [wp_bind]
  apply wp_readTask
  · cases hs : c.journal.task taskId with
    | none => exact h
    | some s =>
      rw [wp_bind, wp_require]
      apply hf s c h
      rw [Journal.taskId_of_task hs, hs]
  · exact fun _ _ _ => h

theorem keeps_readEventByKey (key : Option Str) :
  Keeps (Stores I) (readEventByKey key)
  := by
  apply keeps_bind (keeps_lift _)
  intro _
  apply keeps_get
  intro c _
  exact keeps_pure _

theorem keeps_readClaim (dispatchId : Str) :
  Keeps (Stores I) (readClaim dispatchId)
  := by
  apply keeps_bind (keeps_lift _)
  intro _
  apply keeps_get
  intro c _
  exact keeps_pure _

theorem keeps_claimOf (dispatchId : Str) :
  Keeps (Stores I) (claimOf dispatchId)
  := by
  apply keeps_bind (keeps_readClaim dispatchId)
  intro claim
  cases claim with
  | none => exact keeps_throw _
  | some e => exact keeps_pure e

theorem keeps_locked {m : Act α} (busy : Bool) (hm : Keeps (Stores I) m) :
  Keeps (Stores I) (locked busy m)
  := by
  cases busy with
  | true => exact keeps_throw _
  | false => exact hm

theorem keeps_requireWritable :
  Keeps (Stores I) requireWritable
  := by
  apply keeps_get
  intro c _
  dsimp only
  split
  · exact keeps_raise _ _
  · split
    · exact keeps_throw _
    · exact keeps_pure _

theorem keeps_checked {β : Type} {x : Except Exc β} {f : β → Act α}
    (hf : ∀ b, Keeps (Stores I) (f b)) :
  Keeps (Stores I) (lift x >>= f)
  := keeps_bind (keeps_lift x) hf

/-! ### Requests -/

variable {uuid : Uuid}

theorem keeps_createTask {body : Json} {busy : Bool}
    (happend : ∀ c taskId d timeoutS dependsOn e, Stores I c → body = .obj d →
      newTaskId d uuid = .ok taskId → Drafted (createdDraft taskId d timeoutS dependsOn) e →
      (∀ k, dependsOn = some k → ∃ t, c.journal.task k = some t) →
      wp (append e) (fun _ c' => Stores I c') (fun _ c' => Stores I c') c) :
  Keeps (Stores I) (createTask body uuid busy)
  := by
  apply keeps_bind keeps_requireWritable
  intro _ c hc
  rw [wp_bind, wp_lift]
  refine ⟨?_, fun _ _ => hc⟩
  rintro ⟨taskId, d, timeoutS, dependsOn⟩ hcheck
  obtain ⟨rfl, hid, -, -⟩ := checkCreation_eq_ok hcheck
  dsimp only
  rw [wp_bind]
  apply wp_requestedEvent
  · intro e draws he
    have hstored : ∀ c, Stores I c → (∀ k, dependsOn = some k → ∃ t, c.journal.task k = some t) →
        wp (appendCreated e taskId) (fun _ c' => Stores I c') (fun _ c' => Stores I c') c := by
      intro c hc hknown
      rw [appendCreated, wp_bind, wp_tryCatch]
      apply wp_mono (happend c taskId d timeoutS dependsOn e hc rfl hid he hknown)
      · intro r c' h
        exact h
      · intro why c' h
        cases why <;> exact h
    refine keeps_locked busy ?_ { c with draws := draws } hc
    intro c hc
    cases dependsOn with
    | none => exact hstored c hc (by simp)
    | some k =>
      dsimp only
      rw [wp_bind]
      apply wp_readTask
      · split
        · exact hc
        · next hknown =>
          refine hstored c hc ?_
          rintro _ ⟨⟩
          exact Option.ne_none_iff_exists'.mp hknown
      · exact fun _ _ _ => hc
  · intro why draws _
    exact hc

/-! ### The other requests -/

theorem keeps_failDependent (hI : Endures I) (s : TaskState) (dependsOn why : Str) :
  Keeps (Stores I) (failDependent s dependsOn why)
  := by
  refine keeps_recorded hI rfl ?_
  intro _
  exact keeps_pure _

theorem keeps_verifiedInput (hI : Endures I) (s : TaskState) (dependsOn : Str) :
  Keeps (Stores I) (verifiedInput s dependsOn)
  := by
  apply keeps_bind (keeps_readTask dependsOn)
  intro dependency
  cases dependency with
  | none => exact keeps_failDependent hI _ _ _
  | some dep =>
    dsimp only
    split
    · apply keeps_bind (keeps_readEventByKey _)
      intro result
      cases result with
      | none => exact keeps_failDependent hI _ _ _
      | some result =>
        dsimp only
        split
        · exact keeps_pure _
        · exact keeps_failDependent hI _ _ _
    · split
      · exact keeps_failDependent hI _ _ _
      · exact keeps_pure _

def Begins (I : Option Rat → Journal → Dict Str Lease → Prop) (now : Rat) (d : Str) : Prop :=
  ∀ last j leases (lease : Lease), lease.deadline = now + lease.ttlS → I last j leases →
    I last j (leases.set d lease)

variable {now : Rat}

theorem keeps_claimTask (hI : Endures I) (hbegins : Begins I now (newDispatchId uuid))
    (s : TaskState) (workerId : Str) (bound : Option Json) :
  Keeps (Stores I) (claimTask s workerId uuid now bound)
  := by
  refine keeps_recorded hI rfl ?_
  intro _
  apply keeps_bind
  · exact keeps_modify fun _ h => hbegins _ _ _ _ rfl h
  · intro _
    exact keeps_pure _

theorem keeps_claimFirst (hI : Endures I)
    (hbegins : Begins I now (newDispatchId uuid)) (workerId : Str) (tasks : List TaskState) :
  Keeps (Stores I) (claimFirst workerId uuid now tasks)
  := by
  induction tasks with
  | nil => exact keeps_pure _
  | cons s rest ih =>
    unfold claimFirst
    split
    · exact ih
    · split
      · exact keeps_map (keeps_claimTask hI hbegins _ _ _)
      · apply keeps_bind (keeps_verifiedInput hI _ _)
        intro bound
        cases bound with
        | none => exact ih
        | some bound => exact keeps_map (keeps_claimTask hI hbegins _ _ _)

theorem keeps_claim (hI : Endures I) (hbegins : Begins I now (newDispatchId uuid))
    (body : Json) (busy : Bool) :
  Keeps (Stores I) (claim body uuid now busy)
  := by
  apply keeps_bind keeps_requireWritable
  intro _
  apply keeps_checked
  intro body
  apply keeps_checked
  intro workerId
  apply keeps_locked
  apply keeps_get
  intro c _
  exact keeps_claimFirst hI hbegins _ _

theorem keeps_start (hI : Endures I) (body : Json) (busy : Bool) :
  Keeps (Stores I) (start body busy)
  := by
  apply keeps_bind keeps_requireWritable
  intro _
  apply keeps_checked
  intro body
  apply keeps_checked
  intro dispatchId
  apply keeps_locked
  apply keeps_bind (keeps_claimOf dispatchId)
  intro claim
  dsimp only
  split
  · exact keeps_raise _ _
  apply keeps_bind (keeps_readTask _)
  intro task
  apply keeps_bind keeps_require
  intro s
  split
  · exact keeps_raise _ _
  split
  · exact keeps_raise _ _
  split
  · exact keeps_pure _
  refine keeps_recorded hI rfl ?_
  intro _
  exact keeps_pure _

def Renews (I : Option Rat → Journal → Dict Str Lease → Prop) (workerId : Str) (now : Rat)
    (ids : List Str) : Prop :=
  ∀ last j leases d lease, d ∈ ids → leases.get? d = some lease → lease.workerId = workerId →
    I last j leases → I last j (leases.set d (lease.renewed now))

theorem keeps_renewLeases {workerId : Str} {ids : List Str}
    (hrenews : Renews I workerId now ids) :
  Keeps (Stores I) (renewLeases workerId now ids)
  := by
  induction ids with
  | nil => exact keeps_pure _
  | cons dispatchId rest ih =>
    have ih' := ih fun last j leases d lease hmem =>
      hrenews last j leases d lease (List.mem_cons_of_mem _ hmem)
    intro c h
    unfold renewLeases
    rw [wp_bind, wp_get]
    split
    · exact keeps_bind ih' (fun _ => keeps_pure _) c h
    · next lease hlease =>
      split
      · exact keeps_bind ih' (fun _ => keeps_pure _) c h
      · next hworker =>
        rw [wp_bind]
        apply wp_readTask
        · rw [wp_bind, wp_modify]
          refine keeps_bind keeps_require ?_ _
            (hrenews _ _ _ _ _ List.mem_cons_self hlease (by simpa using hworker) h)
          intro s
          apply keeps_bind ih'
          intro _
          exact keeps_pure _
        · exact fun _ _ _ => h

theorem keeps_confirmStops (hI : Endures I) (reported : List Str) (leases : List Lease) :
  Keeps (Stores I) (confirmStops reported leases)
  := by
  induction leases with
  | nil => exact keeps_pure _
  | cons lease rest ih =>
    unfold confirmStops
    split
    · exact ih
    · apply keeps_bind (keeps_readTask _)
      intro task
      apply keeps_bind keeps_require
      intro s
      dsimp only
      split
      · refine keeps_recorded hI rfl ?_
        intro _
        apply keeps_bind
        · exact keeps_modify fun _ h => hI.erase _ h
        · intro _
          exact ih
      · exact ih

theorem keeps_heartbeat (hI : Endures I) (hrenews : ∀ workerId ids, Renews I workerId now ids)
    (body : Json) (busy : Bool) :
  Keeps (Stores I) (heartbeat body now busy)
  := by
  apply keeps_bind keeps_requireWritable
  intro _
  apply keeps_checked
  intro body
  apply keeps_checked
  intro workerId
  apply keeps_checked
  intro reported
  apply keeps_locked
  apply keeps_bind (keeps_renewLeases (hrenews _ _))
  intro _
  apply keeps_get
  intro c _
  apply keeps_bind (keeps_confirmStops hI _ _)
  intro _
  exact keeps_pure _

theorem keeps_discardLate (hI : Endures I) (hd : d.type.isUnasking = true) :
  Keeps (Stores I) (discardLate d)
  := by
  apply keeps_drafted
  intro late hlate
  apply keeps_tryCatch
  · apply keeps_bind (hI.append late (hlate.type ▸ hd))
    intro _
    exact keeps_pure _
  · intro why
    cases why <;> first | exact keeps_pure _ | exact keeps_throw _

theorem keeps_result (hI : Endures I) (body : Json) (busy : Bool) :
  Keeps (Stores I) (result body busy)
  := by
  apply keeps_bind keeps_requireWritable
  intro _
  apply keeps_checked
  rintro ⟨dispatchId, resultId, payload⟩
  apply keeps_locked
  apply keeps_bind (keeps_claimOf dispatchId)
  intro claim
  apply keeps_requested
  intro candidate hcandidate
  apply keeps_bind (keeps_readEventByKey _)
  intro existing
  cases existing with
  | some existing =>
    dsimp only
    split
    · exact keeps_pure _
    · exact keeps_throw _
  | none =>
    apply keeps_bind (keeps_readTask _)
    intro task
    apply keeps_bind keeps_require
    intro s
    dsimp only
    split
    · split
      · exact keeps_raise _ _
      · apply keeps_bind (hI.append candidate (by rw [hcandidate.type]; rfl))
        intro appended
        apply keeps_bind
        · exact keeps_modify fun _ h => hI.erase _ h
        · intro _
          exact keeps_pure _
    · split
      · exact keeps_raise _ _
      · apply keeps_bind (keeps_discardLate hI rfl)
        intro _
        exact keeps_throw _

theorem keeps_complete (hI : Endures I) (s : TaskState) :
  Keeps (Stores I) (complete s)
  := by
  refine keeps_recorded hI rfl ?_
  intro _
  exact keeps_pure _

variable {s : TaskState} {c : Controller}

theorem stores_cancelNow (hI : Endures I) (actor reason : Option Str)
    (hc : Stores I c) (hs : c.journal.task s.taskId = some s) :
  wp (cancelNow s actor reason) (fun _ c' => Stores I c') (fun _ c' => Stores I c') c
  := by
  have hread : Keeps (Stores I) (do
      let task ← readTask s.taskId
      let s ← require task
      return s.status) := by
    apply keeps_bind (keeps_readTask _)
    intro task
    apply keeps_bind keeps_require
    intro s
    exact keeps_pure _
  unfold cancelNow
  dsimp only
  split
  · exact keeps_recorded hI rfl (fun _ => hread) c hc
  · split
    · rw [wp_bind]
      apply wp_mono (hI.decide s c hc hs)
      · intro _ c' h
        exact hread c' h
      · intro _ _ h
        exact h
    · exact hread c hc

theorem stores_cancelTask (hI : Endures I) (actor reason : Option Str)
    (hc : Stores I c) (hs : c.journal.task s.taskId = some s) :
  wp (cancelTask s actor reason) (fun _ c' => Stores I c') (fun _ c' => Stores I c') c
  := by
  unfold cancelTask
  dsimp only
  split
  · exact hc
  split
  · exact hc
  split
  · exact stores_cancelNow hI actor reason hc hs
  · refine keeps_recorded hI rfl (fun _ => ?_) c hc
    exact keeps_current fun s c hc hs => stores_cancelNow hI actor reason hc hs

theorem keeps_cancel (hI : Endures I) (taskId : Str) (body : Json) (busy : Bool) :
  Keeps (Stores I) (cancel taskId body busy)
  := by
  apply keeps_bind keeps_requireWritable
  intro _
  apply keeps_checked
  intro body
  apply keeps_checked
  intro actor
  apply keeps_checked
  intro reason
  apply keeps_locked
  intro c hc
  rw [wp_bind]
  apply wp_readTask
  · cases hs : c.journal.task taskId with
    | none => exact hc
    | some s =>
      apply stores_cancelTask hI actor reason hc
      rw [Journal.taskId_of_task hs, hs]
  · exact fun _ _ _ => hc

theorem keeps_requireBlocked (s : TaskState) (attempt : Int) :
  Keeps (Stores I) (requireBlocked s attempt)
  := by
  unfold requireBlocked
  dsimp only
  split
  · exact keeps_raise _ _
  · split
    · exact keeps_throw _
    · exact keeps_pure _

theorem keeps_decideBlocked (hI : Endures I) (s : TaskState) (taskId : Str) (decision : HumanDecision) (actor : Str)
    (attempt : Int) (reason : Str) :
  Keeps (Stores I) (decideBlocked s taskId decision actor attempt reason)
  := by
  apply keeps_drafted
  intro candidate hcandidate
  apply keeps_bind (keeps_readEventByKey _)
  intro existing
  cases existing with
  | some existing =>
    dsimp only
    split
    · exact keeps_raise _ _
    · exact keeps_pure _
  | none =>
    apply keeps_bind (keeps_requireBlocked s attempt)
    intro _
    dsimp only
    split
    · exact keeps_raise _ _
    split
    · exact keeps_raise _ _
    apply keeps_bind (hI.append candidate (by rw [hcandidate.type]; cases decision <;> rfl))
    intro _
    apply keeps_bind (keeps_readTask taskId)
    intro task
    apply keeps_bind keeps_require
    intro s
    exact keeps_pure _

theorem keeps_resolve (hI : Endures I) (taskId : Str) (body : Json) (busy : Bool) :
  Keeps (Stores I) (resolve taskId body busy)
  := by
  apply keeps_bind keeps_requireWritable
  intro _
  apply keeps_checked
  rintro ⟨decision, actor, attempt, reason⟩
  apply keeps_locked
  intro c hc
  rw [wp_bind]
  apply wp_readTask
  · cases hs : c.journal.task taskId with
    | none => exact hc
    | some s =>
      dsimp only
      split
      · apply wp_requireBlocked fun _ _ => hc
        intro _ _
        rw [wp_bind]
        apply wp_mono (stores_cancelTask hI (some actor) (some reason) hc (by rw [Journal.taskId_of_task hs, hs]))
        · intro _ _ h
          exact h
        · intro _ _ h
          exact h
      · exact keeps_decideBlocked hI _ _ _ _ _ _ c hc
  · exact fun _ _ _ => hc

/-! ### The work between requests -/

/-- The loss of an attempt whose lease has run out may be journaled. -/
def Expires (I : Option Rat → Journal → Dict Str Lease → Prop) (leases : List Lease) : Prop :=
  ∀ lease ∈ leases, ∀ s e, s.taskId = lease.taskId → s.dispatchId = some lease.dispatchId →
    Drafted (expiredDraft s lease) e → Keeps (Stores I) (append e)

theorem keeps_expireLeases {leases : List Lease} (hI : Endures I) (hexpires : Expires I leases) :
  Keeps (Stores I) (expireLeases leases)
  := by
  induction leases with
  | nil => exact keeps_pure _
  | cons lease rest ih =>
    have ih' := ih fun l hl => hexpires l (List.mem_cons_of_mem _ hl)
    apply keeps_bind
    · exact keeps_modify fun _ h => hI.erase _ h
    intro _ c h
    rw [wp_bind]
    apply wp_readTask
    · cases hs : c.journal.task lease.taskId with
      | none => exact ih' c h
      | some s =>
        dsimp only
        split
        · next hcond =>
          refine keeps_bind (keeps_drafted fun e he => ?_) (fun _ => ?_) c h
          · exact hexpires lease List.mem_cons_self s e (Journal.taskId_of_task hs) hcond.1 he
          · apply keeps_current
            intro s c h hs
            rw [wp_bind]
            apply wp_mono (hI.decide s c h hs)
            · intro _ c' h
              exact ih' c' h
            · intro _ _ h
              exact h
        · exact ih' c h
    · exact fun _ _ _ => h

theorem keeps_tick (hI : Endures I)
    (hextends : ∀ c, Stores I c → I (some now) c.journal (c.extendLeases now))
    (hexpires : ∀ c : Controller, Stores I c → Expires I ((c.extendLeases now).values.filter fun lease =>
      lease.deadline ≤ now)) (busy : Bool) :
  Keeps (Stores I) (tick now busy)
  := by
  apply keeps_get
  intro c _
  dsimp only
  split
  · exact keeps_pure _
  apply keeps_locked
  apply keeps_get
  intro c h
  apply keeps_bind
  · exact keeps_set (hextends c h)
  · intro _
    exact keeps_expireLeases hI (hexpires c h)

theorem keeps_verifyTake (busy : Bool) :
  Keeps (Stores I) (verifyTake busy)
  := by
  apply keeps_get
  intro c h
  split
  · exact keeps_pure _
  · apply keeps_bind
    · exact keeps_set h
    intro _
    apply keeps_locked
    apply keeps_bind (keeps_readTask _)
    intro task
    cases task with
    | none => exact keeps_pure _
    | some s =>
      dsimp only
      split
      · exact keeps_pure _
      apply keeps_bind (keeps_readEventByKey _)
      intro result
      apply keeps_bind keeps_require
      intro result
      apply keeps_bind
      · exact keeps_modify fun _ h => h
      · intro _
        exact keeps_pure _

theorem keeps_settle (hI : Endures I) (s : TaskState) (verdict : Verdict) :
  Keeps (Stores I) (settle s verdict)
  := by
  refine keeps_recorded hI (unasking_verdictDraft s verdict) ?_
  intro _
  apply keeps_current
  intro s c hc hs
  split
  · exact keeps_complete hI s c hc
  · exact hI.decide s c hc hs

theorem keeps_verifyDecide (hI : Endures I) (index : Nat) (finding : Finding) (busy : Bool) :
  Keeps (Stores I) (verifyDecide index finding busy)
  := by
  apply keeps_get
  intro c h
  split
  · exact keeps_pure _
  · apply keeps_bind
    · exact keeps_set h
    intro _
    apply keeps_locked
    apply keeps_get
    intro c _
    split
    · exact keeps_pure _
    apply keeps_bind (keeps_readTask _)
    intro task
    apply keeps_bind keeps_require
    intro s
    split
    · exact keeps_pure _
    · exact keeps_settle hI _ _

def Current (tasks : List TaskState) (j : Journal) : Prop :=
  ∀ s ∈ tasks, j.task s.taskId = some s

variable {tasks : List TaskState}

theorem current_record (hd : ∀ s ∈ tasks, d.taskId ≠ some s.taskId)
    {f : AppendResult → Act α} (hf : ∀ r, Keeps (Stores fun _ j _ => Current tasks j) (f r)) :
  Keeps (Stores fun _ j _ => Current tasks j) (record d >>= f)
  := by
  refine keeps_bind (keeps_drafted fun e he c hc => ?_) hf
  apply wp_append_of
  · intro r c' happend _ _
    obtain ⟨-, hj, -⟩ | ⟨-, -, hextends, -⟩ := Journal.append_ok happend
    · show Current tasks c'.journal
      rw [hj]
      exact hc
    · intro s hs
      rw [hextends.tasks, he.taskId, if_neg (hd s hs)]
      exact hc s hs
  · intro why c' _ hfailed
    show Current tasks c'.journal
    rw [hfailed.journal]
    exact hc

theorem current_recoverTask
    (hs : ∀ t ∈ tasks, s.taskId ≠ t.taskId) :
  Keeps (Stores fun _ j _ => Current tasks j) (recoverTask now s)
  := by
  have hid : ∀ t ∈ tasks, some s.taskId ≠ some t.taskId := fun t ht h => hs t ht (Option.some.inj h)
  have hgrace : Keeps (Stores fun _ j _ => Current tasks j) (recoverTask.grace now s) := by
    apply keeps_bind keeps_require
    intro dispatchId
    apply keeps_bind keeps_require
    intro workerId
    exact keeps_modify fun _ h => h
  unfold recoverTask
  split
  · exact hgrace
  · exact hgrace
  · exact keeps_modify fun _ h => h
  · exact current_record hid fun _ => keeps_pure _
  · apply keeps_checked
    intro _
    refine current_record ?_ fun _ => keeps_pure _
    cases decideAfterFailure s <;> exact hid
  · split
    · exact current_record hid fun _ => keeps_pure _
    · exact keeps_pure _
  · exact keeps_pure _

theorem stores_recoverTasks (hI : Endures I) (hbegins : ∀ d, Begins I now d)
    (hnodup : (tasks.map TaskState.taskId).Nodup) (hc : Stores I c)
    (hcurrent : Current tasks c.journal) :
  wp (recoverTasks now tasks) (fun _ c' => Stores I c') (fun _ c' => Stores I c') c
  := by
  have hgrace : ∀ s, Keeps (Stores I) (recoverTask.grace now s) := by
    intro s
    apply keeps_bind keeps_require
    intro dispatchId
    apply keeps_bind keeps_require
    intro workerId
    exact keeps_modify fun _ h => hbegins _ _ _ _ _ rfl h
  induction tasks generalizing c with
  | nil => exact hc
  | cons s rest ih =>
    rw [List.map_cons, List.nodup_cons] at hnodup
    have hrest : ∀ t ∈ rest, s.taskId ≠ t.taskId := by
      intro t ht hid
      exact hnodup.1 (hid ▸ List.mem_map_of_mem ht)
    have hrecover : wp (recoverTask now s) (fun _ c' => Stores I c') (fun _ c' => Stores I c') c := by
      unfold recoverTask
      split
      · exact hgrace s c hc
      · exact hgrace s c hc
      · exact hc
      · exact keeps_complete hI s c hc
      · exact hI.decide s c hc (hcurrent s List.mem_cons_self)
      · split
        · exact keeps_recorded hI rfl (fun _ => keeps_pure _) c hc
        · exact hc
      · exact hc
    unfold recoverTasks
    rw [wp_bind]
    apply wp_mono (wp_and hrecover (current_recoverTask hrest c fun t ht =>
      hcurrent t (List.mem_cons_of_mem _ ht)))
    · rintro _ c' ⟨h, hcurrent'⟩
      exact ih hnodup.2 h hcurrent'
    · rintro _ c' ⟨h, -⟩
      exact h

theorem keeps_boot (hI : Endures I) (hbegins : ∀ d, Begins I now d) (pid : Int) (build : Build) :
  Keeps (Stores I) (boot pid build now)
  := by
  apply keeps_bind
  · exact keeps_modify fun _ h => h
  intro _
  refine keeps_recorded hI rfl ?_
  intro _ c hc
  rw [wp_bind, wp_get]
  exact stores_recoverTasks hI hbegins (nodup_listTasks _ _) hc fun s hs => (mem_listTasks.mp hs).1

theorem keeps_stop (hI : Endures I) (pid : Int) (busy : Bool) :
  Keeps (Stores I) (stop pid busy)
  := by
  apply keeps_bind
  · exact keeps_modify fun _ h => h
  intro _
  apply keeps_tryCatch
  · apply keeps_locked
    apply keeps_get
    intro c _
    split
    · refine keeps_recorded hI rfl ?_
      intro _
      exact keeps_pure _
    · exact keeps_pure _
  · intro why
    cases why <;> first | exact keeps_pure _ | exact keeps_throw _

/-! ### Steps -/

variable {P : Journal → Prop} {N : Option Rat → Journal → Prop}

theorem lasts_of_append
    (happend : ∀ e : Event, e.type ≠ .taskCreated → Keeps (Stores fun last j _ => N last j) (append e)) :
  Lasts fun last j _ => N last j
  := ⟨fun e he => happend e (by rintro htype; simp [htype, EventType.isRoutine] at he), fun _ h => h⟩

theorem keeps_perform_of_endures (hI : Endures fun last j _ => N last j)
    (hexpire : ∀ e : Event, e.type = .leaseExpired → Keeps (Stores fun last j _ => N last j) (append e))
    (hcreate : ∀ body uuid busy, Keeps (Stores fun last j _ => N last j) (createTask body uuid busy))
    (request : Request) (htick : ∀ now busy last j, request = .tick now busy → N last j → N (some now) j) :
  Keeps (Stores fun last j _ => N last j) (perform request)
  := by
  cases request with
  | createTask body uuid busy => exact keeps_map (hcreate body uuid busy)
  | claim body uuid now busy => exact keeps_map (keeps_claim hI (fun _ _ _ _ _ h => h) body busy)
  | start body busy => exact keeps_map (keeps_start hI body busy)
  | heartbeat body now busy => exact keeps_map (keeps_heartbeat hI (fun _ _ _ _ _ _ _ _ _ _ h => h) body busy)
  | result body busy => exact keeps_map (keeps_result hI body busy)
  | cancel taskId body busy => exact keeps_map (keeps_cancel hI taskId body busy)
  | resolve taskId body busy => exact keeps_map (keeps_resolve hI taskId body busy)
  | tick now busy =>
    apply keeps_map
    apply keeps_tick hI (fun c h => htick now busy c.lastTick c.journal rfl h) ?_ busy
    intro c _ lease _ s e _ _ he
    exact hexpire e he.type
  | verifyTake busy => exact keeps_map (keeps_verifyTake busy)
  | verifyDecide index finding busy => exact keeps_map (keeps_verifyDecide hI index finding busy)
  | stop pid busy => exact keeps_map (keeps_stop hI pid busy)
  | boot pid build now => exact keeps_map (keeps_boot hI (fun _ _ _ _ _ _ h => h) pid build)
  | crash => exact keeps_pure _

theorem keeps_perform
    (happend : ∀ e : Event, e.type ≠ .taskCreated → Keeps (Stores fun last j _ => N last j) (append e))
    (hcreate : ∀ body uuid busy, Keeps (Stores fun last j _ => N last j) (createTask body uuid busy))
    (request : Request) (htick : ∀ now busy last j, request = .tick now busy → N last j → N (some now) j) :
  Keeps (Stores fun last j _ => N last j) (perform request)
  := by
  refine keeps_perform_of_endures (lasts_of_append happend).endures ?_ hcreate request htick
  intro e he
  apply happend e
  rw [he]
  rintro ⟨⟩

theorem stores_step {request : Request} (hkeeps : Keeps (Stores I) (perform request))
    (hboot : ∀ pid build now, request ≠ .boot pid build now) (hcrash : request ≠ .crash) (hc : Stores I c) :
  Stores I (c.step request).2
  := by
  have hraised : Stores I { c with raised := [] } := hc
  cases request with
  | crash => exact absurd rfl hcrash
  | boot pid build now => exact absurd rfl (hboot pid build now)
  | _ =>
    unfold step
    dsimp only
    split
    · exact hc
    · split
      · next answer c' h => exact hkeeps.of_ok hraised h
      · next why c' h => exact hkeeps.of_error hraised h

theorem keeps_step {request : Request}
    (hkeeps : Keeps (Stores fun _ j _ => P j) (perform request)) (hc : P c.journal) :
  P (c.step request).2.journal
  := by
  cases request with
  | crash => exact hc
  | boot pid build now =>
    have hfresh : Stores (fun _ j _ => P j) (fresh c.journal c.draws) := hc
    unfold step
    cases h : perform (.boot pid build now) (fresh c.journal c.draws) with
    | ok answer c' =>
      simp only [h]
      exact hkeeps.of_ok hfresh h
    | error why c' =>
      simp only [h]
      have hc' : P c'.journal := hkeeps.of_error hfresh h
      exact hc'
  | _ => exact stores_step hkeeps (by simp) (by simp) hc

theorem grown_step (request : Request) (hc : Grown j c) :
  Grown j (c.step request).2
  := by
  refine keeps_step (keeps_perform (fun e _ => grown_append e) ?_ request fun _ _ _ _ _ h => h) hc
  exact fun _ _ _ => keeps_createTask fun c _ _ _ _ e hc _ _ _ _ => grown_append e c hc

def Knows (c : Controller) (taskId : Str) : Prop :=
  taskId ∈ c.journal.tasks.keys

theorem knows_step {taskId : Str} (request : Request) (h : c.Knows taskId) :
  (c.step request).2.Knows taskId
  := by
  obtain ⟨s, hs⟩ := Option.isSome_iff_exists.mp (Dict.get?_isSome.mpr h)
  obtain ⟨s', hs'⟩ := Journal.known_of_prefix (grown_step request (List.prefix_refl _)) hs
  exact Dict.get?_isSome.mp (Option.isSome_iff_exists.mpr ⟨s', hs'⟩)

theorem knows_createTask {body : Json} {busy : Bool} {id : Str}
    (h : (c.step (.createTask body uuid busy)).2.Knows id) :
  c.Knows id ∨ ∃ d, body = .obj d ∧ newTaskId d uuid = .ok id
  := by
  have hkeeps : Keeps (Stores fun _ j _ => id ∈ j.tasks.keys →
      c.Knows id ∨ ∃ d, body = .obj d ∧ newTaskId d uuid = .ok id)
      (perform (.createTask body uuid busy)) := by
    apply keeps_map
    apply keeps_createTask
    intro c₁ taskId d timeoutS dependsOn e h₁ hbody hid he _
    apply wp_append_of
    · intro r c' happend _ _ hknown
      obtain ⟨-, hj, -⟩ | ⟨-, -, hextends, -⟩ := Journal.append_ok happend
      · rw [hj] at hknown
        exact h₁ hknown
      · by_cases hid' : id = taskId
        · exact .inr ⟨d, hbody, hid' ▸ hid⟩
        · apply h₁
          rw [← Dict.get?_isSome] at hknown ⊢
          have hsame := hextends.tasks id
          have htask : e.taskId = some taskId := he.taskId
          rw [htask, if_neg (by simpa using Ne.symm hid')] at hsame
          unfold Journal.task at hsame
          rwa [hsame] at hknown
    · intro why c' _ hfailed hknown
      rw [hfailed.journal] at hknown
      exact h₁ hknown
  exact keeps_step hkeeps .inl h

end Controller

end Courier
