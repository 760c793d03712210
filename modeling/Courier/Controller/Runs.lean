import Courier.Controller.Claims

/-!
# Runs of the controller

A run begins with an empty journal and is any sequence of requests, ticks, halves of
verifications, stops, crashes and boots, with any surroundings; only the dispatch ids that
claims draw are fresh.  Every step keeps the invariant, and so does every run.
-/

namespace Courier

open Program Run Text

section Runs

variable [Platform]

/-! ### Runs -/

def Request.Fresh (c : Controller) : Request → Prop
  | .claim _ uuid _ _ => Courier.Fresh c.journal (Controller.newDispatchId uuid)
  | _ => True

instance Request.decidableFresh (c : Controller) : DecidablePred (Request.Fresh c)
  | .claim _ uuid _ _ => inferInstanceAs (Decidable (∀ e ∈ c.journal.events,
      e.type = .taskClaimed → e.dispatchId ≠ some (Controller.newDispatchId uuid)))
  | .createTask .. | .start .. | .heartbeat .. | .result .. | .cancel .. | .resolve .. | .tick ..
  | .verifyTake .. | .verifyDecide .. | .stop .. | .boot .. | .crash => .isTrue trivial

def Controller.New (c : Controller) : Prop :=
  ∃ draws, c = fresh Journal.empty draws

def Controller.Moves (p : Controller → Request → Controller → Prop) (c c' : Controller) : Prop :=
  ∃ request : Request, request.Fresh c ∧ c' = (c.step request).2 ∧ p c request c'

def Controller.Reached (p : Controller → Request → Controller → Prop) : Controller → Prop :=
  Reachable Controller.New (Controller.Moves p)

def Controller.run (c : Controller) : List Request → Controller
  | [] => c
  | request :: rest => (c.step request).2.run rest

/-- Every step of a sequence of requests meets the condition. -/
def Controller.Admits (p : Controller → Request → Controller → Prop) (c : Controller) :
    List Request → Prop
  | [] => True
  | request :: rest => (request.Fresh c ∧ p c request (c.step request).2) ∧
      Admits p (c.step request).2 rest

instance Controller.decidableAdmits {p : Controller → Request → Controller → Prop}
    [∀ c request c', Decidable (p c request c')] (c : Controller) : DecidablePred (c.Admits p)
  | [] => .isTrue trivial
  | request :: rest =>
      have := decidableAdmits (p := p) (c.step request).2 rest
      inferInstanceAs (Decidable (_ ∧ _))

variable {p : Controller → Request → Controller → Prop}

theorem Controller.Reached.run {c : Controller}
    (h : Reached p c) {requests : List Request} (hadmits : c.Admits p requests) :
  Reached p (c.run requests)
  := by
  induction requests generalizing c with
  | nil => exact h
  | cons request rest ih =>
    obtain ⟨⟨hfresh, hp⟩, hrest⟩ := hadmits
    exact ih (.move h ⟨request, hfresh, rfl, hp⟩) hrest

theorem Controller.run_append (c : Controller) (first later : List Request) :
  c.run (first ++ later) = (c.run first).run later
  := by
  induction first generalizing c with
  | nil => rfl
  | cons request rest ih => exact ih _

theorem Controller.admits_append {c : Controller}
    {first later : List Request} :
  c.Admits p (first ++ later) ↔ c.Admits p first ∧ (c.run first).Admits p later
  := by
  induction first generalizing c with
  | nil => simp [Admits, run]
  | cons request rest ih =>
    simp only [List.cons_append, Admits, run, ih, and_assoc]

/-! ### The invariant of runs -/

/-- The conflicts that are answered or passed over: a creation under a key that is taken, and
a late result that was reported before. -/
inductive Permitted : Request → EventType → Exc → Prop
  | created (body : Json) (uuid : Uuid) (busy : Bool) :
      Permitted (.createTask body uuid busy) .taskCreated Controller.idempotencyConflict
  | late (body : Json) (busy : Bool) (s : TaskState) :
      Permitted (.result body busy) .lateResultDiscarded (Controller.staleDispatch s)

/-- What a request that raises leaves. -/
structure Refuses (P : Bool → Prop) (Q : Prop) (c : Controller) (request : Request) (why : Exc)
    (c' : Controller) : Prop where
  answer : why.isRefusal = false
  consistent : Consistent (fun type => Permitted request type why) P Q (fun _ => False) c'
  untouched : why.isClient = true → Untouched c c' ∨
    Permitted request .lateResultDiscarded why ∧ Discards c c'

/-- What the invariant asks of a step: the verifier gets the lock before the controller stops,
and a stop leaves no more to attend to. -/
def Request.Ready (P : Bool → Prop) (c : Controller) : Request → Prop
  | .verifyTake busy => P c.stopping → busy = false
  | .verifyDecide _ _ busy => P c.stopping → busy = false ∧ c.stopping = false
  | .stop _ _ => P true → P c.stopping
  | _ => True

structure Sound (P : Bool → Prop) (Q : Prop) (c : Controller) : Prop where
  written : Written c.journal
  consistent : c.mode = .normal →
    Consistent (fun _ => False) P Q (fun _ => False) { c with raised := [] }

variable {P : Bool → Prop} {Q : Prop} {c : Controller} {request : Request}

theorem Refuses.of_raises {why : Exc} {c' : Controller}
    (h : Raises (fun _ => False) P Q (fun _ => False) c why c') :
  Refuses P Q c request why c'
  := ⟨h.answer, h.consistent.permit (by simp), fun hclient => .inl (h.untouched hclient)⟩

theorem Consistent.forget {L L' : EventType → Prop} {X : Str → Prop} (h : Consistent L P Q X c)
    (hcalm : P false → Calm c.raised) (hquiet : Q → Quiet c.raised) :
  Consistent L' P Q X { c with raised := [] }
  := by
  refine ⟨h.written, by simp, h.leased, h.reports, ?_, ?_⟩
  · intro hP _ id s hX hs
    obtain ⟨hleased, hqueued⟩ := h.attended hP (hcalm hP) id s hX hs
    exact ⟨hleased, hqueued⟩
  · intro hQ _ id s hX hs
    exact h.decided hQ (hquiet hQ) id s hX hs

namespace Controller

theorem wp_perform (h : Consistent (fun _ => False) P Q (fun _ => False) c)
    (hfresh : request.Fresh c) (hready : request.Ready P c)
    (hboot : ∀ pid build now, request ≠ .boot pid build now) :
  wp (perform request) (fun _ c' => Consistent (fun _ => False) P Q (fun _ => False) c')
    (Refuses P Q c request) c
  := by
  have hplain : ∀ {α : Type} {m : Act α} {f : α → Answer},
      wp m (fun _ c' => Consistent (fun _ => False) P Q (fun _ => False) c')
        (Raises (fun _ => False) P Q (fun _ => False) c) c →
      wp (f <$> m) (fun _ c' => Consistent (fun _ => False) P Q (fun _ => False) c')
        (Refuses P Q c request) c := by
    intro α m f hm
    rw [wp_map]
    apply wp_mono hm
    · intro _ _ h'
      exact h'
    · intro why c' hraises
      exact .of_raises hraises
  cases request with
  | createTask body uuid busy =>
    rw [perform, wp_map]
    apply wp_mono (wp_createTask h)
    · intro _ _ h'
      exact h'
    · intro why c' hraises
      refine ⟨hraises.answer, hraises.consistent.permit ?_,
        fun hclient => .inl (hraises.untouched hclient)⟩
      rintro _ ⟨rfl, rfl⟩
      exact .created body uuid busy
  | claim body uuid now busy =>
    apply hplain
    apply wp_mono (wp_claim h hfresh)
    · rintro _ c' ⟨h', -⟩
      exact h'
    · intro _ _ hraises
      exact hraises
  | start body busy => exact hplain (wp_start h)
  | heartbeat body now busy => exact hplain (wp_heartbeat h)
  | result body busy =>
    rw [perform, wp_map]
    apply wp_mono (wp_result h)
    · rintro _ c' ⟨h', -⟩
      exact h'
    · intro why c' hraises
      refine ⟨hraises.answer, hraises.consistent.permit ?_, ?_⟩
      · rintro _ ⟨rfl, s, rfl⟩
        exact .late body busy s
      · intro hclient
        obtain huntouched | ⟨⟨s, rfl⟩, hdiscards⟩ := hraises.untouched hclient
        · exact .inl huntouched
        · exact .inr ⟨.late body busy s, hdiscards⟩
  | cancel taskId body busy => exact hplain (wp_cancel h)
  | resolve taskId body busy => exact hplain (wp_resolve h)
  | tick now busy =>
    apply hplain
    apply wp_mono (wp_tick h)
    · rintro _ c' ⟨h', -⟩
      exact h'
    · intro _ _ hraises
      exact hraises
  | verifyTake busy => exact hplain (wp_verifyTake h hready)
  | verifyDecide index finding busy => exact hplain (wp_verifyDecide h hready)
  | stop pid busy => exact hplain (wp_stop h hready)
  | boot pid build now => exact absurd rfl (hboot pid build now)
  | crash => exact h

end Controller

theorem Controller.step_of_wp {normal : Answer → Controller → Prop}
    {raised : Exc → Controller → Prop} (hmode : c.mode = .normal) (hcrash : request ≠ .crash)
    (hboot : ∀ pid build now, request ≠ .boot pid build now)
    (h : wp (perform request) normal raised { c with raised := [] }) :
  (∀ answer, (c.step request).1 = .ok answer → normal answer (c.step request).2) ∧
    ∀ why, (c.step request).1 = .error why → raised why (c.step request).2
  := by
  have hstep : ∀ x, (∀ a c', perform request { c with raised := [] } = .ok a c' → x = (.ok a, c')) →
      (∀ e c', perform request { c with raised := [] } = .error e c' → x = (.error e, c')) → c.step request = x := by
    intro x hok herror
    cases request with
    | crash => exact absurd rfl hcrash
    | boot pid build now => exact absurd rfl (hboot pid build now)
    | _ =>
      refine (if_neg (by simp [hmode])).trans ?_
      split
      · next heq => exact (hok _ _ heq).symm
      · next heq => exact (herror _ _ heq).symm
  unfold wp at h
  split at h
  · next answer c' heq =>
    rw [hstep (.ok answer, c') (by simp [heq]) (by simp [heq])]
    refine ⟨?_, by rintro _ ⟨⟩⟩
    rintro _ ⟨⟩
    exact h
  · next why c' heq =>
    rw [hstep (.error why, c') (by simp [heq]) (by simp [heq])]
    refine ⟨by rintro _ ⟨⟩, ?_⟩
    rintro _ ⟨⟩
    exact h

/-- What a step comes to. -/
structure Outcome (P : Bool → Prop) (Q : Prop) (c : Controller) (request : Request)
    (r : Except Exc Answer × Controller) : Prop where
  written : Written r.2.journal
  legal : ∀ x ∈ r.2.raised, x.2.isRefusal = true →
    (∃ message, x.2 = .dedupeConflict message) ∧ ∃ why, r.1 = .error why ∧ Permitted request x.1 why
  answer : ∀ why, r.1 = .error why → why.isRefusal = false
  consistent : r.2.mode = .normal → ∃ L, Consistent L P Q (fun _ => False) r.2
  untouched : ∀ why, r.1 = .error why → why.isClient = true → Untouched c r.2 ∨
    Permitted request .lateResultDiscarded why ∧ Discards { c with raised := [] } r.2

theorem outcome_perform (h : Consistent (fun _ => False) P Q (fun _ => False) { c with raised := [] })
    (hfresh : request.Fresh c) (hready : request.Ready P c)
    (hboot : ∀ pid build now, request ≠ .boot pid build now) :
  Outcome P Q c request (match Controller.perform request { c with raised := [] } with
    | .ok answer c' => (.ok answer, c')
    | .error why c' => (.error why, c'))
  := by
  have hfresh' : request.Fresh { c with raised := [] } := by cases request <;> exact hfresh
  have hready' : request.Ready P { c with raised := [] } := by cases request <;> exact hready
  have hperform := Controller.wp_perform h hfresh' hready' hboot
  unfold wp at hperform
  split at hperform
  · next answer c' heq =>
    rw [heq]
    refine ⟨hperform.written, ?_, by rintro why ⟨⟩, fun _ => ⟨_, hperform⟩, by rintro why ⟨⟩⟩
    intro x hx hrefusal
    exact (hperform.legal x hx hrefusal).1.elim
  · next why c' heq =>
    rw [heq]
    refine ⟨hperform.consistent.written, ?_, ?_, fun _ => ⟨_, hperform.consistent⟩, ?_⟩
    · intro x hx hrefusal
      obtain ⟨hpermitted, hconflict⟩ := hperform.consistent.legal x hx hrefusal
      exact ⟨hconflict, why, rfl, hpermitted⟩
    · rintro _ ⟨⟩
      exact hperform.answer
    · rintro _ ⟨⟩ hclient
      obtain huntouched | hdiscards := hperform.untouched hclient
      · exact .inl ⟨huntouched.1, huntouched.2, huntouched.3⟩
      · exact .inr hdiscards

theorem outcome_boot {pid : Int} {build : Build} {now : Rat} (h : Written c.journal) :
  Outcome P Q c (.boot pid build now) (c.step (.boot pid build now))
  := by
  have hboot : wp (Controller.perform (.boot pid build now))
      (fun _ c' => Consistent (fun _ => False) P Q (fun _ => False) c')
      (fun why c' => why.isFault = true ∧ Written c'.journal ∧
        ∀ x ∈ c'.raised, x.2.isRefusal = true → False ∧ ∃ message, x.2 = .dedupeConflict message)
      (Controller.fresh c.journal c.draws) := by
    rw [Controller.perform, wp_map]
    exact Controller.wp_boot h
  unfold wp at hboot
  unfold Controller.step
  dsimp only
  split at hboot
  · next answer c' heq =>
    rw [heq]
    refine ⟨hboot.written, ?_, by rintro why ⟨⟩, fun _ => ⟨_, hboot⟩, by rintro why ⟨⟩⟩
    intro x hx hrefusal
    exact (hboot.legal x hx hrefusal).1.elim
  · next why c' heq =>
    rw [heq]
    obtain ⟨hfault, hwritten, hlegal⟩ := hboot
    refine ⟨hwritten, ?_, ?_, by rintro ⟨⟩, ?_⟩
    · intro x hx hrefusal
      exact (hlegal x hx hrefusal).1.elim
    · rintro _ ⟨⟩
      exact Exc.not_refusal_of_fault hfault
    · rintro _ ⟨⟩ hclient
      rw [Exc.not_client_of_fault hfault] at hclient
      cases hclient

theorem outcome_step (h : Sound P Q c) (hfresh : request.Fresh c) (hready : request.Ready P c) :
  Outcome P Q c request (c.step request)
  := by
  have hrequest : (∀ pid build now, request ≠ .boot pid build now) →
      Outcome P Q c request (if c.mode = .booting then (.error .environment, { c with raised := [] })
        else match Controller.perform request { c with raised := [] } with
          | .ok answer c' => (.ok answer, c')
          | .error why c' => (.error why, c')) := by
    intro hboot
    split
    · next hmode =>
      refine ⟨h.written, by simp, by rintro _ ⟨⟩; rfl, ?_, by rintro _ ⟨⟩ ⟨⟩⟩
      intro hnormal
      exact absurd (hmode.symm.trans hnormal) (by simp)
    · next hmode =>
      have hmode : c.mode = .normal := by cases hm : c.mode <;> simp_all
      exact outcome_perform (h.consistent hmode) hfresh hready hboot
  cases request with
  | crash =>
    exact ⟨h.written, by simp [Controller.step, Controller.fresh], by rintro _ ⟨⟩,
      by rintro ⟨⟩, by rintro _ ⟨⟩⟩
  | boot pid build now => exact outcome_boot h.written
  | _ => exact hrequest (by simp)

theorem Sound.step (h : Sound P Q c) (hfresh : request.Fresh c) (hready : request.Ready P c)
    (hcalm : P false → Calm (c.step request).2.raised)
    (hquiet : Q → Quiet (c.step request).2.raised) :
  Sound P Q (c.step request).2
  := by
  have houtcome := outcome_step h hfresh hready
  refine ⟨houtcome.written, ?_⟩
  intro hmode
  obtain ⟨L, hconsistent⟩ := houtcome.consistent hmode
  exact hconsistent.forget hcalm hquiet

theorem sound_new (h : c.New) :
  Sound P Q c
  := by
  obtain ⟨draws, rfl⟩ := h
  exact ⟨written_empty, by rintro ⟨⟩⟩

theorem sound_of_reached
    (h : Controller.Reached p c) :
  Sound (fun _ => False) False c
  := by
  apply h.invariant
  · intro c hnew
    exact sound_new hnew
  · rintro c _ hsound ⟨request, hfresh, rfl, -⟩
    apply hsound.step hfresh ?_ (by rintro ⟨⟩) (by rintro ⟨⟩)
    cases request <;> simp [Request.Ready]

/-! ### The journal is never asked for an illegal step -/

/-- In every run no append is refused but a creation under a key that is taken and a late result that was reported
before, and no step ends by a refusal. -/
theorem never_illegal {c : Controller} {request : Request}
    (hreached : Controller.Reached (fun _ _ _ => True) c) (hfresh : request.Fresh c) :
  (∀ x ∈ (c.step request).2.raised, x.2.isRefusal = true →
    (∃ message, x.2 = .dedupeConflict message) ∧
      ∃ why, (c.step request).1 = .error why ∧ Permitted request x.1 why) ∧
    ∀ why, (c.step request).1 = .error why → why.isRefusal = false
  := by
  have hready : request.Ready (fun _ => False) c := by cases request <;> simp [Request.Ready]
  have houtcome := outcome_step (sound_of_reached hreached) hfresh hready
  exact ⟨houtcome.legal, houtcome.answer⟩

end Runs

/-! ### Runs to evaluate -/

theorem length_numbered (n : Nat) :
  (List.replicate 30 48 ++ [48 + n / 10 % 10, 48 + n % 10]).length = 32
  := rfl

theorem digits_numbered (n : Nat) :
  ∀ c ∈ List.replicate 30 48 ++ [48 + n / 10 % 10, 48 + n % 10], isHexDigit c = true
  := by
  intro c hc
  rcases List.mem_append.mp hc with hc | hc
  · rw [List.eq_of_mem_replicate hc]
    decide
  · simp only [List.mem_cons, List.not_mem_nil, or_false] at hc
    rcases hc with rfl | rfl <;> simp [isHexDigit] <;> omega

/-- An id that ends in a number below a hundred. -/
def numberedUuid (n : Nat) : Uuid where
  hex := List.replicate 30 48 ++ [48 + n / 10 % 10, 48 + n % 10]
  length := length_numbered n
  digits := digits_numbered n

/-- The surroundings in which some appends fail. -/
def drawsFailing (fails : Nat → Bool) (n : Nat) : Draw where
  eventId := numberedUuid n
  clock := text "2026-01-01T00:00:00.000000"
  fails := fails n

def plainBuild : Build where
  version := text "1"
  buildId := none
  sourceSha256 := none
  python := text "3"

/-- A request to create a task. -/
def echoBody : Json :=
  .obj [(text "adapter", .str (text "echo")), (text "effect_class", .str (text "idempotent")),
    (text "lease_ttl_s", .int 30), (text "max_attempts", .int 2), (text "params", .obj [])]

section

variable [Platform]

def freshFailing (fails : Nat → Bool) : Controller :=
  .fresh Journal.empty (drawsFailing fails)

theorem reached_of_admits {p : Controller → Request → Controller → Prop} {fails : Nat → Bool}
    {requests : List Request} (h : (freshFailing fails).Admits p requests) :
  Controller.Reached p ((freshFailing fails).run requests)
  := Controller.Reached.run (.start ⟨_, rfl⟩) h

end

section Example

local instance runsPlatform : Platform := Platform.plain

/-- A request to create a task under a key. -/
def keyedBody (ttlS : Int) : Json :=
  .obj [(text "adapter", .str (text "echo")), (text "effect_class", .str (text "idempotent")),
    (text "idempotency_key", .str (text "k")), (text "lease_ttl_s", .int ttlS),
    (text "max_attempts", .int 2), (text "params", .obj [])]

/-- Two different tasks are created under one key. -/
theorem never_illegal_conflict :
  (∀ x ∈ (((freshFailing fun _ => false).run [.boot 1 plainBuild 0,
      .createTask (keyedBody 30) (numberedUuid 0) false]).step
        (.createTask (keyedBody 60) (numberedUuid 1) false)).2.raised, x.2.isRefusal = true →
    (∃ message, x.2 = .dedupeConflict message) ∧ ∃ why,
      (((freshFailing fun _ => false).run [.boot 1 plainBuild 0,
        .createTask (keyedBody 30) (numberedUuid 0) false]).step
          (.createTask (keyedBody 60) (numberedUuid 1) false)).1 = .error why ∧
      Permitted (.createTask (keyedBody 60) (numberedUuid 1) false) x.1 why) ∧
    ∀ why, (((freshFailing fun _ => false).run [.boot 1 plainBuild 0,
      .createTask (keyedBody 30) (numberedUuid 0) false]).step
        (.createTask (keyedBody 60) (numberedUuid 1) false)).1 = .error why →
      why.isRefusal = false
  := never_illegal (reached_of_admits (by decide +kernel)) trivial

end Example

end Courier
