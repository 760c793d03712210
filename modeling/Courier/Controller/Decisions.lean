import Courier.Controller.Growth
import Courier.Controller.Runs
import Courier.Journal.Storable

/-!
# Decisions that are accepted

The controller asks a human about an attempt that failed, and about no other.  So no decision about an attempt
that is blocked has been journaled before, and one that the state of the task admits is taken, unless the
surroundings fail.
-/

namespace Courier

open Except Program Run Text Controller

variable [Platform]

/-! ### What a human is asked about -/

/-- A human is asked about a task when an attempt of it has failed. -/
def Asked (events : List Event) : Prop :=
  ∀ before e after s, events = before ++ e :: after → e.type = .taskBlocked →
    Accepts apply none before (some s) → s.status = .retryPending

theorem Asked.of_append {before after : List Event} (h : Asked (before ++ after)) :
  Asked before
  := by
  rintro first e rest s rfl htype hs
  exact h _ _ _ _ (List.append_assoc _ _ _) htype hs

theorem Asked.concat {events : List Event} {e : Event} (h : Asked events)
    (he : e.type = .taskBlocked → ∀ s, Accepts apply none events (some s) → s.status = .retryPending) :
  Asked (events ++ [e])
  := by
  intro before f after s hsplit htype hs
  obtain rfl | ⟨after, g, rfl⟩ := List.eq_nil_or_concat' after
  · obtain ⟨rfl, hf⟩ := List.append_inj' hsplit rfl
    obtain rfl : e = f := List.singleton_inj.mp hf
    exact he htype s hs
  · have hsplit : events ++ [e] = (before ++ f :: after) ++ [g] := by
      rw [hsplit, List.append_assoc, List.cons_append]
    exact h _ _ _ _ (List.append_inj' hsplit rfl).1 htype hs

structure Overcome (events : List Event) (s : TaskState) : Prop where
  run : Accepts apply none events (some s)
  begun : s.status = .blocked → 1 ≤ s.attempt
  authorized : ∀ x ∈ events, x.type = .retryAuthorized → ∃ n, x.attempt = some n ∧ n ≤ s.attempt ∧
    (n = s.attempt → s.status = .queued ∨ s.status.isTerminal = true)

/-- A step keeps authorised attempts over, unless it asks about a task that waits to be claimed. -/
theorem Overcome.step {before : List Event} {s s' : TaskState} {e : Event} (h : Overcome before s)
    (htask : e.taskId = some s.taskId) (step : Step s e s') (hlawful : s.Lawful)
    (hasked : e.type = .taskBlocked → s.status = .retryPending) :
  Overcome (before ++ [e]) { s' with updatedSeq := e.seq }
  := by
  obtain ⟨hsystem, hcreated⟩ := step.type_of
  obtain ⟨hrun, hbegun, hauthorized⟩ := h
  refine ⟨accepts_concat.mpr ⟨_, hrun, apply_iff.mpr (.step hsystem hcreated htask step)⟩, ?_, ?_⟩
  · intro hblocked
    cases step with
    | blocked type =>
      apply (hlawful.held _).1
      rw [hasked type]
      rfl
    | lateResult | progress | cancelRequested => exact hbegun hblocked
    | _ => simp at hblocked
  · have hkeep : ∀ x ∈ before, x.type = .retryAuthorized → ∃ n, x.attempt = some n ∧ n ≤ s'.attempt ∧
        (n = s'.attempt → s'.status = .queued ∨ s'.status.isTerminal = true) := by
      intro x hx hxtype
      obtain ⟨n, hn, hle, hover⟩ := hauthorized x hx hxtype
      refine ⟨n, hn, ?_, ?_⟩
      · cases step with
        | claimed =>
          simp only
          omega
        | _ => exact hle
      · intro heq
        cases step with
        | claimed =>
          simp only at heq
          omega
        | lateResult | progress | cancelRequested => exact hover heq
        | retryScheduled | retryAuthorized => exact .inl rfl
        | complete | failed | cancelledBlocked | cancelled | effectConfirmed => exact .inr rfl
        | blocked type => simp [hasked type, TaskStatus.isTerminal] at hover; exact absurd heq hover
        | leaseExpired _ status =>
          rcases hover heq with hs | hs
          · simp [hs, TaskStatus.isActiveLease] at status
          · cases hstatus : s.status <;> simp_all [TaskStatus.isActiveLease, TaskStatus.isTerminal]
        | _ _ status => simp [status, TaskStatus.isTerminal] at hover; exact absurd heq hover
    intro x hx hxtype
    rcases List.mem_append.mp hx with hx | hx
    · exact hkeep x hx hxtype
    · obtain rfl := List.mem_singleton.mp hx
      cases step with
      | retryAuthorized _ _ attempt => exact ⟨s.attempt, attempt, le_rfl, fun _ => .inl rfl⟩
      | _ => simp_all

theorem overcome_of_run {events : List Event} {state : Option TaskState}
    (hsystem : ∀ e ∈ events, e.type.isSystem = false) (hasked : Asked events)
    (hrun : Accepts apply none events state) :
  ∀ s, state = some s → Overcome events s
  := by
  intro s hs
  refine history_of_run (I := fun before s => (∀ e ∈ before, e.type.isSystem = false) → Asked before →
    Overcome before s) ?_ ?_ hsystem hrun s hs hsystem hasked
  · intro e htype _ _
    refine ⟨accepts_singleton.mpr (apply_iff.mpr (.created htype)), by simp [Courier.created], ?_⟩
    intro x hx hxtype
    obtain rfl := List.mem_singleton.mp hx
    simp [htype] at hxtype
  · intro before s e s' ih htask step hsystem hasked
    have hbefore : ∀ e ∈ before, e.type.isSystem = false := fun e he => hsystem e (List.mem_append_left _ he)
    have hover := ih hbefore hasked.of_append
    apply hover.step htask step (recorded_of_run hbefore hover.run s rfl).1
    intro htype
    exact hasked _ _ _ _ rfl htype hover.run

/-! ### Keys that are free -/

namespace Written

variable {j : Journal} {s : TaskState}

theorem confirmation_free (h : Written j) (hs : j.task s.taskId = some s) (hstatus : s.status ≠ .complete)
    {d r : Option Str} {n : Option Int} :
  Free j .effectConfirmed (some s.taskId) n d r
  := by
  apply h.free_of_none rfl fun _ _ _ _ => rfl
  simp [(Journal.settled_of_task hs).confirmed, hstatus, TaskState.confirmed]

theorem authorization_free (h : Written j) (hs : j.task s.taskId = some s) (hstatus : s.status = .blocked)
    (hasked : Asked (eventsOf s.taskId j.events)) {d r : Option Str} :
  Free j .retryAuthorized (some s.taskId) (some s.attempt) d r
  := by
  apply h.free_of_attempt (.inr rfl)
  intro x hx htype hattempt
  have hover := overcome_of_run (fun _ => Journal.not_system_of_eventsOf) hasked (j.run_of_task s.taskId) s hs
  obtain ⟨m, hm, -, hnot⟩ := hover.authorized x hx htype
  rw [hattempt] at hm
  simpa [hstatus, TaskStatus.isTerminal] using hnot (Option.some.inj hm).symm

end Written

/-! ### Runs -/

def Journal.Asked (j : Journal) : Prop :=
  ∀ id, Courier.Asked (eventsOf id j.events)

theorem Journal.Asked.extends {j j' : Journal} {e : Event} {state : Option TaskState} (h : j.Asked)
    (hextends : j.Extends e state j')
    (he : e.type = .taskBlocked → ∀ s, j.task e.task = some s → s.status = .retryPending) :
  j'.Asked
  := by
  intro id
  obtain ⟨seq, prevHash, hash, hevents, -⟩ := hextends.events
  rw [hevents, eventsOf, List.filter_append]
  by_cases hid : e.taskId = some id
  · have hone : [e.place seq prevHash hash].filter (fun e => e.taskId = some id) = [e.place seq prevHash hash] :=
      List.filter_eq_self.mpr (by simpa [Event.place] using hid)
    rw [hone]
    apply (h id).concat
    intro htype s hs
    apply he htype s
    have htask : e.task = id := by simp [Event.task, hid]
    rw [htask]
    exact (j.run_of_task id).unique hs
  · have hnone : [e.place seq prevHash hash].filter (fun e => e.taskId = some id) = [] :=
      List.filter_eq_nil_iff.mpr (by simpa [Event.place] using hid)
    rw [hnone, List.append_nil]
    exact h id

namespace Controller

theorem asked_append {c : Controller} {e : Event} (h : c.journal.Asked)
    (he : e.type = .taskBlocked → ∀ s, c.journal.task e.task = some s → s.status = .retryPending) :
  wp (append e) (fun _ c' => c'.journal.Asked) (fun _ c' => c'.journal.Asked) c
  := by
  apply wp_append_of
  · intro r c' happend _ _
    obtain ⟨-, hj, -⟩ | ⟨-, -, hextends, -⟩ := Journal.append_ok happend
    · rw [hj]
      exact h
    · exact h.extends hextends he
  · intro why c' _ hfailed
    rw [hfailed.journal]
    exact h

theorem endures_asked :
  Endures fun _ j _ => j.Asked
  := by
  refine ⟨?_, ?_, fun _ h => h⟩
  · intro e he c h
    apply asked_append h
    intro htype
    simp [htype, EventType.isUnasking] at he
  · intro s c h hs
    unfold Controller.decide
    rw [wp_bind, wp_lift]
    refine ⟨?_, fun _ _ => h⟩
    intro _ hcheck
    have hstatus := check_eq_ok.mp hcheck
    rw [record]
    simp only [wp_bind, wp_noting, newEvent, nextDraw, wp_get, wp_set, wp_pure, wp_lift]
    refine ⟨?_, fun _ _ => h⟩
    intro e he
    have hdrafted := drafted_of_build he
    have htask : e.task = s.taskId := by
      cases hdecision : decideAfterFailure s <;> simp [Event.task, hdrafted.taskId, hdecision, decisionDraft]
    apply wp_mono (asked_append (c := { c with draws := fun n => c.draws (n + 1) }) h ?_)
    · intro _ _ h'
      exact h'
    · intro _ _ h'
      exact h'
    · intro _ t ht
      have ht' : c.journal.task e.task = some t := ht
      rw [htask, hs] at ht'
      cases ht'
      exact hstatus

end Controller

theorem asked_of_reached {p : Controller → Request → Controller → Prop} {c : Controller}
    (h : Controller.Reached p c) :
  c.journal.Asked
  := by
  apply h.invariant
  · rintro c ⟨draws, rfl⟩ id before e after s hsplit
    simp [eventsOf, Controller.fresh, Journal.empty] at hsplit
  · rintro c _ hasked ⟨request, -, rfl, -⟩
    refine keeps_step (keeps_perform_of_endures endures_asked ?_ ?_ request fun _ _ _ _ _ h => h) hasked
    · intro e he c h
      apply asked_append h
      intro htype
      simp [he] at htype
    · intro body uuid busy
      refine keeps_createTask fun c _ _ _ _ e h _ _ he _ => asked_append h ?_
      intro htype
      simp [he.type, createdDraft] at htype

end Courier
