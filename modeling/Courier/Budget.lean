import Courier.Completion

/-!
# The budget of attempts

The attempts of a task are claimed in their order, one by one.  A task may be claimed as often
as its creation allows and once more for every retry a human has authorized, and never more
than a hundred times; while it waits it has an attempt left.
-/

namespace Courier

open Run Text

section Histories

variable [Platform]

def claimsOf (id : Str) (events : List Event) : List Event :=
  (eventsOf id events).filter fun e => e.type = .taskClaimed

theorem Step.counters {s s' : TaskState} {e : Event} (step : Step s e s') :
  (e.type = .taskClaimed ∧ e.attempt = some (s.attempt + 1) ∧ s.attempt + 1 ≤ s.maxAttempts ∧
    s'.attempt = s.attempt + 1 ∧ s'.maxAttempts = s.maxAttempts) ∨
  (e.type = .retryAuthorized ∧ s'.attempt = s.attempt ∧
    s'.maxAttempts = max s.maxAttempts (s.attempt + 1)) ∨
  (e.type ≠ .taskClaimed ∧ e.type ≠ .retryAuthorized ∧ s'.attempt = s.attempt ∧
    s'.maxAttempts = s.maxAttempts)
  := by
  cases step with
  | claimed type _ _ attempt budget => exact .inl ⟨type, attempt, budget, rfl, rfl⟩
  | retryAuthorized type => exact .inr (.inl ⟨type, rfl, rfl⟩)
  | _ type => exact .inr (.inr ⟨by simp [type], by simp [type], rfl, rfl⟩)

structure Counted (events : List Event) (s : TaskState) : Prop where
  attempts : 0 ≤ s.attempt
  claims : (events.filter fun e => e.type = .taskClaimed).map (fun e => e.attempt) =
    (List.range s.attempt.toNat).map fun i : Nat => some (i + 1 : Int)
  limit : s.attempt ≤ s.maxAttempts
  granted : ∀ e ∈ events, e.type = .taskCreated →
    s.maxAttempts ≤ (created e).maxAttempts + occurrences .retryAuthorized events

theorem Counted.step {events : List Event} {s s' : TaskState} {e : Event} (h : Counted events s)
    (step : Step s e s') :
  Counted (events ++ [e]) s'
  := by
  obtain ⟨hattempts, hclaims, hlimit, hgranted⟩ := h
  have hcreation : ∀ f ∈ events ++ [e], f.type = .taskCreated →
      s.maxAttempts ≤ (created f).maxAttempts + occurrences .retryAuthorized events := by
    intro f hf hcreated
    rcases List.mem_append.mp hf with hf | hf
    · exact hgranted f hf hcreated
    · obtain rfl := List.mem_singleton.mp hf
      exact absurd hcreated step.type_of.2
  obtain ⟨htype, hattempt, hbudget, hs, hmax⟩ | ⟨htype, hs, hmax⟩ | ⟨hclaim, hauthorize, hs, hmax⟩ :=
    step.counters
  · refine ⟨by omega, ?_, by omega, ?_⟩
    · have hnext : s'.attempt.toNat = s.attempt.toNat + 1 := by omega
      rw [List.filter_append, List.map_append, hclaims, hnext, List.range_succ, List.map_append]
      simp [htype, hattempt, hattempts]
    · intro f hf hcreated
      have hf := hcreation f hf hcreated
      rw [occurrences_of_ne (by simp [htype]), hmax]
      exact hf
  · refine ⟨by omega, ?_, by omega, ?_⟩
    · rw [List.filter_append, List.map_append, hclaims, hs]
      simp [htype]
    · intro f hf hcreated
      have hf := hcreation f hf hcreated
      rw [occurrences_concat, if_pos htype]
      push_cast
      omega
  · refine ⟨by omega, ?_, by omega, ?_⟩
    · rw [List.filter_append, List.map_append, hclaims, hs]
      simp [hclaim]
    · intro f hf hcreated
      have hf := hcreation f hf hcreated
      rw [occurrences_of_ne hauthorize, hmax]
      exact hf

theorem counted_created {e : Event} (h : e.type = .taskCreated) :
  Counted [e] (created e)
  := by
  have hmax := (Event.created_bounds h).1
  refine ⟨le_refl _, ?_, ?_, ?_⟩
  · simp [h, created]
  · show (0 : Int) ≤ (created e).maxAttempts
    omega
  · intro f hf _
    obtain rfl := List.mem_singleton.mp hf
    omega

theorem counted_of_run {events : List Event} {state : Option TaskState}
    (hsystem : ∀ e ∈ events, e.type.isSystem = false) (hrun : Accepts apply none events state) :
  ∀ s, state = some s → Counted events s
  := by
  refine history_of_run (fun e => counted_created) ?_ hsystem hrun
  rintro before s e s' hcounted - step
  have hs' := hcounted.step step
  exact ⟨hs'.attempts, hs'.claims, hs'.limit, hs'.granted⟩

theorem maxAttempts_mono {events : List Event} {s : TaskState} {state : Option TaskState}
    (hrun : Accepts apply (some s) events state) :
  ∃ s', state = some s' ∧ s.maxAttempts ≤ s'.maxAttempts
  := by
  refine Accepts.invariant (p := fun _ => True)
    (I := fun state => ∃ s', state = some s' ∧ s.maxAttempts ≤ s'.maxAttempts) ?_
    ⟨s, rfl, le_refl _⟩ (by simp) hrun
  rintro _ e t ⟨s', rfl, hle⟩ - ht
  cases apply_iff.mp ht with
  | system => exact ⟨s', rfl, hle⟩
  | step _ _ _ step =>
    refine ⟨_, rfl, le_trans hle ?_⟩
    obtain ⟨-, -, -, -, hmax⟩ | ⟨-, -, hmax⟩ | ⟨-, -, -, hmax⟩ := step.counters
    · exact le_of_eq hmax.symm
    · rw [hmax]
      exact le_max_left _ _
    · exact le_of_eq hmax.symm

/-! ### Journals -/

/-- What a journal says of the attempts of its tasks, at every point of its history. -/
structure Budgeted (j : Journal) : Prop where
  /-- The attempts are claimed in their order. -/
  attempts : ∀ {before after} (id : Str), j.events = before ++ after →
    (claimsOf id before).map (fun e => e.attempt) =
      (List.range (claimsOf id before).length).map fun i : Nat => some (i + 1 : Int)
  /-- There are no more claims than were allowed and authorized. -/
  granted : ∀ {before after} (id : Str) (e : Event), j.events = before ++ after → e ∈ before →
    e.taskId = some id → e.type = .taskCreated →
    ((claimsOf id before).length : Int) ≤ (e.get (text "max_attempts")).asInt +
      occurrences .retryAuthorized (eventsOf id before)
  /-- There are at most a hundred claims. -/
  limit : ∀ {before after} (id : Str), j.events = before ++ after →
    ((claimsOf id before).length : Int) ≤ MAX_ATTEMPTS_LIMIT
  /-- The stored limit never decreases, and never exceeds a hundred. -/
  monotone : ∀ {before between after tasks tasks' s s'} (id : Str),
    j.events = before ++ between ++ after → fold before = .ok tasks →
    fold (before ++ between) = .ok tasks' → tasks.get? id = some s → tasks'.get? id = some s' →
    s.maxAttempts ≤ s'.maxAttempts ∧ s'.maxAttempts ≤ MAX_ATTEMPTS_LIMIT
  /-- A task that waits has an attempt left. -/
  queued : ∀ {before after tasks s} (id : Str), j.events = before ++ after →
    fold before = .ok tasks → tasks.get? id = some s → s.status = .queued →
    s.attempt < s.maxAttempts
  /-- A task that waits and is not to be cancelled accepts the claim of its next attempt. -/
  claimable : ∀ {before after tasks s} (id : Str) (e : Event), j.events = before ++ after →
    fold before = .ok tasks → tasks.get? id = some s → s.status = .queued →
    s.cancelRequested = false → e.type = .taskClaimed → e.taskId = some id →
    e.attempt = some (s.attempt + 1) → Bound s e → ∃ s', apply (some s) e = .ok (some s')

namespace Journal

variable {j : Journal} {before after : List Event} {id : Str} {s : TaskState}

theorem counted_of_prefix (h : j.events = before ++ after) (id : Str) :
  ∃ state, Accepts apply none (eventsOf id before) state ∧
    ∀ s, state = some s → s.Lawful ∧ Counted (eventsOf id before) s
  := by
  have hrun := j.run_of_task id
  rw [h, eventsOf, List.filter_append] at hrun
  obtain ⟨state, hbefore, -⟩ := accepts_append.mp hrun
  refine ⟨state, hbefore, ?_⟩
  intro s hs
  exact ⟨(recorded_of_run (fun _ => not_system_of_eventsOf) hbefore s hs).1,
    counted_of_run (fun _ => not_system_of_eventsOf) hbefore s hs⟩

theorem counted_of_fold {tasks : Tasks} (h : j.events = before ++ after)
    (hfold : fold before = .ok tasks) (hs : tasks.get? id = some s) :
  s.Lawful ∧ Counted (eventsOf id before) s
  := by
  obtain ⟨state, hrun, hstate⟩ := counted_of_prefix h id
  apply hstate s
  rw [← hs]
  exact hrun.unique (run_of_fold_empty hfold id)

theorem claims_of_prefix (h : j.events = before ++ after) (id : Str) :
  claimsOf id before = [] ∨ ∃ s, s.Lawful ∧ Counted (eventsOf id before) s ∧
    (claimsOf id before).length = s.attempt.toNat
  := by
  obtain ⟨state, hrun, hstate⟩ := counted_of_prefix h id
  cases state with
  | none =>
    left
    have hnil : eventsOf id before = [] := by
      cases hevents : eventsOf id before with
      | nil => rfl
      | cons e rest =>
        have hmem : e ∈ eventsOf id before := by simp [hevents]
        rw [hevents] at hrun
        obtain ⟨s, hs⟩ := @known_of_split _ _ _ [] _ _ hrun (not_system_of_eventsOf hmem)
        cases hs
    rw [claimsOf, hnil, List.filter_nil]
  | some s =>
    right
    obtain ⟨hlawful, hcounted⟩ := hstate s rfl
    refine ⟨s, hlawful, hcounted, ?_⟩
    have hlength := congrArg List.length hcounted.claims
    simpa [claimsOf] using hlength

/-- The attempts of every task keep to their budget, whatever was submitted to the journal. -/
theorem budgeted_run (calls : List Event) :
  Budgeted (run calls)
  := by
  generalize run calls = j
  constructor
  · intro before after id h
    obtain hnil | ⟨s, -, hcounted, hlength⟩ := claims_of_prefix h id
    · simp [hnil]
    · rw [hlength]
      exact hcounted.claims
  · intro before after id e h he htask htype
    have hmem : e ∈ eventsOf id before := List.mem_filter.mpr ⟨he, by simp [htask]⟩
    obtain hnil | ⟨s, -, hcounted, hlength⟩ := claims_of_prefix h id
    · rw [hnil]
      have hmax : 1 ≤ (e.get (text "max_attempts")).asInt := (Event.created_bounds htype).1
      simp only [List.length_nil]
      omega
    · have hgranted := hcounted.granted e hmem htype
      have hlimit := hcounted.limit
      have hattempts := hcounted.attempts
      have hmax : (created e).maxAttempts = (e.get (text "max_attempts")).asInt := rfl
      rw [hlength, ← hmax]
      omega
  · intro before after id h
    obtain hnil | ⟨s, hlawful, -, hlength⟩ := claims_of_prefix h id
    · rw [hnil]
      show (0 : Int) ≤ MAX_ATTEMPTS_LIMIT
      decide
    · have hbounds := hlawful.attempts
      rw [hlength]
      omega
  · intro before between after tasks tasks' s s' id h hfold hfold' hs hs'
    refine ⟨?_, (counted_of_fold h hfold' hs').1.budget⟩
    have hrun := run_of_fold_empty hfold' id
    rw [eventsOf, List.filter_append] at hrun
    obtain ⟨state, hbefore, hbetween⟩ := accepts_append.mp hrun
    obtain rfl := hbefore.unique (run_of_fold_empty hfold id)
    rw [hs] at hbetween
    obtain ⟨t, ht, hle⟩ := maxAttempts_mono hbetween
    obtain rfl := Option.some.inj (hs'.symm.trans ht)
    exact hle
  · intro before after tasks s id h hfold hs hstatus
    exact (counted_of_fold h hfold hs).1.queued hstatus
  · intro before after tasks s id e h hfold hs hstatus hwanted htype htask hattempt hbound
    have hlt := (counted_of_fold h hfold hs).1.queued hstatus
    have hid : s.taskId = id := (wellFormed_fold hfold id s hs).1
    exact ⟨_, apply_iff.mpr (.step (by rw [htype]; rfl) (by simp [htype]) (by rw [htask, hid])
      (.claimed htype hstatus hwanted hattempt (by omega) hbound))⟩

end Journal

end Histories

end Courier
