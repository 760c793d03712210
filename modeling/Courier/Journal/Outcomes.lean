import Courier.Journal

/-!
# What an append comes to

An append extends the journal by its event, answers a duplicate, refuses the event, or fails to
store it.  What the journal is after it, and when it refuses, is said here once.
-/

namespace Courier

open Except

def Exc.isRefusal : Exc → Bool
  | .eventValidation _ => true
  | .transition _ => true
  | .dedupeConflict _ => true
  | _ => false

/-- The exceptions that are neither a refusal of the journal nor an answer. -/
def Exc.isFault : Exc → Bool
  | .eventValidation _ => false
  | .transition _ => false
  | .dedupeConflict _ => false
  | .api _ => false
  | _ => true

theorem Exc.not_refusal_of_fault {why : Exc} (h : why.isFault = true) :
  why.isRefusal = false
  := by
  cases why <;> first | rfl | cases h

/-! ### Failures to store -/

theorem fault_of_bindAll {parameters : List SqlValue} {why : Exc}
    (h : bindAll parameters = .error why) :
  why.isFault = true
  := by
  unfold bindAll at h
  split at h <;> cases h <;> rfl

variable [Platform]

theorem fault_of_sealed {e : Event} {seq : Int} {prevHash : Str} {why : Exc}
    (h : e.sealed seq prevHash = .error why) :
  why.isFault = true
  := by
  unfold Event.sealed Event.chainHash at h
  split at h
  · cases h
  · cases h
    rfl

theorem refusal_of_applyEvent {tasks : Tasks} {e : Event} {why : Exc} (hseq : e.seq ≠ none)
    (h : applyEvent tasks e = .error why) (hfault : why.isFault = false) :
  apply (tasks.get? e.task) e = .error why
  := by
  have hbound : ∀ {parameters : List SqlValue}, bindAll parameters ≠ .error why := by
    intro parameters hbind
    rw [fault_of_bindAll hbind] at hfault
    cases hfault
  unfold applyEvent at h
  rw [check_of hseq, ok_bind] at h
  split_ifs at h
  · cases h
  · cases hbind : bindAll [SqlValue.ofOption e.taskId] with
    | error e' =>
    rw [hbind, error_bind] at h
    cases h
    exact absurd hbind hbound
    | ok u =>
    rw [hbind, ok_bind] at h
    cases happly : apply (tasks.get? e.task) e with
    | error e' =>
      rw [happly, error_bind] at h
      cases h
      rfl
    | ok new =>
      rw [happly, ok_bind] at h
      cases new with
      | none => cases h
      | some s =>
        cases hrow : bindAll (toRow s).values with
        | error e' =>
          simp only [store, hrow, error_bind, error.injEq] at h
          rw [h] at hrow
          exact absurd hrow hbound
        | ok u => simp [store, hrow, pure, Except.pure] at h

/-! ### The place of an event changes nothing about its step -/

theorem step_place {s s' : TaskState} {e : Event} {seq : Int} {prevHash : Str}
    {hash : Option Str} :
  Step s (e.place seq prevHash hash) s' ↔ Step s e s'
  := by
  rw [← transition_iff, ← transition_iff]
  exact Iff.rfl

theorem apply_place {s s' : TaskState} {e : Event} (hsystem : e.type.isSystem = false)
    (hcreated : e.type ≠ .taskCreated) (htask : e.taskId = some s.taskId) (step : Step s e s')
    (seq : Int) (prevHash : Str) (hash : Option Str) :
  apply (some s) (e.place seq prevHash hash) = .ok (some { s' with updatedSeq := some seq })
  := by
  apply apply_iff.mpr
  exact .step hsystem hcreated htask (step_place.mpr step)

namespace Journal

variable {j j' : Journal} {e : Event}

/-! ### Extensions -/

structure Extends (j : Journal) (e : Event) (state : Option TaskState) (j' : Journal) : Prop where
  events : ∃ seq prevHash hash, j'.events = j.events ++ [e.place seq prevHash hash] ∧
    (e.type = .taskCreated → state = some (created (e.place seq prevHash hash))) ∧
    ∀ s, e.type.isSystem = false → e.type ≠ .taskCreated → j.task e.task = some s →
      ∃ s', Step s e s' ∧ state = some { s' with updatedSeq := some seq }
  tasks : ∀ id, j'.task id = if e.taskId = some id then state else j.task id

/-- What an append that stores its event leaves. -/
theorem extends_of_admits {placed : Event} {state : Option TaskState} {tasks : Tasks}
    (hnew : j.existing e = none) (h : j.Admits e placed state tasks) :
  j.Extends e state (j.extend hnew h)
  := by
  obtain ⟨⟨hash, rfl, -⟩, happlied, -, -⟩ := h
  by_cases hs : e.type.isSystem = true
  · obtain ⟨rfl, rfl⟩ := applyEvent_system (e := e.place _ _ _) hs happlied
    refine ⟨⟨_, _, _, rfl, ?_, by simp [hs]⟩, ?_⟩
    · intro hcreated
      simp [hcreated, EventType.isSystem] at hs
    intro id
    rw [if_neg (by simp [Event.taskId_of_system hs])]
    rfl
  · have hs' : e.type.isSystem = false := by simpa using hs
    obtain ⟨s, rfl, happly, rfl⟩ := applyEvent_task (e := e.place _ _ _) hs' happlied
    have htask : e.taskId = some e.task := (Applied.taskId (apply_iff.mp happly) hs').2
    constructor
    · refine ⟨_, _, _, rfl, ?_, ?_⟩
      · intro hcreated
        generalize j.tasks.get? _ = state at happly
        generalize hnew : some s = new at happly
        cases apply_iff.mp happly with
        | system type => exact absurd type hs
        | created => rfl
        | step _ type => exact absurd hcreated type
      intro old _ hcreated hold
      generalize hget : j.tasks.get? _ = state at happly
      rw [show state = some old from hget.symm.trans hold] at happly
      generalize hnew : some s = new at happly
      cases apply_iff.mp happly with
      | system type => exact absurd type hs
      | step _ _ _ step =>
        cases hnew
        exact ⟨_, step_place.mp step, rfl⟩
    · intro id
      rw [htask]
      show (j.tasks.set e.task s).get? id = _
      rw [Dict.get?_set]
      by_cases hid : id = e.task
      · rw [if_pos hid, if_pos (by rw [hid])]
      · rw [if_neg hid, if_neg (by simpa using Ne.symm hid)]
        rfl

theorem append_ok {r : AppendResult} (h : j.append e = .ok (r, j')) :
  (r.duplicate = true ∧ j' = j ∧ j.existing e = some r.event ∧ r.event.content = e.content) ∨
    (r.duplicate = false ∧ j.existing e = none ∧ j.Extends e r.state j' ∧
      r.event ∈ j'.events)
  := by
  obtain ⟨-, -, happended⟩ := append_eq_ok.mp h
  cases happended with
  | duplicate existing same => exact .inl ⟨rfl, rfl, existing, same⟩
  | stored new admits => exact .inr ⟨rfl, new, extends_of_admits new admits, by simp [extend]⟩

/-! ### Stored keys -/

theorem unique_of_key {x y : Event} {key : Str} (hx : x ∈ j.events) (hy : y ∈ j.events)
    (hxkey : x.dedupeKey = some key) (hykey : y.dedupeKey = some key) :
  x = y
  := by
  have hpairwise := List.pairwise_filterMap.mp j.keys_nodup
  have hsym : Std.Symm fun a b : Event =>
      ∀ k, a.dedupeKey = some k → ∀ l, b.dedupeKey = some l → k ≠ l :=
    ⟨fun _ _ h k hk l hl => (h l hl k hk).symm⟩
  by_contra hne
  exact hpairwise.forall hx hy hne key hxkey key hykey rfl

theorem getEventByDedupeKey_of_mem {x : Event} {key : Str} (hx : x ∈ j.events)
    (hkey : x.dedupeKey = some key) :
  j.getEventByDedupeKey key = some x
  := by
  cases hfind : j.getEventByDedupeKey key with
  | none =>
    have hnone := List.find?_eq_none.mp hfind x hx
    simp [hkey] at hnone
  | some y =>
    have hykey : y.dedupeKey = some key := by simpa using List.find?_some hfind
    rw [unique_of_key (List.mem_of_find?_eq_some hfind) hx hykey hkey]

/-! ### Refusals -/

theorem refusal_of_candidate {why : Exc} (h : j.candidate e = .error why)
    (hfault : why.isFault = false) :
  ∃ seq prevHash hash, apply (j.task e.task) (e.place seq prevHash hash) = .error why
  := by
  have hnot : why.isFault ≠ true := by simp [hfault]
  unfold candidate at h
  cases hsealed : e.sealed (j.head.1 + 1) j.head.2 with
  | error e' =>
    rw [hsealed, error_bind] at h
    cases h
    exact absurd (fault_of_sealed hsealed) hnot
  | ok placed =>
    obtain ⟨hash, rfl, -⟩ := Event.sealed_eq_ok.mp hsealed
    rw [hsealed, ok_bind] at h
    cases happly : applyEvent j.tasks (e.place (j.head.1 + 1) j.head.2 (some hash)) with
    | error e' =>
      rw [happly, error_bind] at h
      cases h
      exact ⟨_, _, _, refusal_of_applyEvent (by simp [Event.place]) happly hfault⟩
    | ok p =>
      obtain ⟨state, tasks⟩ := p
      rw [happly, ok_bind] at h
      simp only at h
      cases hrow : bindAll
          (eventRow (e.place (j.head.1 + 1) j.head.2 (some hash))).values with
      | error e' =>
        rw [hrow, error_bind] at h
        cases h
        exact absurd (fault_of_bindAll hrow) hnot
      | ok u =>
        rw [hrow, ok_bind] at h
        unfold check at h
        split_ifs at h
        · cases h
          exact absurd rfl hnot
        · cases h

/-- The journal refuses an event for what its key or its task says, and for nothing else. -/
theorem refusal_of_append {why : Exc} (hunsealed : e.seq = none ∧ e.hash = none)
    (h : j.append e = .error why) (hfault : why.isFault = false) :
  (∃ message x, why = .dedupeConflict message ∧ j.existing e = some x) ∨
    (j.existing e = none ∧ ∃ seq prevHash hash,
      apply (j.task e.task) (e.place seq prevHash hash) = .error why)
  := by
  unfold append at h
  rw [check_of hunsealed, ok_bind] at h
  cases hbind : bindAll [SqlValue.ofOption e.dedupeKey] with
  | error e' =>
    rw [hbind, error_bind] at h
    cases h
    rw [fault_of_bindAll hbind] at hfault
    cases hfault
  | ok u =>
    rw [hbind, ok_bind] at h
    cases hexisting : j.existing e with
    | some x =>
      rw [answer_of_existing hexisting] at h
      split_ifs at h
      cases h
      exact .inl ⟨_, x, rfl, rfl⟩
    | none =>
      right
      refine ⟨rfl, ?_⟩
      cases hcand : j.candidate e with
      | ok p =>
        obtain ⟨placed, state, tasks⟩ := p
        have hok := answer_eq_ok.mpr (.stored hexisting (candidate_eq_ok.mp hcand))
        rw [hok] at h
        cases h
      | error e' =>
        rw [answer_of_refused hexisting hcand] at h
        cases h
        exact refusal_of_candidate hcand hfault

end Journal

end Courier
