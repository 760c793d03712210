import Courier.Projection
import Courier.EventRow

/-!
# The journal

A chain of sealed events together with the state of every task they fold to.  A `Journal` carries the proof of this,
and that no two events share an id or a de-duplication key; `Journal.append` is the only way to extend it.
-/

namespace Courier

open Except Run

variable [Platform]

/-! ### The chain -/

structure Event.Sealed (e : Event) (seq : Int) (prevHash hash : Str) : Prop where
  seq_eq : e.seq = some seq
  prevHash_eq : e.prevHash = some prevHash
  hash_eq : e.hash = some hash
  digest : Event.chainHash e.toEventFields (canonicalJson (.obj e.payload)) = .ok hash

/-- The events are sealed one after the other. -/
def Chained (seq : Int) (prevHash : Str) : List Event → Prop
  | [] => True
  | e :: rest => ∃ hash, e.Sealed seq prevHash hash ∧ Chained (seq + 1) hash rest

def lastHash (prevHash : Str) (events : List Event) : Str :=
  events.foldl (fun last e => e.hash.getD last) prevHash

@[simp]
theorem lastHash_nil (prevHash : Str) :
  lastHash prevHash [] = prevHash
  := rfl

variable {prevHash : Str} {e : Event} {events : List Event}

theorem lastHash_cons {hash : Str}
    (h : e.hash = some hash) :
  lastHash prevHash (e :: events) = lastHash hash events
  := by
  simp [lastHash, h]

theorem lastHash_concat {hash : Str}
    (h : e.hash = some hash) :
  lastHash prevHash (events ++ [e]) = hash
  := by
  simp [lastHash, h]

theorem chained_concat {e : Event} :
  ∀ {events : List Event} {seq : Int} {prevHash : Str},
    Chained seq prevHash (events ++ [e]) ↔ Chained seq prevHash events ∧
      ∃ hash, e.Sealed (seq + events.length) (lastHash prevHash events) hash
  | [], seq, prevHash => by simp [Chained]
  | f :: events, seq, prevHash => by
    have hlength : seq + 1 + (events.length : Int) = seq + ((f :: events).length : Nat) := by
      push_cast [List.length_cons]
      omega
    simp only [List.cons_append, Chained]
    constructor
    · rintro ⟨hash, hf, hrest⟩
      obtain ⟨hevents, hash', he⟩ := chained_concat.mp hrest
      rw [lastHash_cons hf.hash_eq, ← hlength]
      exact ⟨⟨hash, hf, hevents⟩, hash', he⟩
    · rintro ⟨⟨hash, hf, hevents⟩, hash', he⟩
      rw [lastHash_cons hf.hash_eq, ← hlength] at he
      exact ⟨hash, hf, chained_concat.mpr ⟨hevents, hash', he⟩⟩

theorem Chained.seqs {seq : Int}
    (h : Chained seq prevHash events) :
  events.map (fun e => e.seq) = (List.range events.length).map fun n : Nat => some (seq + (n : Int))
  := by
  induction events generalizing seq prevHash with
  | nil => rfl
  | cons e events ih =>
    obtain ⟨hash, he, hrest⟩ := h
    rw [List.map_cons, ih hrest, he.seq_eq, List.length_cons, List.range_succ_eq_map]
    simp only [List.map_cons, List.map_map, Int.natCast_zero, add_zero, List.cons.injEq,
      true_and]
    apply List.map_congr_left
    intro n _
    simp only [Function.comp_apply, Option.some.injEq]
    push_cast
    omega

theorem sealed_of_sealed {p : Event} {seq : Int}
    (h : e.sealed seq prevHash = .ok p) :
  ∃ hash, p = e.place seq prevHash (some hash) ∧ p.Sealed seq prevHash hash
  := by
  obtain ⟨hash, rfl, hdigest⟩ := Event.sealed_eq_ok.mp h
  exact ⟨hash, rfl, rfl, rfl, rfl, hdigest⟩

/-! ### Journals -/

structure Journal where
  events : List Event
  tasks : Tasks
  chained : Chained 1 GENESIS_HASH events
  rebuilt : rebuild events = .ok tasks
  bound : ∀ e ∈ events, bindAll (eventRow e).values = .ok ()
  ids_nodup : (events.map fun e => e.eventId).Nodup
  keys_nodup : (events.filterMap fun e => e.dedupeKey).Nodup

/-- The journal before the first event. -/
def Journal.empty : Journal where
  events := []
  tasks := ∅
  chained := trivial
  rebuilt := rfl
  bound := by simp
  ids_nodup := List.nodup_nil
  keys_nodup := List.nodup_nil

/-- The answer to a submission.  A duplicate is answered with the event already stored. -/
structure AppendResult where
  event : Event
  duplicate : Bool
  state : Option TaskState

namespace Journal

def head (j : Journal) : Int × Str :=
  match j.events.getLast? with
  | some e => (e.seq.getD 0, e.hash.getD [])
  | none => (0, GENESIS_HASH)

/-- The stored event with a de-duplication key. -/
def getEventByDedupeKey (j : Journal) (key : Str) : Option Event :=
  j.events.find? fun e => e.dedupeKey = some key

def claimForDispatch (j : Journal) (dispatchId : Str) : Option Event :=
  j.events.find? fun e => e.dispatchId = some dispatchId ∧ e.type = .taskClaimed

def task (j : Journal) (taskId : Str) : Option TaskState :=
  j.tasks.get? taskId

/-- The event that was stored for a submission with the same key. -/
def existing (j : Journal) (e : Event) : Option Event :=
  e.dedupeKey.bind j.getEventByDedupeKey

/-- What the transaction of an append does with a new submission: seal it, fold it, write the
state of its task and the event. -/
def candidate (j : Journal) (e : Event) : Except Exc (Event × Option TaskState × Tasks) := do
  let placed ← e.sealed (j.head.1 + 1) j.head.2
  let (state, tasks) ← applyEvent j.tasks placed
  bindAll (eventRow placed).values
  check (placed.eventId ∉ j.events.map fun e => e.eventId) .integrity
  return (placed, state, tasks)

theorem head_eq (j : Journal) :
  j.head = ((j.events.length : Int), lastHash GENESIS_HASH j.events)
  := by
  obtain ⟨events, tasks, chained, -, -, -, -⟩ := j
  unfold head
  obtain rfl | ⟨before, e, rfl⟩ := List.eq_nil_or_concat' events
  · rfl
  · obtain ⟨-, hash, he⟩ := chained_concat.mp chained
    simp only [List.getLast?_concat, he.seq_eq, he.hash_eq, Option.getD_some,
      lastHash_concat he.hash_eq, List.length_append, List.length_singleton, Prod.mk.injEq,
      and_true]
    push_cast
    omega

theorem replayed (j : Journal) :
  fold j.events = .ok j.tasks
  := fold_of_rebuild j.rebuilt

/-- What `candidate` establishes when it admits an event. -/
structure Admits (j : Journal) (e placed : Event) (state : Option TaskState) (tasks : Tasks) :
    Prop where
  place : ∃ hash, placed = e.place (j.events.length + 1) (lastHash GENESIS_HASH j.events)
    (some hash) ∧ placed.Sealed (1 + j.events.length) (lastHash GENESIS_HASH j.events) hash
  applied : applyEvent j.tasks placed = .ok (state, tasks)
  bound : bindAll (eventRow placed).values = .ok ()
  fresh : placed.eventId ∉ j.events.map fun e => e.eventId

variable {j : Journal}

theorem candidate_eq_ok {placed : Event} {state : Option TaskState} {tasks : Tasks} :
  j.candidate e = .ok (placed, state, tasks) ↔ j.Admits e placed state tasks
  := by
  have hcomm : (1 : Int) + j.events.length = j.events.length + 1 := by omega
  simp only [candidate, head_eq, bind_eq_ok, check_eq_ok, pure, Except.pure, ok.injEq,
    Prod.mk.injEq]
  constructor
  · rintro ⟨p, hp, ⟨s, t⟩, ha, ⟨⟩, hb, ⟨⟩, hf, rfl, rfl, rfl⟩
    obtain ⟨hash, hplace, hsealed⟩ := sealed_of_sealed hp
    exact ⟨⟨hash, hplace, by rwa [hcomm]⟩, ha, hb, hf⟩
  · rintro ⟨⟨hash, hplace, hsealed⟩, ha, hb, hf⟩
    refine ⟨placed, ?_, (state, tasks), ha, (), hb, (), hf, rfl, rfl, rfl⟩
    apply Event.sealed_eq_ok.mpr
    refine ⟨hash, hplace, ?_⟩
    have hdigest := hsealed.digest
    rw [hplace] at hdigest
    exact hdigest

theorem existing_eq_none :
  j.existing e = none ↔ ∀ key, e.dedupeKey = some key → ∀ x ∈ j.events, x.dedupeKey ≠ some key
  := by
  unfold existing getEventByDedupeKey
  cases e.dedupeKey with
  | none => simp
  | some key => simp

theorem mem_of_existing {x : Event} (h : j.existing e = some x) :
  x ∈ j.events ∧ ∃ key, e.dedupeKey = some key ∧ x.dedupeKey = some key
  := by
  obtain ⟨key, hkey, hfind⟩ := Option.bind_eq_some_iff.mp h
  exact ⟨List.mem_of_find?_eq_some hfind, key, hkey, by simpa using List.find?_some hfind⟩

def extend (j : Journal) {e placed : Event} {state : Option TaskState} {tasks : Tasks}
    (hnew : j.existing e = none) (h : j.Admits e placed state tasks) : Journal where
  events := j.events ++ [placed]
  tasks := tasks
  chained := by
    obtain ⟨hash, -, hsealed⟩ := h.place
    exact chained_concat.mpr ⟨j.chained, hash, hsealed⟩
  rebuilt := by
    apply accepts_concat.mpr
    exact ⟨j.tasks, j.rebuilt, rebuildEvent_eq_ok.mpr ⟨state, h.applied⟩⟩
  bound := by
    intro f hf
    rcases List.mem_append.mp hf with hf | hf
    · exact j.bound f hf
    · obtain rfl := List.mem_singleton.mp hf
      exact h.bound
  ids_nodup := by
    rw [List.map_append]
    apply List.nodup_append.mpr
    refine ⟨j.ids_nodup, by simp, ?_⟩
    rintro a ha b hb rfl
    obtain rfl : a = placed.eventId := by simpa using hb
    exact h.fresh ha
  keys_nodup := by
    obtain ⟨hash, hplace, -⟩ := h.place
    have hkey : placed.dedupeKey = e.dedupeKey := by rw [hplace]; rfl
    rw [List.filterMap_append]
    apply List.nodup_append.mpr
    refine ⟨j.keys_nodup, ?_, ?_⟩
    · cases hk : placed.dedupeKey <;> simp [hk]
    · rintro key hmem key' hmem' rfl
      obtain ⟨x, hx, hxkey⟩ := List.mem_filterMap.mp hmem
      have hk : e.dedupeKey = some key := by simpa [hkey] using hmem'
      exact existing_eq_none.mp hnew key hk x hx hxkey

/-- Answer a submission: with the event stored for its key, or by storing it. -/
def answer (j : Journal) (e : Event) : Except Exc (AppendResult × Journal) :=
  match hnew : j.existing e with
  | some x =>
      if x.content = e.content then .ok (⟨x, true, x.taskId.bind j.task⟩, j)
      else .error (.dedupeConflict (text "dedupe_key "
        ++ Platform.repr (.str (e.dedupeKey.getD [])) ++ text " already used by seq "
        ++ showAttempt x.seq ++ text " with different content"))
  | none =>
      match hcand : j.candidate e with
      | .ok (placed, state, _) =>
          .ok (⟨placed, false, state⟩, j.extend hnew (candidate_eq_ok.mp hcand))
      | .error why => .error why

/-- Append an event: the only write path. -/
def append (j : Journal) (e : Event) : Except Exc (AppendResult × Journal) := do
  check (e.seq = none ∧ e.hash = none)
    (.journal (text "event is already sealed; append unsealed events only"))
  bindAll [.ofOption e.dedupeKey]
  j.answer e

inductive Appended (j : Journal) (e : Event) : AppendResult → Journal → Prop where
  | duplicate {x : Event}
      (existing : j.existing e = some x)
      (same : x.content = e.content) :
      Appended j e ⟨x, true, x.taskId.bind j.task⟩ j
  | stored {placed : Event} {state : Option TaskState} {tasks : Tasks}
      (new : j.existing e = none)
      (admits : j.Admits e placed state tasks) :
      Appended j e ⟨placed, false, state⟩ (j.extend new admits)

theorem answer_eq_ok {j' : Journal} {r : AppendResult} :
  j.answer e = .ok (r, j') ↔ Appended j e r j'
  := by
  unfold answer
  constructor
  · intro h
    split at h
    · next x hx =>
      split_ifs at h with hsame
      cases h
      exact .duplicate hx hsame
    · next hnew =>
      split at h
      · cases h
        apply Appended.stored
      · cases h
  · intro h
    cases h with
    | duplicate existing same =>
      split
      · next x hx =>
        cases existing.symm.trans hx
        rw [if_pos same]
      · next hnew => simp [existing] at hnew
    | stored new admits =>
      split
      · next x hx => simp [new] at hx
      · next hnew =>
        have hcand := candidate_eq_ok.mpr admits
        split
        · next placed state tasks h =>
          cases hcand.symm.trans h
          rfl
        · next why h => simp [hcand] at h

theorem answer_of_existing {x : Event} (h : j.existing e = some x) :
  j.answer e = if x.content = e.content then .ok (⟨x, true, x.taskId.bind j.task⟩, j)
    else .error (.dedupeConflict (text "dedupe_key "
      ++ Platform.repr (.str (e.dedupeKey.getD [])) ++ text " already used by seq "
      ++ showAttempt x.seq ++ text " with different content"))
  := by
  unfold answer
  split
  · next y hy =>
    cases h.symm.trans hy
    rfl
  · next hnone => simp [h] at hnone

theorem answer_of_refused {why : Exc} (hnew : j.existing e = none)
    (h : j.candidate e = .error why) :
  j.answer e = .error why
  := by
  unfold answer
  split
  · next x hx => simp [hnew] at hx
  · split
    · next hcand => simp [h] at hcand
    · next hcand =>
      cases h.symm.trans hcand
      rfl

theorem append_eq_ok {j' : Journal} {r : AppendResult} :
  j.append e = .ok (r, j') ↔ (e.seq = none ∧ e.hash = none) ∧
    bindAll [.ofOption e.dedupeKey] = .ok () ∧ Appended j e r j'
  := by
  simp only [append, bind_unit_eq_ok, check_eq_ok, answer_eq_ok]

/-- The journal after a call of `append`, which leaves it as it is if it is refused. -/
def submit (j : Journal) (e : Event) : Journal :=
  match j.append e with
  | .ok (_, j') => j'
  | .error _ => j

/-- The journal after a sequence of calls of `append`. -/
def run (calls : List Event) : Journal :=
  calls.foldl submit empty

/-! ### The tasks of a journal -/

theorem run_of_task (j : Journal) (id : Str) :
  Accepts apply none (eventsOf id j.events) (j.task id)
  := run_of_fold_empty j.replayed id

variable {id : Str}

theorem taskId_of_task {s : TaskState} (h : j.task id = some s) :
  s.taskId = id
  := (wellFormed_fold j.replayed id s h).1

theorem not_system_of_eventsOf
    (h : e ∈ eventsOf id events) :
  e.type.isSystem = false
  := by
  have htask : e.taskId = some id := by simpa using (List.mem_filter.mp h).2
  by_contra hs
  simp [Event.taskId_of_system (by simpa using hs)] at htask

theorem eventsOf_of_unknown (h : j.task id = none) :
  eventsOf id j.events = []
  := by
  cases hevents : eventsOf id j.events with
  | nil => rfl
  | cons e rest =>
    have hmem : e ∈ eventsOf id j.events := by simp [hevents]
    have hs : e.type.isSystem = false := not_system_of_eventsOf hmem
    have hrun : Accepts apply none ([] ++ e :: rest) none := by
      have hrun := j.run_of_task id
      rwa [hevents, h] at hrun
    obtain ⟨s, hs⟩ := known_of_split hrun hs
    cases hs

theorem known_of_event (he : e ∈ j.events)
    (htask : e.taskId = some id) :
  ∃ s, j.task id = some s
  := by
  cases h : j.task id with
  | some s => exact ⟨s, rfl⟩
  | none =>
    have hmem : e ∈ eventsOf id j.events := List.mem_filter.mpr ⟨he, by simp [htask]⟩
    rw [eventsOf_of_unknown h] at hmem
    cases hmem

theorem recorded_of_task {s : TaskState} (h : j.task id = some s) :
  s.Lawful ∧ Recorded (eventsOf id j.events) s
  := recorded_of_run (fun _ => not_system_of_eventsOf) (j.run_of_task id) s h

end Journal

end Courier
