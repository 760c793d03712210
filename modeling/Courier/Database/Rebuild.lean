import Courier.Database

/-!
# Live state equals replay

Whatever is submitted to the database of a journal and whichever statements raise, the table
of tasks is the replay of the stored events, and replaying the events into an empty table
gives the same table.
-/

namespace Courier

open Except Program Session Run

section Rebuild

variable [Platform]

/-! ### Replaying events into a table -/

def replayEvent (e : Event) : Sql Unit := do
  try
    let _ ← projectEvent e
    pure ()
  catch why => throw (replayError e why)

/-- The loop of a replay into the tables. -/
def replayEvents : List Event → Sql Unit
  | [] => pure ()
  | e :: events => do
      replayEvent e
      replayEvents events

/-- `rebuild_in_place`: drop the projection, create it again and replay the events. -/
def rebuildInPlace (events : List Event) : Sql Unit := do
  write fun tables => .ok { tables with tasks := ∅, lastSeq := text "0" }
  replayEvents events

/-- `rebuild`: replay the events into a new database. -/
def rebuildInto (events : List Event) : Sql Unit := do
  transaction do
    replayEvents events
    commit

def Tables.readEvents (tables : Tables) : Except Exc (List Event) :=
  tables.events.mapM Event.fromRow

def lastSeqOf (lastSeq : Str) (events : List Event) : Str :=
  events.foldl (fun _ e => Text.decimal (e.seq.getD 0)) lastSeq

variable {j : Journal} {s : Session Tables Exc}

theorem readEvents_encode :
  j.encode.readEvents = .ok j.events
  := by
  have key : ∀ events : List Event, (events.map eventRow).mapM Event.fromRow = .ok events := by
    intro events
    induction events with
    | nil => rfl
    | cons e events ih =>
      rw [List.map_cons, List.mapM_cons, fromRow_eventRow, ok_bind, ih, ok_bind]
      rfl
  apply key

theorem wp_replayEvents {stored : Tables} {events : List Event} :
  ∀ {tables : Tables} {tasks tasks' : Tasks} {s : Session Tables Exc},
    At [] stored (some tables) s → tables.Holds tasks → Accepts rebuildEvent tasks events tasks' →
    wp (replayEvents events) (fun _ s' => At [] stored (some
      { tables with tasks := tasks'.map toRow, lastSeq := lastSeqOf tables.lastSeq events }) s')
      (fun _ _ => False) s
  := by
  induction events with
  | nil =>
    intro tables tasks tasks' s h hholds hrun
    obtain rfl := accepts_nil.mp hrun
    rw [replayEvents, wp_pure, ← hholds.rows]
    exact h
  | cons e events ih =>
    intro tables tasks tasks' s h hholds hrun
    obtain ⟨next, hnext, hrest⟩ := accepts_cons.mp hrun
    obtain ⟨new, happly⟩ := rebuildEvent_eq_ok.mp hnext
    have hseq : ∃ seq, e.seq = some seq := by
      simp only [applyEvent, bind_unit_eq_ok, check_eq_ok] at happly
      exact Option.ne_none_iff_exists'.mp happly.1
    obtain ⟨seq, hseq⟩ := hseq
    simp only [replayEvents, replayEvent, wp_bind, wp_tryCatch, wp_throw, wp_pure]
    apply wp_projectEvent h hholds hseq
    · intro state tasks₁ s₁ happly₁ h₁
      cases happly.symm.trans happly₁
      have hholds₁ : (tables.withTasks next seq).Holds next :=
        ⟨rfl, wellFormed_foldEvent hholds.wellFormed (foldEvent_of_applyEvent happly)⟩
      have hrest' := ih h₁ hholds₁ hrest
      simpa [Tables.withTasks, lastSeqOf, hseq] using hrest'
    · rintro why t ht (⟨f, hf, -⟩ | hwhy)
      · simp at hf
      · rw [happly] at hwhy
        cases hwhy

theorem lastSeqOf_events :
  lastSeqOf (text "0") j.events = Text.decimal j.events.length
  := by
  obtain ⟨events, tasks, chained, -, -, -, -⟩ := j
  obtain rfl | ⟨before, e, rfl⟩ := List.eq_nil_or_concat' events
  · show text "0" = Text.decimal 0
    decide
  · obtain ⟨-, hash, he⟩ := chained_concat.mp chained
    simp only [lastSeqOf, List.foldl_append, List.foldl_cons, List.foldl_nil, he.seq_eq,
      Option.getD_some, List.length_append, List.length_singleton]
    push_cast
    rw [add_comm]

omit [Platform] in
theorem eq_of_at {stored : Tables} {working : Option Tables} (h : At [] stored working s) :
  s = ⟨stored, working, []⟩
  := by
  obtain ⟨stored', working', faults'⟩ := s
  obtain ⟨rfl, rfl, hfaults⟩ := h
  obtain rfl : faults' = [] := List.suffix_nil.mp hfaults
  rfl

theorem rebuildInPlace_encode :
  rebuildInPlace j.events ⟨j.encode, some j.encode, []⟩ = .ok () ⟨j.encode, some j.encode, []⟩
  := by
  have hat : At [] j.encode (some j.encode)
      (⟨j.encode, some j.encode, []⟩ : Session Tables Exc) :=
    ⟨rfl, rfl, List.nil_suffix⟩
  have hwp : wp (rebuildInPlace j.events) (fun _ s' => At [] j.encode (some j.encode) s')
      (fun _ _ => False) ⟨j.encode, some j.encode, []⟩ := by
    unfold rebuildInPlace
    rw [wp_bind]
    apply wp_write hat
    · intro cleared s₁ h₁ hcleared
      cases hcleared
      have hholds : Tables.Holds { j.encode with tasks := ∅, lastSeq := text "0" } ∅ := by
        refine ⟨rfl, ?_⟩
        intro id s hs
        simp at hs
      apply wp_mono (wp_replayEvents h₁ hholds j.rebuilt)
      · intro _ s₂ h₂
        rwa [lastSeqOf_events] at h₂
      · exact fun _ _ h => h
    · rintro why t ht (⟨f, hf, -⟩ | hwhy)
      · simp at hf
      · cases hwhy
  obtain ⟨u, s', hrun, hs'⟩ := returns_of_wp hwp
  rw [hrun, eq_of_at hs']

theorem rebuildInto_events :
  ∃ s', rebuildInto j.events ⟨Tables.empty, none, []⟩ = .ok () s' ∧
    s'.stored.tasks = j.encode.tasks ∧ s'.working = none
  := by
  have hat : At [] Tables.empty none (⟨Tables.empty, none, []⟩ : Session Tables Exc) :=
    ⟨rfl, rfl, List.nil_suffix⟩
  have hwp : wp (rebuildInto j.events)
      (fun _ s' => s'.stored.tasks = j.encode.tasks ∧ s'.working = none)
      (fun _ _ => False) ⟨Tables.empty, none, []⟩ := by
    unfold rebuildInto
    apply wp_transaction hat
    · intro s₁ h₁
      have hholds : Tables.empty.Holds ∅ := by
        refine ⟨rfl, ?_⟩
        intro id s hs
        simp at hs
      rw [wp_bind]
      apply wp_mono (wp_replayEvents h₁ hholds j.rebuilt)
      · intro _ s₂ h₂
        apply wp_commit h₂
        · intro s₃ h₃
          exact ⟨by rw [h₃.stored_eq]; rfl, h₃.working_eq⟩
        · rintro why t ht ⟨f, hf, -⟩
          simp at hf
      · exact fun _ _ h => absurd h id
    · rintro why t ht ⟨f, hf, -⟩
      simp at hf
  obtain ⟨u, s', hrun, hs'⟩ := returns_of_wp hwp
  exact ⟨s', hrun, hs'⟩

/-! ### Calls of `append` on the database -/

/-- A call of `append`: the event and the faults its statements meet. -/
structure Call where
  event : Event
  faults : List (Option (Fault Exc))

/-- What a call answers, and the database it leaves. -/
def call (tables : Tables) (c : Call) : Except Exc AppendResult × Tables :=
  match appendTables c.event ⟨tables, none, c.faults⟩ with
  | .ok r s => (.ok r, s.stored)
  | .error why s => (.error why, s.stored)

/-- The call stored its event. -/
def accepted : Except Exc AppendResult → Bool
  | .ok r => !r.duplicate
  | .error _ => false

def runCalls (calls : List Call) : Tables :=
  calls.foldl (fun tables c => (call tables c).2) Tables.empty

structure LiveIsReplay (tables : Tables) : Prop where
  /-- Each task is stored as the replay leaves it, field by field, and no other is stored. -/
  replay : ∃ events tasks, tables.readEvents = .ok events ∧ fold events = .ok tasks ∧
    (∀ id, tables.task id = .ok (tasks.get? id)) ∧ tables.tasks.keys = tasks.keys
  /-- The numbers of the events are `1` to `n`. -/
  seqs : tables.events.map (fun row => row.seq)
    = (List.range tables.events.length).map fun n : Nat => .integer (1 + (n : Int))
  /-- Rebuilding the projection in place changes nothing. -/
  rebuilt : ∀ events, tables.readEvents = .ok events →
    rebuildInPlace events ⟨tables, some tables, []⟩ = .ok () ⟨tables, some tables, []⟩
  /-- Rebuilding it in a new database gives the same table. -/
  copied : ∀ events, tables.readEvents = .ok events →
    ∃ s', rebuildInto events ⟨Tables.empty, none, []⟩ = .ok () s' ∧
      s'.stored.tasks = tables.tasks ∧ s'.working = none

theorem liveIsReplay_encode (j : Journal) :
  LiveIsReplay j.encode
  := by
  have hread : ∀ {events : List Event}, j.encode.readEvents = .ok events → events = j.events := by
    intro events h
    rw [readEvents_encode] at h
    exact (ok.inj h).symm
  constructor
  · refine ⟨j.events, j.tasks, readEvents_encode, j.replayed, ?_, ?_⟩
    · exact task_encode
    · simp [Journal.encode, Dict.keys, Dict.map, List.map_map, Function.comp_def]
  · have hseqs := congrArg (List.map SqlValue.ofInt) j.chained.seqs
    simpa [Journal.encode, eventRow, List.map_map, Function.comp_def, SqlValue.ofInt] using hseqs
  · intro events h
    rw [hread h]
    exact rebuildInPlace_encode
  · intro events h
    rw [hread h]
    exact rebuildInto_events

theorem call_encode (j : Journal) (c : Call) :
  ∃ j' : Journal, (call j.encode c).2 = j'.encode ∧
    (accepted (call j.encode c).1 = false → j'.encode = j.encode)
  := by
  have hat : At c.faults j.encode none
      (⟨j.encode, none, c.faults⟩ : Session Tables Exc) :=
    ⟨rfl, rfl, List.suffix_refl _⟩
  have hwp := wp_appendTables (e := c.event) hat
  unfold call
  cases hrun : appendTables c.event ⟨j.encode, none, c.faults⟩ with
  | ok r s' =>
    obtain ⟨j', happend, hs'⟩ := normal_of_wp hwp hrun
    refine ⟨j', hs'.stored_eq, ?_⟩
    intro hduplicate
    obtain ⟨-, -, happended⟩ := Journal.append_eq_ok.mp happend
    cases happended with
    | duplicate => rfl
    | stored => simp [accepted] at hduplicate
  | error why s' =>
    obtain ⟨hs', -⟩ := raised_of_wp hwp hrun
    exact ⟨j, hs'.stored_eq, fun _ => rfl⟩

theorem runCalls_encode (calls : List Call) :
  ∃ j : Journal, runCalls calls = j.encode
  := by
  induction calls using List.reverseRecOn with
  | nil => exact ⟨Journal.empty, rfl⟩
  | append_singleton calls c ih =>
    obtain ⟨j, hj⟩ := ih
    obtain ⟨j', hj', -⟩ := call_encode j c
    refine ⟨j', ?_⟩
    rw [runCalls, List.foldl_append, List.foldl_cons, List.foldl_nil, ← runCalls, hj, hj']

/-- After any calls, whichever statements raised, the table of tasks is the replay of the events, and a call that stored
no event changed nothing. -/
theorem live_is_replay (calls : List Call) (c : Call) :
  LiveIsReplay (runCalls calls) ∧ LiveIsReplay (call (runCalls calls) c).2 ∧
    (accepted (call (runCalls calls) c).1 = false →
      (call (runCalls calls) c).2 = runCalls calls)
  := by
  obtain ⟨j, hj⟩ := runCalls_encode calls
  obtain ⟨j', hj', hsame⟩ := call_encode j c
  rw [hj, hj']
  exact ⟨liveIsReplay_encode j, liveIsReplay_encode j', hsame⟩

end Rebuild

end Courier
