import Courier.Bridge.Passes
import Courier.Controller.Runs
import Courier.Coordination.Finished

/-!
# Missions that the bridge takes for done

The bridge notes that a mission is done once it has written a final event for it, and does not look whether the ledger
accepts it.  So the state file agrees with the ledger in every run in which final events are accepted and no finished
mission is taken up again.
-/

namespace Courier.Bridge

open Calendar Program Text
open Coordination hiding apply EventType Holds Sound

section

variable [Iso]

/-! ### Done missions -/

def Done (log : List CoordinationEvent) (missionId : Str) : Prop :=
  ∃ mission, (reduced log).missions.get? missionId = some mission ∧ mission.status = .done

def Readable (event : CoordinationEvent) : Prop :=
  ∃ stamp, parseTimestamp event.createdAt = .ok stamp

structure Reopens (log : List CoordinationEvent) (event : CoordinationEvent) : Prop where
  done : Done log event.missionId
  accepted : ∃ mission, Accepts (reduced log) event mission
  notFinal : event.eventType ≠ .final
  notDone : event.eventType = .assigned → event.status ≠ .done

theorem Done.concat {log : List CoordinationEvent} {missionId : Str} (h : Done log missionId)
    {event : CoordinationEvent} (hnot : event.missionId = missionId → ¬ Reopens log event) :
  Done (log ++ [event]) missionId
  := by
  obtain ⟨mission, hmission, hdone⟩ := h
  unfold Done
  rw [reduced_concat]
  by_cases haccepts : ∃ changed, Accepts (reduced log) event changed
  · obtain ⟨changed, haccepts⟩ := haccepts
    by_cases hid : missionId = event.missionId
    · subst hid
      refine ⟨changed, by rw [get?_of_accepts haccepts, if_pos rfl], ?_⟩
      have hkept : event.eventType ≠ .final →
          event.eventType = .assigned ∧ event.status = .done := by
        intro hfinal
        by_contra hopen
        apply hnot rfl ⟨⟨mission, hmission, hdone⟩, ⟨changed, haccepts⟩, hfinal, ?_⟩
        exact fun hassigned hstatus => hopen ⟨hassigned, hstatus⟩
      cases haccepts with
      | created _ _ _ missing => cases hmission.symm.trans missing
      | changed =>
        by_cases hfinal : event.eventType = .final
        · simp [updated, Coordination.transition, hfinal]
        · obtain ⟨hassigned, hstatus⟩ := hkept hfinal
          simp [updated, Coordination.transition, hassigned, hstatus]
    · exact ⟨mission, by rw [get?_of_accepts haccepts, if_neg hid, hmission], hdone⟩
  · exact ⟨mission, by rw [missions_of_ignored (not_exists.mp haccepts), hmission], hdone⟩

variable {log : List CoordinationEvent} {event : CoordinationEvent}

theorem done_of_accepts
    (hfinal : event.eventType = .final) (hstatus : event.status = .done)
    (h : ∃ mission, Accepts (reduced log) event mission) :
  Done (log ++ [event]) event.missionId
  := by
  obtain ⟨mission, haccepts⟩ := h
  refine ⟨mission, by rw [reduced_concat, get?_of_accepts haccepts, if_pos rfl], ?_⟩
  cases haccepts with
  | created => exact hstatus
  | changed => simp [updated, Coordination.transition, hfinal]

theorem wp_apply_readable {r : Reducer} (hr : Coordination.Sound r)
    (h : Readable event) :
  wp (Coordination.apply event) (fun _ r' => r' = r.after event) (fun _ _ => False) r
  := by
  have hreturns : wp (Coordination.apply event) (fun _ _ => True) (fun _ _ => False) r := by
    obtain ⟨stamp, hstamp⟩ := h
    simp only [Coordination.apply, wp_bind, wp_get]
    split
    · trivial
    simp only [wp_bind, wp_set]
    split
    · trivial
    simp only [wp_bind, wp_lift, hstamp]
    refine ⟨?_, by rintro _ ⟨⟩⟩
    rintro _ ⟨⟩
    cases stamp with
    | none => trivial
    | some eventTs =>
      cases hmission : r.missions.get? event.missionId with
      | none => trivial
      | some mission =>
        obtain ⟨updatedTs, hdated⟩ := hr.dated _ mission hmission
        simp only [wp_bind, wp_lift, hdated]
        refine ⟨?_, by rintro _ ⟨⟩⟩
        rintro _ ⟨⟩
        dsimp only
        split_ifs <;> trivial
  obtain ⟨answer, r', happly, -⟩ := returns_of_wp hreturns
  unfold wp Reducer.after
  rw [happly]

theorem reduceStore_of_readable (h : ∀ event ∈ log, Readable event) :
  reduceStore log = .ok (reduced log)
  := by
  have hlog : ∀ (log : List CoordinationEvent) r, Coordination.Sound r →
      (∀ event ∈ log, Readable event) →
      wp (log.forM fun event => discard (Coordination.apply event)) (fun _ _ => True)
        (fun _ _ => False) r := by
    intro log
    induction log with
    | nil => exact fun _ _ _ => trivial
    | cons event log ih =>
      intro r hr hreadable
      change wp (((fun _ => PUnit.unit) <$> Coordination.apply event) >>= fun _ =>
        log.forM fun event => discard (Coordination.apply event)) _ _ _
      rw [wp_bind, wp_map]
      apply wp_mono (wp_apply_readable hr (hreadable event (by simp)))
      · rintro _ _ rfl
        exact ih _ (hr.after event) fun e he => hreadable e (List.mem_cons_of_mem _ he)
      · exact fun _ _ hfalse => hfalse
  obtain ⟨_, r', hrun, -⟩ :=
    returns_of_wp (hlog log _ (Coordination.sound_new (some DEFAULT_LEASE_TTL_S)) h)
  have hstore : reduceStore log = .ok r' := by rw [reduceStore, hrun]
  rw [hstore, reduceStore_eq hstore]

/-! ### Entries of the ledger -/

def Entry.Meets : Entry → Prop
  | .written log event own closed =>
      Readable event ∧ (closed = true → ¬ Reopens log event) ∧
        (own = true → event.eventType = .final →
          Done log event.missionId ∨ ∃ mission, Accepts (reduced log) event mission)
  | .found log event => event.eventType = .final → Done log event.missionId

/-! ### Deciding what entries are like -/

instance (log : List CoordinationEvent) (missionId : Str) : Decidable (Done log missionId) :=
  decidable_of_iff (((reduced log).missions.get? missionId).any (·.status = .done) = true) (by
    rw [Option.any_eq_true]
    simp [Done])

instance (event : CoordinationEvent) : Decidable (Readable event) :=
  inferInstanceAs (Decidable (∃ stamp, parseTimestamp event.createdAt = .ok stamp))

theorem answer_iff_accepts (r : Reducer) (event : CoordinationEvent) :
  (match Coordination.apply event r with
    | .ok answer _ => answer
    | .error _ _ => false) = true ↔ ∃ mission, Accepts r event mission
  := by
  have hwp := wp_apply r event
  unfold wp at hwp
  cases happly : Coordination.apply event r with
  | ok answer r' =>
    rw [happly] at hwp
    exact hwp.1
  | error why r' =>
    rw [happly] at hwp
    simpa using hwp.1

instance (r : Reducer) (event : CoordinationEvent) :
    Decidable (∃ mission, Accepts r event mission) :=
  decidable_of_iff _ (answer_iff_accepts r event)

theorem reopens_iff :
  Reopens log event ↔ Done log event.missionId ∧ (∃ mission, Accepts (reduced log) event mission) ∧
    event.eventType ≠ .final ∧ (event.eventType = .assigned → event.status ≠ .done)
  := by
  constructor
  · rintro ⟨hdone, haccepted, hfinal, hassigned⟩
    exact ⟨hdone, haccepted, hfinal, hassigned⟩
  · rintro ⟨hdone, haccepted, hfinal, hassigned⟩
    exact ⟨hdone, haccepted, hfinal, hassigned⟩

instance (log : List CoordinationEvent) (event : CoordinationEvent) :
    Decidable (Reopens log event) :=
  decidable_of_iff _ reopens_iff.symm

instance : ∀ entry : Entry, Decidable entry.Meets
  | .written log event own closed =>
      inferInstanceAs (Decidable (Readable event ∧ (closed = true → ¬ Reopens log event) ∧
        (own = true → event.eventType = .final →
          Done log event.missionId ∨ ∃ mission, Accepts (reduced log) event mission)))
  | .found log event =>
      inferInstanceAs (Decidable (event.eventType = .final → Done log event.missionId))

end

section

variable [Platform] [Iso]

/-- What the state file says of done missions is so. -/
structure Truthful (w : World) : Prop where
  readable : ∀ event ∈ w.log, Readable event
  done : ∀ missionId, w.closed missionId = true → Done w.log missionId

/-- Whatever the files and the process are like, what the bridge says is so if all entries are as
they should be. -/
structure Faithful (Q : Dict Str Mapping → Dict Str Mapping → Option Str → Prop) (w : World) :
    Prop where
  fresh : ∀ missionId mapping, w.file.get? missionId = some mapping → mapping.status = none →
    mapping.acceptedResultId = none ∧ mapping.posted = false
  files : Q w.file w.memory w.reporting
  truthful : (∀ entry ∈ w.entries, entry.Meets) → Truthful w

variable {Q Q' : Dict Str Mapping → Dict Str Mapping → Option Str → Prop}

variable {w : World}

theorem Faithful.write (h : Faithful Q w) (own : Bool) (event : CoordinationEvent) :
  Faithful Q (w.write own event)
  := by
  refine ⟨h.fresh, h.files, ?_⟩
  intro hmeets
  have hold := h.truthful fun entry hentry => hmeets entry (List.mem_append_left _ hentry)
  obtain ⟨hreadable, hreopens, -⟩ := hmeets (.written w.log event own (w.closed event.missionId))
    (by simp [World.write])
  constructor
  · intro e he
    obtain he | he := List.mem_append.mp he
    · exact hold.readable e he
    · obtain rfl := List.mem_singleton.mp he
      exact hreadable
  · intro missionId hclosed
    apply (hold.done missionId hclosed).concat
    rintro rfl
    exact hreopens hclosed

variable {event : CoordinationEvent}

theorem Faithful.note {w' : World} (h : Faithful Q w)
    (hQ : Q' w'.file w'.memory w'.reporting) (hfile : w'.file = w.file) (hlog : w'.log = w.log)
    (hentries : ∀ entry ∈ w.entries, entry ∈ w'.entries)
    (hreporting : w'.reporting = if event.eventType = .final then some event.missionId else none)
    (hdone : (∀ entry ∈ w'.entries, entry.Meets) → event.eventType = .final →
      Done w.log event.missionId) :
  Faithful Q' w'
  := by
  refine ⟨by rw [hfile]; exact h.fresh, hQ, ?_⟩
  intro hmeets
  have hold := h.truthful fun entry hentry => hmeets entry (hentries entry hentry)
  refine ⟨by rw [hlog]; exact hold.readable, ?_⟩
  intro missionId hclosed
  rw [hlog]
  unfold World.closed at hclosed
  rw [hfile, hreporting] at hclosed
  by_cases hfinished : (w.file.get? missionId).any (·.status = some .finalDone) = true
  · apply hold.done
    simp [World.closed, hfinished]
  · by_cases hfinal : event.eventType = .final
    · have hid : event.missionId = missionId := by simpa [hfinished, hfinal] using hclosed
      rw [← hid]
      exact hdone hmeets hfinal
    · simp [hfinished, hfinal] at hclosed

theorem Faithful.report (h : Faithful Q w)
    (hnamed : event.eventType = .final → event.status = .done)
    (hQ : Q' w.file w.memory (if event.eventType = .final then some event.missionId else none)) :
  Faithful Q' ((w.write true event).report event)
  := by
  refine (h.write true event).note hQ rfl rfl (fun _ hentry => hentry) rfl ?_
  intro hmeets hfinal
  obtain ⟨-, -, haccepted⟩ := hmeets (.written w.log event true (w.closed event.missionId))
    (by simp [World.write, World.report])
  obtain hdone | haccepts := haccepted rfl hfinal
  · exact hdone.concat fun _ hreopens => hreopens.notFinal hfinal
  · exact done_of_accepts hfinal (hnamed hfinal) haccepts

theorem Faithful.find (h : Faithful Q w)
    (hQ : Q' w.file w.memory (if event.eventType = .final then some event.missionId else none)) :
  Faithful Q' (w.find event)
  := by
  refine h.note hQ rfl rfl (fun _ hentry => List.mem_append_left _ hentry) rfl ?_
  intro hmeets hfinal
  exact hmeets (.found w.log event) (by simp [World.find, World.report]) hfinal

/-! ### The invariant of the passes -/

theorem Faithful.aside {w' : World} (h : Faithful Q w) (hfile : w'.file = w.file)
    (hmemory : w'.memory = w.memory) (hlog : w'.log = w.log) (hentries : w'.entries = w.entries)
    (hreporting : w'.reporting = w.reporting) :
  Faithful Q w'
  := by
  refine ⟨by rw [hfile]; exact h.fresh, by rw [hfile, hmemory, hreporting]; exact h.files, ?_⟩
  rw [hentries]
  intro hmeets
  obtain ⟨hreadable, hdone⟩ := h.truthful hmeets
  refine ⟨by rw [hlog]; exact hreadable, ?_⟩
  unfold World.closed at hdone ⊢
  rw [hfile, hlog, hreporting]
  exact hdone

theorem keeps_access :
  Keeps (Faithful Q) access
  := by
  apply keeps_access_of
  · exact fun _ _ h => h.aside rfl rfl rfl rfl rfl
  · exact fun _ event h => h.write false event
  · exact fun _ _ h => h.aside rfl rfl rfl rfl rfl
  · intro w arrival h
    unfold World.arrive
    split
    · exact h.aside rfl rfl rfl rfl rfl
    · exact h

def Same (file memory : Dict Str Mapping) (_ : Option Str) : Prop :=
  ∀ missionId, memory.get? missionId = file.get? missionId

/-- They have a certain mapping for a mission, or none. -/
structure Known (missionId : Str) (mapping : Option Mapping) (file memory : Dict Str Mapping)
    (reporting : Option Str) : Prop where
  same : Same file memory reporting
  mapping : file.get? missionId = mapping

theorem stable_faithful (hQ : ∀ file memory reporting reporting', Q file memory reporting →
    Q file memory reporting') :
  Stable (Faithful Q)
  where
  access := keeps_access
  write := fun _ event h => h.write true event
  report := fun _ _ hnamed h => h.report hnamed (hQ _ _ _ _ h.files)
  find := fun _ _ h => h.find (hQ _ _ _ _ h.files)

variable {missionId : Str}

theorem Faithful.same {mapping : Option Mapping}
    (h : Faithful (Known missionId mapping) w) :
  Faithful Same w
  := ⟨h.fresh, h.files.same, h.truthful⟩

structure Saves (missionId : Str) (mapping : Option Mapping) (changed : Mapping)
    (file memory : Dict Str Mapping) (reporting : Option Str) : Prop where
  known : Known missionId mapping file memory reporting
  reported : changed.status = some .finalDone → reporting = some missionId

omit [Platform] [Iso] in
theorem get?_saved {file memory : Dict Str Mapping} {reporting : Option Str}
    (h : Same file memory reporting) (changed : Mapping) (m : Str) :
  (memory.set missionId changed).get? m = if m = missionId then some changed else file.get? m
  := by
  rw [Dict.get?_set, h m]

theorem wp_saveMapping {mapping : Option Mapping} {changed : Mapping}
    (h : Faithful (Saves missionId mapping changed) w)
    (hfresh : changed.status = none → changed.acceptedResultId = none ∧ changed.posted = false) :
  wp (saveMapping missionId changed) (fun _ => Faithful (Known missionId (some changed)))
    (fun _ => Faithful Same) w
  := by
  rw [saveMapping, wp_bind]
  apply wp_mono (keeps_access w h)
  · intro _ w' h'
    rw [wp_modify]
    have hsaved : ∀ m, (w'.memory.set missionId changed).get? m =
        if m = missionId then some changed else w'.file.get? m :=
      get?_saved h'.files.known.same changed
    refine ⟨?_, ⟨fun _ => rfl, by rw [hsaved, if_pos rfl]⟩, ?_⟩
    · intro m x hx hnone
      rw [hsaved] at hx
      split_ifs at hx
      · cases hx
        exact hfresh hnone
      · exact h'.fresh m x hx hnone
    · intro hmeets
      obtain ⟨hreadable, hdone⟩ := h'.truthful hmeets
      refine ⟨hreadable, ?_⟩
      intro m hclosed
      apply hdone m
      unfold World.closed at hclosed ⊢
      rw [hsaved] at hclosed
      by_cases hm : m = missionId
      · have hstatus : changed.status = some .finalDone := by simpa [hm] using hclosed
        simp [hm, h'.files.reported hstatus]
      · simpa [hm] using Or.inr (by simpa [hm] using hclosed)
  · intro _ w' h'
    exact ⟨h'.fresh, h'.files.known.same, h'.truthful⟩

theorem wp_stamp {mapping changed : Mapping}
    (h : Faithful (Saves missionId (some mapping) changed) w) (hstatus : changed.status ≠ none) :
  wp (stamp missionId mapping changed) (fun _ => Faithful Same) (fun _ => Faithful Same) w
  := by
  unfold stamp
  split
  · rw [wp_bind]
    apply wp_mono (keeps_access w h)
    · intro s w' h'
      have hchanged : Faithful (Saves missionId (some mapping)
          { changed with updatedAt := some (isoformat s.now) }) w' :=
        ⟨h'.fresh, ⟨h'.files.known, h'.files.reported⟩, h'.truthful⟩
      apply wp_mono (wp_saveMapping hchanged fun hnone => absurd hnone hstatus)
      · intro _ w'' h''
        exact h''.same
      · intro _ w'' h''
        exact h''
    · intro _ w' h'
      exact ⟨h'.fresh, h'.files.known.same, h'.truthful⟩
  · exact ⟨h.fresh, h.files.known.same, h.truthful⟩

/-- What the bridge says is kept by the passes. -/
theorem kept_faithful :
  Kept (Faithful fun _ _ _ => True) (Faithful Same)
    fun missionId mapping => Faithful (Known missionId mapping)
  where
  between := keeps_access
  restart := by
    intro w h
    refine ⟨h.fresh, trivial, ?_⟩
    intro hmeets
    obtain ⟨hreadable, hdone⟩ := h.truthful hmeets
    refine ⟨hreadable, ?_⟩
    intro missionId hclosed
    apply hdone
    unfold World.closed at hclosed ⊢
    simp only [reduceCtorEq, decide_false, Bool.false_or] at hclosed
    rw [hclosed, Bool.or_true]
  load := by
    intro w h
    refine ⟨h.fresh, ?_, fun hmeets => ⟨(h.truthful hmeets).readable, (h.truthful hmeets).done⟩⟩
    intro missionId
    rw [Dict.get?_map]
    cases hmapping : w.file.get? missionId with
    | none => rfl
    | some mapping =>
      rw [Option.map_some]
      congr 1
      unfold Mapping.loaded
      split_ifs with hstatus hresult hposted
      · rfl
      · obtain ⟨hnone, -⟩ := h.fresh missionId mapping hmapping (not_not.mp hstatus)
        simp [hnone] at hresult
      · obtain ⟨-, hfalse⟩ := h.fresh missionId mapping hmapping (not_not.mp hstatus)
        simp [hfalse] at hposted
      · rfl
  pause := fun w h => ⟨h.fresh, trivial, h.truthful⟩
  stable := stable_faithful fun _ _ _ _ h => h
  stableAt := fun _ _ => stable_faithful fun _ _ _ _ h => ⟨h.same, h.mapping⟩
  look := fun missionId w h => ⟨h.fresh, ⟨h.files, (h.files missionId).symm⟩, h.truthful⟩
  forget := fun _ _ w h => h.same
  made := by
    intro missionId claimEventId spec source goal w _ h
    have hsaves : Faithful (Saves missionId none (.made (text "task-" ++
        (Platform.sha256 (taskKey claimEventId)).take 32) claimEventId spec source goal)) w :=
      ⟨h.fresh, ⟨h.files, by rintro ⟨⟩⟩, h.truthful⟩
    exact wp_saveMapping hsaves fun _ => ⟨rfl, rfl⟩
  send := fun _ _ _ w h => h.aside rfl rfl rfl rfl rfl
  deliver := fun _ _ _ _ _ w h => h.aside rfl rfl rfl rfl rfl
  stamp := by
    intro missionId mapping changed w _ hstatus hdone h
    apply wp_stamp _ hstatus
    exact ⟨h.fresh, ⟨h.files, fun hfinal => absurd hfinal hdone⟩, h.truthful⟩
  reported := by
    intro missionId mapping changed event w hevent hnamed _ hstatus hfinal h w' hw'
    apply wp_stamp _ hstatus
    have hsaves : Saves missionId (some mapping) changed w.file w.memory
        (if event.eventType = .final then some event.missionId else none) := by
      refine ⟨⟨h.files.same, h.files.mapping⟩, ?_⟩
      intro hdone
      rw [if_pos (hfinal hdone), hevent]
    obtain rfl | rfl := hw'
    · exact h.report hnamed hsaves
    · exact h.find hsaves

/-- Whatever others do and wherever the bridge dies, if all entries are as they should be, every mission that the state
file has for done is made done by the ledger. -/
theorem done_of_finalDone {controller : Controller} {surroundings : Nat → Surrounding}
    {turns : List Turn}
    (h : ∀ entry ∈ (World.run controller surroundings turns).entries, entry.Meets) :
  ∀ missionId mapping,
    (World.run controller surroundings turns).file.get? missionId = some mapping →
    mapping.status = some .finalDone →
    ∃ r mission, reduceStore (World.run controller surroundings turns).log = .ok r ∧
      r.missions.get? missionId = some mission ∧ mission.status = .done
  := by
  intro missionId mapping hmapping hstatus
  have hstart : Faithful (fun _ _ _ => True) (World.start controller surroundings) := by
    refine ⟨by rintro m x ⟨⟩, trivial, fun _ => ⟨by simp [World.start], ?_⟩⟩
    intro m hclosed
    simp [World.closed, World.start] at hclosed
  obtain ⟨hreadable, hdone⟩ := (kept_faithful.run hstart turns).truthful h
  obtain ⟨mission, hmission, hnamed⟩ := hdone missionId (by simp [World.closed, hmapping, hstatus])
  exact ⟨_, mission, reduceStore_of_readable hreadable, hmission, hnamed⟩

end

section Example

local instance wholeSecondsBridge : Iso := .wholeSeconds

local instance plainBridge : Platform := .plain

def minute (n : Nat) (h : n < 60) : DateTime :=
  ⟨2026, 10, 7, 12, n, 0, 0, Coordination.isDate_minute, Coordination.time_minute n h⟩

/-- An access at which nobody else does anything, and the controller gives a reply. -/
def quiet (n : Nat) (h : n < 60) (reply : Option Reply) : Surrounding where
  events := []
  requests := []
  arrivals := []
  interrupted := false
  now := minute n h
  delivered := true
  uuid := numberedUuid 1
  busy := false
  reply := reply

def givenUp : CoordinationEvent :=
  .plain (text "e1") (text "m1") .codexMac .error .error (text "2026-10-07T12:00:00Z")

def samplePass : Pass where
  agent := .googleMac
  host := .macLocal
  specs := [(text "m1", .obj [(text "adapter", .str (text "echo")),
    (text "effect_class", .str (text "idempotent")), (text "lease_ttl_s", .int 30),
    (text "max_attempts", .int 2), (text "params", .obj [])])]
  contracts := none
  gitHead := List.replicate 40 97

def sampleClaim : Str :=
  text "claim-" ++ (Platform.sha256 (text "m1|e1|GOOGLE_MAC")).take 24

def sampleTask : Str :=
  text "task-" ++ (Platform.sha256 (taskKey sampleClaim)).take 32

def sampleReply (status : Nat) (fields : Members) : Reply :=
  ⟨status, some (.obj (fields ++ [(text "task_id", .str sampleTask)]))⟩

/-- A worker takes the task and delivers a result, which is accepted. -/
def sampleWork : List Request :=
  [.claim (.obj [(text "worker_id", .str (text "w"))]) (numberedUuid 2) 0 false,
    .start (.obj [(text "dispatch_id", .str (Controller.newDispatchId (numberedUuid 2)))]) false,
    .result (.obj [(text "artifacts", .arr []),
      (text "dispatch_id", .str (Controller.newDispatchId (numberedUuid 2))),
      (text "outcome", .str (text "success")), (text "result_id", .str (text "r"))]) false,
    .verifyTake false,
    .verifyDecide 0 (.verdict ⟨text "v", none, none⟩ true (text "ok") false) false]

theorem first_minute : 1 < 60 := by
  decide

/-- The task is posted in the first pass and complete in the second, and others write events before the second report.
-/
def twoPasses (events : List CoordinationEvent) (n : Nat) : Surrounding :=
  if n = 0 then
    { quiet 1 first_minute none with
      events := [givenUp]
      requests := [.boot 1 plainBuild 0] }
  else if n = 7 then
    quiet 1 first_minute (some (sampleReply 201 [(text "duplicate", .bool false),
      (text "status", .str (text "QUEUED"))]))
  else if n = 8 then
    quiet 1 first_minute (some (sampleReply 200 [(text "attempt", .int 0),
      (text "status", .str (text "QUEUED"))]))
  else if n = 13 then
    { quiet 40 (by decide) (some (sampleReply 200 [(text "accepted_result_id", .str (text "r")),
      (text "attempt", .int 1), (text "status", .str (text "COMPLETE"))])) with
      requests := sampleWork }
  else if n = 14 then { quiet 40 (by decide) none with events := events }
  else quiet (if n < 11 then 1 else 40) (by split <;> decide) none

def sampleWorld (events : List CoordinationEvent) : World :=
  World.run (freshFailing fun _ => false) (twoPasses events) [.pass samplePass, .pass samplePass]

/-- The task of a mission is complete, and the ledger makes the mission done. -/
theorem done_of_finalDone_sample :
  (((sampleWorld []).file.get? (text "m1")).any (·.status = some .finalDone)) = true ∧
    ∃ r mission, reduceStore (sampleWorld []).log = .ok r ∧
      r.missions.get? (text "m1") = some mission ∧ mission.status = .done
  := by
  have hfile : (((sampleWorld []).file.get? (text "m1")).any
      (·.status = some .finalDone)) = true := by
    decide +kernel
  refine ⟨hfile, ?_⟩
  obtain ⟨mapping, hmapping, hstatus⟩ := (Option.any_eq_true _ _).mp hfile
  have hmeets : ∀ entry ∈ (sampleWorld []).entries, entry.Meets := by decide +kernel
  exact done_of_finalDone hmeets (text "m1") mapping hmapping (by simpa using hstatus)

/-- The mission is cancelled because nobody was heard of for more than half an hour, and another
agent claims it. -/
def reassigned : List CoordinationEvent :=
  [.plain (text "reap-m1-" ++ sampleClaim) (text "m1") .codexMac .cancelled .error
      (text "2026-10-07T12:35:00Z"),
    .plain (text "claim-1") (text "m1") .museMac .assigned .working (text "2026-10-07T12:36:00Z")]

/-- The ledger does not accept the final event, since another agent has the mission, but the state file has it for done.
-/
theorem not_done_of_finalDone :
  ((sampleWorld reassigned).controller.journal.task sampleTask).map TaskState.status =
      some .complete ∧
    (sampleWorld reassigned).log.map CoordinationEvent.eventType =
      [.error, .assigned, .cancelled, .assigned, .final] ∧
    (((sampleWorld reassigned).file.get? (text "m1")).any (·.status = some .finalDone)) = true ∧
    ((reduceStore (sampleWorld reassigned).log).toOption.bind fun r =>
        (r.missions.get? (text "m1")).map fun mission => (mission.status, mission.ownership)) =
      some (.working, some (text "MUSE_MAC"))
  := by
  decide +kernel

end Example

end Courier.Bridge
