import Courier.Library.Calendar
import Courier.Library.Dict
import Courier.Library.Escaped
import Mathlib.Algebra.Order.Round
import Mathlib.Data.Rat.Floor
import Mathlib.Tactic.Linarith

/-!
# The dead-letter queue

A queue keeps failed items, which are retried after a back-off or are in quarantine, in a file.  A failure that is
recorded takes the place of what was recorded of the item, so that a late report takes an item out of quarantine;
without such reports it stays there until it is replayed (`held_of_reached`).  Times are in UTC.
-/

namespace Courier.DeadLetterQueue

open Text Calendar Json

/-! ### Times -/

/-- `timedelta(seconds=…)` in microseconds, rounded half to even. -/
def timedelta (seconds : ℚ) : Int :=
  let micros := seconds * 1000000
  let rest := micros - ⌊micros⌋
  if rest < 1 / 2 then ⌊micros⌋
  else if 1 / 2 < rest then ⌊micros⌋ + 1
  else if ⌊micros⌋ % 2 = 0 then ⌊micros⌋ else ⌊micros⌋ + 1

/-- `t + timedelta(microseconds=n)`, unless it lies outside the calendar. -/
def add (t : DateTime) (n : Int) : Option DateTime :=
  let total := (t.instant + n).toNat
  let day := total / 86400000000
  let second := total / 1000000
  if h : 1 ≤ day ∧ day ≤ maxOrdinal then
    some {
      year := (ofOrdinal day).1
      month := (ofOrdinal day).2.1
      day := (ofOrdinal day).2.2
      hour := second % 86400 / 3600
      minute := second % 3600 / 60
      second := second % 60
      microsecond := total % 1000000
      date := (ofOrdinal_spec h.1 h.2).1
      time := ⟨by omega, by omega, by omega, by omega⟩ }
  else none

/-! ### The queue -/

/-- The state of an entry. -/
inductive State where
  | retryable
  | quarantined
  deriving DecidableEq

structure DLQEntry where
  itemId : Str
  errorReason : Str
  attempts : Int
  state : State
  lastFailedAt : Str
  retryAfter : Option Str

abbrev Entries := Dict Str DLQEntry

/-- `DeadLetterQueue`, with the entries that are in its file. -/
structure Queue where
  maxAttempts : Int
  backoffBaseSec : ℚ
  entries : Entries
  file : Option Entries

def DLQEntry.readBack (entry : DLQEntry) : DLQEntry :=
  { entry with itemId := fuse entry.itemId, errorReason := fuse entry.errorReason }

/-- `_load`, of a new queue. -/
def load (file : Option Entries) : Entries :=
  ((file.getD ∅).entries.map fun entry => (fuse entry.1, entry.2.readBack)).foldl (fun d p => d.set p.1 p.2) ∅

namespace Queue

variable (q : Queue)

def store (entry : DLQEntry) : Queue :=
  { q with entries := q.entries.set entry.itemId entry, file := some (q.entries.set entry.itemId entry) }

/-- A failure is retried. -/
def retried (attempts : Int) (maxAttempts : Option Int) (idempotent : Bool) : Bool :=
  idempotent && attempts < maxAttempts.getD q.maxAttempts

/-- `record_failure`.  `none` when the back-off is no number or leads out of the calendar. -/
def recordFailure (id reason : Str) (attempts : Int) (maxAttempts : Option Int) (now : DateTime) (idempotent : Bool) :
    Option Queue :=
  if q.retried attempts maxAttempts idempotent then
    if q.backoffBaseSec = 0 ∧ attempts < 0 then none
    else (add now (timedelta (q.backoffBaseSec ^ attempts))).map fun retry =>
      q.store ⟨id, reason, attempts, .retryable, format now, some (format retry)⟩
  else some (q.store ⟨id, reason, attempts, .quarantined, format now, none⟩)

def getRetryableItems (now : DateTime) : List DLQEntry :=
  q.entries.values.filter fun entry => entry.state = .retryable &&
    ((entry.retryAfter.filter (· ≠ [])).bind parse).any fun retry => retry.instant ≤ now.instant

def quarantineItem (id reason : Str) (now : DateTime) : Queue :=
  q.store ⟨id, reason, ((q.entries.get? id).map (·.attempts)).getD 1, .quarantined, format now, none⟩

def replayItem (id : Str) (now : DateTime) : Queue :=
  q.store ⟨id, ((q.entries.get? id).map (·.errorReason)).getD (text "Replayed by operator"), 0, .retryable, format now,
    some (format now)⟩

end Queue

/-- The calls that change a queue, and its reload. -/
inductive Call where
  | recordFailure (id reason : Str) (attempts : Int) (maxAttempts : Option Int) (now : DateTime) (idempotent : Bool)
  | quarantineItem (id reason : Str) (now : DateTime)
  | replayItem (id : Str) (now : DateTime)
  | reload

def Queue.perform (q : Queue) : Call → Option Queue
  | .recordFailure id reason attempts maxAttempts now idempotent =>
      q.recordFailure id reason attempts maxAttempts now idempotent
  | .quarantineItem id reason now => some (q.quarantineItem id reason now)
  | .replayItem id now => some (q.replayItem id now)
  | .reload => some { q with entries := load q.file }

/-! ### Runs -/

/-- What happened to an item: it was in quarantine and was not replayed since, and the microsecond when it is due. -/
structure Past where
  held : Bool
  due : ℚ

/-- What happened to the items. -/
abbrev History := Str → Past

def Call.replays (id : Str) : Call → Bool
  | .replayItem other _ => id = other
  | _ => false

def Call.due (base : ℚ) (id : Str) (due : ℚ) : Call → ℚ
  | .recordFailure other _ attempts _ now _ => if id = other then now.instant + base ^ attempts * 1000000 else due
  | .replayItem other now => if id = other then now.instant else due
  | _ => due

/-- What happened to the items after a call that left such a queue. -/
def History.after (h : History) (call : Call) (q : Queue) : History := fun id =>
  ⟨(h id).held && !call.replays id || (q.entries.get? id).any (·.state = .quarantined),
    call.due q.backoffBaseSec id (h id).due⟩

def Orderly (q : Queue) : Call → Prop
  | .recordFailure id _ attempts maxAttempts _ idempotent => hasPair id = false ∧
      ((q.entries.get? id).any (·.state = .quarantined) = true → q.retried attempts maxAttempts idempotent = false)
  | .quarantineItem id _ _ => hasPair id = false
  | .replayItem id _ => hasPair id = false
  | .reload => True

inductive Reached (maxAttempts : Int) (base : ℚ) : Queue → History → Prop
  | start : Reached maxAttempts base ⟨maxAttempts, base, ∅, none⟩ fun _ => ⟨false, 0⟩
  | step {q q' : Queue} {h : History} (call : Call) :
      Reached maxAttempts base q h → Orderly q call → q.perform call = some q' →
        Reached maxAttempts base q' (h.after call q')

/-! ### Times that are written and read -/

theorem timedelta_bounds (seconds : ℚ) :
  |(timedelta seconds : ℚ) - seconds * 1000000| ≤ 1 / 2
  := by
  have hle := Int.floor_le (seconds * 1000000)
  have hlt := Int.lt_floor_add_one (seconds * 1000000)
  rw [abs_le]
  unfold timedelta
  dsimp only
  split_ifs
  all_goals push_cast
  all_goals constructor <;> linarith

theorem instant_add {t u : DateTime} {n : Int} (h : add t n = some u) :
  (u.instant : Int) = t.instant + n
  := by
  unfold add at h
  dsimp only at h
  split_ifs at h with hday
  cases h
  rw [DateTime.instant, DateTime.seconds]
  dsimp only
  rw [(ofOrdinal_spec hday.1 hday.2).2]
  omega

/-! ### What the calls keep -/

section Kept

variable {q q' : Queue} {h : History} {call : Call} {maxAttempts : Int} {base : ℚ} {entries : Entries} {entry : DLQEntry}
  {past : Past} {id : Str}

structure Agrees (id : Str) (past : Past) (entry : DLQEntry) : Prop where
  itemId : entry.itemId = id
  pair : hasPair id = false
  held : past.held = true → entry.state = .quarantined
  due : entry.state = .retryable → ∃ t : DateTime, entry.retryAfter = some (format t) ∧ |(t.instant : ℚ) - past.due| ≤ 1 / 2

structure Sound (h : History) (entries : Entries) : Prop where
  agrees : ∀ id entry, entries.get? id = some entry → Agrees id (h id) entry
  present : ∀ id, (h id).held = true → (entries.get? id).isSome = true

structure Kept (base : ℚ) (q : Queue) (h : History) : Prop where
  base : q.backoffBaseSec = base
  entries : Sound h q.entries
  file : Sound h (q.file.getD ∅)

theorem load_eq {file : Option Entries} (hsound : Sound h (file.getD ∅)) :
  load file = (file.getD ∅).map (·.readBack)
  := by
  have hkeys : ((file.getD ∅).entries.map fun p => (fuse p.1, p.2.readBack)) =
      (file.getD ∅).entries.map fun p => (p.1, p.2.readBack) := by
    apply List.map_congr_left
    intro p hp
    rw [fuse_eq_self (hsound.agrees p.1 p.2 (Dict.get?_eq_some.mpr hp)).pair]
  apply Dict.ext
  rw [load, hkeys]
  apply Dict.entries_foldl_set
  rw [List.map_map]
  apply (file.getD ∅).nodup

theorem Agrees.after {past' : Past} (hagrees : Agrees id past entry)
    (hheld : past'.held = true → past.held = true ∨ entry.state = .quarantined) (hdue : past'.due = past.due) :
  Agrees id past' entry
  := by
  refine ⟨hagrees.itemId, hagrees.pair, fun h => ?_, by rw [hdue]; apply hagrees.due⟩
  obtain hold | hstate := hheld h
  · apply hagrees.held hold
  · apply hstate

theorem Agrees.returned (hagrees : Agrees id past entry) (hstate : entry.state = .retryable)
    (hget : q.entries.get? id = some entry) (now : DateTime) :
  (past.due ≤ now.instant → entry ∈ q.getRetryableItems now) ∧
    (entry ∈ q.getRetryableItems now → past.due - 1000000 < now.instant)
  := by
  obtain ⟨t, hretry, hdue⟩ := hagrees.due hstate
  obtain ⟨hlower, hupper⟩ := t.instant_bounds
  have hmem : entry ∈ q.getRetryableItems now ↔ t.floor.instant ≤ now.instant := by
    have hvalue : entry ∈ q.entries.values := Dict.mem_values.mpr ⟨id, hget⟩
    have hstamp : format t ≠ [] := by simp [format, digits4]
    simp [Queue.getRetryableItems, hvalue, hstate, hretry, hstamp, Option.filter, parse_format]
  rw [abs_le] at hdue
  rw [hmem]
  constructor
  · intro hnow
    have hlt : (t.instant : ℚ) < now.instant + 1 := by linarith
    have hle : t.instant ≤ now.instant := Nat.lt_succ_iff.mp (by exact_mod_cast hlt)
    omega
  · intro hnow
    have hle : (t.instant : ℚ) + 1 ≤ now.instant + 1000000 := by exact_mod_cast (by omega)
    linarith

theorem Kept.store (hkept : Kept base q h) (hid : entry.itemId = id)
    (hreplays : ∀ other, other ≠ id → call.replays other = false)
    (hdue : ∀ other due, other ≠ id → call.due base other due = due)
    (hentry : Agrees id (h.after call (q.store entry) id) entry) :
  Kept base (q.store entry) (h.after call (q.store entry))
  := by
  have hsound : Sound (h.after call (q.store entry)) (q.store entry).entries := by
    constructor
    case agrees =>
      intro other found hfound
      have hget := hfound
      rw [Queue.store, hid, Dict.get?_set] at hget
      split_ifs at hget with hother
      · cases hget
        rw [hother]
        apply hentry
      · apply (hkept.entries.agrees other found hget).after
        · rw [History.after, hfound, hreplays other hother]
          simp
        · rw [History.after, Queue.store, hkept.base, hdue other _ hother]
    case present =>
      intro other hheld
      rw [History.after, Queue.store, hid, Dict.get?_set] at hheld
      rw [Queue.store, hid, Dict.get?_set]
      split_ifs at hheld ⊢ with hother
      · rfl
      · simp only [Bool.or_eq_true, Bool.and_eq_true] at hheld
        obtain hold | hnew := hheld
        · apply hkept.entries.present other hold.1
        · obtain ⟨found, hfound, -⟩ := (Option.any_eq_true _ _).mp hnew
          rw [hfound]
          rfl
  exact ⟨hkept.base, hsound, hsound⟩

/-- An orderly call keeps the agreement. -/
theorem Kept.step (hkept : Kept base q h) (horderly : Orderly q call) (hperform : q.perform call = some q') :
  Kept base q' (h.after call q')
  := by
  cases call with
  | recordFailure id reason attempts maxAttempts now idempotent =>
    obtain ⟨hpair, hlate⟩ := horderly
    have hdue : ∀ other due, other ≠ id →
        (Call.recordFailure id reason attempts maxAttempts now idempotent).due base other due = due := by
      intro other due hother
      rw [Call.due, if_neg hother]
    simp only [Queue.perform, Queue.recordFailure] at hperform
    split_ifs at hperform with hretried
    · obtain ⟨retry, hadd, rfl⟩ := Option.map_eq_some_iff.mp hperform
      apply hkept.store rfl (fun _ _ => rfl) hdue
      have hrounded := timedelta_bounds (q.backoffBaseSec ^ attempts)
      have hinstant : (retry.instant : ℚ) = now.instant + timedelta (q.backoffBaseSec ^ attempts) := by
        exact_mod_cast instant_add hadd
      refine ⟨rfl, hpair, fun hheld => ?_, fun _ => ⟨retry, rfl, ?_⟩⟩
      · -- What was held has an entry in quarantine, of which the failure is no late report.
        have hlate := mt hlate (by simp [hretried])
        simp only [History.after, Queue.store, Dict.get?_set, if_pos, Option.any_some] at hheld
        have hold : (h id).held = true := by simpa [Call.replays] using hheld
        obtain ⟨found, hfound⟩ := Option.isSome_iff_exists.mp (hkept.entries.present id hold)
        have hstate := (hkept.entries.agrees id found hfound).held hold
        simp [hfound, hstate] at hlate
      · simp only [History.after, Call.due, if_pos, hinstant]
        simpa [Queue.store, add_sub_add_left_eq_sub] using hrounded
    · cases hperform
      apply hkept.store rfl (fun _ _ => rfl) hdue
      exact ⟨rfl, hpair, fun _ => rfl, by rintro ⟨⟩⟩
  | quarantineItem id reason now =>
    cases hperform
    apply hkept.store rfl (fun _ _ => rfl) (fun _ _ _ => rfl)
    exact ⟨rfl, horderly, fun _ => rfl, by rintro ⟨⟩⟩
  | replayItem id now =>
    cases hperform
    apply hkept.store rfl
    · intro other hother
      simpa [Call.replays] using hother
    · intro other due hother
      rw [Call.due, if_neg hother]
    · refine ⟨rfl, horderly, fun hheld => ?_, fun _ => ⟨now, rfl, ?_⟩⟩
      · simp [History.after, Call.replays, Queue.store, Dict.get?_set] at hheld
      · simp [History.after, Call.due]
  | reload =>
    cases hperform
    have hload := load_eq hkept.file
    have hget : ∀ id, (load q.file).get? id = ((q.file.getD ∅).get? id).map (·.readBack) := by
      intro id
      rw [hload, Dict.get?_map]
    have hstate : ∀ id, ((load q.file).get? id).any (·.state = .quarantined) =
        ((q.file.getD ∅).get? id).any (·.state = .quarantined) := by
      intro id
      rw [hget, Option.any_map]
      rfl
    have hagrees : ∀ id entry, (q.file.getD ∅).get? id = some entry →
        Agrees id (h.after .reload { q with entries := load q.file } id) entry := by
      intro id entry hentry
      apply (hkept.file.agrees id entry hentry).after
      · rw [History.after, hstate, hentry]
        simp [Call.replays]
      · rfl
    have hpresent : ∀ id, (h.after .reload { q with entries := load q.file } id).held = true →
        ((q.file.getD ∅).get? id).isSome = true := by
      intro id hheld
      rw [History.after, hstate] at hheld
      simp only [Call.replays, Bool.not_false, Bool.and_true, Bool.or_eq_true] at hheld
      obtain hold | hnew := hheld
      · apply hkept.file.present id hold
      · obtain ⟨found, hfound, -⟩ := (Option.any_eq_true _ _).mp hnew
        rw [hfound]
        rfl
    refine ⟨hkept.base, ⟨fun id found hfound => ?_, fun id hheld => ?_⟩, ⟨hagrees, hpresent⟩⟩
    · rw [hget, Option.map_eq_some_iff] at hfound
      obtain ⟨entry, hentry, rfl⟩ := hfound
      obtain ⟨hitem, hpair, hheld, hdue⟩ := hagrees id entry hentry
      have hid : fuse entry.itemId = id := by rw [hitem, fuse_eq_self hpair]
      exact ⟨hid, hpair, hheld, hdue⟩
    · rw [hget, Option.isSome_map]
      apply hpresent id hheld

theorem Reached.kept (hreached : Reached maxAttempts base q h) :
  Kept base q h
  := by
  induction hreached with
  | start =>
    have hempty : Sound (fun _ => ⟨false, 0⟩) ∅ := ⟨by rintro _ _ ⟨⟩, by rintro _ ⟨⟩⟩
    exact ⟨rfl, hempty, hempty⟩
  | step _ _ horderly hperform ih => apply ih.step horderly hperform

theorem held_of_reached (hreached : Reached maxAttempts base q h) (now : DateTime) :
  (∀ id, (h id).held = true → ∀ entry ∈ q.getRetryableItems now, entry.itemId ≠ id) ∧
    ∀ id entry, q.entries.get? id = some entry → entry.state = .retryable →
      ((h id).due ≤ now.instant → entry ∈ q.getRetryableItems now) ∧
        (entry ∈ q.getRetryableItems now → (h id).due - 1000000 < now.instant)
  := by
  have hkept := hreached.kept
  constructor
  · rintro id hheld entry hentry rfl
    obtain ⟨hvalue, hready⟩ := List.mem_filter.mp hentry
    obtain ⟨other, hget⟩ := Dict.mem_values.mp hvalue
    have hagrees := hkept.entries.agrees other entry hget
    rw [hagrees.itemId] at hheld
    simp [hagrees.held hheld] at hready
  · intro id entry hget hstate
    apply (hkept.entries.agrees id entry hget).returned hstate hget

end Kept

/-- A moment for examples. -/
def noon : DateTime :=
  ⟨2026, 1, 1, 12, 0, 0, 0, by decide, by decide⟩

theorem held_of_poison :
  ∃ q h, Reached 3 2 q h ∧ (h [97]).held = true ∧ ∀ entry ∈ q.getRetryableItems noon, entry.itemId ≠ [97]
  := by
  have hreached := Reached.step (.recordFailure [97] [] 3 none noon true) (.start : Reached 3 2 _ _)
    ⟨rfl, by rintro ⟨⟩⟩ rfl
  exact ⟨_, _, hreached, by decide, (held_of_reached hreached noon).1 [97] (by decide)⟩

theorem held_fails :
  ((Queue.perform ⟨3, 2, ∅, none⟩ (.recordFailure [97] [] 3 none noon true)).bind
      (·.perform (.recordFailure [97] [] 0 none noon true))).map (fun q =>
        (q.getRetryableItems ⟨2026, 1, 1, 12, 0, 1, 0, by decide, by decide⟩).map (·.itemId)) = some [[97]]
  := by
  have hdelta : timedelta ((2 : ℚ) ^ (0 : Int)) = 1000000 := by norm_num [timedelta]
  have hfirst : Queue.perform ⟨3, 2, ∅, none⟩ (.recordFailure [97] [] 3 none noon true) = some _ := rfl
  rw [hfirst, Option.bind_some, Queue.perform, Queue.recordFailure, if_pos (by decide), if_neg (by simp), Queue.store,
    hdelta]
  decide +kernel

end Courier.DeadLetterQueue
