import Courier.Library.Program
import Mathlib.Data.List.Infix

/-!
# Transactions

A session with a database whose transactions are atomic.  Statements work on a copy of the
stored database that `commit` makes the stored one and `rollback` throws away.  The
surroundings may make any statement raise, and may end the transaction when they do; which
statements they do this to is the list of faults the session starts with.
-/

/-- What the surroundings do to a statement: it raises, and the transaction may be over. -/
structure Fault (ε : Type) where
  raised : ε
  aborts : Bool

/-- A session: the stored database, the open transaction and the faults to come. -/
structure Session (D ε : Type) where
  stored : D
  working : Option D := none
  faults : List (Option (Fault ε)) := []

namespace Session

open Program

variable {D ε α : Type}

/-- The database a statement sees. -/
def current (s : Session D ε) : D :=
  s.working.getD s.stored

/-- Every statement may meet a fault. -/
def tick : EStateM ε (Session D ε) Unit := fun s =>
  match s.faults with
  | some f :: rest =>
      .error f.raised { s with faults := rest, working := if f.aborts then none else s.working }
  | _ => .ok () { s with faults := s.faults.tail }

def query (read : D → Except ε α) : EStateM ε (Session D ε) α := do
  tick
  let s ← get
  lift (read s.current)

/-- A statement that writes; outside a transaction it commits at once. -/
def write (change : D → Except ε D) : EStateM ε (Session D ε) Unit := do
  tick
  let s ← get
  let d ← lift (change s.current)
  match s.working with
  | some _ => set { s with working := some d }
  | none => set { s with stored := d }

/-- `BEGIN IMMEDIATE`. -/
def begin : EStateM ε (Session D ε) Unit := do
  tick
  modify fun s => { s with working := some s.stored }

def commit : EStateM ε (Session D ε) Unit := do
  tick
  modify fun s => { s with stored := s.current, working := none }

def rollback : EStateM ε (Session D ε) Unit :=
  modify fun s => { s with working := none }

/-! ### What statements do -/

/-- The exception comes from one of the faults. -/
def Blamed (faults : List (Option (Fault ε))) (e : ε) : Prop :=
  ∃ f, some f ∈ faults ∧ f.raised = e

/-- A session of which the stored database and the transaction are known. -/
structure At (faults : List (Option (Fault ε))) (stored : D) (working : Option D)
    (s : Session D ε) : Prop where
  stored_eq : s.stored = stored
  working_eq : s.working = working
  faults_suffix : s.faults <:+ faults

structure RaisedAt (faults : List (Option (Fault ε))) (stored : D) (s : Session D ε) : Prop where
  stored_eq : s.stored = stored
  faults_suffix : s.faults <:+ faults

variable {faults : List (Option (Fault ε))} {stored d : D} {working : Option D}
  {s : Session D ε} {normal : α → Session D ε → Prop} {raised : ε → Session D ε → Prop}

theorem At.raisedAt (h : At faults stored working s) :
  RaisedAt faults stored s
  := ⟨h.stored_eq, h.faults_suffix⟩

theorem raisedAt_of_or (h : At faults stored none s ∨ At faults stored working s) :
  RaisedAt faults stored s
  := by
  obtain h | h := h
  · exact h.raisedAt
  · exact h.raisedAt

theorem At.current_eq (h : At faults stored (some d) s) :
  s.current = d
  := by
  simp [current, h.working_eq]

/-- A statement that meets no fault goes on; one that does may have lost its transaction. -/
theorem wp_tick {normal : Unit → Session D ε → Prop} (h : At faults stored working s)
    (hnormal : ∀ s', At faults stored working s' → normal () s')
    (hraised : ∀ e s', At faults stored none s' ∨ At faults stored working s' →
      Blamed faults e → raised e s') :
  wp tick normal raised s
  := by
  obtain ⟨hstored, hworking, hsuffix⟩ := h
  unfold wp tick
  rcases hfaults : s.faults with _ | ⟨_ | f, rest⟩
  · apply hnormal
    exact ⟨hstored, hworking, List.nil_suffix⟩
  · apply hnormal
    refine ⟨hstored, hworking, ?_⟩
    rw [hfaults] at hsuffix
    exact (List.suffix_cons _ _).trans hsuffix
  · rw [hfaults] at hsuffix
    have hrest : rest <:+ faults := (List.suffix_cons _ _).trans hsuffix
    apply hraised
    · cases hf : f.aborts with
      | true => exact .inl ⟨hstored, rfl, hrest⟩
      | false => exact .inr ⟨hstored, hworking, hrest⟩
    · exact ⟨f, hsuffix.subset List.mem_cons_self, rfl⟩

theorem wp_query {read : D → Except ε α} (h : At faults stored working s)
    (hnormal : ∀ a s', At faults stored working s' → read s.current = .ok a → normal a s')
    (hraised : ∀ e s', RaisedAt faults stored s' → Blamed faults e ∨ read s.current = .error e →
      raised e s') :
  wp (query read) normal raised s
  := by
  have hcurrent : ∀ s', At faults stored working s' → s'.current = s.current := by
    intro s' h'
    rw [current, current, h'.stored_eq, h'.working_eq, h.stored_eq, h.working_eq]
  simp only [query, wp_bind, wp_get, wp_lift]
  apply wp_tick h
  · intro s' h'
    rw [hcurrent s' h']
    constructor
    · intro a ha
      exact hnormal a s' h' ha
    · intro e he
      exact hraised e s' h'.raisedAt (.inr he)
  · intro e s' h' he
    exact hraised e s' (raisedAt_of_or h') (.inl he)

theorem wp_write {change : D → Except ε D} {normal : Unit → Session D ε → Prop}
    (h : At faults stored (some d) s)
    (hnormal : ∀ d' s', At faults stored (some d') s' → change d = .ok d' → normal () s')
    (hraised : ∀ e s', RaisedAt faults stored s' → Blamed faults e ∨ change d = .error e →
      raised e s') :
  wp (write change) normal raised s
  := by
  simp only [write, wp_bind, wp_get]
  apply wp_tick h
  · intro s' h'
    rw [wp_lift, h'.current_eq]
    constructor
    · intro d' hd'
      rw [h'.working_eq]
      simp only [wp_set]
      exact hnormal d' _ ⟨h'.stored_eq, rfl, h'.faults_suffix⟩ hd'
    · intro e he
      exact hraised e s' h'.raisedAt (.inr he)
  · intro e s' h' he
    exact hraised e s' (raisedAt_of_or h') (.inl he)

theorem wp_begin {normal : Unit → Session D ε → Prop} (h : At faults stored none s)
    (hnormal : ∀ s', At faults stored (some stored) s' → normal () s')
    (hraised : ∀ e s', At faults stored none s' → Blamed faults e → raised e s') :
  wp begin normal raised s
  := by
  simp only [begin, wp_bind, wp_modify]
  apply wp_tick h
  · intro s' h'
    apply hnormal
    exact ⟨h'.stored_eq, by simp [h'.stored_eq], h'.faults_suffix⟩
  · intro e s' h' he
    exact hraised e s' (or_self_iff.mp h') he

theorem wp_commit {normal : Unit → Session D ε → Prop} (h : At faults stored (some d) s)
    (hnormal : ∀ s', At faults d none s' → normal () s')
    (hraised : ∀ e s', RaisedAt faults stored s' → Blamed faults e → raised e s') :
  wp commit normal raised s
  := by
  simp only [commit, wp_bind, wp_modify]
  apply wp_tick h
  · intro s' h'
    apply hnormal
    exact ⟨h'.current_eq, rfl, h'.faults_suffix⟩
  · intro e s' h' he
    exact hraised e s' (raisedAt_of_or h') he

theorem wp_rollback {normal : Unit → Session D ε → Prop} (h : RaisedAt faults stored s)
    (hnormal : ∀ s', At faults stored none s' → normal () s') :
  wp rollback normal raised s
  := by
  simp only [rollback, wp_modify]
  apply hnormal
  exact ⟨h.stored_eq, rfl, h.faults_suffix⟩

/-- Run a body in a transaction.  Whatever raises, the transaction is over afterwards. -/
def transaction (body : EStateM ε (Session D ε) α) : EStateM ε (Session D ε) α := do
  begin
  try body
  catch e => do
    rollback
    throw e

theorem wp_transaction {body : EStateM ε (Session D ε) α} (h : At faults stored none s)
    (hbody : ∀ s', At faults stored (some stored) s' →
      wp body normal (fun e s' => RaisedAt faults stored s' ∧
        ∀ t, At faults stored none t → raised e t) s')
    (hbegin : ∀ e s', At faults stored none s' → Blamed faults e → raised e s') :
  wp (transaction body) normal raised s
  := by
  simp only [transaction, wp_bind, wp_tryCatch, wp_throw]
  apply wp_begin h
  · intro s' h'
    apply wp_mono (hbody s' h')
    · intro a t hnormal
      exact hnormal
    · rintro e t ⟨hat, hraised⟩
      apply wp_rollback hat
      exact hraised
  · exact hbegin

end Session
