import Courier.Library.Text

/-!
# The event stream

A client names the number of the last event it has (`ControllerHandler._stream_events`), and is sent the later ones in
batches as the journal grows.  A text that `str.isdigit` takes for a number and `int` does not ends the request with an
internal error; every other one is refused, or delivers every valid event once, also over reconnections
(`delivers_iff`).
-/

namespace Courier.EventStream

open Text

class Digits where
  /-- `c.isdigit()` -/
  isDigit : Nat → Bool
  /-- The value of a decimal digit. -/
  decimal : Nat → Option Nat
  ascii : ∀ c, Text.isDigit c = true → isDigit c = true ∧ decimal c = some (c - 48)

/-! ### The request -/

section Request

variable [Digits]

/-- `s.isdigit()` -/
def isdigit (s : Str) : Bool :=
  s ≠ [] && s.all Digits.isDigit

/-- A number that `int` reads from a text of digits: it has no other digits, and not too many. -/
def Usable (s : Str) : Prop :=
  s.length ≤ 4300 ∧ ∀ c ∈ s, (Digits.decimal c).isSome = true

instance (s : Str) : Decidable (Usable s) :=
  inferInstanceAs (Decidable (_ ∧ _))

/-- `int(s)` of a text of digits, unless it raises. -/
def int (s : Str) : Option Nat :=
  if Usable s then some (s.foldl (fun n c => 10 * n + (Digits.decimal c).getD 0) 0) else none

inductive Reply where
  | error (status : Nat)
  | stream (last : Nat)

/-- The text that names the position: `Last-Event-ID`, or the first `after`. -/
def raw (lastEventId : Option Str) (after : List Str) : Str :=
  match lastEventId with
  | some (c :: s) => c :: s
  | _ => after.headD (text "0")

/-- `_stream_events`, where a stream may be free; what `int` raises is an internal error. -/
def streamEvents (lastEventId : Option Str) (after : List Str) (free : Bool) : Reply :=
  let s := strip (raw lastEventId after)
  if ¬ isdigit s then .error 400
  else
    match int s with
    | none => .error 500
    | some last => if free then .stream last else .error 503

end Request

/-! ### The stream -/

/-- A row of the journal, and its event if it validates. -/
structure Row (E : Type) where
  seq : Nat
  event : Option E

section Stream

variable {E : Type}

/-- `events_after`: no row after one that does not validate. -/
def eventsAfter (journal : List (Row E)) (afterSeq : Nat) (limit : Nat := 500) : List (Row E) :=
  ((journal.filter (afterSeq < ·.seq)).take limit).takeWhile (·.event.isSome)

/-- Where the loop is; `unanswered` is a wait after a query that the database did not answer. -/
inductive Phase where
  | querying
  | waiting
  | unanswered
  | closed
  deriving DecidableEq

/-- The journal, what a client received over its earlier connections, the variable `last`, what is written to the
connection, and the journal as the latest query that was answered saw it. -/
structure World (E : Type) where
  journal : List (Row E)
  received : List (Row E) := []
  last : Nat := 0
  written : List (Row E) := []
  phase : Phase := .closed
  seen : List (Row E) := []

/-- One round of `_pump_events`; a number that SQLite cannot take ends the stream. -/
def World.round (w : World E) : World E :=
  if 2 ^ 63 ≤ w.last then { w with phase := .closed }
  else
    match eventsAfter w.journal w.last with
    | [] => { w with phase := .waiting, seen := w.journal }
    | event :: batch =>
        { w with
          written := w.written ++ event :: batch
          last := ((event :: batch).getLast (List.cons_ne_nil _ _)).seq
          seen := w.journal }

/-- The number of the last event that was received, or the first number. -/
def position (n : Nat) (rows : List (Row E)) : Nat :=
  (rows.getLast?.map (·.seq)).getD n

/-- The header of a client that received some events: the last id, or what it sent first. -/
def header (lastEventId : Option Str) (received : List (Row E)) : Option Str :=
  (received.getLast?.map fun row => natDecimal row.seq).or lastEventId

/-- What happens, with a client that first sends some texts.  A wait ends when it is woken or its time is over, and
`closes` leaves the client with the first rows that were written. -/
inductive Step [Digits] (lastEventId : Option Str) (after : List Str) : World E → World E → Prop
  | append (w : World E) (row : Row E) (newer : ∀ other ∈ w.journal, other.seq < row.seq) (fits : row.seq < 2 ^ 63) :
      Step lastEventId after w { w with journal := w.journal ++ [row] }
  | round (w : World E) (isQuerying : w.phase = .querying) : Step lastEventId after w w.round
  | databaseError (w : World E) (isQuerying : w.phase = .querying) :
      Step lastEventId after w { w with phase := .unanswered }
  | wakes (w : World E) (isWaiting : w.phase = .waiting ∨ w.phase = .unanswered) :
      Step lastEventId after w { w with phase := .querying }
  | closes (w : World E) (count : Nat) : Step lastEventId after w
      { w with received := w.received ++ w.written.take count, written := [], phase := .closed }
  | connects (w : World E) (last : Nat) (isClosed : w.phase = .closed)
      (accepted : streamEvents (header lastEventId w.received) after true = .stream last) :
      Step lastEventId after w { w with last := last, written := [], phase := .querying }

inductive Reached [Digits] (lastEventId : Option Str) (after : List Str) : World E → Prop
  | init (journal : List (Row E)) (sorted : journal.Pairwise (·.seq < ·.seq))
      (fits : ∀ row ∈ journal, row.seq < 2 ^ 63) : Reached lastEventId after { journal }
  | step {w w' : World E} (h : Reached lastEventId after w) (hstep : Step lastEventId after w w') :
      Reached lastEventId after w'

/-- The rows after a number. -/
def later (n : Nat) (journal : List (Row E)) : List (Row E) :=
  journal.filter (n < ·.seq)

/-- The events that a stream from a number is to deliver: the valid ones, up to the first that is not. -/
def due (n : Nat) (journal : List (Row E)) : List (Row E) :=
  (later n journal).takeWhile (·.event.isSome)

variable (E) in
/-- The texts are refused, or denote a number after which every event is delivered once and in order: what was written
over all connections are the first events that are due, and all that the latest query saw when the loop waits. -/
def Delivers [Digits] (lastEventId : Option Str) (after : List Str) : Prop :=
  ∀ free, match streamEvents lastEventId after free with
    | .error status => 400 ≤ status ∧ status < 500 ∨ status = 503
    | .stream n => ∀ w : World E, Reached lastEventId after w →
        w.received ++ w.written <+: due n w.journal ∧
        (w.phase = .waiting → w.seen <+: w.journal ∧ w.received ++ w.written = due n w.seen)

/-! ### What a step keeps -/

variable {n : Nat} {journal rows rest : List (Row E)} {w w' : World E}

theorem eq_later_position (hsorted : journal.Pairwise (·.seq < ·.seq)) (h : rows ++ rest = later n journal) :
  rest = later (position n rows) journal
  := by
  obtain rfl | ⟨front, row, rfl⟩ := rows.eq_nil_or_concat'
  · exact h
  · have hlater : (front ++ [row] ++ rest).Pairwise (·.seq < ·.seq) := h ▸ hsorted.filter _
    have hrow : n < row.seq := by
      have hmem : row ∈ later n journal := by
        rw [← h]
        simp
      simpa using List.of_mem_filter hmem
    have hnarrow : later row.seq journal = later row.seq (later n journal) := by
      unfold later
      rw [List.filter_filter]
      apply List.filter_congr
      intro other _
      rw [Bool.eq_iff_iff]
      simp
      omega
    rw [List.append_assoc, List.pairwise_append] at hlater
    obtain ⟨-, hrest, hfront⟩ := hlater
    rw [List.singleton_append, List.pairwise_cons] at hrest
    have hposition : position n (front ++ [row]) = row.seq := by simp [position]
    have hnone : front.filter (row.seq < ·.seq) = [] := by
      apply List.filter_eq_nil_iff.mpr
      intro other hother
      have hlt := hfront other hother row (List.mem_cons_self ..)
      simp
      omega
    have hall : rest.filter (row.seq < ·.seq) = rest := by
      apply List.filter_eq_self.mpr
      intro other hother
      simpa using hrest.1 other hother
    rw [hposition, hnarrow, ← h, later, List.append_assoc, List.filter_append, hnone, List.filter_append, hall]
    simp

theorem due_of_append (hvalid : ∀ row ∈ rows, row.event.isSome = true) (h : rows ++ rest = later n journal) :
  due n journal = rows ++ rest.takeWhile (·.event.isSome)
  := by
  rw [due, ← h, List.takeWhile_append_of_pos hvalid]

/-- What the rows of all connections are, and where the loop stands. -/
structure Kept (n : Nat) (w : World E) : Prop where
  sorted : w.journal.Pairwise (·.seq < ·.seq)
  fits : ∀ row ∈ w.journal, row.seq < 2 ^ 63
  joined : w.received ++ w.written <+: later n w.journal
  valid : ∀ row ∈ w.received ++ w.written, row.event.isSome = true
  last : w.phase ≠ .closed → w.last = position n (w.received ++ w.written)
  seen : w.phase = .waiting → w.seen <+: w.journal ∧ w.received ++ w.written = due n w.seen

theorem later_append (row : Row E) :
  later n journal <+: later n (journal ++ [row])
  := by
  unfold later
  rw [List.filter_append]
  apply List.prefix_append

theorem Kept.round (h : Kept n w) (hphase : w.phase = .querying) :
  Kept n w.round
  := by
  obtain ⟨rest, hrest⟩ := h.joined
  have hlast : rest = later w.last w.journal := by
    rw [h.last (by simp [hphase])]
    exact eq_later_position h.sorted hrest
  unfold World.round
  split_ifs
  · exact ⟨h.sorted, h.fits, h.joined, h.valid, by simp, by simp⟩
  · split
    · rename_i hbatch
      refine ⟨h.sorted, h.fits, h.joined, h.valid, fun _ => h.last (by simp [hphase]), fun _ => ⟨List.prefix_rfl, ?_⟩⟩
      have hnone : rest.takeWhile (·.event.isSome) = [] := by
        cases rest with
        | nil => rfl
        | cons row rows =>
          simp only [eventsAfter, ← later.eq_def, ← hlast, List.take_succ_cons, List.takeWhile_cons] at hbatch ⊢
          split_ifs at hbatch ⊢
          · rfl
      rw [due_of_append h.valid hrest, hnone, List.append_nil]
    · rename_i event batch hbatch
      have hprefix : event :: batch <+: rest := by
        rw [← hbatch, hlast]
        exact (List.takeWhile_prefix _).trans (List.take_prefix _ _)
      refine ⟨h.sorted, h.fits, ?_, ?_, ?_, by simp [hphase]⟩
      · obtain ⟨tail, rfl⟩ := hprefix
        exact ⟨tail, by rw [← hrest]; simp⟩
      · intro row hrow
        rw [← List.append_assoc, List.mem_append] at hrow
        obtain hrow | hrow := hrow
        · apply h.valid row hrow
        · rw [← hbatch] at hrow
          exact List.mem_takeWhile_imp (p := fun row : Row E => row.event.isSome) hrow
      · intro _
        simp [position, ← List.append_assoc, List.getLast?_eq_some_getLast]

variable [Digits]

theorem streamEvents_natDecimal {seq : Nat} (hseq : seq < 2 ^ 63) (after : List Str) (free : Bool) :
  streamEvents (some (natDecimal seq)) after free = if free then .stream seq else .error 503
  := by
  have hascii : ∀ c ∈ natDecimal seq, Digits.isDigit c = true ∧ Digits.decimal c = some (c - 48) := fun c hc =>
    Digits.ascii c (isDigit_of_mem_natDecimal hc)
  have hraw : raw (some (natDecimal seq)) after = natDecimal seq := by
    unfold raw
    split
    · rename_i heq
      exact (Option.some.inj heq).symm
    · rename_i hcons
      obtain ⟨c, s, heq⟩ := List.exists_cons_of_ne_nil (natDecimal_ne_nil seq)
      cases hcons c s (by rw [heq])
  have hstrip : strip (natDecimal seq) = natDecimal seq := by
    have hspace : ∀ c ∈ natDecimal seq, ¬ isSpace c = true := by
      intro c hc
      have hdigit := isDigit_of_mem_natDecimal hc
      simp [isDigit] at hdigit
      simp [isSpace]
      omega
    rw [strip, List.dropWhile_eq_self_iff.mpr, List.rdropWhile_eq_self_iff.mpr]
    · exact fun hne => hspace _ (List.getLast_mem hne)
    · exact fun hpos => hspace _ (List.getElem_mem hpos)
  have hdigits : isdigit (natDecimal seq) = true := by
    simp only [isdigit, ne_eq, natDecimal_ne_nil, not_false_eq_true, decide_true, Bool.true_and, List.all_eq_true]
    exact fun c hc => (hascii c hc).1
  have hlength : (natDecimal seq).length ≤ 4300 := by
    unfold natDecimal
    split_ifs
    · simp
    · rw [List.length_reverse, List.length_map]
      exact ((Nat.digits_length_le_iff (k := 19) (by omega) seq).mpr (by omega)).trans (by omega)
  have hvalue : int (natDecimal seq) = some seq := by
    rw [int, if_pos ⟨hlength, fun c hc => by simp [(hascii c hc).2]⟩]
    refine congrArg some ((List.foldl_ext _ _ _ ?_).trans (ofDigits_natDecimal seq))
    intro n c hc
    rw [(hascii c hc).2, Option.getD_some]
  simp only [streamEvents, hraw, hstrip, hdigits, hvalue, not_true_eq_false, if_false]

theorem Kept.step {lastEventId : Option Str} {after : List Str} (h : Kept n w)
    (hstart : streamEvents lastEventId after true = .stream n) (hstep : Step lastEventId after w w') :
  Kept n w'
  := by
  cases hstep with
  | append row newer fits =>
    refine ⟨?_, ?_, h.joined.trans (later_append row), h.valid, h.last, ?_⟩
    · rw [List.pairwise_append]
      exact ⟨h.sorted, List.pairwise_singleton _ _, fun other hother _ hrow => List.mem_singleton.mp hrow ▸ newer other hother⟩
    · intro other hother
      obtain hother | hother := List.mem_append.mp hother
      · apply h.fits other hother
      · rw [List.mem_singleton.mp hother]
        exact fits
    · intro hphase
      exact ⟨(h.seen hphase).1.trans (List.prefix_append _ _), (h.seen hphase).2⟩
  | round isQuerying => exact h.round isQuerying
  | databaseError isQuerying =>
    exact ⟨h.sorted, h.fits, h.joined, h.valid, fun _ => h.last (by simp [isQuerying]), by simp⟩
  | wakes isWaiting =>
    refine ⟨h.sorted, h.fits, h.joined, h.valid, fun _ => h.last ?_, by simp⟩
    obtain hphase | hphase := isWaiting
    · simp [hphase]
    · simp [hphase]
  | closes count =>
    have hkept : w.received ++ w.written.take count <+: w.received ++ w.written :=
      List.prefix_append_right_inj _ |>.mpr (List.take_prefix _ _)
    refine ⟨h.sorted, h.fits, ?_, ?_, by simp, by simp⟩
    · rw [List.append_nil]
      exact hkept.trans h.joined
    · intro row hrow
      rw [List.append_nil] at hrow
      apply h.valid row (hkept.subset hrow)
  | connects last isClosed accepted =>
    have hreceived : w.received <+: w.received ++ w.written := List.prefix_append _ _
    refine ⟨h.sorted, h.fits, ?_, ?_, ?_, by simp⟩
    · rw [List.append_nil]
      exact hreceived.trans h.joined
    · intro row hrow
      rw [List.append_nil] at hrow
      apply h.valid row (hreceived.subset hrow)
    · intro _
      simp only [List.append_nil]
      cases hrow : w.received.getLast? with
      | none =>
        simp only [header, hrow, Option.map_none, Option.none_or] at accepted
        cases hstart.symm.trans accepted
        simp [position, hrow]
      | some row =>
        have hmem : row ∈ w.journal :=
          List.mem_of_mem_filter (h.joined.subset (hreceived.subset (List.mem_of_getLast? hrow)))
        simp only [header, hrow, Option.map_some, Option.some_or] at accepted
        rw [streamEvents_natDecimal (h.fits row hmem)] at accepted
        cases accepted
        simp [position, hrow]

theorem delivers_iff (lastEventId : Option Str) (after : List Str) :
  Delivers E lastEventId after ↔
    (isdigit (strip (raw lastEventId after)) = true → Usable (strip (raw lastEventId after)))
  := by
  have hreply : ∀ free, streamEvents lastEventId after free =
      if ¬ isdigit (strip (raw lastEventId after)) then .error 400
      else
        match int (strip (raw lastEventId after)) with
        | none => .error 500
        | some last => if free then .stream last else .error 503 := fun _ => rfl
  constructor
  · intro h hdigits
    by_contra hnot
    have hrefused := h true
    simp [hreply, hdigits, int, hnot] at hrefused
  · intro husable free
    by_cases hdigits : isdigit (strip (raw lastEventId after)) = true
    · cases free with
      | false => simp [hreply, hdigits, int, husable hdigits]
      | true =>
        obtain ⟨n, hint⟩ : ∃ n, int (strip (raw lastEventId after)) = some n := by
          rw [int, if_pos (husable hdigits)]
          exact ⟨_, rfl⟩
        have hstart : streamEvents lastEventId after true = .stream n := by
          simp [hreply, hdigits, hint]
        rw [hstart]
        intro w hreached
        have hkept : Kept n w := by
          induction hreached with
          | init journal sorted fits => exact ⟨sorted, fits, by simp, by simp, by simp, by simp⟩
          | step _ hstep ih => exact ih.step hstart hstep
        obtain ⟨rest, hrest⟩ := hkept.joined
        refine ⟨?_, hkept.seen⟩
        rw [due_of_append hkept.valid hrest]
        apply List.prefix_append
    · simp [hreply, hdigits]

end Stream

local instance digitsLatin : Digits where
  isDigit c := Text.isDigit c || c ∈ [178, 179, 185]
  decimal c := if Text.isDigit c then some (c - 48) else none
  ascii c hc := by simp [hc]

theorem delivers_fails :
  ¬ Delivers Nat (some [178]) []
  := by
  intro h
  have hrefused := h true
  have hreply : streamEvents (some [178]) [] true = .error 500 := rfl
  rw [hreply] at hrefused
  simp at hrefused

end Courier.EventStream
