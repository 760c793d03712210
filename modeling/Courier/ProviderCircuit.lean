import Courier.Library.Dict
import Courier.Library.Text
import Mathlib.Algebra.Order.Ring.Rat
import Mathlib.Data.Set.Function

/-!
# The circuits of providers

An error opens the circuit of a connection and a capability; when one of its deadlines has come, one probe is let
through (`ProviderState.checkRecovery`).  The deadlines stand until a success, so an authentication error that comes
after a rate limit is probed, and a server error without any deadline is never probed.  In the runs without these
(`Orderly`), and for pairs whose keys differ, a probe is let through once for every record (`admits_of_reached`).
-/

namespace Courier.ProviderCircuit

open Text

/-! ### One circuit -/

inductive ProviderAvailability where
  | available | degraded | rateLimited | quotaExhausted | authRequired | providerUnavailable | recoveryProbeDue
  deriving DecidableEq

/-- A float as a deadline: infinity and NaN are never reached, and minus infinity always is. -/
inductive Moment where
  | finite (time : ℚ)
  | never
  | always
  deriving DecidableEq

namespace Moment

/-- `time.time() + seconds` -/
def after (now : ℚ) : Moment → Moment
  | finite seconds => finite (now + seconds)
  | m => m

/-- `self.retry_after and now >= self.retry_after`: a deadline 0 counts as none. -/
def due (now : ℚ) : Option Moment → Bool
  | some (finite time) => time ≠ 0 && time ≤ now
  | some always => true
  | _ => false

/-- A deadline that is due at some time. -/
def Comes : Option Moment → Prop
  | some (finite time) => time ≠ 0
  | some always => True
  | _ => False

end Moment

/-- What `float` makes of the two values of `retry_metadata`, and `some none` where it refuses one. -/
structure Metadata where
  retryAfter : Option (Option Moment) := none
  resetTime : Option (Option Moment) := none

structure ProviderState where
  connectionId : Str
  capabilityClass : Str
  availability : ProviderAvailability := .available
  resetTime : Option Moment := none
  retryAfter : Option Moment := none
  openCircuit : Bool := false
  deriving DecidableEq

namespace ProviderState

/-- The state that is left, also where `float` raises: a refused `retry_after` ends the update before `reset_time`. -/
def updateFromError (s : ProviderState) (errorCode : ℤ) (metadata : Metadata) (now : ℚ) : ProviderState :=
  if errorCode = 429 then
    { s with
      availability := .quotaExhausted
      openCircuit := true
      retryAfter := (metadata.retryAfter.join.map (Moment.after now)).or s.retryAfter
      resetTime := if metadata.retryAfter = some none then s.resetTime else metadata.resetTime.join.or s.resetTime }
  else if errorCode = 401 ∨ errorCode = 403 then { s with availability := .authRequired, openCircuit := true }
  else if 500 ≤ errorCode then { s with availability := .providerUnavailable, openCircuit := true }
  else s

def checkRecovery (s : ProviderState) (now : ℚ) : Bool × ProviderState :=
  if ¬ s.openCircuit then (true, s)
  else if s.availability = .recoveryProbeDue then (false, s)
  else if Moment.due now s.retryAfter || Moment.due now s.resetTime then
    (true, { s with availability := .recoveryProbeDue })
  else (false, s)

/-- One of the deadlines comes. -/
def Comes (s : ProviderState) : Prop :=
  Moment.Comes s.retryAfter ∨ Moment.Comes s.resetTime

end ProviderState

/-! ### The circuits -/

/-- A connection and a capability. -/
structure Pair where
  connectionId : Str
  capabilityClass : Str
  deriving DecidableEq

def Pair.key (p : Pair) : Str :=
  p.connectionId ++ text "|" ++ p.capabilityClass

abbrev CircuitBreaker := Dict Str ProviderState

namespace CircuitBreaker

def getState (b : CircuitBreaker) (p : Pair) : ProviderState :=
  (b.get? p.key).getD { connectionId := p.connectionId, capabilityClass := p.capabilityClass }

def recordError (b : CircuitBreaker) (p : Pair) (errorCode : ℤ) (metadata : Metadata) (now : ℚ) : CircuitBreaker :=
  b.set p.key ((b.getState p).updateFromError errorCode metadata now)

def recordSuccess (b : CircuitBreaker) (p : Pair) : CircuitBreaker :=
  b.set p.key
    { b.getState p with availability := .available, openCircuit := false, resetTime := none, retryAfter := none }

/-- `get_state(...).check_recovery()` -/
def checkRecovery (b : CircuitBreaker) (p : Pair) (now : ℚ) : Bool × CircuitBreaker :=
  let (granted, s) := (b.getState p).checkRecovery now
  (granted, b.set p.key s)

end CircuitBreaker

/-! ### Runs -/

/-- Something recorded (an error's code, or a success), or an answer of `check_recovery`. -/
inductive Fact where
  | recorded (errorCode : Option ℤ)
  | answered (wasOpen granted : Bool)
  deriving DecidableEq

/-- The circuits with a log of what was recorded and answered, the newest first. -/
structure World where
  breaker : CircuitBreaker := ∅
  log : List (Pair × Fact) := []

structure Connection (V : Type) where
  id : Str
  capabilities : List Str
  constraints : Dict Str V

section Calls

variable {V : Type} [DecidableEq V]

/-- `_check_constraints` -/
def checkConstraints (connection project : Dict Str V) : Bool :=
  project.entries.all (fun (k, v) => (connection.get? k).all (· = v))

/-- `check_recovery`, with its answer in the log. -/
def World.ask (w : World) (p : Pair) (now : ℚ) : Bool × World :=
  let (granted, breaker) := w.breaker.checkRecovery p now
  (granted, ⟨breaker, (p, .answered (w.breaker.getState p).openCircuit granted) :: w.log⟩)

/-- `AuthorizedFallbackRouter.find_fallback` -/
def World.findFallback (required : Str) (project : Dict Str V) (now : ℚ) :
    World → List (Connection V) → Option Str × World
  | w, [] => (none, w)
  | w, c :: rest =>
      if required ∈ c.capabilities ∧ checkConstraints c.constraints project then
        let p : Pair := ⟨c.id, required⟩
        if ¬ (w.breaker.getState p).openCircuit then
          (some c.id, { w with breaker := w.breaker.set p.key (w.breaker.getState p) })
        else
          let (granted, w) := w.ask p now
          if granted then (some c.id, w) else World.findFallback required project now w rest
      else World.findFallback required project now w rest

/-- A call, with its time; a router is given by its connections. -/
inductive Call (V : Type) where
  | recordError (p : Pair) (errorCode : ℤ) (metadata : Metadata) (now : ℚ)
  | recordSuccess (p : Pair)
  | checkRecovery (p : Pair) (now : ℚ)
  | findFallback (connections : List (Connection V)) (required : Str) (project : Dict Str V) (now : ℚ)

def World.step (w : World) : Call V → World
  | .recordError p errorCode metadata now =>
      ⟨w.breaker.recordError p errorCode metadata now, (p, .recorded (some errorCode)) :: w.log⟩
  | .recordSuccess p => ⟨w.breaker.recordSuccess p, (p, .recorded none) :: w.log⟩
  | .checkRecovery p now => (w.ask p now).2
  | .findFallback connections required project now => (w.findFallback required project now connections).2

/-- The pair's latest record is no authentication error, and since then no probe of its open circuit was let through. -/
def Clear (p : Pair) : List (Pair × Fact) → Prop
  | [] => True
  | (q, fact) :: log =>
      if q ≠ p then Clear p log else
        match fact with
        | .recorded errorCode => errorCode ≠ some 401 ∧ errorCode ≠ some 403
        | .answered wasOpen granted => ¬ (wasOpen ∧ granted) ∧ Clear p log

/-- The pair's circuit was opened by a rate limit or a server error, and no probe was let through since then. -/
def Opened (p : Pair) : List (Pair × Fact) → Prop
  | [] => False
  | (q, fact) :: log =>
      if q ≠ p then Opened p log else
        match fact with
        | .recorded none => False
        | .recorded (some errorCode) =>
            errorCode = 429 ∨ 500 ≤ errorCode ∨ errorCode ≠ 401 ∧ errorCode ≠ 403 ∧ Opened p log
        | .answered wasOpen granted => ¬ (wasOpen ∧ granted) ∧ Opened p log

/-- What the circuits of some pairs admit. -/
structure Admits (pairs : Set Pair) (w : World) : Prop where
  closed : ∀ p, (w.breaker.getState p).openCircuit = false → ∀ now, (w.breaker.checkRecovery p now).1 = true
  probes : ∀ p ∈ pairs, ∀ newer older, w.log = newer ++ (p, .answered true true) :: older → Clear p older
  recovers : ∀ p ∈ pairs, Opened p w.log → ∀ now, ∃ later, now ≤ later ∧ (w.breaker.checkRecovery p later).1 = true
  apart : ∀ p ∈ pairs, ∀ q ∈ pairs, p ≠ q → (w.breaker.recordSuccess p).getState q = w.breaker.getState q ∧
    ∀ errorCode metadata now, (w.breaker.recordError p errorCode metadata now).getState q = w.breaker.getState q

/-- A rate limit brings a deadline that comes, or leaves one standing. -/
inductive Brings (s : ProviderState) (metadata : Metadata) (now : ℚ) : Prop
  | retry (m : Moment) (given : metadata.retryAfter = some (some m)) (comes : Moment.Comes (m.after now))
  | reset (m : Moment) (accepted : metadata.retryAfter ≠ some none) (given : metadata.resetTime = some (some m))
    (comes : Moment.Comes m)
  | storedRetry (kept : metadata.retryAfter.join = none) (comes : Moment.Comes s.retryAfter)
  | storedReset (kept : metadata.retryAfter = some none ∨ metadata.resetTime.join = none)
    (comes : Moment.Comes s.resetTime)

/-- A call that is about some pairs, and records an authentication error only where no deadline comes, and a rate
limit or a server error only where one does. -/
def Orderly (pairs : Set Pair) (b : CircuitBreaker) : Call V → Prop
  | .recordError p errorCode metadata now => p ∈ pairs ∧
      (errorCode = 401 ∨ errorCode = 403 → ¬ (b.getState p).Comes) ∧
      (errorCode = 429 → Brings (b.getState p) metadata now) ∧ (500 ≤ errorCode → (b.getState p).Comes)
  | .recordSuccess p => p ∈ pairs
  | .checkRecovery p _ => p ∈ pairs
  | .findFallback connections required _ _ => ∀ c ∈ connections, ⟨c.id, required⟩ ∈ pairs

variable (V) in
inductive Reached (pairs : Set Pair) : World → Prop
  | init : Reached pairs {}
  | step {w : World} (h : Reached pairs w) (call : Call V) (horderly : Orderly pairs w.breaker call) :
      Reached pairs (w.step call)

/-! ### What one call does -/

section Steps

variable {pairs : Set Pair} {w : World} {s : ProviderState} {p q : Pair} {b : CircuitBreaker}

theorem Moment.exists_due {m : Option Moment} (h : Moment.Comes m) (now : ℚ) :
  ∃ later, now ≤ later ∧ Moment.due later m = true
  := by
  match m, h with
  | some (.finite time), h => exact ⟨max now time, le_max_left _ _, by simpa [due, Moment.Comes] using h⟩
  | some .always, _ => exact ⟨now, le_refl now, rfl⟩

theorem Moment.Comes.of_due {m : Option Moment} {now : ℚ} (h : Moment.due now m = true) :
  Moment.Comes m
  := by
  match m, h with
  | some (.finite time), h =>
    simp only [due, Bool.and_eq_true, decide_eq_true_eq] at h
    apply h.1
  | some .always, _ => trivial

theorem brings_iff (metadata : Metadata) (now : ℚ) :
  Brings s metadata now ↔ (s.updateFromError 429 metadata now).Comes
  := by
  obtain ⟨retry, reset⟩ := metadata
  simp only [ProviderState.updateFromError, if_true, ProviderState.Comes]
  constructor
  · rintro (⟨m, given, comes⟩ | ⟨m, accepted, given, comes⟩ | ⟨kept, comes⟩ | ⟨kept, comes⟩)
    · simp only at given
      simpa [given] using Or.inl comes
    · simp only at given accepted
      simpa [given, accepted] using Or.inr comes
    · simp only at kept
      simpa [kept] using Or.inl comes
    · right
      obtain hkept | hkept := kept
      · simp only at hkept
        simpa [hkept] using comes
      · simp only at hkept
        simpa [hkept] using comes
  · rintro (comes | comes)
    · match retry with
      | none => exact .storedRetry rfl comes
      | some none => exact .storedRetry rfl comes
      | some (some m) => exact .retry m rfl comes
    · by_cases hretry : retry = some none
      · rw [if_pos hretry] at comes
        exact .storedReset (.inl hretry) comes
      · rw [if_neg hretry] at comes
        match reset with
        | none => exact .storedReset (.inr rfl) comes
        | some none => exact .storedReset (.inr rfl) comes
        | some (some m) => exact .reset m hretry rfl comes

theorem getState_set (hkeys : Set.InjOn Pair.key pairs) (hp : p ∈ pairs) (hq : q ∈ pairs) :
  CircuitBreaker.getState (b.set p.key s) q = if q = p then s else b.getState q
  := by
  have hiff : q.key = p.key ↔ q = p := ⟨fun hkey => hkeys hq hp hkey, congrArg _⟩
  unfold CircuitBreaker.getState
  rw [Dict.get?_set]
  simp only [hiff]
  split_ifs
  · rfl
  · rfl

/-- A circuit that lets a probe through at some time. -/
structure ProviderState.Waits (s : ProviderState) : Prop where
  isOpen : s.openCircuit = true
  notProbed : s.availability ≠ .recoveryProbeDue
  comes : s.Comes

theorem ProviderState.checkRecovery_cases (s : ProviderState) (now : ℚ) :
  (s.openCircuit = false ∧ s.checkRecovery now = (true, s)) ∨
  (s.openCircuit = true ∧ s.checkRecovery now = (false, s)) ∨
  (s.Waits ∧ s.checkRecovery now = (true, { s with availability := .recoveryProbeDue }))
  := by
  unfold checkRecovery
  split_ifs with hopen hprobed hdue
  · exact .inr (.inl ⟨hopen, rfl⟩)
  · rw [Bool.or_eq_true] at hdue
    exact .inr (.inr ⟨⟨hopen, hprobed, hdue.imp Moment.Comes.of_due Moment.Comes.of_due⟩, rfl⟩)
  · exact .inr (.inl ⟨hopen, rfl⟩)
  · exact .inl ⟨by simpa using hopen, rfl⟩

theorem ProviderState.Waits.exists_granted (h : s.Waits) (now : ℚ) :
  ∃ later, now ≤ later ∧ (s.checkRecovery later).1 = true
  := by
  obtain ⟨later, hle, hdue⟩ : ∃ later, now ≤ later ∧
      (Moment.due later s.retryAfter || Moment.due later s.resetTime) = true := by
    obtain hcomes | hcomes := h.comes
    · obtain ⟨later, hle, hdue⟩ := Moment.exists_due hcomes now
      exact ⟨later, hle, by simp [hdue]⟩
    · obtain ⟨later, hle, hdue⟩ := Moment.exists_due hcomes now
      exact ⟨later, hle, by simp [hdue]⟩
  refine ⟨later, hle, ?_⟩
  simp [checkRecovery, h.isOpen, h.notProbed, hdue]

/-- A probe is let through only where it may be, and where it must be it still can. -/
structure Kept (pairs : Set Pair) (w : World) : Prop where
  probes : ∀ p ∈ pairs, ∀ newer older, w.log = newer ++ (p, .answered true true) :: older → Clear p older
  clear : ∀ p ∈ pairs, (w.breaker.getState p).Waits → Clear p w.log
  waits : ∀ p ∈ pairs, Opened p w.log → (w.breaker.getState p).Waits

theorem Kept.set (h : Kept pairs w) (hkeys : Set.InjOn Pair.key pairs) (hp : p ∈ pairs) {fact : Fact}
    (hprobe : fact = .answered true true → Clear p w.log)
    (hclear : s.Waits → Clear p ((p, fact) :: w.log))
    (hwaits : Opened p ((p, fact) :: w.log) → s.Waits) :
  Kept pairs ⟨w.breaker.set p.key s, (p, fact) :: w.log⟩
  := by
  refine ⟨?_, ?_, ?_⟩
  · intro q hq newer older hlog
    obtain - | ⟨head, newer⟩ := newer
    · rw [List.nil_append, List.cons.injEq, Prod.mk.injEq] at hlog
      obtain ⟨⟨rfl, hfact⟩, rfl⟩ := hlog
      apply hprobe hfact
    · rw [List.cons_append, List.cons.injEq] at hlog
      apply h.probes q hq newer older hlog.2
  · intro q hq hs
    rw [getState_set hkeys hp hq] at hs
    split_ifs at hs with heq
    · subst heq
      apply hclear hs
    · simpa [Clear, Ne.symm heq] using h.clear q hq hs
  · intro q hq hopened
    rw [getState_set hkeys hp hq]
    split_ifs with heq
    · subst heq
      apply hwaits hopened
    · apply h.waits q hq
      simpa [Opened, Ne.symm heq] using hopened

theorem Kept.ask (h : Kept pairs w) (hkeys : Set.InjOn Pair.key pairs) (hp : p ∈ pairs) (now : ℚ) :
  Kept pairs (w.ask p now).2
  := by
  obtain ⟨hopen, heq⟩ | ⟨hopen, heq⟩ | ⟨hwaits, heq⟩ := (w.breaker.getState p).checkRecovery_cases now
  · simp only [World.ask, CircuitBreaker.checkRecovery, heq, hopen]
    apply h.set hkeys hp
    · simp
    · intro hwaits
      cases hopen.symm.trans hwaits.isOpen
    · intro hopened
      apply h.waits p hp
      simpa [Opened] using hopened
  · simp only [World.ask, CircuitBreaker.checkRecovery, heq, hopen]
    apply h.set hkeys hp
    · simp
    · intro hwaits
      simpa [Clear] using h.clear p hp hwaits
    · intro hopened
      apply h.waits p hp
      simpa [Opened] using hopened
  · simp only [World.ask, CircuitBreaker.checkRecovery, heq, hwaits.isOpen]
    apply h.set hkeys hp
    · intro _
      apply h.clear p hp hwaits
    · intro hprobed
      cases hprobed.notProbed rfl
    · intro hopened
      simp [Opened] at hopened

theorem Kept.findFallback (h : Kept pairs w) (hkeys : Set.InjOn Pair.key pairs) (required : Str)
    (project : Dict Str V) (now : ℚ) {connections : List (Connection V)}
    (hin : ∀ c ∈ connections, ⟨c.id, required⟩ ∈ pairs) :
  Kept pairs (w.findFallback required project now connections).2
  := by
  induction connections generalizing w with
  | nil => exact h
  | cons c rest ih =>
    have hp := hin c (List.mem_cons_self ..)
    have hrest := fun d hd => hin d (List.mem_cons_of_mem c hd)
    rw [World.findFallback]
    dsimp only
    split_ifs
    · apply h.ask hkeys hp
    · apply ih (h.ask hkeys hp now) hrest
    · have hsame : ∀ q ∈ pairs, CircuitBreaker.getState (w.breaker.set (Pair.key ⟨c.id, required⟩)
          (w.breaker.getState ⟨c.id, required⟩)) q = w.breaker.getState q := by
        intro q hq
        rw [getState_set hkeys hp hq]
        split_ifs with heq
        · rw [heq]
        · rfl
      refine ⟨h.probes, ?_, ?_⟩
      · intro q hq hs
        rw [hsame q hq] at hs
        apply h.clear q hq hs
      · intro q hq hopened
        rw [hsame q hq]
        apply h.waits q hq hopened
    · apply ih h hrest

theorem Kept.step (h : Kept pairs w) (hkeys : Set.InjOn Pair.key pairs) {call : Call V}
    (horderly : Orderly pairs w.breaker call) :
  Kept pairs (w.step call)
  := by
  cases call with
  | recordError p errorCode metadata now =>
    obtain ⟨hp, hauth, hlimit, hserver⟩ := horderly
    apply h.set hkeys hp
    · intro hfact
      cases hfact
    · intro hwaits
      suffices hother : errorCode ≠ 401 ∧ errorCode ≠ 403 by simpa [Clear] using hother
      rw [← not_or]
      intro hcode
      apply hauth hcode
      have hkept := hwaits.comes
      rwa [ProviderState.updateFromError, if_neg (by omega), if_pos hcode] at hkept
    · intro hopened
      by_cases hlimited : errorCode = 429
      · subst hlimited
        exact ⟨rfl, by simp [ProviderState.updateFromError], (brings_iff metadata now).mp (hlimit rfl)⟩
      by_cases hfailed : 500 ≤ errorCode
      · rw [ProviderState.updateFromError, if_neg hlimited, if_neg (by omega), if_pos hfailed]
        exact ⟨rfl, by simp, hserver hfailed⟩
      · obtain ⟨hneither, hneither', hopened⟩ : errorCode ≠ 401 ∧ errorCode ≠ 403 ∧ Opened p w.log := by
          simpa [Opened, hlimited, hfailed] using hopened
        rw [ProviderState.updateFromError, if_neg hlimited, if_neg (by simp [hneither, hneither']), if_neg hfailed]
        apply h.waits p hp hopened
  | recordSuccess p =>
    apply h.set hkeys horderly
    · intro hfact
      cases hfact
    · intro _
      simp [Clear]
    · intro hopened
      simp [Opened] at hopened
  | checkRecovery p now => exact h.ask hkeys horderly now
  | findFallback connections required project now => exact h.findFallback hkeys required project now horderly

theorem Reached.kept (h : Reached V pairs w) (hkeys : Set.InjOn Pair.key pairs) :
  Kept pairs w
  := by
  induction h with
  | init =>
    refine ⟨?_, ?_, ?_⟩
    · intro p _ newer older hlog
      simp at hlog
    · intro p _ _
      trivial
    · intro p _ hopened
      cases hopened
  | step _ call horderly ih => exact ih.step hkeys horderly

end Steps

theorem admits_of_reached {pairs : Set Pair} {w : World} (hkeys : Set.InjOn Pair.key pairs) (h : Reached V pairs w) :
  Admits pairs w
  := by
  have hkept := h.kept hkeys
  refine ⟨?_, hkept.probes, ?_, ?_⟩
  · intro p hclosed now
    simp [CircuitBreaker.checkRecovery, ProviderState.checkRecovery, hclosed]
  · intro p hp hopened now
    exact (hkept.waits p hp hopened).exists_granted now
  · intro p hp q hq hne
    refine ⟨?_, ?_⟩
    · rw [CircuitBreaker.recordSuccess, getState_set hkeys hp hq, if_neg hne.symm]
    · intro errorCode metadata now
      rw [CircuitBreaker.recordError, getState_set hkeys hp hq, if_neg hne.symm]

private def here : Pair := ⟨text "c", text "x"⟩

/-- The log of a run of calls, from the beginning. -/
private def after (calls : List (Call Str)) : World :=
  calls.foldl World.step {}

theorem admits_limited_then_probed :
  Admits {here} (after [.recordError here 429 ⟨some (some (.finite 10)), none⟩ 0, .checkRecovery here 12])
  := by
  apply admits_of_reached (V := Str) (Set.injOn_singleton _ _)
  have hlimited : Reached Str {here} (after [.recordError here 429 ⟨some (some (.finite 10)), none⟩ 0]) := by
    refine .step .init (.recordError here 429 ⟨some (some (.finite 10)), none⟩ 0) ⟨rfl, by omega, ?_, by omega⟩
    intro _
    exact .retry (.finite 10) rfl (by simp [Moment.after, Moment.Comes])
  exact hlimited.step (.checkRecovery here 12) rfl

theorem admits_fails :
  ¬ Admits {here} (after [.recordError here 429 ⟨some (some (.finite 10)), none⟩ 0, .recordError here 401 {} 1,
    .checkRecovery here 12]) ∧
  ¬ Admits {here} (after [.recordError here 503 {} 0]) ∧
  ¬ Admits Set.univ (after [.recordError ⟨text "a|b", text "c"⟩ 503 {} 0])
  := by
  refine ⟨?_, ?_, ?_⟩
  · intro h
    have hlog : (after [.recordError here 429 ⟨some (some (.finite 10)), none⟩ 0, .recordError here 401 {} 1,
        .checkRecovery here 12]).log =
        [(here, .answered true true), (here, .recorded (some 401)), (here, .recorded (some 429))] := by
      decide +kernel
    have hclear := h.probes here rfl [] _ hlog
    simp [Clear] at hclear
  · intro h
    obtain ⟨later, -, hgranted⟩ := h.recovers here rfl (by simp [after, World.step, Opened]) 0
    have hnone : ∀ now, ((after [.recordError here 503 {} 0]).breaker.checkRecovery here now).1 = false :=
      fun _ => rfl
    cases (hnone later).symm.trans hgranted
  · intro h
    obtain ⟨hsame, -⟩ := h.apart ⟨text "a", text "b|c"⟩ trivial ⟨text "a|b", text "c"⟩ trivial (by decide)
    have hopen := congrArg ProviderState.openCircuit hsame
    revert hopen
    decide

end Calls

end Courier.ProviderCircuit
