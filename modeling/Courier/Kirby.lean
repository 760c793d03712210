import Courier.Library.Program
import Courier.Library.Reload
import Courier.Library.Run
import Mathlib.Algebra.Order.Ring.Rat

/-!
# Provider continuity

The supervisor keeps slots, each with a session of a provider, and workkeys, each of which is worked on by at most one
session.  A session is woken for the next workkey, the workkey is delivered, and the end of its turn settles it; a
session that is saturated or lost is replaced by a successor.  The state is written to a file after every change.
-/

namespace Courier.Kirby

open Program

/-! ### The state -/

inductive WorkState where
  | «open»
  | claimed
  | done
  | blocked
  | failedFinal
  deriving DecidableEq

inductive SessionState where
  | working
  | idle
  | wakePending
  | waitingForUser
  | recovering
  | retired
  deriving DecidableEq

structure Workkey where
  key : Str
  state : WorkState
  owner : Str
  token : Int
  checkpoint : Str
  blockedReason : Str
  priority : Int
  dependsOn : List Str
  effectClass : Str
  resultId : Str
  deriving DecidableEq

structure Session where
  slot : Str
  sessionId : Str
  provider : Str
  host : Str
  state : SessionState
  pid : Int
  createTime : ℚ
  workkey : Str
  token : Int
  generation : Int
  activity : Str
  lastHeartbeat : ℚ
  lastProgress : ℚ
  accepting : Bool
  successor : Str
  recoveringSince : ℚ
  deliveredWorkkey : Str
  deliveryEnforced : Bool
  leaseUntil : ℚ
  deriving DecidableEq

structure Counters where
  coalesced : Nat
  manualContinue : Nat
  autoWakes : Nat
  rotations : Nat
  recoveries : Nat
  completions : Nat
  deriving DecidableEq

/-- What the supervisor has in memory, and writes to its file. -/
structure State where
  workkeys : Dict Str Workkey
  sessions : Dict Str Session
  counters : Counters
  lastSnapshot : ℚ
  tokenSeq : Int

/-- The state without a file. -/
def State.empty : State where
  workkeys := ∅
  sessions := ∅
  counters := ⟨0, 0, 0, 0, 0, 0⟩
  lastSnapshot := 0
  tokenSeq := 0

/-- The session is live: `s.state in LIVE`. -/
def Session.Live (s : Session) : Prop :=
  s.state ≠ .retired

instance (s : Session) : Decidable s.Live :=
  inferInstanceAs (Decidable (_ ≠ _))

/-- `[s for s in self.sessions.values() if s.state in LIVE]`, counted. -/
def State.liveCount (st : State) : Nat :=
  st.sessions.values.countP fun s => s.Live

def Workkey.readBack (w : Workkey) : Workkey :=
  { w with
    key := Json.fuse w.key
    owner := Json.fuse w.owner
    checkpoint := Json.fuse w.checkpoint
    blockedReason := Json.fuse w.blockedReason
    dependsOn := w.dependsOn.map Json.fuse
    effectClass := Json.fuse w.effectClass
    resultId := Json.fuse w.resultId }

def Session.readBack (s : Session) : Session :=
  { s with
    slot := Json.fuse s.slot
    sessionId := Json.fuse s.sessionId
    provider := Json.fuse s.provider
    host := Json.fuse s.host
    workkey := Json.fuse s.workkey
    activity := Json.fuse s.activity
    successor := Json.fuse s.successor
    deliveredWorkkey := Json.fuse s.deliveredWorkkey }

def maxToken (first : Int) (tokens : List Int) : Int :=
  tokens.foldl max first

def State.load (file : Option State) : State :=
  match file with
  | none => .empty
  | some st =>
      let workkeys := st.workkeys.readBack Workkey.readBack
      let sessions := st.sessions.readBack Session.readBack
      { workkeys := workkeys
        sessions := sessions
        counters := st.counters
        lastSnapshot := st.lastSnapshot
        tokenSeq := max st.tokenSeq
          (maxToken 0 (workkeys.values.map Workkey.token ++ sessions.values.map Session.token)) }

/-! ### The surroundings -/

/-- The limits of the supervisor, and what it asks of its surroundings; an answer may depend on how often it was asked.
-/
class Surroundings where
  host : Str
  maxSlots : Nat
  leaseSeconds : ℚ
  /-- The process with the id and the start time still runs. -/
  identity : Nat → Int → ℚ → Bool
  /-- What the termination of a session's process came to. -/
  terminate : Nat → Session → Str
  /-- The id, the process and the start time of a new session of a slot. -/
  startSession : Nat → Str → Int → Str × Int × ℚ
  clock : Nat → ℚ
  /-- The verdict on a workkey with a checkpoint that a session has finished. -/
  verifier : Option (Nat → Str → Str → Session → Bool)
  /-- A percentage as it is printed. -/
  printPercent : ℚ → Str

/-- A claim of a workkey that was made. -/
structure Claim where
  key : Str
  owner : Str
  token : Int
  deriving DecidableEq

/-- The state in memory and in the file, how often the surroundings were asked, and the claims that were made. -/
structure World where
  state : State
  file : Option State
  identityAsked : Nat
  asked : Nat
  claims : List Claim

/-- A supervisor that starts without a file. -/
def World.start : World where
  state := .empty
  file := none
  identityAsked := 0
  asked := 0
  claims := []

inductive KirbyError where
  | keyError (key : Str)
  | poolFull
  deriving DecidableEq

abbrev KirbyM := EStateM KirbyError World

def save : KirbyM Unit :=
  modify fun w => { w with file := some w.state }

/-- Change the state in memory. -/
def modifyState (f : State → State) : KirbyM Unit :=
  modify fun w => { w with state := f w.state }

/-- `self.sessions[slot]`. -/
def sessionAt (slot : Str) : KirbyM Session := do
  match (← get).state.sessions.get? slot with
  | some s => return s
  | none => throw (.keyError slot)

def State.setSession (st : State) (slot : Str) (s : Session) : State :=
  { st with sessions := st.sessions.set slot s }

/-- A workkey is changed. -/
def State.setWorkkey (st : State) (key : Str) (w : Workkey) : State :=
  { st with workkeys := st.workkeys.set key w }

/-- One of the counters is changed. -/
def State.count (st : State) (f : Counters → Counters) : State :=
  { st with counters := f st.counters }

section Questions

variable [Surroundings]

/-- `self.identity(s)`. -/
def askIdentity (s : Session) : KirbyM Bool := do
  let w ← get
  set { w with identityAsked := w.identityAsked + 1 }
  return Surroundings.identity w.identityAsked s.pid s.createTime

/-- An answer of the surroundings. -/
def ask {α : Type} (answer : Nat → α) : KirbyM α := do
  let w ← get
  set { w with asked := w.asked + 1 }
  return answer w.asked

end Questions

/-! ### Campaign and slots -/

/-- What is said of a workkey that is added. -/
structure KeySpec where
  key : Str
  priority : Option Int
  dependsOn : Option (List Str)
  effectClass : Option Str

/-- A workkey that is added. -/
def KeySpec.workkey (spec : KeySpec) (priority : Int) (dependsOn : List Str) (effectClass : Str) :
    Workkey where
  key := spec.key
  state := .open
  owner := []
  token := 0
  checkpoint := []
  blockedReason := []
  priority := spec.priority.getD priority
  dependsOn := spec.dependsOn.getD dependsOn
  effectClass := spec.effectClass.getD effectClass
  resultId := []

/-- `self.workkeys.setdefault(key, Workkey(...))`. -/
def State.addWorkkey (st : State) (w : Workkey) : State :=
  match st.workkeys.get? w.key with
  | some _ => st
  | none => st.setWorkkey w.key w

def addWorkkeys (keys : List KeySpec) (priority : Int) (dependsOn : List Str) (effectClass : Str) :
    KirbyM Unit := do
  modifyState fun st => keys.foldl
    (fun st spec => st.addWorkkey (spec.workkey priority dependsOn effectClass)) st
  save

def State.IsReady (st : State) (w : Workkey) : Prop :=
  w.state = .open ∧
    ∀ dep ∈ w.dependsOn, (st.workkeys.get? dep).any fun d => d.state = .done

instance (st : State) (w : Workkey) : Decidable (st.IsReady w) :=
  inferInstanceAs (Decidable (_ ∧ _))

def State.readyWorkkeys (st : State) : List Workkey :=
  (st.workkeys.values.filter fun w => st.IsReady w).insertionSort fun w x =>
    w.priority < x.priority ∨ w.priority = x.priority ∧ w.key ≤ x.key

def State.HasReadyWork (st : State) : Prop :=
  st.readyWorkkeys ≠ []

instance (st : State) : Decidable st.HasReadyWork :=
  inferInstanceAs (Decidable (_ ≠ _))

def State.nextWorkkey (st : State) : Option Workkey :=
  st.readyWorkkeys.head?

/-- The session works on the workkey, by the owner of the workkey: `s.workkey and
self.workkeys[s.workkey].owner == s.session_id`. -/
def ownsWorkkey (s : Session) : KirbyM Bool := do
  if s.workkey = [] then return false
  match (← get).state.workkeys.get? s.workkey with
  | some w => return w.owner = s.sessionId
  | none => throw (.keyError s.workkey)

/-- `_claim`: the workkey and the session after it, with the next token. -/
def claimed (s : Session) (w : Workkey) (token : Int) : Session × Workkey :=
  ({ s with workkey := w.key, token := token, deliveredWorkkey := [] },
    { w with state := .claimed, owner := s.sessionId, token := token })

def takeSlot (slot : Str) (s : Session) (w : Workkey) : KirbyM Unit :=
  modify fun world =>
    let token := world.state.tokenSeq + 1
    let (s, w) := claimed s w token
    { world with
      state := { (world.state.setSession slot s).setWorkkey w.key w with tokenSeq := token }
      claims := world.claims ++ [⟨w.key, w.owner, token⟩] }

inductive WakeAnswer where
  | coalesced
  | state (state : SessionState)
  deriving DecidableEq

section Slots

variable [Surroundings]

def newSession (slot provider activity : Str) (generation : Int) : KirbyM Session := do
  let (sid, pid, createTime) ← ask fun n => Surroundings.startSession n slot generation
  let now ← ask Surroundings.clock
  return {
    slot := slot
    sessionId := sid
    provider := provider
    host := Surroundings.host
    state := .idle
    pid := pid
    createTime := createTime
    workkey := []
    token := 0
    generation := generation
    activity := activity
    lastHeartbeat := now
    lastProgress := now
    accepting := true
    successor := []
    recoveringSince := 0
    deliveredWorkkey := []
    deliveryEnforced := false
    leaseUntil := 0 }

def openSlot (slot provider activity : Str) : KirbyM Session := do
  let st := (← get).state
  let existing := st.sessions.get? slot
  match existing.filter fun s => decide s.Live with
  | some s => return s
  | none =>
      if Surroundings.maxSlots ≤ st.liveCount then
        throw .poolFull
      let s ← newSession slot provider activity ((existing.map fun s => s.generation + 1).getD 1)
      modifyState fun st => st.setSession slot s
      save
      return s

/-! ### Continuation -/

def State.restState (st : State) : SessionState :=
  if st.workkeys.values.any fun w => w.state = .blocked ∨ w.state = .open ∧ ¬ st.IsReady w then
    .waitingForUser
  else .idle

/-- A session is woken. -/
def countWake (manual : Bool) : KirbyM WakeAnswer := do
  modifyState fun st => st.count fun c =>
    { c with autoWakes := if manual then c.autoWakes else c.autoWakes + 1 }
  save
  return .state .wakePending

/-- `wake`, for a session that is live. -/
def wakeSession (slot : Str) (s : Session) (manual : Bool) : KirbyM WakeAnswer := do
  if s.state = .wakePending ∨ s.state = .working ∨ s.state = .recovering ∨ ¬ s.accepting then
    modifyState fun st => st.count fun c => { c with coalesced := c.coalesced + 1 }
    save
    return .coalesced
  else
    if ← ownsWorkkey s then
      modifyState fun st => st.setSession slot { s with state := .wakePending }
      countWake manual
    else
      let st := (← get).state
      match st.nextWorkkey with
      | none =>
          modifyState fun st => st.setSession slot { s with state := st.restState }
          save
          return .state st.restState
      | some w =>
          takeSlot slot { s with state := .wakePending } w
          countWake manual

def wake (slot : Str) (manual : Bool) : KirbyM WakeAnswer := do
  let s ← sessionAt slot
  modifyState fun st => st.count fun c =>
    { c with manualContinue := if manual then c.manualContinue + 1 else c.manualContinue }
  if s.state = .retired then
    wakeSession slot (← openSlot slot s.provider s.activity) manual
  else
    wakeSession slot s manual

def deliver (slot : Str) : KirbyM (Option Str) := do
  let s ← sessionAt slot
  if s.state ≠ .wakePending then
    return none
  let now ← ask Surroundings.clock
  modifyState fun st => st.setSession slot { s with
    state := .working
    lastHeartbeat := now
    lastProgress := now
    deliveredWorkkey := s.workkey
    deliveryEnforced := true
    leaseUntil := if 0 < Surroundings.leaseSeconds then now + Surroundings.leaseSeconds
      else s.leaseUntil }
  save
  return some s.workkey

inductive Outcome where
  | done
  | blocked
  | failedFinal
  | other
  deriving DecidableEq

inductive TurnAnswer where
  | duplicateIgnored
  | rejectedStaleWriter
  | woken (answer : WakeAnswer)
  deriving DecidableEq

/-- The workkey whose turn a session ends, or why the end of the turn is not accepted. -/
def State.turnWorkkey (st : State) (s : Session) (token : Int) (workkey : Option Str) (resultId : Str) :
    Except TurnAnswer Workkey :=
  let named := workkey.filter fun key => decide (key ≠ [])
  if named.any fun key => (st.workkeys.get? key).any fun target => target.state = .done then
    .error .duplicateIgnored
  else if named.any fun key => s.workkey ≠ key then
    .error .rejectedStaleWriter
  else if resultId ≠ [] ∧ st.workkeys.values.any fun x => x.resultId = resultId ∧ x.state = .done then
    .error .duplicateIgnored
  else
    match st.workkeys.get? s.workkey with
    | none => .error .rejectedStaleWriter
    | some w =>
        if w.owner ≠ s.sessionId ∨ w.token ≠ token then .error .rejectedStaleWriter
        else if s.deliveryEnforced ∧ s.deliveredWorkkey ≠ s.workkey then .error .duplicateIgnored
        else .ok w

def Session.ended (s : Session) (outcome : Outcome) : Session :=
  match outcome with
  | .other => { s with state := .idle }
  | _ => { s with state := .idle, workkey := [], deliveredWorkkey := [], leaseUntil := 0 }

def Workkey.turned (w : Workkey) (outcome : Outcome) (verified : Bool) (reason resultId : Str) :
    Workkey :=
  match outcome with
  | .done =>
      if verified then
        { w with
          state := .done
          owner := []
          resultId := if resultId ≠ [] then resultId else w.resultId }
      else
        { w with
          state := .blocked
          owner := []
          blockedReason := if reason ≠ [] then reason else text "verification_failed" }
  | .blocked => { w with state := .blocked, owner := [], blockedReason := reason }
  | .failedFinal => { w with state := .failedFinal, owner := [] }
  | .other => w

def verify (w : Workkey) (s : Session) (outcome : Outcome) : KirbyM Bool :=
  match outcome, Surroundings.verifier with
  | .done, some verifier => ask fun n => verifier n w.key w.checkpoint s
  | _, _ => pure true

def onTurnEnd (slot : Str) (outcome : Outcome) (token : Int) (checkpoint reason : Str)
    (workkey : Option Str) (resultId : Str) : KirbyM TurnAnswer := do
  let s ← sessionAt slot
  match (← get).state.turnWorkkey s token workkey resultId with
  | .error answer => return answer
  | .ok w =>
      let w := { w with checkpoint := if checkpoint ≠ [] then checkpoint else w.checkpoint }
      let verified ← verify w s outcome
      modifyState fun st =>
        (st.setSession slot (s.ended outcome)).setWorkkey w.key
          (w.turned outcome verified reason resultId)
      modifyState fun st => st.count fun c =>
        { c with completions := if outcome = .done ∧ verified then c.completions + 1 else c.completions }
      save
      return .woken (← wake slot false)

def heartbeat (slot : Str) (progress : Bool) (checkpoint : Option Str) : KirbyM Unit := do
  let s ← sessionAt slot
  let now ← ask Surroundings.clock
  modifyState fun st => st.setSession slot { s with
    lastHeartbeat := now
    lastProgress := if progress then now else s.lastProgress
    leaseUntil := if 0 < Surroundings.leaseSeconds ∧ s.state = .working then
      now + Surroundings.leaseSeconds else s.leaseUntil }
  match checkpoint.filter fun _ => decide (s.workkey ≠ []) with
  | none => pure ()
  | some checkpoint =>
      match (← get).state.workkeys.get? s.workkey with
      | none => throw (.keyError s.workkey)
      | some w => modifyState fun st => st.setWorkkey s.workkey { w with checkpoint := checkpoint }
  save

/-! ### The watchdog -/

/-- `s.pid and self.identity(s)`. -/
def isRunning (s : Session) : KirbyM Bool := do
  if s.pid = 0 then return false
  askIdentity s

/-- `s.pid and not self.identity(s)`. -/
def executorGone (s : Session) : KirbyM Bool := do
  if s.pid = 0 then return false
  return !(← askIdentity s)

inductive Verdict where
  | ok
  | investigate
  | recover
  deriving DecidableEq

/-- `ACTIVITY`: how long the heartbeat and how long useful progress may be missing. -/
def activityWindows (activity : Str) : ℚ × ℚ :=
  if activity = text "build" then (180, 3600)
  else if activity = text "long_quiet" then (600, 4 * 3600)
  else (90, 900)

/-- What speaks against the health of a working session. -/
def Session.signals (s : Session) (now : ℚ) (gone : Bool) : List Str :=
  (if 0 < s.leaseUntil ∧ s.leaseUntil ≤ now then [text "lease_expired"] else []) ++
    (if (activityWindows s.activity).1 < now - s.lastHeartbeat then [text "heartbeat_missed"] else []) ++
    (if (activityWindows s.activity).2 < now - s.lastProgress then [text "no_useful_progress"] else []) ++
    (if gone then [text "executor_gone"] else [])

/-- What is made of the signals. -/
def verdictOf (signals : List Str) : Verdict :=
  if signals = [] then .ok
  else if signals.length = 1 ∧ signals ≠ [text "executor_gone"] ∧ signals ≠ [text "lease_expired"] then
    .investigate
  else .recover

def health (slot : Str) : KirbyM (Verdict × List Str) := do
  let s ← sessionAt slot
  if s.state ≠ .working then
    return (.ok, [])
  let now ← ask Surroundings.clock
  let gone ← executorGone s
  let signals := s.signals now gone
  return (verdictOf signals, signals)

def criticalSnapshot : KirbyM Unit := do
  let now ← ask Surroundings.clock
  modifyState fun st => { st with lastSnapshot := now }
  save

/-! ### Rotation and recovery -/

inductive Kind where
  | rotate
  | recover
  deriving DecidableEq

/-- A replacement is counted. -/
def Kind.count (kind : Kind) (c : Counters) : Counters :=
  match kind with
  | .rotate => { c with rotations := c.rotations + 1 }
  | .recover => { c with recoveries := c.recoveries + 1 }

/-- What is recorded of a replacement. -/
structure Receipt where
  slot : Str
  kind : Kind
  generation : Int
  reason : Str
  oldSession : Str
  newSession : Str
  workkey : Str
  quarantinedWorkkey : Str
  checkpoint : Str
  cleanup : Str
  «at» : ℚ
  deriving DecidableEq

inductive Replacement where
  | alreadyReplaced (successor : Str)
  | replaced (receipt : Receipt)
  deriving DecidableEq

/-- The process of a session is terminated, if it is the recorded one. -/
def cleanUp (old : Session) : KirbyM Str := do
  if ← isRunning old then
    ask fun n => Surroundings.terminate n old
  else
    return text "NOT_OWNED_OR_GONE"

/-- The workkey of a lost session is blocked, since it is not known what the session did. -/
def Workkey.quarantined (w : Workkey) (reason : Str) (token : Int) : Workkey :=
  { w with
    state := .blocked
    owner := []
    token := token
    blockedReason := text "unknown external effect (" ++ reason ++ text ")" }

def quarantine (slot : Str) (new : Session) (w : Workkey) (reason : Str) : KirbyM Unit :=
  modifyState fun st =>
    let token := st.tokenSeq + 1
    { (st.setSession slot new).setWorkkey w.key (w.quarantined reason token) with tokenSeq := token }

def State.noteCheckpoint (st : State) (key : Str) (checkpoint : Option Str) : State :=
  match st.workkeys.get? key, checkpoint with
  | some w, some checkpoint => st.setWorkkey key { w with checkpoint := checkpoint }
  | _, _ => st

def handOver (slot : Str) (kind : Kind) (reason : Str) (old new : Session) : KirbyM Str := do
  match ((← get).state.workkeys.get? old.workkey).filter fun w =>
    decide (w.owner = old.sessionId) with
  | none =>
      modifyState fun st => st.setSession slot new
      return []
  | some w =>
      if kind = .recover ∧ w.effectClass = text "non_idempotent" then
        quarantine slot new w reason
        let _ ← wake slot false
        return w.key
      else
        takeSlot slot { new with state := .wakePending } w
        return []

def replace (slot : Str) (kind : Kind) (reason : Str) (checkpoint : Option Str) :
    KirbyM Replacement := do
  let old ← sessionAt slot
  if old.state = .retired ∨ old.successor ≠ [] then
    return .alreadyReplaced old.successor
  modifyState fun st => st.noteCheckpoint old.workkey checkpoint
  let cleanup ← cleanUp { old with accepting := false }
  let new ← newSession slot old.provider old.activity (old.generation + 1)
  let quarantinedWorkkey ← handOver slot kind reason old new
  modifyState fun st => st.count kind.count
  save
  let st := (← get).state
  return .replaced {
    slot := slot
    kind := kind
    generation := new.generation
    reason := reason
    oldSession := old.sessionId
    newSession := new.sessionId
    workkey := ((st.sessions.get? slot).map Session.workkey).getD []
    quarantinedWorkkey := quarantinedWorkkey
    checkpoint := ((st.workkeys.get? old.workkey).map Workkey.checkpoint).getD []
    cleanup := cleanup
    «at» := new.lastHeartbeat }

def rotate (slot reason : Str) (checkpoint : Option Str) : KirbyM Replacement :=
  replace slot .rotate reason checkpoint

def recover (slot reason : Str) : KirbyM Replacement :=
  replace slot .recover reason none

def saturationSignals : List Str :=
  [text "hard_threshold_failed", text "compaction cannot replace external history",
    text "turn-submit backlog full", text "context window exceeded", text "context_length_exceeded"]

def saturationSignal (providerText : Str) (contextUsedPct : Option ℚ) : Option Str :=
  match contextUsedPct.filter fun pct => decide (90 ≤ pct) with
  | some pct => some (text "context pressure " ++ Surroundings.printPercent pct ++ text "%")
  | none => saturationSignals.find? fun s => Text.occurs s (Text.lower providerText)

def onProviderOutput (slot providerText : Str) (contextUsedPct : Option ℚ) (checkpoint : Option Str) :
    KirbyM (Option Replacement) := do
  match saturationSignal providerText contextUsedPct with
  | some signal => some <$> rotate slot signal checkpoint
  | none => return none

def State.retire (st : State) (slot : Str) : State :=
  match st.sessions.get? slot with
  | some s => st.setSession slot { s with state := .retired }
  | none => st

/-- The session of a slot is live, but its process is not the recorded one. -/
def isLost (existing : Option Session) : KirbyM Bool := do
  match existing.filter fun s => decide s.Live with
  | some s => return !(← askIdentity s)
  | none => return false

def retireLost (slot : Str) (lost : Bool) : KirbyM Unit := do
  if lost then
    modifyState fun st => st.retire slot
    save

def wakeForWork (slot : Str) (s : Session) : KirbyM Unit := do
  if (← get).state.HasReadyWork then
    discard (wake slot false)
  else if ← ownsWorkkey s then
    discard (wake slot false)

def reconnectSlot (slot : Str) (provider activity : Option Str) : KirbyM Session := do
  let existing := (← get).state.sessions.get? slot
  let provider := (provider.filter fun p => decide (p ≠ [])).getD
    ((existing.map Session.provider).getD (text "antigravity"))
  let activity := (activity.filter fun a => decide (a ≠ [])).getD
    ((existing.map Session.activity).getD (text "interactive"))
  let lost ← isLost existing
  if lost ∧ existing.any fun s => s.workkey ≠ [] then
    let _ ← recover slot (text "worker reconnected after disconnect")
    sessionAt slot
  else
    retireLost slot lost
    let s ← openSlot slot provider activity
    wakeForWork slot s
    sessionAt slot

/-- What is done for one slot after the other, with the answers. -/
def forSlots {α : Type} (f : Str → KirbyM (Option α)) : List Str → KirbyM (List (Str × α))
  | [] => return []
  | slot :: slots => do
      let answer ← f slot
      let answers ← forSlots f slots
      return (answer.map fun a => (slot, a)).toList ++ answers

inductive Action where
  | replacement (answer : Replacement)
  | investigate (signals : List Str)
  deriving DecidableEq

/-- The watchdog looks at a slot. -/
def tickSlot (slot : Str) : KirbyM (Option Action) := do
  let (verdict, signals) ← health slot
  match verdict with
  | .ok => return none
  | .investigate => return some (.investigate signals)
  | .recover =>
      let answer ← recover slot (text "stall: " ++ (text ",").intercalate signals)
      return some (.replacement answer)

/-- A snapshot is taken if the last one is old. -/
def snapshotIfDue : KirbyM Unit := do
  let now ← ask Surroundings.clock
  if 15 * 60 ≤ now - (← get).state.lastSnapshot then
    criticalSnapshot

def tick : KirbyM (List (Str × Action)) := do
  let actions ← forSlots tickSlot (← get).state.sessions.keys
  snapshotIfDue
  return actions

inductive Reconciled where
  | resumed
  | recovered
  | archivedStale
  deriving DecidableEq

/-- A slot is reconciled after a restart. -/
def reconcileSlot (slot : Str) : KirbyM (Option Reconciled) := do
  match (← get).state.sessions.get? slot |>.filter fun s => decide s.Live with
  | none => return none
  | some s =>
      if ← executorGone s then
        if s.workkey ≠ [] then
          let _ ← recover slot (text "executor lost across restart")
          return some .recovered
        else
          modifyState fun st => st.retire slot
          return some .archivedStale
      else
        return some .resumed

def reconcileAfterRestart : KirbyM (List (Str × Reconciled)) := do
  let result ← forSlots reconcileSlot (← get).state.sessions.keys
  save
  return result

/-- The supervisor is started anew, from its file. -/
def reload : KirbyM Unit :=
  modify fun w => { w with state := State.load w.file }

/-! ### Runs -/

/-- A call of the supervisor, or its restart. -/
inductive Call where
  | addWorkkeys (keys : List KeySpec) (priority : Int) (dependsOn : List Str) (effectClass : Str)
  | openSlot (slot provider activity : Str)
  | reconnectSlot (slot : Str) (provider activity : Option Str)
  | wake (slot : Str) (manual : Bool)
  | deliver (slot : Str)
  | onTurnEnd (slot : Str) (outcome : Outcome) (token : Int) (checkpoint reason : Str)
      (workkey : Option Str) (resultId : Str)
  | heartbeat (slot : Str) (progress : Bool) (checkpoint : Option Str)
  | tick
  | criticalSnapshot
  | rotate (slot reason : Str) (checkpoint : Option Str)
  | recover (slot reason : Str)
  | onProviderOutput (slot providerText : Str) (contextUsedPct : Option ℚ) (checkpoint : Option Str)
  | reconcileAfterRestart
  | reload

/-- The supervisor does what is called for, without the answer. -/
def perform : Call → KirbyM Unit
  | .addWorkkeys keys priority dependsOn effectClass =>
      addWorkkeys keys priority dependsOn effectClass
  | .openSlot slot provider activity => discard (openSlot slot provider activity)
  | .reconnectSlot slot provider activity => discard (reconnectSlot slot provider activity)
  | .wake slot manual => discard (wake slot manual)
  | .deliver slot => discard (deliver slot)
  | .onTurnEnd slot outcome token checkpoint reason workkey resultId =>
      discard (onTurnEnd slot outcome token checkpoint reason workkey resultId)
  | .heartbeat slot progress checkpoint => heartbeat slot progress checkpoint
  | .tick => discard tick
  | .criticalSnapshot => criticalSnapshot
  | .rotate slot reason checkpoint => discard (rotate slot reason checkpoint)
  | .recover slot reason => discard (recover slot reason)
  | .onProviderOutput slot providerText contextUsedPct checkpoint =>
      discard (onProviderOutput slot providerText contextUsedPct checkpoint)
  | .reconcileAfterRestart => discard reconcileAfterRestart
  | .reload => reload

/-- The world after a call, whether it returned or raised. -/
def World.after (w : World) (call : Call) : World :=
  match perform call w with
  | .ok _ w' => w'
  | .error _ w' => w'

def World.run (calls : List Call) : World :=
  calls.foldl World.after .start

end Slots

end Courier.Kirby
