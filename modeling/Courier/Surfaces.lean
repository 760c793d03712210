import Courier.Library.Program
import Courier.Library.Reload
import Courier.Library.Run
import Mathlib.Algebra.Order.Ring.Rat

/-!
# Surface budget

The supervisor decides whether a request of work joins work that is under way, is given to an idle or a new surface,
or waits in a queue, from which a finished surface takes the next work.  It keeps a table of the intents behind the
requests, and writes its state to a file after every change.
-/

namespace Courier.Surfaces

open Program

/-! ### The state -/

inductive SurfaceState where
  | starting
  | working
  | idleReady
  | waitingForUser
  | waitingForOs
  | terminalHostFailed
  | surfaceCorrupted
  | completed
  | parked
  deriving DecidableEq

def SurfaceState.Busy (state : SurfaceState) : Prop :=
  state ∈ [.starting, .working, .waitingForUser, .waitingForOs]

def SurfaceState.Reusable (state : SurfaceState) : Prop :=
  state ∈ [.idleReady, .parked]

def SurfaceState.Dead (state : SurfaceState) : Prop :=
  state ∈ [.terminalHostFailed, .surfaceCorrupted, .completed]

instance (state : SurfaceState) : Decidable state.Busy :=
  inferInstanceAs (Decidable (_ ∈ _))

instance (state : SurfaceState) : Decidable state.Reusable :=
  inferInstanceAs (Decidable (_ ∈ _))

instance (state : SurfaceState) : Decidable state.Dead :=
  inferInstanceAs (Decidable (_ ∈ _))

structure Surface where
  surfaceId : Str
  provider : Str
  host : Str
  os : Str
  owner : Str
  workkey : Str
  visible : Bool
  state : SurfaceState
  pid : Int
  createTime : ℚ
  parentPid : Int
  windowId : Str
  createdAt : ℚ
  lastActivity : ℚ
  checkpoint : Str
  «unsaved» : Bool
  deriving DecidableEq

/-- What is known of an intent: the surface that works on it, or that it is queued, and how often it was
requested. -/
inductive Intent where
  | on (surfaceId : Str) (count : Nat)
  | queued (count : Nat)
  deriving DecidableEq

/-- An intent that waits for a surface. -/
structure Queued where
  intent : Str
  provider : Str
  workkey : Str
  visible : Bool
  deriving DecidableEq

/-- What the supervisor has in memory, and writes to its file. -/
structure State where
  surfaces : Dict Str Surface
  intents : Dict Str Intent
  queue : List Queued
  coalescedTotal : Nat
  seq : Nat

/-- The state without a file. -/
def State.empty : State where
  surfaces := ∅
  intents := ∅
  queue := []
  coalescedTotal := 0
  seq := 0

/-- How often the intent was requested. -/
def Intent.count : Intent → Nat
  | .on _ count => count
  | .queued count => count

/-- The surface that works on the intent, or the empty text. -/
def Intent.surfaceId : Intent → Str
  | .on surfaceId _ => surfaceId
  | .queued _ => []

def Intent.IsOn : Intent → Str → Prop
  | .on surfaceId _, s => surfaceId = s
  | .queued _, _ => False

instance (known : Intent) (surfaceId : Str) : Decidable (known.IsOn surfaceId) :=
  match known with
  | .on s _ => inferInstanceAs (Decidable (s = surfaceId))
  | .queued _ => isFalse id

/-- The intent was requested once more. -/
def Intent.again : Intent → Intent
  | .on surfaceId count => .on surfaceId (count + 1)
  | .queued count => .queued (count + 1)

def Surface.readBack (s : Surface) : Surface :=
  { s with
    surfaceId := Json.fuse s.surfaceId
    provider := Json.fuse s.provider
    host := Json.fuse s.host
    os := Json.fuse s.os
    owner := Json.fuse s.owner
    workkey := Json.fuse s.workkey
    windowId := Json.fuse s.windowId
    checkpoint := Json.fuse s.checkpoint }

def Intent.readBack : Intent → Intent
  | .on surfaceId count => .on (Json.fuse surfaceId) count
  | .queued count => .queued count

def Queued.readBack (q : Queued) : Queued where
  intent := Json.fuse q.intent
  provider := Json.fuse q.provider
  workkey := Json.fuse q.workkey
  visible := q.visible

def State.load (file : Option State) : State :=
  match file with
  | none => .empty
  | some st =>
      { surfaces := st.surfaces.readBack Surface.readBack
        intents := st.intents.readBack Intent.readBack
        queue := st.queue.map Queued.readBack
        coalescedTotal := st.coalescedTotal
        seq := st.seq }

def Surface.VisibleLive (s : Surface) : Prop :=
  s.visible ∧ ¬ s.state.Dead

instance (s : Surface) : Decidable s.VisibleLive :=
  inferInstanceAs (Decidable (_ ∧ _))

/-- `_visible_live`, counted. -/
def State.visibleLive (st : State) : Nat :=
  st.surfaces.values.countP fun s => s.VisibleLive

def State.Alive (st : State) (surfaceId : Str) : Prop :=
  (st.surfaces.get? surfaceId).any fun s => ¬ s.state.Dead

instance (st : State) (surfaceId : Str) : Decidable (st.Alive surfaceId) :=
  inferInstanceAs (Decidable (_ = true))

def State.Pending (st : State) : Intent → Prop
  | .on surfaceId _ => st.Alive surfaceId
  | .queued _ => True

instance (st : State) (known : Intent) : Decidable (st.Pending known) :=
  match known with
  | .on surfaceId _ => inferInstanceAs (Decidable (st.Alive surfaceId))
  | .queued _ => isTrue trivial

/-! ### The surroundings -/

structure Budget where
  soft : Nat
  hard : Nat
  ramConservePct : ℚ
  ramStopPct : ℚ

/-- What the supervisor is given, and what it asks of its surroundings.  Every answer may depend on how
often the question was asked before. -/
class Surroundings where
  host : Str
  os : Str
  owner : Str
  budget : Budget
  /-- The process of the surface still runs. -/
  identity : Nat → Surface → Bool
  clock : Nat → ℚ
  /-- What the closing of a surface came to. -/
  closer : Nat → Surface → Str
  /-- The first twenty hexadecimal digits of the digest of a text. -/
  digest : Str → Str
  /-- `str.lower`. -/
  lower : Str → Str

/-- What is asked for. -/
structure Request where
  provider : Str
  workkey : Str
  prompt : Str
  kind : Str
  deriving DecidableEq

/-- The state in memory and in the file, how often the surroundings were asked, and the requests that were
made so far. -/
structure World where
  state : State
  file : Option State
  identityAsked : Nat
  asked : Nat
  requests : List Request

/-- A supervisor that starts without a file. -/
def World.start : World where
  state := .empty
  file := none
  identityAsked := 0
  asked := 0
  requests := []

inductive SurfacesError where
  | keyError (key : Str)
  | unicodeEncodeError
  deriving DecidableEq

abbrev SurfacesM := EStateM SurfacesError World

def save : SurfacesM Unit :=
  modify fun w => { w with file := some w.state }

/-- Change the state in memory. -/
def modifyState (f : State → State) : SurfacesM Unit :=
  modify fun w => { w with state := f w.state }

/-- `self.surfaces[surface_id]`. -/
def surfaceAt (surfaceId : Str) : SurfacesM Surface := do
  match (← get).state.surfaces.get? surfaceId with
  | some s => return s
  | none => throw (.keyError surfaceId)

/-- A surface is changed. -/
def State.setSurface (st : State) (surfaceId : Str) (s : Surface) : State :=
  { st with surfaces := st.surfaces.set surfaceId s }

/-- An intent is queued. -/
def State.enqueue (st : State) (q : Queued) : State :=
  { st with queue := st.queue ++ [q] }

/-- An intent leaves the queue. -/
def State.dequeue (st : State) (q : Queued) : State :=
  { st with queue := st.queue.erase q }

def State.setIntent (st : State) (key : Str) (known : Intent) : State :=
  { st with intents := st.intents.set key known }

/-- An answer of the surroundings. -/
def ask {α : Type} (answer : Nat → α) : SurfacesM α := do
  let w ← get
  set { w with asked := w.asked + 1 }
  return answer w.asked

/-! ### Admission -/

/-- White space is made single spaces; `after` says that there was some just before. -/
def collapseSpaces (after : Bool) : Str → Str
  | [] => []
  | c :: rest =>
      if Text.isSpace c then
        if after then collapseSpaces true rest else 32 :: collapseSpaces true rest
      else c :: collapseSpaces false rest

inductive Level where
  | normal
  | conserveSurfaces
  | noNewVisibleSurfaces
  deriving DecidableEq

inductive Action where
  | reuse
  | coalesced
  | headless
  | queued
  | «open»
  deriving DecidableEq

structure Decision where
  action : Action
  surfaceId : Str
  reason : Str
  intent : Str
  coalesced : Nat
  deriving DecidableEq

section Requests

variable [Surroundings]

/-- `self.identity(surface)`. -/
def askIdentity (s : Surface) : SurfacesM Bool := do
  let w ← get
  set { w with identityAsked := w.identityAsked + 1 }
  return Surroundings.identity w.identityAsked s

/-- The prompt, up to white space and case. -/
def Request.norm (r : Request) : Str :=
  Surroundings.lower (Text.strip (collapseSpaces false r.prompt))

/-- The text whose digest is the key of the intent. -/
def Request.line (r : Request) : Str :=
  r.kind ++ text "|" ++ r.provider ++ text "|" ++ r.workkey ++ text "|" ++ r.norm

def Request.intentKey (r : Request) : Str :=
  Surroundings.digest r.line

def Request.queued (r : Request) : Queued where
  intent := r.intentKey
  provider := r.provider
  workkey := r.workkey
  visible := true

def pressureLevel (visibleCount : Nat) (ramUsedPct : Option ℚ) : Level :=
  if Surroundings.budget.hard ≤ visibleCount ∨
      ramUsedPct.any fun pct => Surroundings.budget.ramStopPct ≤ pct then .noNewVisibleSurfaces
  else if Surroundings.budget.soft ≤ visibleCount ∨
      ramUsedPct.any fun pct => Surroundings.budget.ramConservePct ≤ pct then .conserveSurfaces
  else .normal

/-- The level as it is written. -/
def Level.name : Level → Str
  | .normal => text "NORMAL"
  | .conserveSurfaces => text "CONSERVE_SURFACES"
  | .noNewVisibleSurfaces => text "NO_NEW_VISIBLE_SURFACES"

def Surface.RunsOn (s : Surface) (workkey : Str) : Prop :=
  s.workkey = workkey ∧ s.state.Busy

instance (s : Surface) (workkey : Str) : Decidable (s.RunsOn workkey) :=
  inferInstanceAs (Decidable (_ ∧ _))

/-- An idle surface of the provider whose process still runs. -/
def findIdle (provider : Str) (needsVisible : Bool) : List Surface → SurfacesM (Option Surface)
  | [] => return none
  | s :: rest => do
      if s.provider = provider ∧ s.owner = Surroundings.owner ∧ s.state.Reusable ∧
          s.visible = needsVisible then
        if ← askIdentity s then return some s
        else findIdle provider needsVisible rest
      else findIdle provider needsVisible rest

/-- The id of a surface. -/
def surfaceName (seq : Nat) : Str :=
  Surroundings.host ++ text "-s" ++ Text.natDecimal seq

def newSurface (provider workkey : Str) (visible : Bool) (seq : Nat) (now : ℚ) : Surface where
  surfaceId := surfaceName seq
  provider := provider
  host := Surroundings.host
  os := Surroundings.os
  owner := Surroundings.owner
  workkey := workkey
  visible := visible
  state := .starting
  pid := 0
  createTime := 0
  parentPid := 0
  windowId := []
  createdAt := now
  lastActivity := now
  checkpoint := []
  «unsaved» := false

def register (provider workkey : Str) (visible : Bool) : SurfacesM Str := do
  let seq := (← get).state.seq + 1
  let now ← ask Surroundings.clock
  modifyState fun st =>
    { st.setSurface (surfaceName seq) (newSurface provider workkey visible seq now) with seq := seq }
  return surfaceName seq

def place (r : Request) (visible : Bool) : SurfacesM Str := do
  let surfaceId ← register r.provider r.workkey visible
  modifyState fun st => st.setIntent r.intentKey (.on surfaceId 1)
  save
  return surfaceId

/-- `admit`, for work that joins no other work. -/
def admitNew (r : Request) (needsVisible allowHeadless : Bool) (ramUsedPct : Option ℚ) :
    SurfacesM Decision := do
  match ← findIdle r.provider needsVisible (← get).state.surfaces.values with
  | some idle =>
      let now ← ask Surroundings.clock
      modifyState fun st =>
        (st.setSurface idle.surfaceId { idle with
          state := .working
          workkey := r.workkey
          lastActivity := now }).setIntent r.intentKey (.on idle.surfaceId 1)
      save
      return ⟨.reuse, idle.surfaceId, text "healthy owned idle surface", r.intentKey, 0⟩
  | none =>
      let level := pressureLevel (← get).state.visibleLive ramUsedPct
      if ¬ needsVisible ∨ level ≠ .normal ∧ allowHeadless then
        let surfaceId ← place r false
        let reason := if needsVisible then level.name else text "no window needed"
        return ⟨.headless, surfaceId, reason, r.intentKey, 0⟩
      else if level = .noNewVisibleSurfaces then
        modifyState fun st => (st.enqueue r.queued).setIntent r.intentKey (.queued 1)
        save
        return ⟨.queued, [], text "SURFACE_BUDGET_EXHAUSTED", r.intentKey, 0⟩
      else
        let surfaceId ← place r true
        let reason := if level = .normal then text "below budget"
          else text "window required; below hard limit"
        return ⟨.«open», surfaceId, reason, r.intentKey, 0⟩

/-- One more request was joined with work that is under way. -/
def State.coalesce (st : State) (key : Str) (known : Intent) : State :=
  { st.setIntent key known with coalescedTotal := st.coalescedTotal + 1 }

/-- `admit`. -/
def admitRequest (r : Request) (needsVisible allowHeadless : Bool) (ramUsedPct : Option ℚ) :
    SurfacesM Decision := do
  if Text.Encodable r.line then
    let st := (← get).state
    match (st.intents.get? r.intentKey).filter fun known => decide (st.Pending known) with
    | some known =>
        modifyState fun st => st.coalesce r.intentKey known.again
        save
        return ⟨.coalesced, known.surfaceId, text "same intent already running or queued",
          r.intentKey, known.count⟩
    | none =>
        match st.surfaces.values.find? fun s => s.RunsOn r.workkey with
        | some running =>
            modifyState fun st => st.coalesce r.intentKey (.on running.surfaceId 1)
            save
            return ⟨.coalesced, running.surfaceId, text "workkey already running", r.intentKey, 0⟩
        | none => admitNew r needsVisible allowHeadless ramUsedPct
  else
    throw .unicodeEncodeError

/-! ### Lifecycle -/

def attach (surfaceId : Str) (pid : Int) (createTime : ℚ) (parentPid : Int) (windowId : Str) :
    SurfacesM Unit := do
  let s ← surfaceAt surfaceId
  modifyState fun st => st.setSurface surfaceId { s with
    pid := pid
    createTime := createTime
    parentPid := parentPid
    windowId := windowId
    state := .working }
  save

def setState (surfaceId : Str) (state : SurfaceState) (checkpoint : Option Str)
    («unsaved» : Option Bool) : SurfacesM Unit := do
  let s ← surfaceAt surfaceId
  let now ← ask Surroundings.clock
  modifyState fun st => st.setSurface surfaceId { s with
    state := state
    lastActivity := now
    checkpoint := checkpoint.getD s.checkpoint
    «unsaved» := «unsaved».getD s.«unsaved» }
  save

/-- The intents that the surface works on are forgotten. -/
def State.dropIntents (st : State) (surfaceId : Str) : State :=
  { st with intents := st.intents.filter fun _ known => decide (¬ known.IsOn surfaceId) }

def Surface.finished (s : Surface) (checkpoint : Str) (now : ℚ) : Surface :=
  { s with state := .idleReady, checkpoint := checkpoint, «unsaved» := false, lastActivity := now }

/-- The next intent in the queue that the surface can work on. -/
def State.nextQueued (st : State) (s : Surface) : Option Queued :=
  st.queue.find? fun q => q.provider = s.provider ∧ q.visible = s.visible

def finish (surfaceId checkpoint : Str) : SurfacesM (Option Decision) := do
  let s ← surfaceAt surfaceId
  let now ← ask Surroundings.clock
  match (← get).state.nextQueued s with
  | some next =>
      modifyState fun st =>
        (((st.dropIntents surfaceId).setSurface surfaceId { s.finished checkpoint now with
          state := .working
          workkey := next.workkey }).dequeue next).setIntent next.intent (.on surfaceId 1)
      save
      return some ⟨.reuse, surfaceId, text "queued work moved into the freed surface", next.intent, 0⟩
  | none =>
      modifyState fun st =>
        (st.dropIntents surfaceId).setSurface surfaceId (s.finished checkpoint now)
      save
      return none

/-! ### Closing -/

/-- The state as it is written. -/
def SurfaceState.name : SurfaceState → Str
  | .starting => text "STARTING"
  | .working => text "WORKING"
  | .idleReady => text "IDLE_READY"
  | .waitingForUser => text "WAITING_FOR_USER"
  | .waitingForOs => text "WAITING_FOR_OS"
  | .terminalHostFailed => text "TERMINAL_HOST_FAILED"
  | .surfaceCorrupted => text "SURFACE_CORRUPTED"
  | .completed => text "COMPLETED"
  | .parked => text "PARKED"

/-- Why a surface may not be closed, given whether its process still runs. -/
def Surface.reasons (s : Surface) (runs : Bool) : List Str :=
  (if s.owner ≠ Surroundings.owner then [text "not owned by Courier"] else []) ++
    (if runs then [] else [text "pid/start-time identity does not match"]) ++
    (if s.state.Busy then [text "active work (" ++ s.state.name ++ text ")"] else []) ++
    (if s.checkpoint = [] then [text "no durable checkpoint"] else []) ++
    (if s.«unsaved» then [text "unsaved work"] else [])

def whyNotClosable (surfaceId : Str) : SurfacesM (List Str) := do
  let s ← surfaceAt surfaceId
  return s.reasons (← askIdentity s)

inductive Reclaimed where
  | refused (surfaceId : Str) (reasons : List Str)
  | closed (surfaceId closer : Str)
  deriving DecidableEq

def reclaim (surfaceId : Str) : SurfacesM Reclaimed := do
  let reasons ← whyNotClosable surfaceId
  if reasons ≠ [] then
    return .refused surfaceId reasons
  else
    let s ← surfaceAt surfaceId
    let result ← ask fun n => Surroundings.closer n s
    modifyState fun st => st.setSurface surfaceId { s with state := .completed }
    save
    return .closed surfaceId result

/-- What is done for one surface after the other, with the answers. -/
def forSurfaces {α : Type} (f : Str → SurfacesM (Option α)) : List Str → SurfacesM (List (Str × α))
  | [] => return []
  | surfaceId :: rest => do
      let answer ← f surfaceId
      let answers ← forSurfaces f rest
      return (answer.map fun a => (surfaceId, a)).toList ++ answers

def reclaimIfIdle (surfaceId : Str) : SurfacesM (Option Reclaimed) := do
  match ((← get).state.surfaces.get? surfaceId).filter fun s =>
    decide (s.state.Reusable ∧ s.visible) with
  | some _ => some <$> reclaim surfaceId
  | none => return none

def reclaimIdle : SurfacesM (List (Str × Reclaimed)) := do
  forSurfaces reclaimIfIdle (← get).state.surfaces.keys

/-! ### Restart -/

inductive Reconciled where
  | completed
  | orphaned
  | stale
  | reusable
  | stillAlive
  deriving DecidableEq

def reconcileSurface (surfaceId : Str) : SurfacesM (Option Reconciled) := do
  match (← get).state.surfaces.get? surfaceId with
  | none => return none
  | some s =>
      if s.state.Dead then
        return some .completed
      else if s.owner ≠ Surroundings.owner then
        return some .orphaned
      else
        if ← askIdentity s then
          return some (if s.state.Reusable then .reusable else .stillAlive)
        else
          modifyState fun st => st.setSurface surfaceId { s with state := .terminalHostFailed }
          return some .stale

def State.dropGone (st : State) : State :=
  { st with intents := st.intents.filter fun _ known =>
      decide (st.Pending known ∨ known.surfaceId = []) }

def reconcile : SurfacesM (List (Str × Reconciled)) := do
  let result ← forSurfaces reconcileSurface (← get).state.surfaces.keys
  modifyState State.dropGone
  save
  return result

/-- The supervisor is started anew, from its file. -/
def reload : SurfacesM Unit :=
  modify fun w => { w with state := State.load w.file }

/-! ### Runs -/

/-- A call of the supervisor, or its restart. -/
inductive Call where
  | admitRequest (r : Request) (needsVisible allowHeadless : Bool) (ramUsedPct : Option ℚ)
  | attach (surfaceId : Str) (pid : Int) (createTime : ℚ) (parentPid : Int) (windowId : Str)
  | setState (surfaceId : Str) (state : SurfaceState) (checkpoint : Option Str)
      («unsaved» : Option Bool)
  | finish (surfaceId checkpoint : Str)
  | reclaim (surfaceId : Str)
  | reclaimIdle
  | reconcile
  | reload

/-- The supervisor does what is called for, without the answer. -/
def perform : Call → SurfacesM Unit
  | .admitRequest r needsVisible allowHeadless ramUsedPct =>
      discard (admitRequest r needsVisible allowHeadless ramUsedPct)
  | .attach surfaceId pid createTime parentPid windowId =>
      attach surfaceId pid createTime parentPid windowId
  | .setState surfaceId state checkpoint «unsaved» => setState surfaceId state checkpoint «unsaved»
  | .finish surfaceId checkpoint => discard (finish surfaceId checkpoint)
  | .reclaim surfaceId => discard (reclaim surfaceId)
  | .reclaimIdle => discard reclaimIdle
  | .reconcile => discard reconcile
  | .reload => reload

def Call.requests : Call → List Request
  | .admitRequest r _ _ _ => [r]
  | _ => []

/-- The world after a call, whether it returned or raised. -/
def World.after (w : World) (call : Call) : World :=
  match perform call { w with requests := w.requests ++ call.requests } with
  | .ok _ w' => w'
  | .error _ w' => w'

def World.run (calls : List Call) : World :=
  calls.foldl World.after .start

end Requests

end Courier.Surfaces
