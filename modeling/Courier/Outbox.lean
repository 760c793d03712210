import Courier.Library.Dict
import Courier.Library.Escaped
import Courier.Library.Run
import Courier.Worker

/-!
# The outbox

The worker leaves a result in its outbox before it delivers it (`outboxWrite`).  A restart runs the entries that were
not run before (`resumeOutbox`) and removes the ones that were (`cleanupConfirmed`); what was run is in a journal of
lines (`recordConfirmation`), the last of which may be torn.  A file and a line are their JSON values, if they have
one.
-/

namespace Courier.Outbox

open Text

/-! ### The directory -/

/-- The files of a directory by their names.  A file that is not JSON has no value. -/
abbrev Files := Dict Str (Option Json)

/-- `outbox.glob("*.json")`. -/
def glob (outbox : Files) : List (Str × Option Json) :=
  outbox.entries.filter fun file => endsWith file.1 (text ".json")

/-- `sorted(outbox.glob("*.json"))`. -/
def sortedGlob (outbox : Files) : List (Str × Option Json) :=
  (glob outbox).insertionSort fun a b => a.1 ≤ b.1

/-- `p.stem` of a file `*.json`. -/
def stem (name : Str) : Str :=
  if name = text ".json" then name else name.take (name.length - 5)

/-! ### Delivery -/

/-- Why a result was not written. -/
inductive WriteError where
  | spec (message : Str)
  | full (message : Str)
  deriving DecidableEq

def outboxCap : Nat := 32

def maxResultPayloadBytes : Nat := 1024 * 1024

/-- `[A-Za-z0-9_.-]`. -/
def safePoint (c : Nat) : Bool :=
  (65 ≤ c && c ≤ 90) || (97 ≤ c && c ≤ 122) || isDigit c || c = 95 || c = 46 || c = 45

/-- `SAFE_DISPATCH_ID_RE.match`: the end of the pattern also matches before a last newline. -/
def matchesSafe (s : Str) : Bool :=
  let body := if s.getLast? = some 10 then s.dropLast else s
  body ≠ [] && body.all safePoint

/-- A dispatch id that names a file of the outbox. -/
def SafeDispatchId (s : Str) : Prop :=
  s ≠ [] ∧ matchesSafe s = true ∧ occurs (text "..") s = false ∧ occurs (text "/") s = false ∧
    occurs (text "\\") s = false

instance (s : Str) : Decidable (SafeDispatchId s) :=
  inferInstanceAs (Decidable (_ ∧ _))

/-- The dispatch id of a payload, if it names a file of the outbox. -/
def safeDispatchId (payload : Members) : Except WriteError Str :=
  match Json.get payload (text "dispatch_id") with
  | .str s =>
      if SafeDispatchId s then .ok s
      else .error (.spec (text
        "dispatch_id in result payload is missing, malformed or attempts path traversal"))
  | _ => .error (.spec (text
      "dispatch_id in result payload is missing, malformed or attempts path traversal"))

def fileName (dispatchId : Str) : Str :=
  dispatchId ++ text ".json"

def outboxWrite (outbox : Files) (payload : Members) : Except WriteError Files := do
  let dispatchId ← safeDispatchId payload
  let serialized := (Json.obj payload).dumpsSpaced.flatMap Json.asciiPoint
  Except.check (serialized.length ≤ maxResultPayloadBytes)
    (.spec (text "result payload exceeds size limit of " ++ natDecimal maxResultPayloadBytes ++ text " bytes"))
  let existing := glob outbox
  Except.check (existing.length < outboxCap ∨ existing.any (fun p => p.1 = fileName dispatchId))
    (.full (text "outbox holds " ++ natDecimal existing.length ++
      text " results; controller must drain it"))
  return outbox.set (fileName dispatchId) (some (.obj payload))

inductive Delivered [Platform] : Files → Prop
  | empty : Delivered ∅
  | result {outbox outbox' : Files} (result : Worker.ExecutionResult) (report : Option Members)
      (home : Option (List Str)) : Delivered outbox →
      outboxWrite outbox (Worker.buildResultPayload result report home) = .ok outbox' → Delivered outbox'
  | failure {outbox outbox' : Files} (dispatchId resultId reason : Str) : Delivered outbox →
      outboxWrite outbox (Worker.buildSpecFailurePayload dispatchId resultId reason) = .ok outbox' →
      Delivered outbox'
  | remove {outbox : Files} (name : Str) : Delivered outbox → Delivered (outbox.erase name)

/-! ### Errors -/

/-- Why an outbox entry is corrupt. -/
inductive Corrupt where
  | unreadable
  | notDict
  | noEffectKey
  deriving DecidableEq

/-- `OutboxRestartError`. -/
inductive RestartError where
  | entry (corrupt : Corrupt) (name : Str)
  | line
  | lineNotDict
  | effectKey
  | dispatchId
  deriving DecidableEq

def RestartError.message : RestartError → Str
  | .entry .unreadable name => text "corrupt outbox entry: " ++ name
  | .entry .notDict name => text "corrupt outbox entry (not a dict): " ++ name
  | .entry .noEffectKey name => text "corrupt outbox entry (missing or empty effect_key): " ++ name
  | .line => text "corrupt journal line in effect-journal.jsonl"
  | .lineNotDict => text "corrupt journal line in effect-journal.jsonl (not a dict)"
  | .effectKey => text "effect_key must be a non-empty string"
  | .dispatchId => text "dispatch_id must be a non-empty string"

inductive Raised where
  | restart (error : RestartError)
  | typeError
  | callback
  deriving DecidableEq

def Raised.IsCorruptEntry (e : Raised) : Prop :=
  ∃ corrupt name, e = .restart (.entry corrupt name)

/-! ### The journal -/

/-- The journal: its lines, and whether the last of them has its newline. -/
structure Journal where
  lines : List (Option Json) := []
  ended : Bool := true
  deriving DecidableEq

/-- How much of a line is written. -/
inductive Cut where
  | nothing
  | torn
  | unended
  | whole
  deriving DecidableEq

/-- The lines after a text was written behind them.  A text behind a line without a newline continues
that line, which is then no JSON. -/
def Journal.put (j : Journal) (line : Option Json) : List (Option Json) :=
  if j.ended then j.lines ++ [line] else j.lines.dropLast ++ [none]

/-- Append a line, or as much of it as is written. -/
def Journal.append (j : Journal) (line : Json) : Cut → Journal
  | .nothing => j
  | .torn => { lines := j.put none, ended := false }
  | .unended => { lines := j.put (some line), ended := false }
  | .whole => { lines := j.put (some line), ended := true }

/-- A text that is not blank. -/
def nonBlank : Json → Option Str
  | .str s => if blank s then none else some s
  | _ => none

/-- The line of a confirmation. -/
def confirmation (effectKey dispatchId timestamp : Str) : Json :=
  .obj (Json.members [(text "effect_key", .str effectKey), (text "dispatch_id", .str dispatchId),
    (text "timestamp", .float timestamp), (text "status", .str (text "CONFIRMED"))])

def recordConfirmation (j : Journal) (effectKey dispatchId : Json) (timestamp : Str) (cut : Cut) :
    Except Raised Journal :=
  match nonBlank effectKey, nonBlank dispatchId with
  | none, _ => .error (.restart .effectKey)
  | _, none => .error (.restart .dispatchId)
  | some key, some id => .ok (j.append (confirmation key id timestamp) cut)

/-- A value that can be in a set. -/
def hashable : Json → Bool
  | .arr _ => false
  | .obj _ => false
  | _ => true

/-- `if key in data and data[key]: confirmed.add(data[key])`. -/
def addTruthy (confirmed : List Json) (data : Members) (key : Str) : Except Raised (List Json) :=
  let value := Json.get data key
  if value.truthy then
    if hashable value then .ok (value :: confirmed) else .error .typeError
  else .ok confirmed

def addLine (confirmed : List Json) : Option Json → Except Raised (List Json)
  | none => .error (.restart .line)
  | some (.obj data) => do
      let confirmed ← addTruthy confirmed data (text "effect_key")
      addTruthy confirmed data (text "dispatch_id")
  | some _ => .error (.restart .lineNotDict)

def loadConfirmedKeys (j : Journal) : Except Raised (List Json) :=
  j.lines.foldlM addLine []

/-- `value in confirmed`. -/
def isIn (value : Json) (confirmed : List Json) : Except Raised Bool :=
  if hashable value then .ok (decide (value ∈ confirmed)) else .error .typeError

/-! ### Entries -/

/-- An entry of the outbox. -/
structure Entry where
  name : Str
  data : Members
  effectKey : Str
  hasKey : Json.get data (text "effect_key") = .str effectKey
  notBlank : blank effectKey = false
  deriving DecidableEq

/-- `entry.get("dispatch_id") or p.stem`. -/
def Entry.dispatchId (entry : Entry) : Json :=
  let value := Json.get entry.data (text "dispatch_id")
  if value.truthy then value else .str (stem entry.name)

/-- `entry.get("dispatch_id", p.stem)`. -/
def Entry.givenId (entry : Entry) : Json :=
  if Json.hasKey entry.data (text "dispatch_id") then Json.get entry.data (text "dispatch_id")
  else .str (stem entry.name)

/-- Read a file of the outbox. -/
def readEntry : Str × Option Json → Except Raised Entry
  | (name, none) => .error (.restart (.entry .unreadable name))
  | (name, some (.obj data)) =>
      match hkey : Json.get data (text "effect_key") with
      | .str effectKey =>
          if hblank : blank effectKey = false then .ok ⟨name, data, effectKey, hkey, hblank⟩
          else .error (.restart (.entry .noEffectKey name))
      | _ => .error (.restart (.entry .noEffectKey name))
  | (name, some _) => .error (.restart (.entry .notDict name))

def readEntries (outbox : Files) : Except Raised (List Entry) :=
  (sortedGlob outbox).mapM readEntry

/-! ### Resuming -/

/-- How a call ends. -/
inductive Ending (α : Type) where
  | returned (value : α)
  | raised (e : Raised)
  | killed

/-- What is done with an entry, and the journal it is done at. -/
inductive Act where
  | ran (entry : Entry) (journal : Journal)
  | skipped (entry : Entry) (journal : Journal)
  | deleted (entry : Entry) (journal : Journal)
  deriving DecidableEq

/-- The process is killed before the callback returns or in the confirmation, the callback raises, or nothing goes
wrong. -/
inductive Fate where
  | killed
  | raises
  | cut (c : Cut) (timestamp : Str)
  | done (timestamp : Str)
  deriving DecidableEq

/-- What `resume_outbox` reports. -/
structure Report where
  continued : List Json := []
  skipped : List Json := []
  deriving DecidableEq

/-- The variables of `resume_outbox`, and the journal. -/
structure Pass where
  journal : Journal
  confirmed : List Json
  seen : List Str := []
  report : Report := {}

/-- What a call did, the journal it left, and how it ended. -/
structure Resumed where
  acts : List Act := []
  journal : Journal
  ending : Ending Report

def Pass.isDone (pass : Pass) (entry : Entry) : Except Raised Bool := do
  let byKey ← isIn (.str entry.effectKey) pass.confirmed
  let isConfirmed ← if byKey then pure true else isIn entry.dispatchId pass.confirmed
  return isConfirmed || decide (entry.effectKey ∈ pass.seen)

def Pass.skip (pass : Pass) (entry : Entry) : Pass :=
  { pass with report.skipped := pass.report.skipped ++ [entry.dispatchId] }

def Pass.execute (pass : Pass) (entry : Entry) : Fate → Except Resumed Pass
  | .killed => .error { journal := pass.journal, ending := .killed }
  | .raises => .error { journal := pass.journal, ending := .raised .callback }
  | .cut c timestamp =>
      match recordConfirmation pass.journal (.str entry.effectKey) entry.dispatchId timestamp c with
      | .error e => .error { journal := pass.journal, ending := .raised e }
      | .ok j => .error { journal := j, ending := .killed }
  | .done timestamp =>
      match recordConfirmation pass.journal (.str entry.effectKey) entry.dispatchId timestamp .whole with
      | .error e => .error { journal := pass.journal, ending := .raised e }
      | .ok j => .ok
          { journal := j
            confirmed := entry.dispatchId :: .str entry.effectKey :: pass.confirmed
            seen := entry.effectKey :: pass.seen
            report.continued := pass.report.continued ++ [entry.dispatchId]
            report.skipped := pass.report.skipped }

/-- What a call did, with one thing before it. -/
def Resumed.after (resumed : Resumed) (act : Act) : Resumed :=
  { resumed with acts := act :: resumed.acts }

/-- The loop of `resume_outbox`, with a fate for each entry that it comes to.  Where there is none, the
process was killed before. -/
def resumeEntries : List Entry → List Fate → Pass → Resumed
  | [], _, pass => { journal := pass.journal, ending := .returned pass.report }
  | _ :: _, [], pass => { journal := pass.journal, ending := .killed }
  | entry :: entries, fate :: fates, pass =>
      match pass.isDone entry with
      | .error e => { journal := pass.journal, ending := .raised e }
      | .ok true => (resumeEntries entries fates (pass.skip entry)).after (.skipped entry pass.journal)
      | .ok false =>
          match pass.execute entry fate with
          | .error stopped => stopped.after (.ran entry pass.journal)
          | .ok pass' => (resumeEntries entries fates pass').after (.ran entry pass.journal)

def resumeOutbox (outbox : Option Files) (journal : Journal) (fates : List Fate) : Resumed :=
  match outbox with
  | none => { journal, ending := .returned {} }
  | some outbox =>
      match readEntries outbox with
      | .error e => { journal, ending := .raised e }
      | .ok entries =>
          match loadConfirmedKeys journal with
          | .error e => { journal, ending := .raised e }
          | .ok confirmed => resumeEntries entries fates { journal, confirmed }

/-! ### Cleaning up -/

/-- What a call did, the outbox it left, and how it ended. -/
structure Cleaned where
  acts : List Act := []
  outbox : Files
  ending : Ending (List Json)

def isConfirmed (confirmed : List Json) (entry : Entry) : Except Raised Bool := do
  let byKey ← isIn (.str entry.effectKey) confirmed
  if byKey then pure true else isIn entry.givenId confirmed

/-- The loop of `cleanup_confirmed`.  The process is killed when it comes to more entries than it has
time for. -/
def cleanupEntries (journal : Journal) (confirmed : List Json) :
    List Entry → Nat → Files → List Json → Cleaned
  | [], _, outbox, removed => { outbox, ending := .returned removed }
  | _ :: _, 0, outbox, _ => { outbox, ending := .killed }
  | entry :: entries, time + 1, outbox, removed =>
      match isConfirmed confirmed entry with
      | .error e => { outbox, ending := .raised e }
      | .ok false => cleanupEntries journal confirmed entries time outbox removed
      | .ok true =>
          let rest := cleanupEntries journal confirmed entries time (outbox.erase entry.name)
            (removed ++ [entry.givenId])
          { rest with acts := .deleted entry journal :: rest.acts }

def cleanupConfirmed (outbox : Files) (journal : Journal) (time : Nat) : Cleaned :=
  match readEntries outbox with
  | .error e => { outbox, ending := .raised e }
  | .ok entries =>
      match loadConfirmedKeys journal with
      | .error e => { outbox, ending := .raised e }
      | .ok confirmed => cleanupEntries journal confirmed entries time outbox []

/-! ### The restart gate -/

structure World where
  outbox : Option Files := none
  journal : Journal := {}

/-- What happens to them: an entry is left, a confirmation is recorded, or a process resumes or cleans
up. -/
inductive Event where
  | place (name : Str) (content : Json)
  | confirm (effectKey dispatchId : Json) (timestamp : Str) (cut : Cut)
  | resume (fates : List Fate)
  | cleanup (time : Nat)

/-- What an event leads to. -/
def World.step (world : World) : Event → World
  | .place name content =>
      { world with outbox := some ((world.outbox.getD ∅).set name (some content)) }
  | .confirm effectKey dispatchId timestamp cut =>
      match recordConfirmation world.journal effectKey dispatchId timestamp cut with
      | .error _ => world
      | .ok j => { world with journal := j }
  | .resume fates => { world with journal := (resumeOutbox world.outbox world.journal fates).journal }
  | .cleanup time =>
      { world with outbox := world.outbox.map fun outbox => (cleanupConfirmed outbox world.journal time).outbox }

/-- What is done at an event. -/
def World.acts (world : World) : Event → List Act
  | .resume fates => (resumeOutbox world.outbox world.journal fates).acts
  | .cleanup time =>
      match world.outbox with
      | none => []
      | some outbox => (cleanupConfirmed outbox world.journal time).acts
  | _ => []

end Courier.Outbox
