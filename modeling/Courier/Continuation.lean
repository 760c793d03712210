import Courier.Library.Escaped
import Mathlib.Algebra.Order.Ring.Rat

/-!
# The claims of the continuation engine

A workkey is claimed by creating its claim file exclusively.  A claim has a lifetime; its owner renews it by replacing
the file, and who finds it expired or unreadable removes it first.  A call is a sequence of steps on the file, each of
which may fail, with those of others in between.
-/

namespace Courier.Continuation

/-! ### The claim file -/

/-- A claim as a caller reads it; a member may be missing in a file that something else has written. -/
structure ClaimData where
  createdAt : Option ℚ
  ttl : Option ℚ
  owner : Option Str
  deriving DecidableEq

/-- The content of a claim file.  What cannot be read is a file that is empty yet, or no claim. -/
inductive Content where
  | claim (data : ClaimData)
  | unreadable
  deriving DecidableEq

/-- A claim file.  A file that is removed and created anew is another one. -/
structure ClaimFile where
  id : Nat
  content : Content
  deriving DecidableEq

structure Files where
  file : Option ClaimFile
  nextId : Nat
  deriving DecidableEq

/-- When the claim ends, for a caller whose own lifetime stands for a missing one. -/
def ClaimData.expiresAt (data : ClaimData) (ttl : ℚ) : ℚ :=
  data.createdAt.getD 0 + data.ttl.getD ttl

/-- The claim has not ended. -/
def ClaimData.Active (data : ClaimData) (now ttl : ℚ) : Prop :=
  now - data.createdAt.getD 0 < data.ttl.getD ttl

instance (data : ClaimData) (now ttl : ℚ) : Decidable (data.Active now ttl) :=
  inferInstanceAs (Decidable (_ < _))

/-- The claim data of a call, as they are read back from the file. -/
def claimData (owner : Str) (ttl now : ℚ) : ClaimData where
  createdAt := some now
  ttl := some ttl
  owner := some (Json.fuse owner)

def Files.read (fs : Files) : Option ClaimData :=
  match fs.file with
  | some ⟨_, .claim data⟩ => some data
  | _ => none

/-- Replace the file, or create it. -/
def Files.put (fs : Files) (content : Content) : Files where
  file := some ⟨fs.nextId, content⟩
  nextId := fs.nextId + 1

/-- Remove the file, if there is one. -/
def Files.unlink (fs : Files) : Files :=
  { fs with file := none }

/-- Write to a file that was opened before, which may have been removed. -/
def Files.write (fs : Files) (id : Nat) (content : Content) : Files :=
  { fs with file := fs.file.map fun f => if f.id = id then { f with content := content } else f }

/-! ### The calls -/

/-- What a call comes to: it goes on, or it returns. -/
inductive Progress (P : Type) where
  | next (phase : P)
  | returned (answer : Bool)
  deriving DecidableEq

/-- Where a call of `claim` is. -/
inductive ClaimPhase where
  | exists
  | read
  | renew
  | purge
  | create
  | write (id : Nat)
  deriving DecidableEq

/-- Where a call of `release` is. -/
inductive ReleasePhase where
  | exists
  | read
  | unlink
  deriving DecidableEq

/-- The next step of `claim`, which may fail. -/
def claimStep (owner : Str) (ttl now : ℚ) (fs : Files) (fails : Bool) :
    ClaimPhase → Files × Progress ClaimPhase
  | .exists => (fs, .next (if fs.file.isSome then .read else .create))
  | .read =>
      match if fails then none else fs.read with
      | some data =>
          if data.Active now ttl then
            if data.owner = some owner then (fs, .next .renew) else (fs, .returned false)
          else (fs, .next .purge)
      | none => (fs, .next .purge)
  | .renew =>
      if fails then (fs, .next .purge)
      else (fs.put (.claim (claimData owner ttl now)), .returned true)
  | .purge => (if fails then fs else fs.unlink, .next .create)
  | .create =>
      if fails || fs.file.isSome then (fs, .returned false)
      else (fs.put .unreadable, .next (.write fs.nextId))
  | .write id =>
      if fails then (fs, .returned false)
      else (fs.write id (.claim (claimData owner ttl now)), .returned true)

/-- The next step of `release`, which may fail; `checked` says whether the owner is given. -/
def releaseStep (owner : Str) (checked : Bool) (fs : Files) (fails : Bool) :
    ReleasePhase → Files × Progress ReleasePhase
  | .exists =>
      if fs.file.isSome then (fs, .next (if checked then .read else .unlink))
      else (fs, .returned true)
  | .read =>
      match if fails then none else fs.read with
      | some data => (fs, if data.owner = some owner then .next .unlink else .returned false)
      | none => (fs, .returned false)
  | .unlink => if fails then (fs, .returned false) else (fs.unlink, .returned true)

end Courier.Continuation
