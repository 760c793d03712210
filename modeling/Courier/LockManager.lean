import Courier.Library.Dict
import Courier.Library.Escaped
import Courier.Library.Program
import Courier.Platform
import Mathlib.Data.Rat.Defs

/-!
# The lock manager

A lock on a resource is a file that names the holder, the end of its lease and a fencing token.  A holder that takes a
lock over gets the next token.  A guarded write first validates its token against the file, and takes effect in a step
of its own.
-/

namespace Courier.LockManager

/-- The characters `str.isalnum` holds of.  A surrogate is none of them. -/
class Names where
  isalnum : Nat → Bool
  surrogate : ∀ c, Text.isSurrogate c = true → isalnum c = false

theorem surrogate_ascii (c : Nat) (hc : Text.isSurrogate c = true) :
  ((48 ≤ c && c ≤ 57) || (65 ≤ c && c ≤ 90) || (97 ≤ c && c ≤ 122)) = false
  := by
  simp only [Text.isSurrogate, Bool.and_eq_true, decide_eq_true_eq] at hc
  simp
  omega

/-- Names to evaluate examples on: the ASCII letters and digits. -/
@[reducible]
def Names.ascii : Names where
  isalnum c := (48 ≤ c && c ≤ 57) || (65 ≤ c && c ≤ 90) || (97 ≤ c && c ≤ 122)
  surrogate := surrogate_ascii

/-- The exceptions of the lock manager. -/
inductive LockError where
  | unicodeEncode
  | staleFencingToken (message : Str)
  deriving DecidableEq

/-- What the file of a lock says. -/
structure LockState where
  resourceId : Str
  holder : Str
  fencingToken : Int
  expiresAt : Rat
  released : Bool := false
  deriving DecidableEq

structure LockHandle where
  resourceId : Str
  holder : Str
  fencingToken : Int
  expiresAt : Rat
  released : Bool := false
  deriving DecidableEq

/-- The files of the storage directory by their names.  A file that is there but cannot be read
as the state of a lock has no state. -/
abbrev Storage := Dict Str (Option LockState)

/-- A program that works on the storage directory. -/
abbrev LockM := EStateM LockError Storage

section Operations

variable [Platform] [Names]

/-! ### Files -/

/-- The resource id with every character replaced that a file name should not have. -/
def safeId (resourceId : Str) : Str :=
  resourceId.map fun c => if Names.isalnum c = true ∨ c = 45 ∨ c = 95 then c else 95

def lockFile (resourceId : Str) : Except LockError Str :=
  if safeId resourceId = resourceId then .ok (resourceId ++ text ".lock.json")
  else if Text.Encodable resourceId then
    .ok (safeId resourceId ++ text "__" ++ (Platform.sha256 resourceId).take 12 ++
      text ".lock.json")
  else .error .unicodeEncode

def loadState (storage : Storage) (resourceId : Str) : Except LockError (Option LockState) := do
  let path ← lockFile resourceId
  match storage.get? path with
  | some (some state) =>
      if state.resourceId ≠ resourceId then .ok none
      else .ok (some state)
  | _ => .ok none

/-- The state as it is read back from the text it is saved as. -/
def LockState.saved (state : LockState) : LockState :=
  { state with
    resourceId := Json.fuse state.resourceId
    holder := Json.fuse state.holder }

def saveState (state : LockState) : LockM Unit := do
  let path ← Program.lift (lockFile state.resourceId)
  modify fun storage => storage.set path (some state.saved)

/-- `_load_state` in a program. -/
def load (resourceId : Str) : LockM (Option LockState) := do
  Program.lift (loadState (← get) resourceId)

/-! ### Operations -/

/-- The state is of a lease that has not ended. -/
def LockState.Held (state : LockState) (now : Rat) : Prop :=
  state.released = false ∧ now < state.expiresAt

instance (state : LockState) (now : Rat) : Decidable (state.Held now) :=
  inferInstanceAs (Decidable (_ ∧ _))

/-- `acquire`, once it has read the state. -/
def acquireFrom (state? : Option LockState) (resourceId holder : Str) (ttl now : Rat) :
    LockM (Option LockHandle) :=
  match state?.filter fun state => decide (state.Held now) with
  | some state =>
      if state.holder = holder then do
        let state := { state with expiresAt := now + ttl }
        saveState state
        pure (some ⟨resourceId, holder, state.fencingToken, state.expiresAt, false⟩)
      else pure none
  | none => do
      let prevToken := (state?.map (·.fencingToken)).getD 0
      let newState : LockState := ⟨resourceId, holder, prevToken + 1, now + ttl, false⟩
      saveState newState
      pure (some ⟨resourceId, holder, newState.fencingToken, newState.expiresAt, false⟩)

def acquire (resourceId holder : Str) (ttl now : Rat) : LockM (Option LockHandle) := do
  acquireFrom (← load resourceId) resourceId holder ttl now

/-- The state is of the lease the handle was given. -/
def LockState.Matches (state : LockState) (handle : LockHandle) : Prop :=
  state.holder = handle.holder ∧ state.fencingToken = handle.fencingToken

instance (state : LockState) (handle : LockHandle) : Decidable (state.Matches handle) :=
  inferInstanceAs (Decidable (_ ∧ _))

/-- `renew`: whether the lease was extended, and the handle after it. -/
def renew (handle : LockHandle) (ttl now : Rat) : LockM (Bool × LockHandle) := do
  match (← load handle.resourceId).filter fun state =>
      decide (state.Held now ∧ state.Matches handle) with
  | some state =>
      let state := { state with expiresAt := now + ttl }
      saveState state
      pure (true, { handle with expiresAt := state.expiresAt })
  | none => pure (false, handle)

/-- `release`: whether the lock was released, and the handle after it. -/
def release (handle : LockHandle) : LockM (Bool × LockHandle) := do
  match (← load handle.resourceId).filter fun state =>
      decide (state.released = false ∧ state.Matches handle) with
  | some state =>
      saveState { state with released := true }
      pure (true, { handle with released := true })
  | none => pure (false, handle)

def validateToken (resourceId : Str) (fencingToken : Int) (now : Rat) : LockM Bool := do
  match ← load resourceId with
  | none => pure false
  | some state =>
      if state.released then pure false
      else if state.expiresAt < now then pure false
      else pure (decide (state.fencingToken = fencingToken))

def staleMessage (resourceId : Str) (fencingToken : Int) : Str :=
  text "Stale fencing token: token " ++ Text.decimal fencingToken ++
    text " is no longer valid for resource '" ++ resourceId ++ text "'"

/-- What `guard_write` does before the write. -/
def guard (resourceId : Str) (fencingToken : Int) (now : Rat) : LockM Unit := do
  if ← validateToken resourceId fencingToken now then pure ()
  else throw (.staleFencingToken (staleMessage resourceId fencingToken))

def guardWrite {α : Type} (resourceId : Str) (fencingToken : Int) (now : Rat)
    (writeAction : LockM α) : LockM α := do
  guard resourceId fencingToken now
  writeAction

def LockHandle.isActive (handle : LockHandle) (now : Rat) : LockM Bool :=
  if handle.released then pure false
  else validateToken handle.resourceId handle.fencingToken now

end Operations

end Courier.LockManager
