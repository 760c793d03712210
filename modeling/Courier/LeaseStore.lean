import Courier.Library.Dict
import Courier.Library.Program
import Courier.Library.Run
import Courier.Library.Sql
import Mathlib.Algebra.Order.Ring.Rat

/-!
# The lease store

A lease binds a scope to one holder until it expires.  Every grant has a fencing token, and a write must present the
token of a lease that has not ended.  Each call is one transaction over one row for a scope.
-/

namespace Courier.LeaseStore

open Program

/-- A lease as a caller is given it. -/
structure Lease (T : Type) where
  scope : Str
  holder : Str
  workkey : Str
  token : Int
  expiresAt : T
  deriving DecidableEq

/-- The row of a scope.  A lease that was released has no holder. -/
structure Row (T : Type) where
  holder : Option Str
  workkey : Option Str
  token : Int
  expiresAt : T
  deriving DecidableEq

/-- The exceptions of the store, with what their messages tell. -/
inductive LeaseError (T : Type) where
  | leaseConflict (scope : Str) (row : Row T)
  | staleLease (scope : Str) (token : Int)
  | unicodeEncode
  | overflow
  deriving DecidableEq

/-- The rows of the database by their scopes. -/
abbrev Table (T : Type) := Dict Str (Row T)

/-- A transaction. -/
abbrev LeaseM (T : Type) := EStateM (LeaseError T) (Table T)

/-! ### Calls -/

section Calls

variable {T : Type} [LinearOrder T] [Add T] [Zero T]

def bind (parameters : List SqlValue) : LeaseM T Unit :=
  match SqlValue.refusals parameters with
  | none => pure ()
  | some .overflow => throw .overflow
  | some .unicode => throw .unicodeEncode

def row (scope : Str) : LeaseM T (Option (Row T)) := do
  bind [.text scope]
  return (← get).get? scope

/-- The row is of a lease that has not ended. -/
def Row.Live (r : Row T) (now : T) : Prop :=
  r.holder.isSome ∧ now < r.expiresAt

instance (r : Row T) (now : T) : Decidable (r.Live now) :=
  inferInstanceAs (Decidable (_ ∧ _))

def current (scope : Str) (now : T) : LeaseM T (Option (Row T)) := do
  return (← row scope).filter fun r => decide (r.Live now)

/-- The token an acquisition gives. -/
def nextToken (r? : Option (Row T)) (holder : Str) (now : T) : Int :=
  match r? with
  | some r => if r.holder = some holder ∧ now < r.expiresAt then r.token else r.token + 1
  | none => 1

def acquire (scope holder workkey : Str) (ttl now : T) : LeaseM T (Lease T) := do
  let r? ← row scope
  if let some r := r? then
    if r.Live now ∧ r.holder ≠ some holder then
      throw (.leaseConflict scope r)
  let token := nextToken r? holder now
  bind [.text scope, .text holder, .text workkey, .integer token]
  modify fun table => table.set scope ⟨some holder, some workkey, token, now + ttl⟩
  return ⟨scope, holder, workkey, token, now + ttl⟩

def renew (lease : Lease T) (ttl now : T) : LeaseM T (Lease T) := do
  match ← row lease.scope with
  | none => throw (.staleLease lease.scope lease.token)
  | some r =>
      if r.token ≠ lease.token ∨ r.holder ≠ some lease.holder ∨ r.expiresAt ≤ now then
        throw (.staleLease lease.scope lease.token)
      modify fun table => table.set lease.scope { r with expiresAt := now + ttl }
      return { lease with expiresAt := now + ttl }

def checkWrite (scope : Str) (token : Int) (now : T) : LeaseM T (Row T) := do
  match ← current scope now with
  | none => throw (.staleLease scope token)
  | some r =>
      if r.token ≠ token then
        throw (.staleLease scope token)
      return r

def release (lease : Lease T) : LeaseM T Unit := do
  bind [.text lease.scope, .integer lease.token, .text lease.holder]
  if let some r := (← get).get? lease.scope then
    if r.token = lease.token ∧ r.holder = some lease.holder then
      modify fun table => table.set lease.scope ⟨none, none, r.token, 0⟩

/-- A call of the store. -/
inductive Call (T : Type) where
  | acquire (scope holder workkey : Str) (ttl : T)
  | renew (lease : Lease T) (ttl : T)
  | checkWrite (scope : Str) (token : Int)
  | release (lease : Lease T)

/-- What a call is answered with, if anything. -/
inductive Answer (T : Type) where
  | granted (lease : Lease T)
  | renewed (lease : Lease T)
  | written (row : Row T)
  | released
  deriving DecidableEq

/-- What the store does with a call at a moment. -/
def perform (now : T) : Call T → LeaseM T (Answer T)
  | .acquire scope holder workkey ttl => .granted <$> acquire scope holder workkey ttl now
  | .renew lease ttl => .renewed <$> renew lease ttl now
  | .checkWrite scope token => .written <$> checkWrite scope token now
  | .release lease => (fun _ => .released) <$> release lease

end Calls

end Courier.LeaseStore
