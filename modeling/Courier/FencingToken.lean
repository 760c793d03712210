import Courier.Library.Dict
import Courier.Library.Escaped
import Courier.Library.Program
import Mathlib.Algebra.Order.Ring.Rat

/-!
# The fencing tokens

A manager leases resources to holders, each lease with a token, its generation, and commits the writes under the token
of a lease that has not ended.  It reads the state file when it is opened, and from then on writes its own copy over
it.
-/

namespace Courier.FencingToken

open Program

/-- `FencingTokenRecord`. -/
structure Record (T : Type) where
  resourceId : Str
  holder : Str
  generation : Int
  acquiredAt : T
  expiresAt : T
  highestCommitted : Int
  deriving DecidableEq

/-- The exceptions of a manager, with what their messages tell. -/
inductive FencingError (T : Type) where
  | invalidResource
  | invalidHolder
  | leaseConflict (existing : Record T)
  | holderMismatch (generation : Int) (existing : Record T) (holder : Str)
  | noLease (generation : Int) (resourceId : Str)
  | staleGeneration (generation highest : Int)
  | leaseExpired (generation : Int) (expiresAt : T)
  deriving DecidableEq

abbrev Resources (T : Type) := Dict Str (Record T)

/-- The state file. -/
inductive File (T : Type) where
  | missing
  | unreadable
  | written (resources : Resources T)

/-- A record as it is read from a file it was written to. -/
def Record.readBack {T : Type} (r : Record T) : Record T :=
  { r with resourceId := Json.fuse r.resourceId, holder := Json.fuse r.holder }

/-- `_load`: what the file holds, or nothing. -/
def File.load {T : Type} : File T → Resources T
  | .missing => ∅
  | .unreadable => ∅
  | .written resources =>
      resources.entries.foldl (fun d p => d.set (Json.fuse p.1) p.2.readBack) ∅

structure Opened (T : Type) where
  resources : Resources T
  file : File T

abbrev FencingM (T : Type) := EStateM (FencingError T) (Opened T)

section Calls

variable {T : Type} [LinearOrder T] [Add T] [Zero T]

/-- `_resources[resource_id] = record`, and `_save`. -/
def store (resourceId : Str) (record : Record T) : FencingM T Unit :=
  modify fun s =>
    let resources := s.resources.set resourceId record
    ⟨resources, .written resources⟩

/-- A name that is not blank and contains no NUL. -/
def ValidName (s : Str) : Prop :=
  Text.blank s = false ∧ 0 ∉ s

instance (s : Str) : Decidable (ValidName s) :=
  inferInstanceAs (Decidable (_ ∧ _))

def acquire (resourceId holder : Str) (ttl now : T) : FencingM T (Record T) := do
  if ¬ ValidName resourceId then
    throw .invalidResource
  if ¬ ValidName holder then
    throw .invalidHolder
  let existing := (← get).resources.get? resourceId
  if let some e := existing then
    if now < e.expiresAt ∧ e.holder ≠ holder then
      throw (.leaseConflict e)
  let record : Record T := {
    resourceId := resourceId
    holder := holder
    generation := (existing.map fun e => e.generation + 1).getD 1
    acquiredAt := now
    expiresAt := now + ttl
    highestCommitted := (existing.map Record.highestCommitted).getD 0 }
  store resourceId record
  return record

def validateAndCommit (resourceId : Str) (generation : Int) (holder : Option Str) (now : T) :
    FencingM T Unit := do
  match (← get).resources.get? resourceId with
  | none => throw (.noLease generation resourceId)
  | some existing =>
      if let some name := holder then
        if existing.holder ≠ name then
          throw (.holderMismatch generation existing name)
      let highest := existing.highestCommitted
      if generation < highest ∨ generation ≠ existing.generation then
        throw (.staleGeneration generation highest)
      if existing.expiresAt ≤ now then
        throw (.leaseExpired generation existing.expiresAt)
      store resourceId { existing with highestCommitted := max highest generation }

def release (resourceId holder : Str) (generation : Option Int) : FencingM T Bool := do
  match (← get).resources.get? resourceId with
  | none => return false
  | some existing =>
      if existing.holder ≠ holder then
        return false
      if generation.any fun g => existing.generation ≠ g then
        return false
      store resourceId { existing with expiresAt := 0 }
      return true

end Calls

end Courier.FencingToken
