import Courier.Library.Dict
import Courier.Library.Program
import Courier.Library.Run
import Courier.Library.Text
import Mathlib.Data.Finset.Basic

/-!
# Permission broker

The broker decides whether a request is covered by a grant that was given before, and records the decisions about
those that are not.  A grant covers what was asked for until it expires or is revoked.
-/

namespace Courier.Grants

open Program

/-! ### States -/

inductive State where
  | requested
  | waitingForUserPermission
  | waitingForOsPermission
  | granted
  | denied
  | expired
  | revoked
  deriving DecidableEq

/-- The state as it is written. -/
def State.name : State → Str
  | .requested => text "REQUESTED"
  | .waitingForUserPermission => text "WAITING_FOR_USER_PERMISSION"
  | .waitingForOsPermission => text "WAITING_FOR_OS_PERMISSION"
  | .granted => text "GRANTED"
  | .denied => text "DENIED"
  | .expired => text "EXPIRED"
  | .revoked => text "REVOKED"

def State.transitions : State → List State
  | .requested => [.waitingForUserPermission, .waitingForOsPermission, .granted, .denied]
  | .waitingForUserPermission => [.granted, .denied]
  | .waitingForOsPermission => [.granted, .denied, .waitingForUserPermission]
  | .granted => [.expired, .revoked]
  | .denied => []
  | .expired => []
  | .revoked => []

def State.Awaiting (state : State) : Prop :=
  state ∈ [.requested, .waitingForUserPermission, .waitingForOsPermission]

instance (state : State) : Decidable state.Awaiting :=
  inferInstanceAs (Decidable (_ ∈ _))

/-! ### Requests and grants -/

def accessOrder : List (Str × Nat) :=
  [(text "read", 0), (text "write", 1), (text "execute", 2), (text "control", 3)]

def dataOrder : List (Str × Nat) :=
  [(text "public", 0), (text "project", 1), (text "personal", 2)]

structure Request where
  requestId : Str
  project : Str
  capability : Str
  resources : Finset Str
  host : Str
  providerAccount : Str
  dataClass : Str
  access : Str
  effectClass : Str
  deriving DecidableEq

structure Grant (T : Type) where
  grantId : Str
  project : Str
  capability : Str
  resources : Finset Str
  host : Str
  providerAccount : Str
  dataClass : Str
  access : Str
  effectClass : Str
  expiresAt : Option T
  once : Bool
  grantedBy : Str
  sourceRequest : Str
  state : State
  uses : Nat

/-- The dimensions in which a grant and a request have to be equal. -/
inductive Dimension where
  | project
  | capability
  | host
  | providerAccount
  | effectClass
  deriving DecidableEq

/-- The dimensions in the order in which they are compared. -/
def Dimension.all : List Dimension :=
  [.project, .capability, .host, .providerAccount, .effectClass]

def Dimension.ofRequest (r : Request) : Dimension → Str
  | .project => r.project
  | .capability => r.capability
  | .host => r.host
  | .providerAccount => r.providerAccount
  | .effectClass => r.effectClass

/-- Why a grant does not cover a request. -/
inductive Reason where
  | state (state : State)
  | expired
  | used
  | differs (dimension : Dimension) (asked : Str)
  | resources (missing : Finset Str)
  | access (asked granted : Str)
  | unknownDataClass (asked : Str)
  | dataClass (asked granted : Str)
  deriving DecidableEq

inductive BrokerError where
  | keyError (key : Str)
  | transition (old new : Str)
  | notAwaiting (requestId : Str)
  deriving DecidableEq

/-- `order[key]`. -/
def position (order : List (Str × Nat)) (key : Str) : Except BrokerError Nat :=
  match order.lookup key with
  | some n => .ok n
  | none => .error (.keyError key)

variable {T : Type}

def Dimension.ofGrant (g : Grant T) : Dimension → Str
  | .project => g.project
  | .capability => g.capability
  | .host => g.host
  | .providerAccount => g.providerAccount
  | .effectClass => g.effectClass

/-- The grant has an end, and it is not after this time. -/
def Grant.Due [LE T] (g : Grant T) (now : T) : Prop :=
  ∃ expiresAt ∈ g.expiresAt, expiresAt ≤ now

instance [LE T] [DecidableLE T] (g : Grant T) (now : T) : Decidable (g.Due now) :=
  match h : g.expiresAt with
  | none => isFalse (by simp [Grant.Due, h])
  | some expiresAt => decidable_of_iff (expiresAt ≤ now) (by simp [Grant.Due, h])

def whyNotCovered [LE T] [DecidableLE T] (g : Grant T) (r : Request) (now : T) :
    Except BrokerError (Option Reason) :=
  if g.state ≠ .granted then .ok (some (.state g.state))
  else if g.Due now then .ok (some .expired)
  else if g.once = true ∧ 1 ≤ g.uses then .ok (some .used)
  else
    match Dimension.all.find? fun dim => dim.ofGrant g ≠ dim.ofRequest r with
    | some dim => .ok (some (.differs dim (dim.ofRequest r)))
    | none =>
        if r.resources = ∅ ∨ ¬ r.resources ⊆ g.resources then
          .ok (some (.resources (r.resources \ g.resources)))
        else do
          let asked ← position accessOrder r.access
          let granted ← position accessOrder g.access
          if granted < asked then return some (.access r.access g.access)
          else
            match dataOrder.lookup r.dataClass, dataOrder.lookup g.dataClass with
            | some asked, some granted =>
                if granted < asked then return some (.dataClass r.dataClass g.dataClass)
                else return none
            | _, _ => return some (.unknownDataClass r.dataClass)

/-! ### The broker -/

inductive Happened where
  | grantUsed (grantId requestId : Str)
  | grantRequested (requestId capability : Str) (resources : Finset Str) (access : Str)
  | request (state : State) (requestId : Str)
  | grantGiven (grantId requestId grantedBy : Str)
  | grantRevoked (grantId : Str)
  | grantExpired (grantId : Str)

structure Event (T : Type) where
  happened : Happened
  «at» : T

structure Broker (T : Type) where
  grants : Dict Str (Grant T)
  requests : Dict Str State
  events : List (Event T)
  asked : Nat

def Broker.empty : Broker T where
  grants := ∅
  requests := ∅
  events := []
  asked := 0

abbrev BrokerM (T : Type) := EStateM BrokerError (Broker T)

/-- A grant is changed. -/
def Broker.setGrant (b : Broker T) (grantId : Str) (g : Grant T) : Broker T :=
  { b with grants := b.grants.set grantId g }

def Broker.setRequest (b : Broker T) (requestId : Str) (state : State) : Broker T :=
  { b with requests := b.requests.set requestId state }

/-- The grants are gone through, up to one that covers the request. -/
def findCovering [LE T] [DecidableLE T] (r : Request) (now : T) :
    List (Grant T) → Except BrokerError (Except (List Reason) (Grant T))
  | [] => .ok (.error [])
  | g :: rest => do
      match ← whyNotCovered g r now with
      | none => return .ok g
      | some reason =>
          match ← findCovering r now rest with
          | .ok found => return .ok found
          | .error reasons => return .error (reason :: reasons)

/-- What is answered to a request: the grant that is used, or why there is none. -/
inductive Authorization (T : Type) where
  | granted (g : Grant T)
  | requested (reasons : List Reason)

section Calls

variable (clock : Nat → T)

/-- `self.clock()`. -/
def now : BrokerM T T := do
  let b ← get
  set { b with asked := b.asked + 1 }
  return clock b.asked

def event (happened : Happened) : BrokerM T Unit := do
  let at' ← now clock
  modify fun b => { b with events := b.events ++ [⟨happened, at'⟩] }

/-- The grant after one more use. -/
def Grant.used (g : Grant T) : Grant T :=
  { g with uses := g.uses + 1 }

def authorize [LE T] [DecidableLE T] (r : Request) : BrokerM T (Authorization T) := do
  let now ← now clock
  match findCovering r now (← get).grants.values with
  | .error e => throw e
  | .ok (.ok g) =>
      modify fun b => b.setGrant g.grantId g.used
      event clock (.grantUsed g.grantId r.requestId)
      return .granted g.used
  | .ok (.error reasons) =>
      modify fun b => b.setRequest r.requestId .requested
      event clock (.grantRequested r.requestId r.capability r.resources r.access)
      return .requested reasons

def move (requestId newState : Str) : BrokerM T State := do
  match (← get).requests.get? requestId with
  | none => throw (.keyError requestId)
  | some old =>
      match old.transitions.find? fun state => state.name = newState with
      | none => throw (.transition old.name newState)
      | some state =>
          modify fun b => b.setRequest requestId state
          event clock (.request state requestId)
          return state

def Request.grant (r : Request) (grantId : Str) (expiresAt : Option T) (once : Bool)
    (grantedBy : Str) : Grant T where
  grantId := grantId
  project := r.project
  capability := r.capability
  resources := r.resources
  host := r.host
  providerAccount := r.providerAccount
  dataClass := r.dataClass
  access := r.access
  effectClass := r.effectClass
  expiresAt := expiresAt
  once := once
  grantedBy := grantedBy
  sourceRequest := r.requestId
  state := .granted
  uses := 0

def grant (r : Request) (grantId : Str) (expiresAt : Option T) (once : Bool) (grantedBy : Str) :
    BrokerM T (Grant T) := do
  if ((← get).requests.get? r.requestId).any fun state => state.Awaiting then
    modify fun b => (b.setGrant grantId (r.grant grantId expiresAt once grantedBy)).setRequest
      r.requestId .granted
    event clock (.grantGiven grantId r.requestId grantedBy)
    return r.grant grantId expiresAt once grantedBy
  else
    throw (.notAwaiting r.requestId)

def deny (requestId : Str) : BrokerM T State :=
  move clock requestId State.denied.name

def revoke (grantId : Str) : BrokerM T Unit := do
  match (← get).grants.get? grantId with
  | none => throw (.keyError grantId)
  | some g =>
      if .revoked ∈ g.state.transitions then
        modify fun b => b.setGrant grantId { g with state := .revoked }
        event clock (.grantRevoked grantId)
      else
        throw (.transition g.state.name State.revoked.name)

def expireAll [LE T] [DecidableLE T] (now : T) : List (Str × Grant T) → BrokerM T Unit
  | [] => return ()
  | (grantId, g) :: rest => do
      if g.state = .granted ∧ g.Due now then
        modify fun b => b.setGrant grantId { g with state := .expired }
        event clock (.grantExpired grantId)
      expireAll now rest

def expireDue [LE T] [DecidableLE T] : BrokerM T Unit := do
  let now ← now clock
  expireAll clock now (← get).grants.entries

/-! ### Runs -/

/-- A call of the broker. -/
inductive Call (T : Type) where
  | authorize (r : Request)
  | move (requestId newState : Str)
  | grant (r : Request) (grantId : Str) (expiresAt : Option T) (once : Bool) (grantedBy : Str)
  | deny (requestId : Str)
  | revoke (grantId : Str)
  | expireDue

/-- What a call that did not raise came to; a grant is used at a time. -/
inductive Answer (T : Type) where
  | used (r : Request) (g : Grant T) (now : T)
  | recorded (r : Request)
  | moved (requestId : Str) (state : State)
  | given (g : Grant T)
  | revoked (grantId : Str)
  | expired

variable [LE T] [DecidableLE T]

def perform : Call T → BrokerM T (Answer T)
  | .authorize r => do
      let asked := (← get).asked
      match ← authorize clock r with
      | .granted g => return .used r g (clock asked)
      | .requested _ => return .recorded r
  | .move requestId newState => .moved requestId <$> move clock requestId newState
  | .grant r grantId expiresAt once grantedBy =>
      .given <$> grant clock r grantId expiresAt once grantedBy
  | .deny requestId => .moved requestId <$> deny clock requestId
  | .revoke grantId => do
      revoke clock grantId
      return .revoked grantId
  | .expireDue => do
      expireDue clock
      return .expired

/-- The broker, and what the calls so far came to. -/
structure World (T : Type) where
  broker : Broker T
  history : List (Answer T)

/-- A new broker. -/
def World.start : World T where
  broker := .empty
  history := []

def World.after (w : World T) (call : Call T) : World T :=
  match perform clock call w.broker with
  | .ok answer b => ⟨b, w.history ++ [answer]⟩
  | .error _ b => ⟨b, w.history⟩

def World.run (calls : List (Call T)) : World T :=
  calls.foldl (World.after clock) .start

end Calls

end Courier.Grants
