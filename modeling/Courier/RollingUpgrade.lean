import Courier.Library.Dict
import Courier.Library.Text

/-!
# Rolling upgrades

A coordinator takes its nodes through the phases of an upgrade, one call at a time, and saves them in a store.  Only
`beginDrain` looks at the number of nodes that are not active, and `beginUpgrade` saves the version of a node over the
one that was saved before.  In a run that upgrades a node once and starts no upgrade beyond the limit, the limit holds
and a node is rolled back to the version it had when it was last active (`respected_of_reached`).
-/

namespace Courier.RollingUpgrade

open Text

/-! ### The coordinator -/

inductive NodeUpgradeState where
  | active
  | draining
  | upgrading
  | verifying
  | failed
  deriving DecidableEq

/-- `ClusterNodeRecord`, without the time of its heartbeat. -/
structure ClusterNodeRecord where
  nodeId : Str
  version : Str
  schemaVersion : Int
  previousVersion : Str
  state : NodeUpgradeState
  lastReason : Str

/-- `__post_init__`: an empty previous version is the version. -/
def ClusterNodeRecord.postInit (node : ClusterNodeRecord) : ClusterNodeRecord :=
  if node.previousVersion = [] then { node with previousVersion := node.version } else node

/-- `RollingUpgradeCoordinator`, as far as the phases use it. -/
structure Coordinator where
  maxConcurrentUpgrades : Int
  nodes : Dict Str ClusterNodeRecord

structure System where
  coordinator : Coordinator
  stored : Option Coordinator

def isNonActive (node : ClusterNodeRecord) : Bool :=
  node.state ≠ .active

def nonActive (nodes : Dict Str ClusterNodeRecord) : Nat :=
  nodes.values.countP isNonActive

def loaded (stored : Coordinator) : Dict Str ClusterNodeRecord :=
  stored.nodes.map (·.postInit)

namespace Coordinator

variable (c : Coordinator)

def registerNode (id version : Str) (schema : Int) : Coordinator :=
  { c with nodes := c.nodes.set id (ClusterNodeRecord.postInit ⟨id, version, schema, version, .active,
      text "Registered"⟩) }

def change (id : Str) (f : ClusterNodeRecord → ClusterNodeRecord) : Except Str Coordinator :=
  match c.nodes.get? id with
  | none => .error (text "Node '" ++ id ++ text "' not found")
  | some node => .ok { c with nodes := c.nodes.set id (f node) }

def beginDrain (id : Str) : Except Str Coordinator :=
  if id ∈ c.nodes.keys ∧ c.maxConcurrentUpgrades ≤ nonActive c.nodes then
    .error (text "Cannot drain node '" ++ id ++ text "': max concurrent upgrades (" ++
      text (toString c.maxConcurrentUpgrades) ++ text ") already active")
  else c.change id fun node =>
    { node with state := .draining, lastReason := text "Initiated graceful drain for upgrade" }

def beginUpgrade (id target : Str) : Except Str Coordinator :=
  c.change id fun node =>
    { node with
      previousVersion := node.version
      version := target
      state := .upgrading
      lastReason := text "Upgrading binary to " ++ target }

def beginVerify (id : Str) : Except Str Coordinator :=
  c.change id fun node =>
    { node with state := .verifying, lastReason := text "Running canary health and verification check" }

def activateNode (id : Str) : Except Str Coordinator :=
  c.change id fun node =>
    { node with
      state := .active
      lastReason := text "Upgrade verified and node active at version " ++ node.version }

def rollbackNode (id reason : Str) : Except Str Coordinator :=
  c.change id fun node =>
    { node with
      version := node.previousVersion
      state := .active
      lastReason := text "Automatic rollback to " ++ node.previousVersion ++ text ": " ++ reason }

/-- A new coordinator over the store: `__init__` and `load`. -/
def reload (stored : Option Coordinator) : Coordinator :=
  match stored with
  | none => ⟨c.maxConcurrentUpgrades, ∅⟩
  | some stored => ⟨stored.maxConcurrentUpgrades, loaded stored⟩

end Coordinator

inductive Call where
  | registerNode (id version : Str) (schema : Int)
  | beginDrain (id : Str)
  | beginUpgrade (id target : Str)
  | beginVerify (id : Str)
  | activateNode (id : Str)
  | rollbackNode (id reason : Str)
  | reload

def saved (c : Coordinator) : System :=
  ⟨c, some c⟩

def System.perform (s : System) : Call → Except Str System
  | .registerNode id version schema => .ok ⟨s.coordinator.registerNode id version schema, s.stored⟩
  | .beginDrain id => (s.coordinator.beginDrain id).map saved
  | .beginUpgrade id target => (s.coordinator.beginUpgrade id target).map saved
  | .beginVerify id => (s.coordinator.beginVerify id).map saved
  | .activateNode id => (s.coordinator.activateNode id).map saved
  | .rollbackNode id reason => (s.coordinator.rollbackNode id reason).map saved
  | .reload => .ok ⟨s.coordinator.reload s.stored, s.stored⟩

/-! ### Runs -/

/-- What happened to a node: its version when it was last active, and whether an upgrade began since. -/
structure Past where
  lastActive : Option Str
  upgraded : Bool

/-- What happened to the nodes. -/
abbrev History := Str → Past

def Call.upgrades (id : Str) : Call → Bool
  | .beginUpgrade other _ => id = other
  | _ => false

/-- What happened to a node after a call that left it so. -/
def Past.after (past : Past) (upgrades : Bool) : Option ClusterNodeRecord → Past
  | none => past
  | some node => if isNonActive node then ⟨past.lastActive, past.upgraded || upgrades⟩ else ⟨some node.version, false⟩

def History.after (h : History) (call : Call) (nodes : Dict Str ClusterNodeRecord) : History :=
  fun id => (h id).after (call.upgrades id) (nodes.get? id)

/-- What is asked of the calls of a run. -/
def Orderly (s : System) (h : History) : Call → Prop
  | .beginUpgrade id _ => ∀ node, s.coordinator.nodes.get? id = some node →
      (node.state = .active → (nonActive s.coordinator.nodes : Int) < s.coordinator.maxConcurrentUpgrades) ∧
      ((h id).upgraded = true → node.version = node.previousVersion)
  | .beginVerify id => ∀ node, s.coordinator.nodes.get? id = some node → node.state = .active →
      (nonActive s.coordinator.nodes : Int) < s.coordinator.maxConcurrentUpgrades
  | .rollbackNode id _ => ∀ node, s.coordinator.nodes.get? id = some node → node.state ≠ .active →
      (h id).upgraded = false → node.version = node.previousVersion
  | .reload => ∀ stored, s.stored = some stored → ∀ id node, (loaded stored).get? id = some node →
      node.state ≠ .active → s.coordinator.nodes.get? id = some node
  | _ => True

inductive Reached (limit : Int) : System → History → Prop
  | start : Reached limit ⟨⟨limit, ∅⟩, none⟩ fun _ => ⟨none, false⟩
  | step {s after : System} {h : History} (call : Call) :
      Reached limit s h → Orderly s h call → s.perform call = .ok after →
        Reached limit after (h.after call after.coordinator.nodes)

/-! ### What the calls keep -/

section Kept

variable {s s' : System} {h : History} {call : Call} {limit : Int} {c c' : Coordinator} {id : Str}
  {nodes : Dict Str ClusterNodeRecord} {node : ClusterNodeRecord} {past : Past}

structure Restores (past : Past) (node : ClusterNodeRecord) : Prop where
  last : past.lastActive = some (if past.upgraded then node.previousVersion else node.version)
  active : isNonActive node = false → past.upgraded = false

/-- What is known of the nodes: no more than so many are not active, and those can be restored. -/
structure Sound (limit : Int) (h : History) (nodes : Dict Str ClusterNodeRecord) : Prop where
  count : (nonActive nodes : Int) ≤ limit
  restores : ∀ id node, nodes.get? id = some node → Restores (h id) node

/-- What is known of a system. -/
structure Kept (limit : Int) (s : System) (h : History) : Prop where
  sound : Sound limit h s.coordinator.nodes
  bound : s.coordinator.maxConcurrentUpgrades = limit
  stored : ∀ stored, s.stored = some stored →
    stored.maxConcurrentUpgrades = limit ∧ (nonActive stored.nodes : Int) ≤ limit

theorem restores_active (hnode : isNonActive node = false) {upgrades : Bool} :
  Restores (past.after upgrades (some node)) node
  := by
  rw [Past.after, if_neg (by simp [hnode])]
  exact ⟨rfl, fun _ => rfl⟩

theorem Restores.after {node' : ClusterNodeRecord} (hrestores : Restores past node)
    (hversion : node'.version = node.version) (hprevious : node'.previousVersion = node.previousVersion) :
  Restores (past.after false (some node')) node'
  := by
  cases hnode : isNonActive node' with
  | false => apply restores_active hnode
  | true =>
    rw [Past.after, if_pos hnode, Bool.or_false]
    refine ⟨?_, fun hnot => by simp [hnode] at hnot⟩
    rw [hversion, hprevious]
    apply hrestores.last

theorem Sound.set {node : ClusterNodeRecord} (hsound : Sound limit h nodes)
    (hcall : ∀ other, other ≠ id → call.upgrades other = false)
    (hroom : isNonActive node = true → (nodes.get? id).any isNonActive = false → (nonActive nodes : Int) < limit)
    (hnode : Restores ((h id).after (call.upgrades id) (some node)) node) :
  Sound limit (h.after call (nodes.set id node)) (nodes.set id node)
  := by
  constructor
  case count =>
    have hset := Dict.countP_values_set nodes id node isNonActive
    have hcount := hsound.count
    unfold nonActive at hroom hcount ⊢
    cases hnew : isNonActive node with
    | false =>
      rw [hnew, Bool.toNat_false] at hset
      omega
    | true =>
      cases hold : (nodes.get? id).any isNonActive with
      | false =>
        have hless := hroom hnew hold
        rw [hnew, hold, Bool.toNat_false, Bool.toNat_true] at hset
        omega
      | true =>
        rw [hnew, hold, Bool.toNat_true] at hset
        omega
  case restores =>
    intro other found hfound
    rw [History.after, hfound]
    rw [Dict.get?_set] at hfound
    split_ifs at hfound with hother
    · cases hfound
      rw [hother]
      apply hnode
    · rw [hcall other hother]
      apply (hsound.restores other found hfound).after rfl rfl

theorem Kept.change {f : ClusterNodeRecord → ClusterNodeRecord} (hkept : Kept limit s h)
    (hchange : (s.coordinator.change id f).map saved = .ok s')
    (hcall : ∀ other, other ≠ id → call.upgrades other = false)
    (hroom : ∀ node, s.coordinator.nodes.get? id = some node → isNonActive (f node) = true →
      isNonActive node = false → (nonActive s.coordinator.nodes : Int) < limit)
    (hnode : ∀ node, s.coordinator.nodes.get? id = some node → Restores (h id) node →
      Restores ((h id).after (call.upgrades id) (some (f node))) (f node)) :
  Kept limit s' (h.after call s'.coordinator.nodes)
  := by
  unfold Coordinator.change at hchange
  split at hchange
  · cases hchange
  · next node hfound =>
    cases hchange
    have hsound : Sound limit (h.after call (s.coordinator.nodes.set id (f node)))
        (s.coordinator.nodes.set id (f node)) := by
      apply hkept.sound.set hcall
      · rw [hfound]
        apply hroom node hfound
      · apply hnode node hfound (hkept.sound.restores id node hfound)
    refine ⟨hsound, hkept.bound, ?_⟩
    rintro _ ⟨⟩
    use hkept.bound, hsound.count

theorem nonActive_loaded (stored : Coordinator) :
  nonActive (loaded stored) = nonActive stored.nodes
  := by
  rw [nonActive, nonActive, loaded, Dict.values_map, List.countP_map]
  congr 1
  funext node
  unfold ClusterNodeRecord.postInit
  dsimp only [Function.comp]
  split_ifs <;> rfl

theorem reload_sound {stored : Coordinator} (hcount : (nonActive stored.nodes : Int) ≤ limit)
    (hsound : Sound limit h s.coordinator.nodes) (horderly : ∀ id node, (loaded stored).get? id = some node →
      node.state ≠ .active → s.coordinator.nodes.get? id = some node) :
  Sound limit (h.after .reload (loaded stored)) (loaded stored)
  := by
  refine ⟨by rwa [nonActive_loaded], fun id node hnode => ?_⟩
  rw [History.after, hnode]
  cases hactive : isNonActive node with
  | false => apply restores_active hactive
  | true => apply (hsound.restores id node (horderly id node hnode (by simpa [isNonActive] using hactive))).after rfl rfl

/-- An orderly call keeps what is known. -/
theorem Kept.step (hlimit : 0 ≤ limit) (hkept : Kept limit s h) (horderly : Orderly s h call)
    (hperform : s.perform call = .ok s') :
  Kept limit s' (h.after call s'.coordinator.nodes)
  := by
  have hbound := hkept.bound
  cases call with
  | registerNode id version schema =>
    cases hperform
    refine ⟨?_, hbound, hkept.stored⟩
    have hnew : isNonActive (ClusterNodeRecord.postInit ⟨id, version, schema, version, .active,
        text "Registered"⟩) = false := by
      unfold ClusterNodeRecord.postInit
      split_ifs <;> rfl
    apply hkept.sound.set (fun _ _ => rfl)
    · rw [hnew]
      rintro ⟨⟩
    · apply restores_active hnew
  | beginDrain id =>
    simp only [System.perform, Coordinator.beginDrain] at hperform
    split_ifs at hperform with hfull
    · cases hperform
    · apply hkept.change hperform (fun _ _ => rfl)
      · intro node hnode _ _
        have hmem : id ∈ s.coordinator.nodes.keys := Dict.get?_isSome.mp (by rw [hnode]; rfl)
        have hroom := mt (fun h => And.intro hmem h) hfull
        omega
      · intro node _ hrestores
        exact hrestores.after rfl rfl
  | beginUpgrade id target =>
    apply hkept.change hperform
    · intro other hother
      simpa [Call.upgrades] using hother
    · intro node hnode _ hactive
      rw [← hbound]
      apply (horderly node hnode).1 (by simpa [isNonActive] using hactive)
    · intro node hnode hrestores
      refine ⟨?_, by rintro ⟨⟩⟩
      have hlast := hrestores.last
      have hsaved := (horderly node hnode).2
      cases hupgraded : (h id).upgraded with
      | false => simpa [Past.after, isNonActive, Call.upgrades, hupgraded] using hlast
      | true =>
        rw [← hsaved hupgraded] at hlast
        simpa [Past.after, isNonActive, Call.upgrades, hupgraded] using hlast
  | beginVerify id =>
    apply hkept.change hperform (fun _ _ => rfl)
    · intro node hnode _ hactive
      rw [← hbound]
      apply horderly node hnode (by simpa [isNonActive] using hactive)
    · intro node _ hrestores
      exact hrestores.after rfl rfl
  | activateNode id =>
    apply hkept.change hperform (fun _ _ => rfl)
    · rintro node - ⟨⟩
    · intro node _ _
      apply restores_active rfl
  | rollbackNode id reason =>
    apply hkept.change hperform (fun _ _ => rfl)
    · rintro node - ⟨⟩
    · intro node _ _
      apply restores_active rfl
  | reload =>
    cases hperform
    cases hstored : s.stored with
    | none =>
      refine ⟨⟨hlimit, fun id node hnode => ?_⟩, hbound,
        hstored ▸ hkept.stored⟩
      cases hnode
    | some stored =>
      obtain ⟨hlimit, hcount⟩ := hkept.stored stored hstored
      exact ⟨reload_sound hcount hkept.sound (horderly stored hstored), hlimit, hstored ▸ hkept.stored⟩

theorem Reached.kept (hlimit : 0 ≤ limit) (hreached : Reached limit s h) :
  Kept limit s h
  := by
  induction hreached with
  | start =>
    refine ⟨⟨hlimit, fun id node hnode => ?_⟩, rfl, fun stored hstored => ?_⟩
    · cases hnode
    · cases hstored
  | step _ _ horderly hperform ih => apply ih.step hlimit horderly hperform

end Kept

def System.performAll (s : System) (calls : List Call) : Except Str System :=
  calls.foldlM System.perform s

end Courier.RollingUpgrade
