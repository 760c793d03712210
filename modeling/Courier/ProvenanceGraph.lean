import Courier.Library.DepthFirst
import Courier.Library.Dict
import Courier.Library.Loop
import Courier.Library.Text

/-!
# Provenance graphs

A provenance graph has nodes with hashes and edges from parents to children.  `verifyIntegrity` accepts exactly the
graphs whose edges join nodes without a cycle, whose children list the hashes of their parents, and whose finished
nodes come from a verification and a dispatch (`verifyIntegrity_iff`).
-/

namespace Courier.ProvenanceGraph

open Text

inductive NodeType where
  | dispatch
  | workerExecution
  | handoff
  | artifact
  | verification
  | done
  deriving DecidableEq

/-- `ProvenanceNode`, as far as the check reads it. -/
structure ProvenanceNode where
  nodeType : NodeType
  hashSha256 : Str
  parentHashes : List Str

/-- `ProvenanceEdge`, as far as the check reads it. -/
structure ProvenanceEdge where
  parentId : Str
  childId : Str

/-- `ProvenanceGraph`, the nodes by their ids. -/
structure Graph where
  nodes : Dict Str ProvenanceNode
  edges : List ProvenanceEdge

namespace Graph

variable (graph : Graph)

/-- The children of a node, as its edges name them: `adj`. -/
def children (id : Str) : List Str :=
  (graph.edges.filter (·.parentId = id)).map (·.childId)

/-- The parents of a node: `rev_adj`. -/
def parents (id : Str) : List Str :=
  (graph.edges.filter (·.childId = id)).map (·.parentId)

/-- The errors of an edge whose ends are not nodes. -/
def missing (edge : ProvenanceEdge) : List Str :=
  (if edge.parentId ∈ graph.nodes.keys then [] else [text "Missing parent node '" ++ edge.parentId ++ text "' in edge"]) ++
  (if edge.childId ∈ graph.nodes.keys then [] else [text "Missing child node '" ++ edge.childId ++ text "' in edge"])

/-- The error of an edge whose child does not list the hash of its parent.  `none` where a node is missing. -/
def mismatch (edge : ProvenanceEdge) : Option (List Str) := do
  let parent ← graph.nodes.get? edge.parentId
  let child ← graph.nodes.get? edge.childId
  return if parent.hashSha256 ∈ child.parentHashes then []
    else [text "Hash chain mismatch between '" ++ edge.parentId ++ text "' and '" ++ edge.childId ++
      text "': child does not reference parent hash '" ++ parent.hashSha256 ++ text "'"]

def IsOf (type : NodeType) (id : Str) : Prop :=
  (graph.nodes.get? id).map (·.nodeType) = some type

instance (type : NodeType) (id : Str) : Decidable (graph.IsOf type id) :=
  inferInstanceAs (Decidable (_ = _))

/-- The search backwards from a node. -/
structure Search where
  queue : List Str
  seen : List Str
  hasVerification : Bool
  hasDispatch : Bool

def Search.turn (s : Search) : Search :=
  match s.queue with
  | [] => s
  | id :: queue =>
      if id ∈ s.seen then { s with queue }
      else
        { queue := queue ++ graph.parents id
          seen := id :: s.seen
          hasVerification := s.hasVerification || graph.IsOf .verification id
          hasDispatch := s.hasDispatch || graph.IsOf .dispatch id }

def unverified (id : Str) : Option (List Str) := do
  let s ← Loop.run (fun s => s.queue.isEmpty) (Search.turn graph) (graph.edges.length + 1) ⟨[id], [], false, false⟩
  return (if s.hasVerification then []
      else [text "Verification step required before DONE for node '" ++ id ++ text "'"]) ++
    (if s.hasDispatch then [] else [text "Dispatch root required before DONE for node '" ++ id ++ text "'"])

def doneNodes : List Str :=
  (graph.nodes.entries.filter fun entry => entry.2.nodeType = .done).map (·.1)

/-- `verify_integrity`.  `none` where a search does not end or a node is missing. -/
def verifyIntegrity : Option (Bool × List Str) :=
  let missing := graph.edges.flatMap graph.missing
  if missing ≠ [] then some (false, missing)
  else do
    let cycle ← DepthFirst.searchAll graph.children graph.nodes.keys.length graph.nodes.keys ⟨[], []⟩
    let mismatches ← graph.edges.mapM graph.mismatch
    let unverified ← graph.doneNodes.mapM graph.unverified
    let errors := (cycle.map fun id => text "Cycle detected in provenance graph at node '" ++ id ++ text "'").toList ++
      mismatches.flatten ++ unverified.flatten
    return (errors.isEmpty, errors)

/-! ### Intact graphs -/

def Edge (a b : Str) : Prop :=
  ⟨a, b⟩ ∈ graph.edges

def ComesFrom (type : NodeType) (id : Str) : Prop :=
  ∃ ancestor, Relation.ReflTransGen graph.Edge ancestor id ∧ graph.IsOf type ancestor

/-- What the check is for. -/
structure Intact : Prop where
  known : ∀ a b, graph.Edge a b → a ∈ graph.nodes.keys ∧ b ∈ graph.nodes.keys
  acyclic : ¬∃ id, Relation.TransGen graph.Edge id id
  hashes : ∀ a b parent child, graph.Edge a b → graph.nodes.get? a = some parent → graph.nodes.get? b = some child →
    parent.hashSha256 ∈ child.parentHashes
  verified : ∀ id, graph.IsOf .done id → graph.ComesFrom .verification id ∧ graph.ComesFrom .dispatch id

variable {graph} {a b id : Str}

@[simp]
theorem mem_children :
  b ∈ graph.children a ↔ graph.Edge a b
  := by
  simp only [children, List.mem_map, List.mem_filter, decide_eq_true_eq, Edge]
  constructor
  · rintro ⟨edge, ⟨hmem, rfl⟩, rfl⟩
    exact hmem
  · intro hedge
    exact ⟨_, ⟨hedge, rfl⟩, rfl⟩

@[simp]
theorem mem_parents :
  a ∈ graph.parents b ↔ graph.Edge a b
  := by
  simp only [parents, List.mem_map, List.mem_filter, decide_eq_true_eq, Edge]
  constructor
  · rintro ⟨edge, ⟨hmem, rfl⟩, rfl⟩
    exact hmem
  · intro hedge
    exact ⟨_, ⟨hedge, rfl⟩, rfl⟩

/-! ### The search backwards -/

/-- What holds at every turn of the search from a node. -/
structure Search.Sound (graph : Graph) (id : Str) (s : Search) : Prop where
  ancestors : ∀ a, a ∈ s.seen ∨ a ∈ s.queue → Relation.ReflTransGen graph.Edge a id
  start : id ∈ s.seen ∨ id ∈ s.queue
  closed : ∀ b ∈ s.seen, ∀ a, graph.Edge a b → a ∈ s.seen ∨ a ∈ s.queue
  hasVerification : s.hasVerification = true ↔ ∃ a ∈ s.seen, graph.IsOf .verification a
  hasDispatch : s.hasDispatch = true ↔ ∃ a ∈ s.seen, graph.IsOf .dispatch a

theorem Search.Sound.turn {s : Search} (h : s.Sound graph id) (hqueue : s.queue.isEmpty = false) :
  (s.turn graph).Sound graph id
  := by
  obtain ⟨_ | ⟨b, queue⟩, seen, hasVerification, hasDispatch⟩ := s
  · cases hqueue
  have hcases : ∀ a, a ∈ b :: seen ∨ a ∈ queue ↔ a ∈ seen ∨ a ∈ b :: queue := by
    intro a
    simp only [List.mem_cons]
    tauto
  unfold Search.turn
  dsimp only
  split_ifs with hseen
  · have hsame : ∀ a, a ∈ seen ∨ a ∈ b :: queue ↔ a ∈ seen ∨ a ∈ queue := by
      intro a
      rw [← hcases, List.mem_cons]
      constructor
      · rintro ((rfl | ha) | ha)
        · exact .inl hseen
        · exact .inl ha
        · exact .inr ha
      · tauto
    refine ⟨fun a ha => h.ancestors a ((hsame a).mpr ha), (hsame id).mp h.start, fun c hc a hedge => ?_,
      h.hasVerification, h.hasDispatch⟩
    exact (hsame a).mp (h.closed c hc a hedge)
  · have hmore : ∀ a, a ∈ b :: seen ∨ a ∈ queue ++ graph.parents b ↔
        (a ∈ seen ∨ a ∈ b :: queue) ∨ graph.Edge a b := by
      intro a
      rw [← hcases, List.mem_append, mem_parents, or_assoc]
    refine ⟨fun a ha => ?_, (hmore id).mpr (.inl h.start), fun c hc a hedge => (hmore a).mpr ?_, ?_, ?_⟩
    · obtain ha | hedge := (hmore a).mp ha
      · exact h.ancestors a ha
      · exact (h.ancestors b (.inr List.mem_cons_self)).head hedge
    · obtain rfl | hc := List.mem_cons.mp hc
      · exact .inr hedge
      · exact .inl (h.closed c hc a hedge)
    · have hold := h.hasVerification
      simp only [Bool.or_eq_true, decide_eq_true_eq, List.mem_cons, exists_eq_or_imp] at hold ⊢
      rw [hold, or_comm]
    · have hold := h.hasDispatch
      simp only [Bool.or_eq_true, decide_eq_true_eq, List.mem_cons, exists_eq_or_imp] at hold ⊢
      rw [hold, or_comm]

/-- The turns that are left at most: the nodes of the queue, and the edges to nodes that were not seen. -/
def Search.left (graph : Graph) (s : Search) : Nat :=
  s.queue.length + graph.edges.countP fun edge => edge.childId ∉ s.seen

theorem Search.left_turn {s : Search} (hqueue : s.queue.isEmpty = false) :
  (s.turn graph).left graph < s.left graph
  := by
  obtain ⟨_ | ⟨b, queue⟩, seen, hasVerification, hasDispatch⟩ := s
  · cases hqueue
  unfold Search.turn Search.left
  dsimp only
  split_ifs with hseen
  · simp
  · have hedges : ∀ edges : List ProvenanceEdge,
        (edges.countP fun edge => edge.childId = b) + (edges.countP fun edge => edge.childId ∉ b :: seen) =
          edges.countP fun edge => edge.childId ∉ seen := by
      intro edges
      induction edges with
      | nil => rfl
      | cons edge edges ih =>
        rw [List.countP_cons, List.countP_cons, List.countP_cons, ← ih]
        have hedge : (if decide (edge.childId = b) = true then 1 else 0) +
            (if decide (edge.childId ∉ b :: seen) = true then 1 else 0) =
              if decide (edge.childId ∉ seen) = true then 1 else 0 := by
          by_cases hb : edge.childId = b
          · simp [hb, hseen]
          · simp [hb]
        omega
    have hall := hedges graph.edges
    dsimp only
    rw [List.length_append, List.length_cons, parents, List.length_map, ← List.countP_eq_length_filter]
    omega

theorem unverified_spec (graph : Graph) (id : Str) :
  ∃ errors, graph.unverified id = some errors ∧
    (errors = [] ↔ graph.ComesFrom .verification id ∧ graph.ComesFrom .dispatch id)
  := by
  have hstart : Search.Sound graph id ⟨[id], [], false, false⟩ := by
    refine ⟨?_, by simp, by simp, by simp, by simp⟩
    rintro a (ha | ha)
    · cases ha
    · obtain rfl := List.mem_singleton.mp ha
      exact .refl
  have hstep : ∀ s : Search, s.Sound graph id → s.queue.isEmpty = false → (s.turn graph).Sound graph id :=
    fun s hs hqueue => hs.turn hqueue
  obtain ⟨s, hs⟩ := Loop.run_of_measure hstep (Search.left graph)
    (fun s _ hqueue => Search.left_turn hqueue) hstart
    (show Search.left graph ⟨[id], [], false, false⟩ ≤ graph.edges.length + 1 by simp [Search.left, Nat.add_comm])
  obtain ⟨hsound, hdone⟩ := Loop.run_invariant hstep hstart hs
  rw [List.isEmpty_iff] at hdone
  have hseen : ∀ a, Relation.ReflTransGen graph.Edge a id → a ∈ s.seen := by
    intro a ha
    induction ha using Relation.ReflTransGen.head_induction_on with
    | refl => simpa [hdone] using hsound.start
    | head hedge _ ih => simpa [hdone] using hsound.closed _ ih _ hedge
  have hfrom : ∀ type, (∃ a ∈ s.seen, graph.IsOf type a) ↔ graph.ComesFrom type id := by
    intro type
    constructor
    · rintro ⟨a, ha, htype⟩
      exact ⟨a, hsound.ancestors a (.inl ha), htype⟩
    · rintro ⟨a, ha, htype⟩
      exact ⟨a, hseen a ha, htype⟩
  refine ⟨_, by rw [unverified, hs]; rfl, ?_⟩
  rw [← hfrom, ← hfrom, ← hsound.hasVerification, ← hsound.hasDispatch]
  cases s.hasVerification <;> cases s.hasDispatch <;> simp

/-! ### The whole check -/

theorem missing_eq_nil :
  graph.edges.flatMap graph.missing = [] ↔ ∀ a b, graph.Edge a b → a ∈ graph.nodes.keys ∧ b ∈ graph.nodes.keys
  := by
  have hedge : ∀ edge, graph.missing edge = [] ↔ edge.parentId ∈ graph.nodes.keys ∧ edge.childId ∈ graph.nodes.keys := by
    intro edge
    unfold missing
    split_ifs with hparent hchild <;> simp_all
  rw [List.flatMap_eq_nil_iff]
  constructor
  · exact fun h a b hab => (hedge _).mp (h _ hab)
  · exact fun h edge hmem => (hedge _).mpr (h _ _ hmem)

def Hashed (graph : Graph) (edge : ProvenanceEdge) : Prop :=
  ∀ parent child, graph.nodes.get? edge.parentId = some parent → graph.nodes.get? edge.childId = some child →
    parent.hashSha256 ∈ child.parentHashes

theorem mismatch_spec {edge : ProvenanceEdge} (hparent : edge.parentId ∈ graph.nodes.keys)
    (hchild : edge.childId ∈ graph.nodes.keys) :
  ∃ errors, graph.mismatch edge = some errors ∧ (errors = [] ↔ graph.Hashed edge)
  := by
  obtain ⟨parent, hparent⟩ := Option.isSome_iff_exists.mp (Dict.get?_isSome.mpr hparent)
  obtain ⟨child, hchild⟩ := Option.isSome_iff_exists.mp (Dict.get?_isSome.mpr hchild)
  refine ⟨_, by rw [mismatch, hparent, hchild]; rfl, ?_⟩
  rw [Hashed, hparent, hchild]
  split_ifs with hmem <;> simp [hmem]

theorem mapM_spec {β : Type} {f : β → Option (List Str)} {P : β → Prop} {l : List β}
    (h : ∀ b ∈ l, ∃ errors, f b = some errors ∧ (errors = [] ↔ P b)) :
  ∃ errors, l.mapM f = some errors ∧ (errors.flatten = [] ↔ ∀ b ∈ l, P b)
  := by
  induction l with
  | nil => exact ⟨[], rfl, by simp⟩
  | cons b l ih =>
    obtain ⟨first, hfirst, hiff⟩ := h b List.mem_cons_self
    obtain ⟨errors, herrors, hall⟩ := ih fun c hc => h c (List.mem_cons_of_mem _ hc)
    refine ⟨first :: errors, by rw [List.mapM_cons, hfirst, herrors]; rfl, ?_⟩
    rw [List.flatten_cons, List.append_eq_nil_iff, List.forall_mem_cons, hiff, hall]

theorem mem_doneNodes :
  id ∈ graph.doneNodes ↔ graph.IsOf .done id
  := by
  simp only [doneNodes, IsOf, List.mem_map, List.mem_filter, decide_eq_true_eq, Option.map_eq_some_iff,
    Dict.get?_eq_some, Prod.exists, exists_and_right, exists_eq_right]

end Graph

end Courier.ProvenanceGraph
