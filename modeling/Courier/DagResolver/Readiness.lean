import Courier.DagResolver
import Courier.WorkQueue
import Mathlib.Data.Finset.Basic
import Mathlib.Order.Defs.LinearOrder
import Mathlib.Data.List.Lex

/-!
# What is ready

The resolver goes through the ledger of the work queue, adds the items that are released with a result that does not
look like a failure to those that are completed, and takes away those that are claimed or released with one.
-/

namespace Courier.DagResolver

open Json Text WorkQueue

/-! ### Completed items -/

/-- The result of a release counts as a completion; what is no text is printed first. -/
def completes : Json → Bool
  | .str result =>
      let resStr := upper (strip result)
      resStr ≠ [] && !(startsWith resStr (text "FAIL") || startsWith resStr (text "ABORT")
        || startsWith resStr (text "ERROR") || startsWith resStr (text "REJECT"))
  | value => value.truthy

def note (completed : Finset Str) (ev : Members) : Finset Str :=
  match get ev (text "item_id") with
  | .str itemId =>
      if itemId = [] then completed
      else if get ev (text "status") = .str (text "DONE") then insert itemId completed
      else if get ev (text "type") = .str (text "RELEASE") then
        if completes (get ev (text "result")) then insert itemId completed else completed.erase itemId
      else if get ev (text "type") = .str (text "CLAIM") then completed.erase itemId
      else completed
  | _ => completed

def noteLine (reader : Reader) (completed : Finset Str) (line : Str) : Finset Str :=
  if strip line = [] then completed
  else match reader (strip line) with
    | .ok (.obj ev) => note completed ev
    | _ => completed

def loadCompletedFromLedger (reader : Reader) (raw : Bytes) : Option (Finset Str) :=
  raw.splitLines.foldlM (fun completed line => line.decode.map (noteLine reader completed)) ∅

/-! ### Readiness -/

variable {α : Type} [LinearOrder α]

structure ReadinessReport (α : Type) where
  eligibleItems : List α
  blockedItems : Dict α (List α)

def missing (completed : Finset α) (deps : List α) : List α :=
  deps.filter fun d => d ∉ completed

def ReadinessReport.add (completed : Finset α) (report : ReadinessReport α) (p : α × List α) :
    ReadinessReport α :=
  if missing completed p.2 = [] then { report with eligibleItems := report.eligibleItems ++ [p.1] }
  else { report with blockedItems := report.blockedItems.set p.1 (missing completed p.2) }

def evaluateReadiness (graph : Graph α) (completed : Finset α) : ReadinessReport α :=
  let report := graph.entries.foldl (ReadinessReport.add completed) ⟨[], ∅⟩
  { report with eligibleItems := sorted report.eligibleItems }

def loadItems (catalog : Catalog) : Graph Str :=
  catalog.items.map Item.dependsOn

variable {graph : Graph α} {completed : Finset α} {id : α}

theorem mem_eligibleItems :
  id ∈ (evaluateReadiness graph completed).eligibleItems ↔
    ∃ deps, graph.get? id = some deps ∧ ∀ d ∈ deps, d ∈ completed
  := by
  have hfold : ∀ (entries : List (α × List α)) (report : ReadinessReport α),
      id ∈ (entries.foldl (ReadinessReport.add completed) report).eligibleItems ↔
        id ∈ report.eligibleItems ∨ ∃ deps, (id, deps) ∈ entries ∧ ∀ d ∈ deps, d ∈ completed := by
    intro entries
    induction entries with
    | nil => simp
    | cons p entries ih =>
      intro report
      obtain ⟨node, deps⟩ := p
      have hmissing : missing completed deps = [] ↔ ∀ d ∈ deps, d ∈ completed := by
        simp [missing]
      rw [List.foldl_cons, ih, ReadinessReport.add]
      split_ifs with hfree
      · simp only [List.mem_append, List.mem_cons, List.not_mem_nil, or_false, Prod.mk.injEq]
        constructor
        · rintro ((hin | rfl) | ⟨deps', hin, hdone⟩)
          · exact .inl hin
          · exact .inr ⟨deps, .inl ⟨rfl, rfl⟩, hmissing.mp hfree⟩
          · exact .inr ⟨deps', .inr hin, hdone⟩
        · rintro (hin | ⟨deps', ⟨rfl, rfl⟩ | hin, hdone⟩)
          · exact .inl (.inl hin)
          · exact .inl (.inr rfl)
          · exact .inr ⟨deps', hin, hdone⟩
      · simp only [List.mem_cons, Prod.mk.injEq]
        constructor
        · rintro (hin | ⟨deps', hin, hdone⟩)
          · exact .inl hin
          · exact .inr ⟨deps', .inr hin, hdone⟩
        · rintro (hin | ⟨deps', ⟨rfl, rfl⟩ | hin, hdone⟩)
          · exact .inl hin
          · exact absurd (hmissing.mpr hdone) hfree
          · exact .inr ⟨deps', hin, hdone⟩
  simp only [evaluateReadiness, sorted, List.mem_insertionSort, hfold, List.not_mem_nil, false_or,
    Dict.get?_eq_some]

/-- The items that are blocked, with what they miss. -/
theorem get?_blockedItems :
  (evaluateReadiness graph completed).blockedItems.get? id =
    ((graph.get? id).map (missing completed)).filter fun l => l ≠ []
  := by
  have hfold : ∀ (entries : List (α × List α)) (report : ReadinessReport α),
      (entries.map Prod.fst).Nodup → (∀ p ∈ entries, report.blockedItems.get? p.1 = none) →
      (entries.foldl (ReadinessReport.add completed) report).blockedItems.get? id =
        match entries.lookup id with
        | some deps => if missing completed deps = [] then none else some (missing completed deps)
        | none => report.blockedItems.get? id := by
    intro entries
    induction entries with
    | nil => simp
    | cons p entries ih =>
      intro report hnodup hnone
      obtain ⟨node, deps⟩ := p
      rw [List.map_cons, List.nodup_cons] at hnodup
      obtain ⟨hnode, hnodup⟩ := hnodup
      have hrest : ∀ q ∈ entries, (report.add completed (node, deps)).blockedItems.get? q.1 = none := by
        intro q hq
        have hne : q.1 ≠ node := fun heq => hnode (List.mem_map.mpr ⟨q, hq, heq⟩)
        rw [ReadinessReport.add]
        split_ifs
        · exact hnone q (List.mem_cons_of_mem _ hq)
        · rw [Dict.get?_set, if_neg hne]
          exact hnone q (List.mem_cons_of_mem _ hq)
      rw [List.foldl_cons, ih _ hnodup hrest, List.lookup_cons]
      by_cases hid : id = node
      · subst hid
        have hlookup : entries.lookup id = none := by
          rw [List.lookup_eq_none_iff]
          intro q hq
          simpa using fun heq : id = q.1 => hnode (List.mem_map.mpr ⟨q, hq, heq.symm⟩)
        have hfresh := hnone (id, deps) (List.mem_cons_self ..)
        simp only [hlookup, beq_self_eq_true, ReadinessReport.add]
        split_ifs with hfree
        · exact hfresh
        · rw [Dict.get?_set, if_pos rfl]
      · have hbeq : (id == node) = false := by simpa using hid
        rw [hbeq]
        cases hlookup : entries.lookup id with
        | some deps' => rfl
        | none =>
          dsimp only [ReadinessReport.add]
          split_ifs
          · rfl
          · rw [Dict.get?_set, if_neg hid]
  rw [evaluateReadiness, hfold _ _ graph.nodup (fun _ _ => rfl)]
  change _ = ((graph.entries.lookup id).map (missing completed)).filter _
  cases graph.entries.lookup id with
  | none => rfl
  | some deps =>
    dsimp only [Option.map_some]
    split_ifs with hfree
    · rw [hfree]
      rfl
    · rw [Option.filter_some, if_pos (by simpa using hfree)]

def Unblocked (report : ReadinessReport α) (id : α) : Prop :=
  id ∈ report.eligibleItems ∧ report.blockedItems.get? id = none

theorem unblocked_iff {deps : List α}
    (h : (id, deps) ∈ graph.entries) :
  Unblocked (evaluateReadiness graph completed) id ↔ ∀ d ∈ deps, d ∈ completed
  := by
  rw [Unblocked, mem_eligibleItems, get?_blockedItems, Dict.get?_eq_some.mpr h, Option.map_some]
  constructor
  · rintro ⟨⟨_, heq, hdone⟩, -⟩
    obtain rfl := Option.some.inj heq
    exact hdone
  · intro hdone
    have hmissing : missing completed deps = [] := by simpa [missing] using hdone
    exact ⟨⟨deps, rfl, hdone⟩, by rw [hmissing]; rfl⟩

end Courier.DagResolver
