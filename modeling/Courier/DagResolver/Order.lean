import Courier.DagResolver
import Courier.Library.Layers
import Courier.Library.Text
import Mathlib.Data.Finset.Lattice.Fold
import Mathlib.Data.List.Perm.Subperm
import Mathlib.Order.Lattice.Nat

/-!
# Which graphs the resolver orders

The resolver orders a graph exactly if it has no cycle and no item lists a known item twice (`resolve_cases`), and then
rightly (`Resolved`).  A repeated entry adds two to a degree of which one is taken away, so that a cycle is reported
where there is none (`correct_iff`).
-/

namespace Courier.DagResolver

open Layers

variable {α : Type} [LinearOrder α] {graph : Graph α}

/-! ### Dependencies -/

def known (graph : Graph α) (node : α) : List α :=
  ((graph.get? node).getD []).filter fun d => d ∈ graph.keys

def Depends (graph : Graph α) (d node : α) : Prop :=
  d ∈ known graph node

variable {node : α}

theorem mem_keys_of_depends {d : α} (h : Depends graph d node) :
  d ∈ graph.keys ∧ node ∈ graph.keys
  := by
  obtain ⟨hmem, hd⟩ := List.mem_filter.mp h
  refine ⟨by simpa using hd, ?_⟩
  rw [← Dict.get?_isSome]
  cases hget : graph.get? node with
  | none =>
    rw [hget] at hmem
    cases hmem
  | some deps => rfl

/-! ### The degrees of a graph -/

@[simp]
theorem degree_set (d : Dict α Int) (k n : α) (i : Int) :
  degree (d.set k i) n = if n = k then i else degree d n
  := by
  by_cases h : n = k <;> simp [degree, h]

@[simp]
theorem dependentsOf_set (d : Dict α (List α)) (k n : α) (l : List α) :
  dependentsOf (d.set k l) n = if n = k then l else dependentsOf d n
  := by
  by_cases h : n = k <;> simp [dependentsOf, h]

theorem get?_filled {β : Type} (v : β) (nodes : List α) (n : α) :
  (nodes.foldl (fun d k => d.set k v) (∅ : Dict α β)).get? n = if n ∈ nodes then some v else none
  := by
  induction nodes using List.reverseRecOn with
  | nil => simp
  | append_singleton nodes k ih =>
    rw [List.foldl_concat, Dict.get?_set, ih]
    by_cases hk : n = k <;> simp [hk]

variable {nodes : List α}

theorem keys_filled {β : Type} (v : β) (h : nodes.Nodup) :
  (nodes.foldl (fun d k => d.set k v) (∅ : Dict α β)).keys = nodes
  := by
  induction nodes using List.reverseRecOn with
  | nil => rfl
  | append_singleton nodes k ih =>
    rw [List.nodup_append] at h
    rw [List.foldl_concat, Dict.keys_set, ih h.1, if_neg]
    intro hk
    exact h.2.2 k hk k (by simp) rfl

/-- What the entries that were read say: `count` gives the entries of each node, and `edge` the nodes
that wait for a node. -/
structure Counted (s : Degrees α) (nodes : List α) (count : α → Nat) (edge : α → α → Prop) : Prop where
  keys : s.inDegree.keys = nodes
  counted : ∀ n, degree s.inDegree n = count n
  nodup : ∀ d, (dependentsOf s.dependents d).Nodup
  edge : ∀ d n, n ∈ dependentsOf s.dependents d ↔ edge d n

theorem counted_fresh (h : nodes.Nodup) :
  Counted (Degrees.fresh nodes) nodes (fun _ => 0) fun _ _ => False
  where
  keys := keys_filled 0 h
  counted := by
    intro n
    rw [degree, Degrees.fresh, get?_filled]
    by_cases hn : n ∈ nodes <;> simp [hn]
  nodup := by
    intro d
    rw [dependentsOf, Degrees.fresh, get?_filled]
    by_cases hd : d ∈ nodes <;> simp [hd]
  edge := by
    intro d n
    rw [dependentsOf, Degrees.fresh, get?_filled]
    by_cases hd : d ∈ nodes <;> simp [hd]

theorem Counted.add {s : Degrees α} {count : α → Nat} {edge : α → α → Prop}
    (h : Counted s nodes count edge) (hnode : node ∈ nodes) (d : α) :
  Counted (s.add nodes node d) nodes
    (fun n => count n + if n = node ∧ d ∈ nodes then 1 else 0)
    fun d' n => edge d' n ∨ d' = d ∧ n = node ∧ d ∈ nodes
  := by
  by_cases hd : d ∈ nodes
  · rw [Degrees.add, if_pos hd]
    refine ⟨?_, ?_, ?_, ?_⟩
    · rw [Dict.keys_set, h.keys, if_pos hnode]
    · intro n
      by_cases hn : n = node
      · simp [hn, hd, h.counted]
      · simp [hn, h.counted]
    · intro d'
      by_cases hd' : d' = d
      · simpa [hd'] using (h.nodup d).insert
      · simpa [hd'] using h.nodup d'
    · intro d' n
      by_cases hd' : d' = d
      · simp [hd', hd, h.edge, or_comm]
      · simp [hd', h.edge]
  · rw [Degrees.add, if_neg hd]
    simpa [hd] using h

theorem Counted.addAll {s : Degrees α} {count : α → Nat} {edge : α → α → Prop}
    (h : Counted s nodes count edge) (hnode : node ∈ nodes) (deps : List α) :
  Counted (deps.foldl (Degrees.add nodes node) s) nodes
    (fun n => count n + if n = node then (deps.filter fun d => d ∈ nodes).length else 0)
    fun d n => edge d n ∨ n = node ∧ d ∈ deps ∧ d ∈ nodes
  := by
  induction deps using List.reverseRecOn with
  | nil => simpa using h
  | append_singleton deps d ih =>
    rw [List.foldl_concat]
    have hadd := ih.add hnode d
    refine ⟨hadd.keys, ?_, hadd.nodup, ?_⟩
    · intro n
      rw [hadd.counted]
      by_cases hn : n = node <;> by_cases hd : d ∈ nodes <;> simp [hn, hd, Int.add_assoc]
    · intro d' n
      rw [hadd.edge]
      constructor
      · rintro ((hold | ⟨rfl, hmem, hd'⟩) | ⟨rfl, rfl, hd⟩)
        · exact .inl hold
        · exact .inr ⟨rfl, by simp [hmem], hd'⟩
        · exact .inr ⟨rfl, by simp, hd⟩
      · rintro (hold | ⟨rfl, hmem, hd'⟩)
        · exact .inl (.inl hold)
        · rcases List.mem_append.mp hmem with hmem | hmem
          · exact .inl (.inr ⟨rfl, hmem, hd'⟩)
          · obtain rfl := List.mem_singleton.mp hmem
            exact .inr ⟨rfl, rfl, hd'⟩

theorem counted_ofGraph (graph : Graph α) :
  Counted (Degrees.ofGraph graph) graph.keys (fun n => (known graph n).length) (Depends graph)
  := by
  have hprefix : ∀ entries : List (α × List α), entries <+: graph.entries →
      Counted (entries.foldl (fun s p => p.2.foldl (Degrees.add graph.keys p.1) s)
        (Degrees.fresh graph.keys)) graph.keys
        (fun n => (((entries.lookup n).getD []).filter fun d => d ∈ graph.keys).length)
        fun d n => d ∈ ((entries.lookup n).getD []).filter fun d => d ∈ graph.keys := by
    intro entries hentries
    induction entries using List.reverseRecOn with
    | nil =>
      have hkeys : graph.keys.Nodup := graph.nodup
      simpa using counted_fresh hkeys
    | append_singleton entries p ih =>
      obtain ⟨node, deps⟩ := p
      have hnodup := (hentries.map Prod.fst).sublist.nodup graph.nodup
      rw [List.map_append, List.nodup_append] at hnodup
      have hnew : entries.lookup node = none := by
        apply List.lookup_eq_none_iff.mpr
        intro q hq
        simpa using Ne.symm (hnodup.2.2 q.1 (List.mem_map_of_mem hq) node (by simp))
      have hmem : node ∈ graph.keys := List.mem_map.mpr ⟨(node, deps), hentries.subset (by simp), rfl⟩
      have hlookup : ∀ n, (entries ++ [(node, deps)]).lookup n =
          if n = node then some deps else entries.lookup n := by
        intro n
        rw [List.lookup_append]
        by_cases hn : n = node
        · subst hn
          simp [hnew]
        · have hb : (n == node) = false := by simp [hn]
          simp [List.lookup_cons, hn, hb]
      have hall := (ih ((List.prefix_append entries [(node, deps)]).trans hentries)).addAll hmem deps
      rw [List.foldl_concat]
      refine ⟨hall.keys, ?_, hall.nodup, ?_⟩
      · intro n
        rw [hall.counted, hlookup]
        by_cases hn : n = node
        · subst hn
          simp [hnew]
        · simp [hn]
      · intro d n
        rw [hall.edge, hlookup]
        by_cases hn : n = node
        · subst hn
          simp [hnew]
        · simp [hn]
  exact hprefix graph.entries (List.prefix_refl _)

/-! ### A stage -/

/-- The nodes that are freed by a list of releases, none of which waits for fewer entries than it is
released from. -/
theorem release_foldl (l : List α) (s : Pass α)
    (h : ∀ n, (l.count n : Int) ≤ degree s.inDegree n) :
  (∀ n, degree (l.foldl release s).inDegree n = degree s.inDegree n - l.count n) ∧
    ∃ freed, (l.foldl release s).nextQ = s.nextQ ++ freed ∧ freed.Nodup ∧
      ∀ n, n ∈ freed ↔ n ∈ l ∧ degree s.inDegree n = l.count n
  := by
  induction l generalizing s with
  | nil => exact ⟨by simp, [], by simp, List.nodup_nil, by simp⟩
  | cons dep l ih =>
    have hdegree : ∀ n, degree (release s dep).inDegree n =
        degree s.inDegree n - if n = dep then 1 else 0 := by
      intro n
      by_cases hn : n = dep <;> simp [release, hn]
    have hcount : ∀ n, ((dep :: l).count n : Int) = l.count n + if n = dep then 1 else 0 := by
      intro n
      by_cases hn : n = dep
      · simp [hn]
      · simp [hn, List.count_cons_of_ne (Ne.symm hn)]
    obtain ⟨hafter, freed, hnext, hnodup, hfreed⟩ := ih (release s dep) (by
      intro n
      have hn := h n
      rw [hcount] at hn
      rw [hdegree]
      omega)
    rw [List.foldl_cons]
    refine ⟨?_, ?_⟩
    · intro n
      rw [hafter, hdegree, hcount]
      omega
    · by_cases hleft : degree s.inDegree dep - 1 = 0
      · have hlast : dep ∉ freed := by
          intro hdep
          obtain ⟨hmem, hcounted⟩ := (hfreed dep).mp hdep
          have hpos := List.count_pos_iff.mpr hmem
          rw [hdegree, if_pos rfl] at hcounted
          omega
        refine ⟨dep :: freed, ?_, List.nodup_cons.mpr ⟨hlast, hnodup⟩, ?_⟩
        · rw [hnext, release, if_pos hleft, List.append_assoc, List.singleton_append]
        · intro n
          rw [List.mem_cons, List.mem_cons, hfreed, hdegree, hcount]
          by_cases hn : n = dep
          · subst hn
            have hzero : l.count n = 0 := by
              have hn := h n
              rw [hcount, if_pos rfl] at hn
              omega
            simp only [true_or, true_and, true_iff, hzero, if_true]
            omega
          · simp [hn]
      · refine ⟨freed, ?_, hnodup, ?_⟩
        · rw [hnext, release, if_neg hleft]
        · intro n
          rw [hfreed, hdegree, hcount, List.mem_cons]
          by_cases hn : n = dep
          · subst hn
            simp only [true_or, true_and, if_true]
            constructor
            · rintro ⟨-, heq⟩
              omega
            · intro heq
              refine ⟨List.count_pos_iff.mp ?_, by omega⟩
              have hn := h n
              omega
          · simp [hn]

theorem count_flatMap_sorted {dependents : Dict α (List α)}
    (hnodup : ∀ d, (dependentsOf dependents d).Nodup) (current : List α) (n : α) :
  (current.flatMap fun d => sorted (dependentsOf dependents d)).count n =
    (current.filter fun d => n ∈ dependentsOf dependents d).length
  := by
  induction current with
  | nil => rfl
  | cons d current ih =>
    have hperm : (sorted (dependentsOf dependents d)).Perm (dependentsOf dependents d) :=
      List.perm_insertionSort _ _
    rw [List.flatMap_cons, List.count_append, ih, hperm.count_eq, List.filter_cons,
      (hnodup d).count]
    by_cases hn : n ∈ dependentsOf dependents d
    · simp [hn, Nat.add_comm]
    · simp [hn]

/-! ### The loop -/

/-- The stages that were taken away are layers, the next one is `q`, and the degrees count what is left
to wait for. -/
structure Peeled (graph : Graph α) (s : Pass α) (stages : List (List α)) : Prop where
  layered : Layered (Depends graph) stages
  nodup : s.nextQ.Nodup
  new : ∀ n ∈ s.nextQ, n ∉ stages.flatten
  inside : ∀ n ∈ stages.flatten ++ s.nextQ, n ∈ graph.keys
  waits : ∀ n, degree s.inDegree n =
    (known graph n).length - (stages.flatten.filter fun d => d ∈ known graph n).length
  free : ∀ n ∈ graph.keys, degree s.inDegree n = 0 ↔ n ∈ stages.flatten ∨ n ∈ s.nextQ
  tight : ∀ n ∈ s.nextQ, ∀ last ∈ stages.getLast?, ∃ d ∈ last, Depends graph d n

variable (graph) in
theorem subperm_known {l : List α} (hl : l.Nodup) (n : α) :
  (l.filter fun d => d ∈ known graph n).Subperm (known graph n)
  := by
  apply List.subperm_of_subset (hl.filter _)
  intro d hd
  simpa using (List.mem_filter.mp hd).2

variable {s : Pass α} {stages : List (List α)}

theorem Peeled.met (h : Peeled graph s stages) {n : α}
    (hn : degree s.inDegree n = 0) :
  (known graph n).Nodup ∧ ∀ d, Depends graph d n → d ∈ stages.flatten
  := by
  have hperm := (subperm_known graph h.layered.nodup n).perm_of_length_le (by
    have hdegree := h.waits n
    omega)
  refine ⟨hperm.nodup (h.layered.nodup.filter _), ?_⟩
  intro d hd
  exact (List.mem_filter.mp (hperm.mem_iff.mpr hd)).1

theorem Peeled.degree_eq_zero (h : Peeled graph s stages) {n : α}
    (hnodup : (known graph n).Nodup) (hmet : ∀ d, Depends graph d n → d ∈ stages.flatten) :
  degree s.inDegree n = 0
  := by
  have hsub : (known graph n).Subperm (stages.flatten.filter fun d => d ∈ known graph n) := by
    apply List.subperm_of_subset hnodup
    intro d hd
    exact List.mem_filter.mpr ⟨hmet d hd, by simpa using hd⟩
  have hle := (subperm_known graph h.layered.nodup n).length_le
  have hge := hsub.length_le
  rw [h.waits]
  omega

/-- The start of the loop. -/
theorem peeled_ofGraph (graph : Graph α) :
  Peeled graph
    ⟨(Degrees.ofGraph graph).inDegree,
      ((Degrees.ofGraph graph).inDegree.entries.filter fun p => p.2 = 0).map Prod.fst⟩ []
  := by
  have hcounted := counted_ofGraph graph
  have hq : ∀ n, n ∈ ((Degrees.ofGraph graph).inDegree.entries.filter fun p => p.2 = 0).map
      Prod.fst ↔ n ∈ graph.keys ∧ degree (Degrees.ofGraph graph).inDegree n = 0 := by
    intro n
    rw [List.mem_map]
    constructor
    · rintro ⟨⟨_, i⟩, hp, rfl⟩
      obtain ⟨hmem, hzero⟩ := List.mem_filter.mp hp
      obtain rfl : i = 0 := by simpa using hzero
      refine ⟨?_, ?_⟩
      · rw [← hcounted.keys]
        exact List.mem_map.mpr ⟨_, hmem, rfl⟩
      · rw [degree, Dict.get?_eq_some.mpr hmem]
        rfl
    · rintro ⟨hn, hzero⟩
      rw [← hcounted.keys, ← Dict.get?_isSome] at hn
      obtain ⟨i, hi⟩ := Option.isSome_iff_exists.mp hn
      rw [degree, hi, Option.getD_some] at hzero
      subst hzero
      exact ⟨(n, 0), List.mem_filter.mpr ⟨Dict.get?_eq_some.mp hi, by simp⟩, rfl⟩
  exact {
    layered := .nil
    nodup := (List.filter_sublist.map Prod.fst).nodup (Degrees.ofGraph graph).inDegree.nodup
    new := by simp
    inside := by
      intro n hn
      rw [List.flatten_nil, List.nil_append, hq] at hn
      exact hn.1
    waits := by
      intro n
      rw [hcounted.counted]
      simp
    free := by
      intro n hn
      rw [hq]
      simp [hn]
    tight := by simp }

/-- A stage takes away the nodes that wait for nothing. -/
theorem Peeled.stage (h : Peeled graph s stages) :
  Peeled graph
    ((sorted s.nextQ).foldl (visit (Degrees.ofGraph graph).dependents) { s with nextQ := [] })
    (stages ++ [sorted s.nextQ])
  := by
  have hcounted := counted_ofGraph graph
  have hperm : (sorted s.nextQ).Perm s.nextQ := List.perm_insertionSort _ _
  generalize sorted s.nextQ = current at hperm
  generalize hl : (current.flatMap fun d =>
    sorted (dependentsOf (Degrees.ofGraph graph).dependents d)) = l
  have hfold : current.foldl (visit (Degrees.ofGraph graph).dependents) { s with nextQ := [] } =
      l.foldl release { s with nextQ := [] } := by
    rw [← hl, List.foldl_flatMap]
    rfl
  have hnodup : (stages.flatten ++ current).Nodup := by
    rw [List.nodup_append]
    refine ⟨h.layered.nodup, hperm.nodup_iff.mpr h.nodup, ?_⟩
    rintro n hn _ hcurrent rfl
    exact h.new n (hperm.mem_iff.mp hcurrent) hn
  have hcount : ∀ n, l.count n = (current.filter fun d => d ∈ known graph n).length := by
    intro n
    rw [← hl, count_flatMap_sorted hcounted.nodup]
    apply congrArg
    apply List.filter_congr
    intro d _
    rw [decide_eq_decide]
    exact hcounted.edge d n
  have hmem : ∀ n, n ∈ l ↔ ∃ d ∈ current, Depends graph d n := by
    intro n
    rw [← hl, List.mem_flatMap]
    constructor
    · rintro ⟨d, hd, hn⟩
      exact ⟨d, hd, (hcounted.edge d n).mp ((List.mem_insertionSort _).mp hn)⟩
    · rintro ⟨d, hd, hn⟩
      exact ⟨d, hd, (List.mem_insertionSort _).mpr ((hcounted.edge d n).mpr hn)⟩
  have hbound : ∀ n, (l.count n : Int) ≤ degree s.inDegree n := by
    intro n
    have hle := (subperm_known graph hnodup n).length_le
    rw [List.filter_append, List.length_append] at hle
    rw [hcount, h.waits]
    omega
  obtain ⟨hafter, freed, hnext, hfreed, hin⟩ := release_foldl l { s with nextQ := [] } hbound
  rw [List.nil_append] at hnext
  have hpositive : ∀ n ∈ freed, n ∈ graph.keys ∧ degree s.inDegree n ≠ 0 := by
    intro n hn
    obtain ⟨hnl, heq⟩ := (hin n).mp hn
    obtain ⟨d, -, hdep⟩ := (hmem n).mp hnl
    have hpos := List.count_pos_iff.mpr hnl
    dsimp only at heq
    exact ⟨(mem_keys_of_depends hdep).2, by omega⟩
  rw [hfold]
  exact {
    layered := by
      apply h.layered.concat (hperm.nodup_iff.mpr h.nodup)
      · intro n hn
        exact h.new n (hperm.mem_iff.mp hn)
      · intro n hn
        have hq := hperm.mem_iff.mp hn
        exact (h.met ((h.free n (h.inside n (List.mem_append_right _ hq))).mpr (.inr hq))).2
      · intro n hn
        exact h.tight n (hperm.mem_iff.mp hn)
    nodup := hnext ▸ hfreed
    new := by
      intro n hn
      rw [hnext] at hn
      obtain ⟨hkey, hwaits⟩ := hpositive n hn
      have hnot := mt (h.free n hkey).mpr hwaits
      rw [not_or] at hnot
      rw [List.flatten_concat, List.mem_append, hperm.mem_iff, not_or]
      exact hnot
    inside := by
      intro n hn
      rw [hnext, List.flatten_concat, List.mem_append, List.mem_append, hperm.mem_iff,
        ← List.mem_append] at hn
      rcases hn with hn | hn
      · exact h.inside n hn
      · exact (hpositive n hn).1
    waits := by
      intro n
      rw [hafter, List.flatten_concat, List.filter_append, List.length_append, ← hcount, h.waits]
      push_cast
      omega
    free := by
      intro n hn
      rw [hafter, hnext, List.flatten_concat, List.mem_append, hperm.mem_iff, ← h.free n hn, hin]
      have hle := hbound n
      have hpos := List.count_pos_iff (l := l) (a := n)
      dsimp only
      constructor
      · intro hzero
        by_cases hnl : n ∈ l
        · exact .inr ⟨hnl, by omega⟩
        · have hnone := List.count_eq_zero.mpr hnl
          left
          omega
      · rintro (hzero | ⟨-, heq⟩)
        · omega
        · omega
    tight := by
      intro n hn last hlast
      rw [hnext] at hn
      rw [List.getLast?_concat, Option.mem_some_iff] at hlast
      subst hlast
      exact (hmem n).mp ((hin n).mp hn).1 }

theorem Peeled.length_le (h : Peeled graph s stages) :
  stages.flatten.length ≤ graph.keys.length
  := by
  apply (List.subperm_of_subset h.layered.nodup _).length_le
  intro n hn
  exact h.inside n (List.mem_append_left _ hn)

theorem loop_ends (fuel : Nat) (h : Peeled graph s stages)
    (hfuel : graph.keys.length < fuel + stages.flatten.length) :
  ∃ s' stages',
    loop (Degrees.ofGraph graph).dependents fuel s stages stages.flatten =
      some (s'.inDegree, stages', stages'.flatten) ∧
    Peeled graph s' stages' ∧ s'.nextQ = []
  := by
  induction fuel generalizing s stages with
  | zero => exact absurd h.length_le (by omega)
  | succ fuel ih =>
    by_cases hq : s.nextQ = []
    · exact ⟨s, stages, by rw [loop, if_pos hq], h, hq⟩
    · have hlength : (sorted s.nextQ).length = s.nextQ.length := List.length_insertionSort _ _
      have hpos := List.length_pos_iff.mpr hq
      rw [loop, if_neg hq]
      dsimp only
      rw [← List.flatten_concat]
      apply ih h.stage
      rw [List.flatten_concat, List.length_append, hlength]
      omega

/-! ### The report -/

/-- Every item comes once, behind all known items it depends on, and its stage is one more than the largest of theirs.
-/
structure Resolved (graph : Graph α) (report : DAGResolutionReport α) : Prop where
  acyclic : report.isAcyclic = true
  items : report.itemDependencies = graph
  perm : report.executionOrder.Perm graph.keys
  after : ∀ node ∈ graph.keys, ∀ d, Depends graph d node →
    report.executionOrder.idxOf d < report.executionOrder.idxOf node
  partition : report.stages.flatten = report.executionOrder
  stage : ∀ node ∈ graph.keys, stageOf report.stages node =
    (known graph node).toFinset.sup fun d => stageOf report.stages d + 1

theorem stageOf_eq_sup (h : Layered (Depends graph) stages)
    (hnode : node ∈ stages.flatten) :
  stageOf stages node = (known graph node).toFinset.sup fun d => stageOf stages d + 1
  := by
  apply le_antisymm
  · by_cases hzero : stageOf stages node = 0
    · rw [hzero]
      exact Nat.zero_le _
    · obtain ⟨d, hdep, hstage⟩ := h.exists_dep hnode hzero
      rw [hstage]
      exact Finset.le_sup (f := fun d => stageOf stages d + 1) (List.mem_toFinset.mpr hdep)
  · apply Finset.sup_le
    intro d hd
    exact h.stageOf_lt_stageOf hnode (List.mem_toFinset.mp hd)

/-- The resolver answers, and orders a graph exactly if it has no cycle and no item lists a known item
twice. -/
theorem resolve_cases (graph : Graph α) :
  (∃ report, resolve graph = some (.ok report) ∧ Resolved graph report ∧
      ¬ Cyclic (Depends graph) ∧ ∀ node ∈ graph.keys, (known graph node).Nodup) ∨
    (∃ e, resolve graph = some (.error e)) ∧
      (Cyclic (Depends graph) ∨ ∃ node ∈ graph.keys, ¬ (known graph node).Nodup)
  := by
  obtain ⟨s, stages, hloop, h, hempty⟩ := loop_ends (graph.keys.length + 1)
    (peeled_ofGraph graph) (by simp)
  rw [List.flatten_nil] at hloop
  have hfree : ∀ n ∈ graph.keys, degree s.inDegree n = 0 ↔ n ∈ stages.flatten := by
    intro n hn
    rw [h.free n hn, hempty]
    simp
  have hsubset : stages.flatten ⊆ graph.keys := by
    intro n hn
    exact h.inside n (List.mem_append_left _ hn)
  by_cases hall : stages.flatten.length = graph.keys.length
  · left
    have hperm : stages.flatten.Perm graph.keys :=
      (List.subperm_of_subset h.layered.nodup hsubset).perm_of_length_le hall.ge
    refine ⟨⟨true, stages.flatten, stages, graph⟩, ?_, ?_, ?_, ?_⟩
    · rw [resolve, hloop]
      simp [hall]
    · exact {
        acyclic := rfl
        items := rfl
        perm := hperm
        after := fun node hnode d hdep => h.layered.idxOf_lt (hperm.mem_iff.mpr hnode) hdep
        partition := rfl
        stage := fun node hnode => stageOf_eq_sup h.layered (hperm.mem_iff.mpr hnode) }
    · apply h.layered.not_cyclic
      intro d n hdep
      exact hperm.mem_iff.mpr (mem_keys_of_depends hdep).2
    · intro node hnode
      exact (h.met ((hfree node hnode).mpr (hperm.mem_iff.mpr hnode))).1
  · right
    refine ⟨⟨⟨(s.inDegree.entries.filter fun p => 0 < p.2).map Prod.fst⟩, ?_⟩, ?_⟩
    · rw [resolve, hloop]
      exact if_pos hall
    · by_contra hnone
      simp only [not_or, not_exists, not_and, not_not] at hnone
      obtain ⟨hacyclic, hnodup⟩ := hnone
      -- what is left over is stuck
      apply hacyclic
      apply cyclic_of_stuck (s := graph.keys.filter fun n => n ∉ stages.flatten)
      · intro hnil
        rw [List.filter_eq_nil_iff] at hnil
        have hperm : graph.keys.Subperm stages.flatten := by
          apply List.subperm_of_subset graph.nodup
          intro n hn
          simpa using hnil n hn
        have hge := hperm.length_le
        have hle := h.length_le
        omega
      · intro n hn
        obtain ⟨hkey, hleft⟩ := List.mem_filter.mp hn
        rw [decide_eq_true_eq] at hleft
        by_contra hfound
        apply hleft
        apply (hfree n hkey).mp
        apply h.degree_eq_zero (hnodup n hkey)
        intro d hdep
        by_contra hd
        exact hfound ⟨d, List.mem_filter.mpr ⟨(mem_keys_of_depends hdep).1, by simpa using hd⟩, hdep⟩

def Correct (graph : Graph α) : Prop :=
  ((∃ e, resolve graph = some (.error e)) ↔ Cyclic (Depends graph)) ∧
    (¬ Cyclic (Depends graph) → ∃ report, resolve graph = some (.ok report) ∧ Resolved graph report)

/-- The resolver is right about a graph exactly if the graph has a cycle, or no item lists a known item
twice. -/
theorem correct_iff (graph : Graph α) :
  Correct graph ↔ Cyclic (Depends graph) ∨ ∀ node ∈ graph.keys, (known graph node).Nodup
  := by
  rcases resolve_cases graph with ⟨report, hresolve, hresolved, hacyclic, hnodup⟩ |
    ⟨⟨e, hresolve⟩, hwhy⟩
  · constructor
    · intro _
      right
      exact hnodup
    · intro _
      refine ⟨?_, fun _ => ⟨report, hresolve, hresolved⟩⟩
      constructor
      · rintro ⟨e, he⟩
        rw [hresolve] at he
        cases he
      · intro hcyclic
        exact absurd hcyclic hacyclic
  · constructor
    · rintro ⟨hraised, -⟩
      left
      exact hraised.mp ⟨e, hresolve⟩
    · intro hcondition
      have hcyclic : Cyclic (Depends graph) := by
        rcases hcondition with hcyclic | hnodup
        · exact hcyclic
        · rcases hwhy with hcyclic | ⟨node, hnode, hrepeated⟩
          · exact hcyclic
          · exact absurd (hnodup node hnode) hrepeated
      exact ⟨⟨fun _ => hcyclic, fun _ => ⟨e, hresolve⟩⟩, fun hacyclic => absurd hcyclic hacyclic⟩

/-! ### A repeated entry -/

/-- Two items, of which the second lists the first twice. -/
def repeatedEntry : Graph Str where
  entries := [(text "a", []), (text "b", [text "a", text "a"])]
  nodup := by decide

theorem not_cyclic_repeatedEntry :
  ¬ Cyclic (Depends repeatedEntry)
  := by
  apply not_cyclic_of_rank fun n => if n = text "b" then 1 else 0
  intro d n hdep
  have hn : n = text "a" ∨ n = text "b" := by
    simpa [repeatedEntry, Dict.keys] using (mem_keys_of_depends hdep).2
  rcases hn with rfl | rfl
  · have hnone : known repeatedEntry (text "a") = [] := by decide
    rw [Depends, hnone] at hdep
    cases hdep
  · have htwice : known repeatedEntry (text "b") = [text "a", text "a"] := by decide
    rw [Depends, htwice] at hdep
    obtain rfl : d = text "a" := by simpa using hdep
    decide

/-- An error about a cycle is raised for a graph without one. -/
theorem error_of_repeatedEntry :
  resolve repeatedEntry = some (.error ⟨[text "b"]⟩) ∧ ¬ Cyclic (Depends repeatedEntry) ∧
    ¬ Correct repeatedEntry
  := by
  have herror : resolve repeatedEntry = some (.error ⟨[text "b"]⟩) := by
    rfl
  exact ⟨herror, not_cyclic_repeatedEntry, fun hcorrect =>
    not_cyclic_repeatedEntry (hcorrect.1.mp ⟨_, herror⟩)⟩

end Courier.DagResolver
