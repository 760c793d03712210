import Mathlib.Data.List.Nodup
import Mathlib.Logic.Relation

/-!
# Depth-first search for cycles

A search visits the nodes below a node and finds a cycle when it meets a node of its path again.  A node that it has
left is on no cycle (`Sound`), and a search of all nodes finds a cycle exactly if there is one (`searchAll_iff`).
-/

namespace DepthFirst

variable {α : Type} [DecidableEq α]

structure State (α : Type) where
  visited : List α
  path : List α

def visitAll (visit : α → State α → Option (Bool × State α)) : List α → State α → Option (Bool × State α)
  | [], s => some (false, s)
  | n :: rest, s =>
      if n ∉ s.visited then do
        let (cycle, s) ← visit n s
        if cycle then return (true, s) else visitAll visit rest s
      else if n ∈ s.path then some (true, s)
      else visitAll visit rest s

/-- Visit a node and those below it.  `none` when the depth is used up. -/
def visit (next : α → List α) : Nat → α → State α → Option (Bool × State α)
  | 0, _, _ => none
  | depth + 1, v, s => do
      let (cycle, s) ← visitAll (visit next depth) (next v) ⟨v :: s.visited, v :: s.path⟩
      if cycle then return (true, s) else return (false, { s with path := s.path.erase v })

/-- Search from every node in turn.  The node from which a cycle was found, if one was. -/
def searchAll (next : α → List α) (depth : Nat) : List α → State α → Option (Option α)
  | [], _ => some none
  | n :: rest, s =>
      if n ∈ s.visited then searchAll next depth rest s
      else do
        let (cycle, s) ← visit next depth n s
        if cycle then return some n else searchAll next depth rest s

/-- There is an edge from the first node to the second. -/
def Edge (next : α → List α) (a b : α) : Prop :=
  b ∈ next a

section Search

variable {next : α → List α} {s t : State α} {nodes : List α} {v w : α} {depth : Nat}

/-- The search has left a node. -/
def Left (s : State α) (v : α) : Prop :=
  v ∈ s.visited ∧ v ∉ s.path

/-- What holds of the nodes at every point of a search. -/
structure Sound (next : α → List α) (s : State α) : Prop where
  path : ∀ v ∈ s.path, v ∈ s.visited
  below : ∀ v, Left s v → ∀ w ∈ next v, Left s w
  acyclic : ∀ v, Left s v → ¬Relation.TransGen (Edge next) v v

/-- A search that found no cycle kept the path and visited more. -/
structure Extends (next : α → List α) (s t : State α) : Prop where
  sound : Sound next t
  path : t.path = s.path
  visited : ∀ v ∈ s.visited, v ∈ t.visited

section

omit [DecidableEq α]

theorem Extends.refl (h : Sound next s) :
  Extends next s s
  := ⟨h, rfl, fun _ hv => hv⟩

theorem Extends.trans {u : State α} (h : Extends next s t) (h' : Extends next t u) :
  Extends next s u
  := ⟨h'.sound, h'.path.trans h.path, fun v hv => h'.visited v (h.visited v hv)⟩

theorem Extends.left (h : Extends next s t) (hv : Left s v) :
  Left t v
  := ⟨h.visited v hv.1, by rw [h.path]; exact hv.2⟩

theorem Sound.left_below (h : Sound next s) (hv : Left s v) (hbelow : Relation.ReflTransGen (Edge next) v w) :
  Left s w
  := by
  induction hbelow with
  | refl => exact hv
  | tail _ hedge ih => exact h.below _ ih _ hedge

theorem Sound.enter (h : Sound next s) (hv : v ∉ s.visited) :
  Sound next ⟨v :: s.visited, v :: s.path⟩
  := by
  have hleft : ∀ {w}, Left ⟨v :: s.visited, v :: s.path⟩ w ↔ Left s w := by
    intro w
    unfold Left
    simp only [List.mem_cons, not_or]
    constructor
    · rintro ⟨rfl | hw, hne, hpath⟩
      · exact absurd rfl hne
      · exact ⟨hw, hpath⟩
    · rintro ⟨hw, hpath⟩
      exact ⟨.inr hw, by rintro rfl; exact hv hw, hpath⟩
  constructor
  case path =>
    intro w hw
    obtain rfl | hw := List.mem_cons.mp hw
    · exact List.mem_cons_self
    · exact List.mem_cons_of_mem _ (h.path w hw)
  case below => exact fun w hw n hn => hleft.mpr (h.below w (hleft.mp hw) n hn)
  case acyclic => exact fun w hw => h.acyclic w (hleft.mp hw)

end

/-- A node is left when those below it were. -/
theorem Sound.leave (h : Sound next t) (hpath : t.path = v :: s.path) (hv : v ∉ s.path) (hvisited : v ∈ t.visited)
    (hnext : ∀ w ∈ next v, Left t w) :
  Sound next { t with path := t.path.erase v } ∧ t.path.erase v = s.path
  := by
  have herase : t.path.erase v = s.path := by rw [hpath, List.erase_cons_head]
  have hleft : ∀ {w}, Left { t with path := t.path.erase v } w ↔ w = v ∨ Left t w := by
    intro w
    unfold Left
    simp only [hpath, List.erase_cons_head, List.mem_cons, not_or]
    constructor
    · rintro ⟨hw, hnot⟩
      by_cases hwv : w = v
      · exact .inl hwv
      · exact .inr ⟨hw, hwv, hnot⟩
    · rintro (rfl | ⟨hw, -, hnot⟩)
      · exact ⟨hvisited, hv⟩
      · exact ⟨hw, hnot⟩
  refine ⟨?_, herase⟩
  constructor
  case path =>
    intro w hw
    exact h.path w (List.mem_of_mem_erase hw)
  case below =>
    intro w hw n hn
    obtain rfl | hw := hleft.mp hw
    · exact hleft.mpr (.inr (hnext n hn))
    · exact hleft.mpr (.inr (h.below w hw n hn))
  case acyclic =>
    intro w hw hcycle
    obtain rfl | hw := hleft.mp hw
    · -- The node after `v` on the cycle was left, and so was `v` itself.
      obtain ⟨n, hn, hback⟩ := Relation.TransGen.head'_iff.mp hcycle
      exact (h.left_below (hnext n hn) hback).2 (by rw [hpath]; exact List.mem_cons_self)
    · exact h.acyclic w hw hcycle

def unvisited (nodes : List α) (s : State α) : List α :=
  nodes.filter fun v => v ∉ s.visited

theorem length_unvisited_le (h : ∀ v ∈ s.visited, v ∈ t.visited) :
  (unvisited nodes t).length ≤ (unvisited nodes s).length
  := by
  unfold unvisited
  rw [← List.countP_eq_length_filter, ← List.countP_eq_length_filter]
  exact List.countP_mono_left fun v _ hv => by simpa using mt (h v) (by simpa using hv)

theorem length_unvisited_lt (hmem : v ∈ nodes) (hv : v ∉ s.visited) (path : List α) :
  (unvisited nodes ⟨v :: s.visited, path⟩).length < (unvisited nodes s).length
  := by
  unfold unvisited
  have hfilter : (nodes.filter fun w => w ∉ v :: s.visited) = (nodes.filter fun w => w ∉ s.visited).filter (· ≠ v) := by
    rw [List.filter_filter]
    exact List.filter_congr fun w _ => by simp [not_or]
  rw [hfilter]
  exact List.length_filter_lt_length_iff_exists.mpr ⟨v, by simp [hmem, hv], by simp⟩

/-- What a search does: it ends, and it tells of a cycle or leaves what it visits. -/
def Searched (next : α → List α) (s : State α) (below : List α) (result : Option (Bool × State α)) : Prop :=
  ∃ cycle t, result = some (cycle, t) ∧ (cycle = true → ∃ c, Relation.TransGen (Edge next) c c) ∧
    (cycle = false → Extends next s t ∧ ∀ w ∈ below, Left t w)

theorem visitAll_spec {visit : α → State α → Option (Bool × State α)} {below : List α}
    (hvisit : ∀ n ∈ below, ∀ t, Extends next s t → n ∉ t.visited → Searched next t [n] (visit n t))
    (hpath : ∀ u ∈ s.path, Relation.ReflTransGen (Edge next) u v) (hbelow : ∀ n ∈ below, n ∈ next v)
    (hs : Sound next s) :
  Searched next s below (visitAll visit below s)
  := by
  have hgo : ∀ rest t, (∀ n ∈ rest, n ∈ below) → Extends next s t → Searched next t rest (visitAll visit rest t) := by
    intro rest
    induction rest with
    | nil => exact fun t _ ht => ⟨false, t, rfl, by simp, fun _ => ⟨.refl ht.sound, by simp⟩⟩
    | cons n rest ih =>
      intro t hrest ht
      have hn := hrest n List.mem_cons_self
      have hmore := fun m hm => hrest m (List.mem_cons_of_mem _ hm)
      by_cases hnew : n ∉ t.visited
      · obtain ⟨cycle, u, hresult, hcycle, hleft⟩ := hvisit n hn t ht hnew
        rw [visitAll, if_pos hnew, hresult]
        cases cycle with
        | true => exact ⟨true, u, rfl, hcycle, by simp⟩
        | false =>
          obtain ⟨hu, hnleft⟩ := hleft rfl
          obtain ⟨cycle, x, hresult, hcycle, hleft⟩ := ih u hmore (ht.trans hu)
          refine ⟨cycle, x, by simpa using hresult, hcycle, fun hno => ?_⟩
          obtain ⟨hx, hall⟩ := hleft hno
          exact ⟨hu.trans hx, List.forall_mem_cons.mpr ⟨hx.left (hnleft n (by simp)), hall⟩⟩
      · by_cases hon : n ∈ t.path
        · rw [visitAll, if_neg hnew, if_pos hon]
          rw [ht.path] at hon
          exact ⟨true, t, rfl, fun _ => ⟨n, .tail' (hpath n hon) (hbelow n hn)⟩, by simp⟩
        · obtain ⟨cycle, x, hresult, hcycle, hleft⟩ := ih t hmore ht
          rw [visitAll, if_neg hnew, if_neg hon]
          refine ⟨cycle, x, hresult, hcycle, fun hno => ?_⟩
          obtain ⟨hx, hall⟩ := hleft hno
          exact ⟨hx, List.forall_mem_cons.mpr ⟨hx.left ⟨not_not.mp hnew, hon⟩, hall⟩⟩
  exact hgo below s (fun _ hn => hn) (.refl hs)

theorem visit_spec (hnodes : ∀ a ∈ nodes, ∀ b ∈ next a, b ∈ nodes) (hv : v ∈ nodes) (hnew : v ∉ s.visited)
    (hdepth : (unvisited nodes s).length ≤ depth) (hpath : ∀ u ∈ s.path, Relation.ReflTransGen (Edge next) u v)
    (hs : Sound next s) :
  Searched next s [v] (visit next depth v s)
  := by
  induction depth generalizing v s with
  | zero =>
    have hlt := length_unvisited_lt hv hnew s.path
    omega
  | succ depth ih =>
    have hentered := hs.enter hnew
    have hlt := length_unvisited_lt hv hnew (v :: s.path)
    have hon : ∀ u ∈ v :: s.path, Relation.ReflTransGen (Edge next) u v :=
      List.forall_mem_cons.mpr ⟨.refl, hpath⟩
    have hbelow : Searched next ⟨v :: s.visited, v :: s.path⟩ (next v)
        (visitAll (visit next depth) (next v) ⟨v :: s.visited, v :: s.path⟩) := by
      refine visitAll_spec (fun n hn t ht hnot => ?_) hon (fun _ hn => hn) hentered
      refine ih (hnodes v hv n hn) hnot ?_ (fun u hu => ?_) ht.sound
      · have hle : (unvisited nodes t).length ≤ _ := length_unvisited_le ht.visited
        omega
      · rw [ht.path] at hu
        exact (hon u hu).tail hn
    obtain ⟨cycle, t, hresult, hcycle, hleft⟩ := hbelow
    rw [visit, hresult]
    cases cycle with
    | true => exact ⟨true, t, rfl, hcycle, by simp⟩
    | false =>
      obtain ⟨ht, hall⟩ := hleft rfl
      have hvisited := ht.visited v List.mem_cons_self
      have hnot : v ∉ s.path := mt (hs.path v) hnew
      obtain ⟨hsound, herase⟩ := ht.sound.leave (s := s) ht.path hnot hvisited hall
      refine ⟨false, _, rfl, by simp, fun _ => ⟨⟨hsound, herase, fun w hw => ?_⟩, ?_⟩⟩
      · exact ht.visited w (List.mem_cons_of_mem _ hw)
      · rintro w hw
        obtain rfl := List.mem_singleton.mp hw
        exact ⟨hvisited, by rw [herase]; exact hnot⟩

/-- A search from every node finds a cycle exactly if there is one. -/
theorem searchAll_iff (hnodes : ∀ a b, b ∈ next a → a ∈ nodes ∧ b ∈ nodes) (hdepth : nodes.length ≤ depth) :
  ∃ found, searchAll next depth nodes ⟨[], []⟩ = some found ∧
    (found.isSome = true ↔ ∃ c, Relation.TransGen (Edge next) c c)
  := by
  have hgo : ∀ rest s, (∀ n ∈ rest, n ∈ nodes) → Sound next s → s.path = [] → (∀ n ∈ nodes, n ∈ rest ∨ Left s n) →
      ∃ found, searchAll next depth rest s = some found ∧
        (found.isSome = true ↔ ∃ c, Relation.TransGen (Edge next) c c) := by
    intro rest
    induction rest with
    | nil =>
      intro s _ hs _ hall
      refine ⟨none, rfl, by simp, fun ⟨c, hc⟩ => ?_⟩
      obtain ⟨b, hb, -⟩ := Relation.TransGen.head'_iff.mp hc
      obtain hnil | hleft := hall c (hnodes c b hb).1
      · cases hnil
      · exact absurd hc (hs.acyclic c hleft)
    | cons n rest ih =>
      intro s hrest hs hpath hall
      have hmore := fun m hm => hrest m (List.mem_cons_of_mem _ hm)
      by_cases hvisited : n ∈ s.visited
      · rw [searchAll, if_pos hvisited]
        refine ih s hmore hs hpath fun m hm => ?_
        obtain hin | hleft := hall m hm
        · obtain rfl | hin := List.mem_cons.mp hin
          · exact .inr ⟨hvisited, by simp [hpath]⟩
          · exact .inl hin
        · exact .inr hleft
      · have hfound : Searched next s [n] (visit next depth n s) :=
          visit_spec (fun a _ b hb => (hnodes a b hb).2) (hrest n List.mem_cons_self) hvisited
            (Nat.le_trans (List.length_filter_le _ _) hdepth) (by simp [hpath]) hs
        obtain ⟨cycle, t, hresult, hcycle, hleft⟩ := hfound
        rw [searchAll, if_neg hvisited, hresult]
        cases cycle with
        | true => exact ⟨some n, rfl, by simpa using hcycle rfl⟩
        | false =>
          obtain ⟨ht, hn⟩ := hleft rfl
          refine ih t hmore ht.sound (ht.path.trans hpath) fun m hm => ?_
          obtain hin | hleft := hall m hm
          · obtain rfl | hin := List.mem_cons.mp hin
            · exact .inr (hn m (by simp))
            · exact .inl hin
          · exact .inr (ht.left hleft)
  refine hgo nodes ⟨[], []⟩ (fun _ hn => hn) ?_ rfl fun _ hn => .inl hn
  constructor <;> simp [Left]

end Search

end DepthFirst
