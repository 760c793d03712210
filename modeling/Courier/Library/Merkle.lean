import Mathlib.Data.List.Basic
import Mathlib.Data.List.Induction

/-!
# Binary hash trees

The nodes of a level are combined in pairs, the last one with itself if it has no partner, until the root is left.
`node_of_climb` says what a path to the root tells about its start if combining hides nothing of two nodes.
-/

namespace Merkle

variable {H : Type}

/-- The next level of a tree. -/
def pairUp (combine : H → H → H) : List H → List H
  | [] => []
  | [x] => [combine x x]
  | x :: y :: rest => combine x y :: pairUp combine rest

theorem length_pairUp (combine : H → H → H) :
  ∀ level : List H, (pairUp combine level).length = (level.length + 1) / 2
  | [] => by simp [pairUp]
  | [_] => by simp [pairUp]
  | x :: y :: rest => by
    rw [pairUp, List.length_cons, length_pairUp combine rest, List.length_cons, List.length_cons]
    omega

/-- The levels of a tree, from the leaves on. -/
def levels (combine : H → H → H) (level : List H) : List (List H) :=
  if level.length ≤ 1 then [level] else level :: levels combine (pairUp combine level)
termination_by level.length
decreasing_by
  rw [length_pairUp]
  omega

theorem levels_ne_nil (combine : H → H → H) (level : List H) :
  levels combine level ≠ []
  := by
  rw [levels]
  split_ifs <;> simp

theorem getLast?_levels (combine : H → H → H) {level : List H} (h : level ≠ []) :
  ∃ x, (levels combine level).getLast? = some [x]
  := by
  induction level using levels.induct combine with
  | case1 level hone =>
    obtain ⟨x, rest, rfl⟩ := List.exists_cons_of_ne_nil h
    have hrest : rest = [] := by simpa using hone
    rw [levels, if_pos hone, hrest]
    exact ⟨x, rfl⟩
  | case2 level hmore ih =>
    have hnext : pairUp combine level ≠ [] := by
      rw [← List.length_pos_iff, length_pairUp]
      omega
    obtain ⟨x, hx⟩ := ih hnext
    rw [levels, if_neg hmore, List.getLast?_cons_of_ne_nil (levels_ne_nil _ _)]
    exact ⟨x, hx⟩

inductive Node (combine : H → H → H) (leaves : List H) : H → Prop
  | leaf {x : H} : x ∈ leaves → Node combine leaves x
  | pair {x y : H} : Node combine leaves x → Node combine leaves y →
      Node combine leaves (combine x y)

variable {combine : H → H → H} {leaves : List H}

theorem node_pairUp :
  ∀ {level : List H}, (∀ x ∈ level, Node combine leaves x) →
    ∀ x ∈ pairUp combine level, Node combine leaves x
  | [], _, x, hx => by cases hx
  | [y], h, x, hx => by
    rw [List.mem_singleton.mp hx]
    exact .pair (h y (by simp)) (h y (by simp))
  | y :: z :: rest, h, x, hx => by
    rcases List.mem_cons.mp hx with rfl | hx
    · exact .pair (h y (by simp)) (h z (by simp))
    · exact node_pairUp (fun x hx => h x (by simp [hx])) x hx

theorem node_levels {level : List H} (h : ∀ x ∈ level, Node combine leaves x) :
  ∀ l ∈ levels combine level, ∀ x ∈ l, Node combine leaves x
  := by
  induction level using levels.induct combine with
  | case1 level hone =>
    rw [levels, if_pos hone]
    intro l hl
    rw [List.mem_singleton.mp hl]
    exact h
  | case2 level hmore ih =>
    rw [levels, if_neg hmore]
    intro l hl
    rcases List.mem_cons.mp hl with rfl | hl
    · exact h
    · exact ih (node_pairUp h) l hl

/-- On which side of the node a sibling stands. -/
inductive Side where
  | left
  | right
  deriving DecidableEq

def join (combine : H → H → H) (x : H) : Side × H → H
  | (.left, sibling) => combine sibling x
  | (.right, sibling) => combine x sibling

/-- Where a path leads to. -/
def climb (combine : H → H → H) (x : H) (path : List (Side × H)) : H :=
  path.foldl (join combine) x

theorem node_of_climb {good : H → Prop} (hgood : ∀ x y, good (combine x y))
    (hleaves : ∀ x ∈ leaves, good x)
    (hsplit : ∀ x y l r, good l → good r → good x ∨ good y → combine x y = combine l r →
      x = l ∧ y = r)
    (hatomic : ∀ leaf ∈ leaves, ∀ x y, good x ∨ good y → leaf ≠ combine x y)
    {start : H} (hstart : good start) {path : List (Side × H)}
    (h : Node combine leaves (climb combine start path)) :
  Node combine leaves start
  := by
  have hnode : ∀ x, Node combine leaves x → good x := by
    intro x hx
    cases hx with
    | leaf hx => exact hleaves x hx
    | pair hx hy => exact hgood _ _
  have hparts : ∀ x y, good x ∨ good y → Node combine leaves (combine x y) →
      Node combine leaves x ∧ Node combine leaves y := by
    intro x y hxy hnodes
    generalize hz : combine x y = z at hnodes
    cases hnodes with
    | leaf hmem => exact absurd hz.symm (hatomic z hmem x y hxy)
    | @pair l r hl hr =>
      obtain ⟨rfl, rfl⟩ := hsplit x y l r (hnode l hl) (hnode r hr) hxy hz
      exact ⟨hl, hr⟩
  induction path using List.reverseRecOn with
  | nil => exact h
  | append_singleton path step ih =>
    have hreached : good (climb combine start path) := by
      cases path using List.reverseRecOn with
      | nil => exact hstart
      | append_singleton path step =>
        obtain ⟨side, sibling⟩ := step
        rw [climb, List.foldl_concat]
        cases side <;> exact hgood _ _
    obtain ⟨side, sibling⟩ := step
    rw [climb, List.foldl_concat] at h
    apply ih
    cases side with
    | left => exact (hparts _ _ (.inr hreached) h).2
    | right => exact (hparts _ _ (.inl hreached) h).1

/-! ### Paths -/

/-- The sibling of a node of a level; a node without a partner is its own sibling.  The default `d` is for
nodes that are not there. -/
def siblingAt (d : H) (level : List H) (i : Nat) : Side × H :=
  if i % 2 = 1 then (.left, level.getD (i - 1) d) else (.right, level.getD (i + 1) (level.getD i d))

/-- The path from a node of the first level to the last level. -/
def pathTo (d : H) : List (List H) → Nat → List (Side × H)
  | level :: next :: levels, i => siblingAt d level i :: pathTo d (next :: levels) (i / 2)
  | _, _ => []

theorem siblingAt_cons_cons (d x y : H) (rest : List H) (i : Nat) :
  siblingAt d (x :: y :: rest) (i + 2) = siblingAt d rest i
  := by
  rw [siblingAt, siblingAt, Nat.add_mod_right]
  split_ifs with hodd
  · obtain ⟨j, rfl⟩ : ∃ j, i = j + 1 := ⟨i - 1, by omega⟩
    rfl
  · rfl

theorem siblingAt_of_forall {good : H → Prop} {d : H} (hd : good d) {level : List H} (h : ∀ x ∈ level, good x)
    (i : Nat) :
  good (siblingAt d level i).2
  := by
  have hget : ∀ (j : Nat) (e : H), good e → good (level.getD j e) := by
    intro j e he
    rw [List.getD_eq_getElem?_getD]
    cases hj : level[j]? with
    | none => exact he
    | some x => exact h x (List.mem_of_getElem? hj)
  rw [siblingAt]
  split_ifs
  · exact hget _ _ hd
  · exact hget _ _ (hget _ _ hd)

theorem pathTo_of_forall {good : H → Prop} {d : H} (hd : good d) :
  ∀ {levels : List (List H)} (i : Nat), (∀ level ∈ levels, ∀ x ∈ level, good x) →
    ∀ step ∈ pathTo d levels i, good step.2
  | [], _, _, step, hstep => by cases hstep
  | [_], _, _, step, hstep => by cases hstep
  | level :: next :: levels, i, h, step, hstep => by
    rw [pathTo] at hstep
    rcases List.mem_cons.mp hstep with rfl | hstep
    · exact siblingAt_of_forall hd (h level (List.mem_cons_self ..)) i
    · exact pathTo_of_forall hd (i / 2) (fun l hl => h l (List.mem_cons_of_mem _ hl)) step hstep

theorem getElem_pairUp (combine : H → H → H) (d : H) :
  ∀ {level : List H} {i : Nat} {x : H}, level[i]? = some x →
    (pairUp combine level)[i / 2]? = some (join combine x (siblingAt d level i))
  | [], i, x, h => by simp at h
  | [y], 0, x, h => by
    cases h
    rfl
  | [y], i + 1, x, h => by simp at h
  | y :: z :: rest, 0, x, h => by
    cases h
    rfl
  | y :: z :: rest, 1, x, h => by
    cases h
    rfl
  | y :: z :: rest, i + 2, x, h => by
    have hrest : rest[i]? = some x := h
    rw [siblingAt_cons_cons, pairUp, Nat.add_div_right i Nat.two_pos, List.getElem?_cons_succ]
    exact getElem_pairUp combine d hrest

theorem climb_pathTo (combine : H → H → H) (d : H) {level : List H} {i : Nat} {x : H}
    (hx : level[i]? = some x) :
  (levels combine level).getLast? = some [climb combine x (pathTo d (levels combine level) i)] ∧
    (pathTo d (levels combine level) i).length + 1 = (levels combine level).length
  := by
  induction level using levels.induct combine generalizing i x with
  | case1 level hone =>
    obtain ⟨y, rest, rfl⟩ := List.exists_cons_of_ne_nil (List.ne_nil_of_mem (List.mem_of_getElem? hx))
    have hrest : rest = [] := by simpa using hone
    subst hrest
    have hxy : x = y := by simpa using List.mem_of_getElem? hx
    rw [levels, if_pos hone, hxy]
    exact ⟨rfl, rfl⟩
  | case2 level hmore ih =>
    obtain ⟨next, above, habove⟩ := List.exists_cons_of_ne_nil (levels_ne_nil combine (pairUp combine level))
    obtain ⟨hlast, hlength⟩ := ih (getElem_pairUp combine d hx)
    rw [levels, if_neg hmore, List.getLast?_cons_of_ne_nil (levels_ne_nil _ _), hlast]
    rw [habove] at hlength ⊢
    rw [pathTo, List.length_cons, hlength]
    exact ⟨rfl, rfl⟩

end Merkle
