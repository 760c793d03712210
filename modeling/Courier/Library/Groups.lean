import Courier.Library.Dict
import Mathlib.Data.List.Perm.Basic

/-!
# Positions by key

The positions of a list are put into groups by a key, in the order in which they come; elements without a key
are in no group.  Every position is in one group at most, and the group of a key has the positions of its
elements (`get?_positionsBy`, `mem_flatten`).
-/

namespace Groups

variable {α K : Type} [DecidableEq K]

def add (groups : Dict K (List Nat)) (key : K) (position : Nat) : Dict K (List Nat) :=
  groups.set key ((groups.get? key).getD [] ++ [position])

def positionsBy (key : α → Option K) (items : List α) : Dict K (List Nat) :=
  items.zipIdx.foldl (fun groups item =>
    match key item.1 with
    | some k => add groups k item.2
    | none => groups) ∅

def positionsOf (key : α → Option K) (items : List α) (k : K) : List Nat :=
  (items.zipIdx.filter fun item => key item.1 = some k).map Prod.snd

variable {key : α → Option K} {items : List α} {k : K}

theorem positionsBy_concat (key : α → Option K) (items : List α) (a : α) :
  positionsBy key (items ++ [a]) = match key a with
    | some k => add (positionsBy key items) k items.length
    | none => positionsBy key items
  := by
  rw [positionsBy, List.zipIdx_append, List.foldl_append]
  simp only [Nat.zero_add, List.zipIdx_cons, List.zipIdx_nil, List.foldl_cons, List.foldl_nil]
  rfl

theorem positionsOf_concat (key : α → Option K) (items : List α) (a : α) (k : K) :
  positionsOf key (items ++ [a]) k =
    positionsOf key items k ++ if key a = some k then [items.length] else []
  := by
  rw [positionsOf, List.zipIdx_append, List.filter_append, List.map_append]
  simp only [Nat.zero_add, List.zipIdx_cons, List.zipIdx_nil, List.filter_singleton]
  split_ifs with h <;> simp [h, positionsOf]

/-- The group of a key has its positions, and there are no other groups. -/
theorem get?_positionsBy (key : α → Option K) (items : List α) (k : K) :
  (positionsBy key items).get? k =
    if positionsOf key items k = [] then none else some (positionsOf key items k)
  := by
  induction items using List.reverseRecOn with
  | nil => rfl
  | append_singleton items a ih =>
    rw [positionsBy_concat, positionsOf_concat]
    cases ha : key a with
    | none => simpa using ih
    | some l =>
      dsimp only
      rw [add, Dict.get?_set]
      by_cases hkl : k = l
      · have hgroup : ((positionsBy key items).get? k).getD [] = positionsOf key items k := by
          rw [ih]
          split_ifs with hnil
          · exact hnil.symm
          · rfl
        rw [if_pos hkl, ← hkl, if_pos rfl, hgroup, if_neg (by simp)]
      · have hne : some l ≠ some k := fun heq => hkl (Option.some.inj heq).symm
        rw [if_neg hkl, if_neg hne, List.append_nil, ih]

theorem mem_positionsOf {i : Nat} :
  i ∈ positionsOf key items k ↔ ∃ a, items[i]? = some a ∧ key a = some k
  := by
  simp only [positionsOf, List.mem_map, List.mem_filter, decide_eq_true_eq, Prod.exists,
    List.mem_zipIdx_iff_getElem?]
  constructor
  · rintro ⟨a, j, ⟨ha, hk⟩, rfl⟩
    exact ⟨a, ha, hk⟩
  · rintro ⟨a, ha, hk⟩
    exact ⟨a, i, ⟨ha, hk⟩, rfl⟩

theorem sorted_positionsOf (key : α → Option K) (items : List α) (k : K) :
  (positionsOf key items k).Pairwise (· < ·)
  := by
  have hall : (items.zipIdx.map Prod.snd).Pairwise (· < ·) := by
    rw [List.zipIdx_map_snd]
    exact List.pairwise_lt_range'
  exact hall.sublist (List.filter_sublist.map _)

theorem positionsOf_eq_cons {i : Nat} :
  (∃ later, positionsOf key items k = i :: later) ↔
    i ∈ positionsOf key items k ∧ ∀ j ∈ positionsOf key items k, i ≤ j
  := by
  have hsorted := sorted_positionsOf key items k
  constructor
  · rintro ⟨later, heq⟩
    rw [heq] at hsorted ⊢
    refine ⟨List.mem_cons_self, fun j hj => ?_⟩
    rcases List.mem_cons.mp hj with rfl | hj
    · exact Nat.le_refl j
    · exact Nat.le_of_lt (List.rel_of_pairwise_cons hsorted hj)
  · rintro ⟨hmem, hleast⟩
    cases hpositions : positionsOf key items k with
    | nil =>
      rw [hpositions] at hmem
      cases hmem
    | cons j later =>
      rw [hpositions] at hmem hleast hsorted
      rcases List.mem_cons.mp hmem with rfl | hmem
      · exact ⟨later, rfl⟩
      · have hlt := List.rel_of_pairwise_cons hsorted hmem
        exact absurd (hleast j List.mem_cons_self) (by omega)

theorem mem_entries {group : List Nat} :
  (k, group) ∈ (positionsBy key items).entries ↔ group = positionsOf key items k ∧ group ≠ []
  := by
  rw [← Dict.get?_eq_some, get?_positionsBy]
  split_ifs with hnil
  · rw [hnil]
    constructor
    · rintro ⟨⟩
    · rintro ⟨hgroup, hne⟩
      exact absurd hgroup hne
  · rw [Option.some.injEq]
    constructor
    · rintro rfl
      exact ⟨rfl, hnil⟩
    · rintro ⟨hgroup, -⟩
      exact hgroup.symm

theorem nodup_flatten {choose : List Nat → Option (List Nat)}
    (hchoose : ∀ {group chosen}, choose group = some chosen → chosen.Sublist group) :
  ((positionsBy key items).values.filterMap choose).flatten.Nodup
  := by
  have hentries : ∀ p ∈ (positionsBy key items).entries, p.2 = positionsOf key items p.1 :=
    fun p hp => (mem_entries.mp hp).1
  rw [List.nodup_flatten]
  constructor
  · intro chosen hmem
    obtain ⟨group, hgroup, hchosen⟩ := List.mem_filterMap.mp hmem
    obtain ⟨p, hp, rfl⟩ := List.mem_map.mp hgroup
    have hsorted := sorted_positionsOf key items p.1
    rw [← hentries p hp] at hsorted
    exact (hsorted.sublist (hchoose hchosen)).imp Nat.ne_of_lt
  · rw [Dict.values, List.pairwise_filterMap, List.pairwise_map]
    refine (List.pairwise_map.mp (positionsBy key items).nodup).imp_of_mem ?_
    intro p q hp hq hne chosen hchosen chosen' hchosen' i hi hi'
    have hleft := (hchoose hchosen).subset hi
    have hright := (hchoose hchosen').subset hi'
    rw [hentries p hp, mem_positionsOf] at hleft
    rw [hentries q hq, mem_positionsOf] at hright
    obtain ⟨a, ha, hak⟩ := hleft
    obtain ⟨b, hb, hbk⟩ := hright
    rw [ha] at hb
    cases hb
    exact hne (Option.some.inj (hak.symm.trans hbk))

theorem mem_flatten {choose : List Nat → Option (List Nat)} {i : Nat} :
  i ∈ ((positionsBy key items).values.filterMap choose).flatten ↔
    ∃ k chosen, choose (positionsOf key items k) = some chosen ∧ positionsOf key items k ≠ [] ∧ i ∈ chosen
  := by
  simp only [List.mem_flatten, List.mem_filterMap, Dict.values, List.mem_map]
  constructor
  · rintro ⟨chosen, ⟨group, ⟨⟨k, group'⟩, hp, rfl⟩, hchosen⟩, hi⟩
    obtain ⟨hgroup, hne⟩ := mem_entries.mp hp
    dsimp only at hchosen
    rw [hgroup] at hchosen hne
    exact ⟨k, chosen, hchosen, hne, hi⟩
  · rintro ⟨k, chosen, hchosen, hne, hi⟩
    exact ⟨chosen, ⟨_, ⟨(k, _), mem_entries.mpr ⟨rfl, hne⟩, rfl⟩, hchosen⟩, hi⟩

end Groups
