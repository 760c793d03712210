import Mathlib.Data.List.Nodup
import Mathlib.Data.List.Basic
import Mathlib.Data.List.Induction

/-!
# Insertion-ordered dictionaries

A dictionary is a list of entries with distinct keys, in the order in which the keys were
first set, as a Python `dict` keeps them.  Setting a key that is present keeps its place.
-/

/-- A dictionary with keys in `K` and values in `V`. -/
structure Dict (K V : Type) where
  entries : List (K × V)
  nodup : (entries.map Prod.fst).Nodup

namespace Dict

variable {K V : Type} [DecidableEq K]

def empty : Dict K V where
  entries := []
  nodup := List.nodup_nil

instance : EmptyCollection (Dict K V) := ⟨empty⟩

omit [DecidableEq K] in
@[ext]
theorem ext {d e : Dict K V} (h : d.entries = e.entries) :
  d = e
  := by
  cases d
  cases e
  cases h
  rfl

instance [DecidableEq V] : DecidableEq (Dict K V) := fun _ _ =>
  decidable_of_iff _ Dict.ext_iff.symm

/-- `d.get(k)`. -/
def get? (d : Dict K V) (k : K) : Option V :=
  d.entries.lookup k

/-- The keys, in order. -/
def keys (d : Dict K V) : List K :=
  d.entries.map Prod.fst

/-- The values, in the order of their keys. -/
def values (d : Dict K V) : List V :=
  d.entries.map Prod.snd

/-- Replace the value of a key that is present. -/
def replaceEntry (k : K) (v : V) (entries : List (K × V)) : List (K × V) :=
  entries.map fun p => if p.1 = k then (k, v) else p

theorem keys_replaceEntry (k : K) (v : V) (entries : List (K × V)) :
  (replaceEntry k v entries).map Prod.fst = entries.map Prod.fst
  := by
  simp only [replaceEntry, List.map_map]
  apply List.map_congr_left
  intro p hp
  by_cases h : p.1 = k
  · simp [h]
  · simp [h]

/-- `d[k] = v`. -/
def set (d : Dict K V) (k : K) (v : V) : Dict K V :=
  if h : k ∈ d.entries.map Prod.fst then
    ⟨replaceEntry k v d.entries, by
      rw [keys_replaceEntry]
      exact d.nodup⟩
  else
    ⟨d.entries ++ [(k, v)], by
      rw [List.map_append]
      apply List.nodup_append.mpr
      refine ⟨d.nodup, by simp, ?_⟩
      intro a ha b hb
      obtain rfl : b = k := by simpa using hb
      rintro rfl
      exact h ha⟩

/-- `d.pop(k, None)`. -/
def erase (d : Dict K V) (k : K) : Dict K V where
  entries := d.entries.filter fun p => p.1 ≠ k
  nodup := d.nodup.sublist (List.Sublist.map _ List.filter_sublist)

/-- The entries with a property. -/
def filter (p : K → V → Bool) (d : Dict K V) : Dict K V where
  entries := d.entries.filter fun e => p e.1 e.2
  nodup := d.nodup.sublist (List.Sublist.map _ List.filter_sublist)

/-- The dictionary with a function applied to every value. -/
def map {W : Type} (f : V → W) (d : Dict K V) : Dict K W where
  entries := d.entries.map fun p => (p.1, f p.2)
  nodup := by
    rw [List.map_map]
    exact d.nodup

/-! ### Lookup -/

omit [DecidableEq K] in
theorem lookup_eq_some_iff [BEq K] [LawfulBEq K] {k : K} {v : V} :
  ∀ {entries : List (K × V)}, (entries.map Prod.fst).Nodup →
    (entries.lookup k = some v ↔ (k, v) ∈ entries)
  | [], _ => by simp
  | (l, w) :: entries, h => by
    obtain ⟨hl, hentries⟩ := List.nodup_cons.mp h
    by_cases hkl : k = l
    · subst hkl
      simp only [List.lookup_cons_self, Option.some.injEq, List.mem_cons, Prod.mk.injEq,
        true_and]
      constructor
      · intro hw
        left
        exact hw.symm
      · rintro (hv | hv)
        · exact hv.symm
        · apply absurd _ hl
          apply List.mem_map.mpr ⟨(k, v), hv, rfl⟩
    · have hb : (k == l) = false := by simp [hkl]
      simp only [List.lookup_cons, hb, List.mem_cons, Prod.mk.injEq, hkl, false_and, false_or]
      apply lookup_eq_some_iff hentries

/-- A key has a value exactly when the pair is an entry. -/
theorem get?_eq_some {d : Dict K V} {k : K} {v : V} :
  d.get? k = some v ↔ (k, v) ∈ d.entries
  := lookup_eq_some_iff d.nodup

theorem get?_eq_none {d : Dict K V} {k : K} :
  d.get? k = none ↔ k ∉ d.keys
  := by
  constructor
  · intro h hk
    obtain ⟨⟨l, v⟩, hv, rfl⟩ := List.mem_map.mp hk
    rw [get?_eq_some.mpr hv] at h
    cases h
  · intro hk
    cases h : d.get? k with
    | none => rfl
    | some v => exact absurd (List.mem_map.mpr ⟨(k, v), get?_eq_some.mp h, rfl⟩) hk

theorem get?_isSome {d : Dict K V} {k : K} :
  (d.get? k).isSome = true ↔ k ∈ d.keys
  := by
  rw [← not_iff_not, ← get?_eq_none]
  cases d.get? k <;> simp

@[simp]
theorem get?_empty (k : K) :
  (∅ : Dict K V).get? k = none
  := rfl

theorem mem_values {d : Dict K V} {v : V} :
  v ∈ d.values ↔ ∃ k, d.get? k = some v
  := by
  constructor
  · intro h
    obtain ⟨⟨k, w⟩, hw, rfl⟩ := List.mem_map.mp h
    exact ⟨k, get?_eq_some.mpr hw⟩
  · rintro ⟨k, hk⟩
    exact List.mem_map.mpr ⟨(k, v), get?_eq_some.mp hk, rfl⟩

@[simp]
theorem get?_set (d : Dict K V) (k l : K) (v : V) :
  (d.set k v).get? l = if l = k then some v else d.get? l
  := by
  apply Option.ext
  intro w
  rw [get?_eq_some, set]
  split
  · next hk =>
    simp only [replaceEntry, List.mem_map]
    by_cases hl : l = k
    · subst hl
      simp only [if_true, Option.some.injEq]
      constructor
      · rintro ⟨p, hp, heq⟩
        by_cases hpl : p.1 = l
        · rw [if_pos hpl] at heq
          exact (Prod.mk.inj heq).2
        · rw [if_neg hpl] at heq
          subst heq
          exact absurd rfl hpl
      · rintro rfl
        obtain ⟨p, hp, hpl⟩ := List.mem_map.mp hk
        exact ⟨p, hp, by rw [if_pos hpl]⟩
    · rw [if_neg hl, get?_eq_some]
      constructor
      · rintro ⟨p, hp, heq⟩
        by_cases hpk : p.1 = k
        · rw [if_pos hpk] at heq
          exact absurd (Prod.mk.inj heq).1.symm hl
        · rw [if_neg hpk] at heq
          rw [← heq]
          exact hp
      · intro h
        exact ⟨(l, w), h, by rw [if_neg hl]⟩
  · next hk =>
    simp only [List.mem_append, List.mem_singleton, Prod.mk.injEq]
    by_cases hl : l = k
    · subst hl
      simp only [if_true, Option.some.injEq, true_and]
      constructor
      · rintro (h | h)
        · exact absurd (List.mem_map.mpr ⟨_, h, rfl⟩) hk
        · exact h.symm
      · intro h
        right
        exact h.symm
    · simp [hl, get?_eq_some]

@[simp]
theorem get?_erase (d : Dict K V) (k l : K) :
  (d.erase k).get? l = if l = k then none else d.get? l
  := by
  apply Option.ext
  intro w
  rw [get?_eq_some]
  by_cases hl : l = k
  · simp [erase, hl]
  · simp [erase, hl, get?_eq_some]

theorem get?_filter (p : K → V → Bool) (d : Dict K V) (k : K) :
  (d.filter p).get? k = (d.get? k).filter (p k)
  := by
  apply Option.ext
  intro v
  rw [get?_eq_some, Option.filter_eq_some_iff, get?_eq_some]
  exact List.mem_filter

theorem keys_set (d : Dict K V) (k : K) (v : V) :
  (d.set k v).keys = if k ∈ d.keys then d.keys else d.keys ++ [k]
  := by
  by_cases h : k ∈ d.keys
  · rw [if_pos h]
    unfold keys at h ⊢
    rw [set, dif_pos h]
    apply keys_replaceEntry
  · rw [if_neg h]
    unfold keys at h ⊢
    rw [set, dif_neg h]
    simp

omit [DecidableEq K] in
theorem length_values (d : Dict K V) :
  d.values.length = d.keys.length
  := by
  rw [values, keys, List.length_map, List.length_map]

theorem values_set_new {d : Dict K V} {k : K} (h : d.get? k = none) (v : V) :
  (d.set k v).values = d.values ++ [v]
  := by
  have hk : k ∉ d.entries.map Prod.fst := get?_eq_none.mp h
  rw [values, set, dif_neg hk, List.map_append]
  rfl

theorem perm_entries_erase {d : Dict K V} {k : K} {v : V} (h : d.get? k = some v) :
  d.entries.Perm ((k, v) :: (d.erase k).entries)
  := by
  have hentries : ∀ {entries : List (K × V)}, (entries.map Prod.fst).Nodup → (k, v) ∈ entries →
      entries.Perm ((k, v) :: entries.filter fun p => p.1 ≠ k) := by
    intro entries hnodup hmem
    induction entries with
    | nil => cases hmem
    | cons p entries ih =>
      obtain ⟨hnew, hnodup⟩ := List.nodup_cons.mp hnodup
      obtain rfl | hmem := List.mem_cons.mp hmem
      · have hrest : (entries.filter fun p => p.1 ≠ k) = entries := by
          refine List.filter_eq_self.mpr fun p hp => ?_
          simp only [ne_eq, decide_eq_true_eq]
          rintro rfl
          exact hnew (List.mem_map.mpr ⟨p, hp, rfl⟩)
        rw [List.filter_cons_of_neg (by simp), hrest]
      · have hne : p.1 ≠ k := by
          rintro rfl
          exact hnew (List.mem_map.mpr ⟨_, hmem, rfl⟩)
        rw [List.filter_cons_of_pos (by simpa using hne)]
        exact ((ih hnodup hmem).cons p).trans (.swap _ _ _)
  exact hentries d.nodup (get?_eq_some.mp h)

theorem perm_keys_erase {d : Dict K V} {k : K} (h : k ∈ d.keys) :
  d.keys.Perm (k :: (d.erase k).keys)
  := by
  obtain ⟨v, hv⟩ := Option.isSome_iff_exists.mp (get?_isSome.mpr h)
  exact (perm_entries_erase hv).map Prod.fst

theorem perm_values_erase {d : Dict K V} {k : K} {v : V} (h : d.get? k = some v) :
  d.values.Perm (v :: (d.erase k).values)
  := (perm_entries_erase h).map Prod.snd

theorem erase_of_notMem {d : Dict K V} {k : K} (h : d.get? k = none) :
  d.erase k = d
  := by
  apply ext
  refine List.filter_eq_self.mpr fun p hp => ?_
  simp only [ne_eq, decide_eq_true_eq]
  rintro rfl
  exact get?_eq_none.mp h (List.mem_map.mpr ⟨p, hp, rfl⟩)

theorem erase_set (d : Dict K V) (k : K) (v : V) :
  (d.set k v).erase k = d.erase k
  := by
  apply ext
  rw [erase, erase, set]
  split_ifs with hk
  · dsimp only
    rw [replaceEntry, List.filter_map]
    have hsame : (d.entries.filter ((fun p => decide (p.1 ≠ k)) ∘ fun p => if p.1 = k then (k, v) else p)) =
        d.entries.filter fun p => p.1 ≠ k := by
      refine List.filter_congr fun p _ => ?_
      by_cases hp : p.1 = k <;> simp [hp]
    rw [hsame]
    conv_rhs => rw [← List.map_id (d.entries.filter fun p => p.1 ≠ k)]
    refine List.map_congr_left fun p hp => ?_
    rw [if_neg (by simpa using (List.mem_filter.mp hp).2)]
    rfl
  · simp

theorem perm_entries_set (d : Dict K V) (k : K) (v : V) :
  (d.set k v).entries.Perm ((k, v) :: (d.erase k).entries)
  := by
  have hset : (d.set k v).get? k = some v := by rw [get?_set, if_pos rfl]
  rw [← erase_set d k v]
  exact perm_entries_erase hset

theorem perm_values_set (d : Dict K V) (k : K) (v : V) :
  (d.set k v).values.Perm (v :: (d.erase k).values)
  := (perm_entries_set d k v).map Prod.snd

theorem countP_values_set (d : Dict K V) (k : K) (v : V) (p : V → Bool) :
  (d.set k v).values.countP p + ((d.get? k).any p).toNat = d.values.countP p + (p v).toNat
  := by
  have hcount : ∀ u : V, (if p u = true then 1 else 0) = (p u).toNat := by
    intro u
    cases p u <;> rfl
  rw [(perm_values_set d k v).countP_eq, List.countP_cons, hcount]
  cases h : d.get? k with
  | none =>
    rw [erase_of_notMem h]
    rfl
  | some w =>
    rw [(perm_values_erase h).countP_eq, List.countP_cons, hcount, Option.any_some]
    omega

theorem entries_foldl_set {entries : List (K × V)} (h : (entries.map Prod.fst).Nodup) :
  (entries.foldl (fun d p => d.set p.1 p.2) (∅ : Dict K V)).entries = entries
  := by
  induction entries using List.reverseRecOn with
  | nil => rfl
  | append_singleton entries p ih =>
    rw [List.map_append, List.nodup_append] at h
    obtain ⟨hnodup, -, hnew⟩ := h
    have hp : p.1 ∉ (entries.foldl (fun d p => d.set p.1 p.2) (∅ : Dict K V)).entries.map Prod.fst := by
      rw [ih hnodup]
      intro hmem
      exact hnew _ hmem p.1 (by simp) rfl
    rw [List.foldl_concat, set, dif_neg hp]
    exact congrArg (· ++ [p]) (ih hnodup)

/-! ### Mapping -/

variable {W : Type} (f : V → W)

theorem lookup_map (k : K) :
  ∀ entries : List (K × V),
    (entries.map fun p => (p.1, f p.2)).lookup k = (entries.lookup k).map f
  | [] => rfl
  | (l, v) :: entries => by
    by_cases hkl : k = l
    · simp [hkl]
    · have hb : (k == l) = false := by simp [hkl]
      simp [List.lookup_cons, hb, lookup_map k entries]

@[simp]
theorem get?_map (d : Dict K V) (k : K) :
  (d.map f).get? k = (d.get? k).map f
  := lookup_map f k d.entries

theorem map_set (d : Dict K V) (k : K) (v : V) :
  (d.set k v).map f = (d.map f).set k (f v)
  := by
  have hkeys : (d.map f).entries.map Prod.fst = d.entries.map Prod.fst := by
    simp [map, List.map_map, Function.comp_def]
  apply ext
  by_cases hk : k ∈ d.entries.map Prod.fst
  · rw [set, set, dif_pos hk, dif_pos (by rwa [hkeys])]
    simp only [map, replaceEntry, List.map_map, List.map_inj_left, Function.comp_apply]
    intro p _
    by_cases hp : p.1 = k <;> simp [hp]
  · rw [set, set, dif_neg hk, dif_neg (by rwa [hkeys])]
    simp [map]

omit [DecidableEq K] in
@[simp]
theorem values_map (d : Dict K V) :
  (d.map f).values = d.values.map f
  := by
  simp [values, map, List.map_map, Function.comp_def]

end Dict
