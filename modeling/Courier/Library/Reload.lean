import Courier.Library.Dict
import Courier.Library.Escaped
import Mathlib.Data.List.Sort

/-!
# Dictionaries that are written and read back

A dictionary is written as a JSON object with its keys in order.  What is read back has fused keys, and
its values as they are read back themselves; two keys that are fused to one leave the later value.
-/

namespace Dict

variable {V : Type}

def readBack (value : V → V) (d : Dict Str V) : Dict Str V :=
  (d.entries.insertionSort fun p q => p.1 ≤ q.1).foldl
    (fun e p => e.set (Json.fuse p.1) (value p.2)) ∅

/-- No two keys are fused to one. -/
def Separates (d : Dict Str V) : Prop :=
  ∀ {k l v w}, d.get? k = some v → d.get? l = some w → Json.fuse k = Json.fuse l → k = l

def KeepsKeys (d : Dict Str V) : Prop :=
  ∀ k v, d.get? k = some v → Json.fuse k = k

theorem KeepsKeys.separates {d : Dict Str V} (h : d.KeepsKeys) :
  d.Separates
  := by
  intro k l v w hk hl heq
  rwa [h k v hk, h l w hl] at heq

theorem entries_readBack {d : Dict Str V} (h : d.Separates) (value : V → V) :
  (d.readBack value).entries.Perm (d.entries.map fun p => (Json.fuse p.1, value p.2))
  := by
  have hsorted := List.perm_insertionSort (fun p q : Str × V => p.1 ≤ q.1) d.entries
  have hnodup : (((d.entries.insertionSort fun p q => p.1 ≤ q.1).map fun p =>
      (Json.fuse p.1, value p.2)).map Prod.fst).Nodup := by
    rw [List.map_map]
    have hkeys : ((d.entries.insertionSort fun p q => p.1 ≤ q.1).map Prod.fst).Nodup :=
      (hsorted.map Prod.fst).nodup_iff.mpr d.nodup
    have hfused := hkeys.map_on (f := Json.fuse) (by
      intro k hk l hl
      obtain ⟨p, hp, rfl⟩ := List.mem_map.mp hk
      obtain ⟨q, hq, rfl⟩ := List.mem_map.mp hl
      exact h (get?_eq_some.mpr (hsorted.mem_iff.mp hp)) (get?_eq_some.mpr (hsorted.mem_iff.mp hq)))
    rwa [List.map_map] at hfused
  have hfold : d.readBack value = ((d.entries.insertionSort fun p q => p.1 ≤ q.1).map fun p =>
      (Json.fuse p.1, value p.2)).foldl (fun e p => e.set p.1 p.2) ∅ := by
    rw [readBack, List.foldl_map]
  rw [hfold, entries_foldl_set hnodup]
  exact hsorted.map _

theorem get?_readBack_eq_some {d : Dict Str V} (h : d.Separates) {value : V → V} {l : Str} {v : V} :
  (d.readBack value).get? l = some v ↔ ∃ k w, d.get? k = some w ∧ Json.fuse k = l ∧ value w = v
  := by
  rw [get?_eq_some, (entries_readBack h value).mem_iff, List.mem_map]
  constructor
  · rintro ⟨⟨k, w⟩, hmem, heq⟩
    cases heq
    exact ⟨k, w, get?_eq_some.mpr hmem, rfl, rfl⟩
  · rintro ⟨k, w, hw, rfl, rfl⟩
    exact ⟨(k, w), get?_eq_some.mp hw, rfl⟩

theorem get?_readBack {d : Dict Str V} (h : d.KeepsKeys) (value : V → V) (k : Str) :
  (d.readBack value).get? k = (d.get? k).map value
  := by
  apply Option.ext
  intro v
  rw [get?_readBack_eq_some h.separates, Option.map_eq_some_iff]
  constructor
  · rintro ⟨l, w, hw, rfl, rfl⟩
    rw [h l w hw]
    exact ⟨w, hw, rfl⟩
  · rintro ⟨w, hw, rfl⟩
    exact ⟨k, w, hw, h k w hw, rfl⟩

theorem countP_readBack {d : Dict Str V} (h : d.Separates) {value : V → V} {p : V → Bool}
    (hp : ∀ v, p (value v) = p v) :
  (d.readBack value).values.countP p = d.values.countP p
  := by
  rw [values, ((entries_readBack h value).map Prod.snd).countP_eq, values, List.map_map,
    List.countP_map, List.countP_map]
  apply List.countP_congr
  intro q _
  simp only [Function.comp, hp]

end Dict
