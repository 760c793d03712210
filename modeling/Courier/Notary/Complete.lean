import Courier.Notary

/-!
# Proofs are complete

The proof that is generated for a leaf leads to the root of the tree, whatever the number of the leaves:
a node without a partner is combined with itself when the tree is built, is its own sibling in the proof,
and is combined with itself again when the proof is verified (`verify_generateProof`).
-/

namespace Courier.Notary

open Merkle

section Complete

variable [Platform]

def Ascii (s : Str) : Prop :=
  ∀ c ∈ s, c < 128

instance (s : Str) : Decidable (Ascii s) :=
  inferInstanceAs (Decidable (∀ c ∈ s, c < 128))

omit [Platform] in
theorem Ascii.encodable {s t : Str} (hs : Ascii s) (ht : Ascii t) :
  Text.Encodable (s ++ t)
  := by
  apply List.any_eq_false.mpr
  intro c hc
  have hlt : c < 128 := (List.mem_append.mp hc).elim (hs c) (ht c)
  simp only [Text.isSurrogate, Bool.and_eq_true, decide_eq_true_eq]
  omega

def sideWord : Side → Str
  | .left => text "left"
  | .right => text "right"

omit [Platform] in
theorem siblings_eq (levels : List (List Str)) (i : Nat) :
  siblings levels i = (pathTo [] levels i).map fun step => (sideWord step.1, step.2)
  := by
  induction levels generalizing i with
  | nil => rfl
  | cons level levels ih =>
    cases levels with
    | nil => rfl
    | cons next levels =>
      rw [siblings, pathTo, List.map_cons, ih, siblingAt]
      split_ifs <;> rfl

variable (hdigest : ∀ s, Ascii (Platform.sha256 s))

include hdigest

theorem climbPath_eq {current : Str} (hcurrent : Ascii current) {path : List (Side × Str)}
    (hpath : ∀ step ∈ path, Ascii step.2) :
  climbPath current (path.map fun step => (sideWord step.1, step.2)) =
    .ok (some (climb hashPair current path))
  := by
  induction path generalizing current with
  | nil => rfl
  | cons step path ih =>
    obtain ⟨side, sibling⟩ := step
    have hsibling : Ascii sibling := hpath (side, sibling) (List.mem_cons_self ..)
    have hrest : ∀ combined, Ascii combined →
        climbPath combined (path.map fun step => (sideWord step.1, step.2)) =
          .ok (some (climb hashPair combined path)) :=
      fun combined h => ih h fun step hstep => hpath step (List.mem_cons_of_mem _ hstep)
    cases side with
    | left =>
      rw [List.map_cons, sideWord, climbPath, if_pos rfl, if_pos (hsibling.encodable hcurrent)]
      exact hrest _ (hdigest _)
    | right =>
      rw [List.map_cons, sideWord, climbPath, if_neg (by decide), if_pos rfl,
        if_pos (hcurrent.encodable hsibling)]
      exact hrest _ (hdigest _)

theorem ascii_of_node {leaves : List Str} (hleaves : ∀ leaf ∈ leaves, Ascii leaf) {x : Str}
    (hx : Node hashPair leaves x) :
  Ascii x
  := by
  cases hx with
  | leaf hx => exact hleaves x hx
  | pair => exact hdigest _

theorem verify_generateProof {leaves : List Str} (hleaves : ∀ leaf ∈ leaves, Ascii leaf) {index : Nat}
    (hindex : index < leaves.length) :
  ∃ path, generateProof leaves index = .ok path ∧
    verifyInclusionProof leaves[index] path (treeRoot leaves) = .ok true ∧
    path.length + 1 = (treeLevels leaves).length
  := by
  have hne : leaves ≠ [] := List.ne_nil_of_length_pos (by omega)
  have hlevels : treeLevels leaves = levels hashPair leaves := if_neg hne
  obtain ⟨hlast, hlength⟩ := climb_pathTo hashPair [] (List.getElem?_eq_getElem hindex)
  have hroot : treeRoot leaves = climb hashPair leaves[index] (pathTo [] (levels hashPair leaves) index) := by
    rw [treeRoot, hlevels, hlast]
    rfl
  have hnodes : ∀ level ∈ levels hashPair leaves, ∀ x ∈ level, Ascii x := fun level hlevel x hx =>
    ascii_of_node hdigest hleaves (node_levels (fun y hy => .leaf hy) level hlevel x hx)
  have hascii : Ascii (treeRoot leaves) := by
    rw [hroot]
    exact hnodes _ (List.mem_of_getLast? hlast) _ (List.mem_singleton_self _)
  have hpath : ∀ step ∈ pathTo [] (levels hashPair leaves) index, Ascii step.2 :=
    pathTo_of_forall (by simp [Ascii]) index hnodes
  have hclimb := climbPath_eq hdigest (hleaves _ (List.getElem_mem hindex)) hpath
  refine ⟨_, if_pos hindex, ?_, ?_⟩
  · rw [hlevels, siblings_eq, verifyInclusionProof, hclimb, ← hroot]
    change compareDigest (treeRoot leaves) (treeRoot leaves) = .ok true
    rw [compareDigest, if_pos ⟨hascii, hascii⟩, decide_eq_true rfl]
  · rw [hlevels, siblings_eq, List.length_map, hlength]

end Complete

/-! ### Three leaves -/

section Example

/-- The digests of three results. -/
def threeLeaves : List Str :=
  [text "ca978112ca1bbdcafac231b39a23dc4da786eff8147c4e72b9807785afee48bb",
    text "3e23e8160039594a33894f6564e1b1348bbd7a0088d42c4acb73eeaed59c009d",
    text "2e7d2c03a9507ae265ecf5b5356885a53393a2029d241394997265a1a25aefc6"]

/-- The digests of the pairs of the tree over them. -/
def pairTable : List (Str × Str) :=
  [(threeLeaves.getD 0 [] ++ threeLeaves.getD 1 [],
      text "62af5c3cb8da3e4f25061e829ebeea5c7513c54949115b1acc225930a90154da"),
    (threeLeaves.getD 2 [] ++ threeLeaves.getD 2 [],
      text "d50c873877f38fcbc56dbe836b9d979912efcb587ed8eea919372d403b5c2bd4"),
    (text "62af5c3cb8da3e4f25061e829ebeea5c7513c54949115b1acc225930a90154da" ++
        text "d50c873877f38fcbc56dbe836b9d979912efcb587ed8eea919372d403b5c2bd4",
      text "0bdf27bf7ec894ca7cadfe491ec1a3ece840f117989e8c5e9bd7086467bf6c38")]

local instance platformThree : Platform :=
  { Platform.plain with sha256 := fun s => (pairTable.lookup s).getD (text "0") }

/-- The last of three leaves, which has no partner, is proved. -/
theorem verify_threeLeaves :
  ∃ path, generateProof threeLeaves 2 = .ok path ∧
    verifyInclusionProof threeLeaves[2] path (treeRoot threeLeaves) = .ok true ∧
    path.length + 1 = (treeLevels threeLeaves).length
  := by
  have hdigest : ∀ s, Ascii (Platform.sha256 s) := by
    intro s
    change Ascii ((pairTable.lookup s).getD (text "0"))
    cases hlookup : pairTable.lookup s with
    | none => exact (by decide : Ascii (text "0"))
    | some digest =>
      have hall : ∀ p ∈ pairTable, Ascii p.2 := by decide +kernel
      obtain ⟨before, rest, htable, -⟩ := List.lookup_eq_some_iff.mp hlookup
      exact hall (s, digest) (by rw [htable]; simp)
  exact verify_generateProof hdigest (by decide +kernel) (by decide)

end Example

end Courier.Notary
