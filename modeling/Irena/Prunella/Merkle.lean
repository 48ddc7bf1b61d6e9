import Irena.Library.Merkle
import Irena.Sample.Platform

/-! # Inclusion proofs

The audit path of a transaction in a block's tree, and its verification against a root and a count.
Paths are those of the trees over `splitPoint`. -/

namespace Irena.Prunella

open Irena.Library Irena.Library.Outcome Irena.Library.Strings

abbrev Side := Merkle.Side

/-- One level of an inclusion proof: the sibling's root and where it sits. -/
structure ProofStep where
  side : Side
  hash : Hash
deriving DecidableEq

structure InclusionProof where
  index : ℕ
  steps : List ProofStep
deriving DecidableEq

inductive ProofError where
  | indexOutOfRange (index count : ℕ)
  | wrongShape (index count expected : ℕ) (expectedSides : List Side) (found : ℕ)
    (foundSides : List Side)
  | rootMismatch (expected computed : Hash)
deriving DecidableEq

/-- The sides a path for `index` in a tree of `count` must have; every step makes the tree
smaller, so its size bounds the depth. -/
def expectedSidesWithin : ℕ → ℕ → ℕ → List Side
  | 0, _, _ => []
  | depth + 1, count, index =>
    if count ≤ 1 then []
    else
      let split := splitPoint count
      if index < split then expectedSidesWithin depth split index ++ [.right]
      else expectedSidesWithin depth (count - split) (index - split) ++ [.left]

def expectedSides (count index : ℕ) : List Side := expectedSidesWithin count count index

section Rules

variable [Platform]

/-- The audit path for the leaf at `index`, the lowest step first. -/
def auditPathWithin (tags : TreeTags) : ℕ → List Hash → ℕ → List ProofStep
  | 0, _, _ => []
  | depth + 1, leaves, index =>
    if leaves.length ≤ 1 then []
    else
      let split := splitPoint leaves.length
      if index < split then
        auditPathWithin tags depth (leaves.take split) index ++
          [⟨.right, root tags (leaves.drop split)⟩]
      else
        auditPathWithin tags depth (leaves.drop split) (index - split) ++
          [⟨.left, root tags (leaves.take split)⟩]

def auditPath (tags : TreeTags) (leaves : List Hash) (index : ℕ) : List ProofStep :=
  auditPathWithin tags leaves.length leaves index

/-- The running digest one level further up. -/
def ProofStep.climb (tags : TreeTags) (running : Hash) (step : ProofStep) : Hash :=
  match step.side with
  | .left => nodeHashWith tags step.hash running
  | .right => nodeHashWith tags running step.hash

namespace InclusionProof

/-- The proof for the leaf at `index`, if there is one and its index fits 32 bits. -/
def generateWith (tags : TreeTags) (leaves : List Hash) (index : ℕ) : Option InclusionProof :=
  if leaves.length ≤ index then none
  else if index ≤ u32Max then some ⟨index, auditPath tags leaves index⟩
  else none

def verifyWith (proof : InclusionProof) (tags : TreeTags) (leaf : Hash) (count : ℕ) (root : Hash) :
    Except ProofError Unit :=
  if count ≤ proof.index then .error (.indexOutOfRange proof.index count)
  else
    let expected := expectedSides count proof.index
    let found := proof.steps.map ProofStep.side
    if expected ≠ found then
      .error (.wrongShape proof.index count expected.length expected found.length found)
    else
      let running := proof.steps.foldl (ProofStep.climb tags) (leafHashWith tags leaf)
      if running = root then .ok () else .error (.rootMismatch root running)

def generate (ids : List TxId) (index : ℕ) : Option InclusionProof :=
  generateWith .prunellaV1 (ids.map TxId.hash) index

def verify (proof : InclusionProof) (id : TxId) (count : ℕ) (root : Hash) :
    Except ProofError Unit :=
  proof.verifyWith .prunellaV1 id.hash count root

def verifyAgainst (proof : InclusionProof) (id : TxId) (header : BlockHeader) :
    Except ProofError Unit :=
  proof.verify id header.txCount header.txRoot

theorem verifyWith_eq_ok {proof : InclusionProof} {tags : TreeTags} {leaf root : Hash}
    {count : ℕ} : proof.verifyWith tags leaf count root = .ok () ↔
      proof.index < count ∧ proof.steps.map ProofStep.side = expectedSides count proof.index ∧
        proof.steps.foldl (ProofStep.climb tags) (leafHashWith tags leaf) = root := by
  unfold verifyWith
  by_cases hindex : count ≤ proof.index
  · simp [hindex]
  · by_cases hsides : expectedSides count proof.index = proof.steps.map ProofStep.side
    · simp [hindex, hsides, Nat.not_le.mp hindex]
    · simp [hindex, hsides, eq_comm]

end InclusionProof

omit [Platform] in
theorem doubleBelow_bounds {n k : ℕ} (fuel : ℕ) (hpos : 0 < k) (hlt : k < n) :
    0 < doubleBelow n fuel k ∧ doubleBelow n fuel k < n := by
  induction fuel generalizing k with
  | zero => exact ⟨hpos, hlt⟩
  | succ fuel ih =>
    unfold doubleBelow
    split
    · rename_i hdouble
      exact ih (by omega) hdouble
    · exact ⟨hpos, hlt⟩

def splitShape : Merkle.Shape where
  split := splitPoint
  pos h := (doubleBelow_bounds _ Nat.one_pos h).1
  lt h := (doubleBelow_bounds _ Nat.one_pos h).2

def TreeTags.hashing (tags : TreeTags) : Merkle.TreeHash Hash Hash :=
  ⟨leafHashWith tags, nodeHashWith tags, emptyRootWith tags⟩

/-- A step as a side and a sibling. -/
def ProofStep.parts (step : ProofStep) : Side × Hash := (step.side, step.hash)

theorem rootWithin_eq {tags : TreeTags} {depth : ℕ} {leaves : List Hash}
    (h : leaves.length ≤ depth + 1) :
    rootWithin tags depth leaves = tags.hashing.root splitShape leaves := by
  induction depth generalizing leaves with
  | zero =>
    match leaves, h with
    | [], _ => rw [rootWithin, Merkle.TreeHash.root_nil]; rfl
    | [only], _ => rw [rootWithin, Merkle.TreeHash.root_singleton]; rfl
  | succ depth ih =>
    match leaves, h with
    | [], _ => rw [rootWithin, Merkle.TreeHash.root_nil]; rfl
    | [only], _ => rw [rootWithin, Merkle.TreeHash.root_singleton]; rfl
    | a :: b :: rest, h =>
      have htwo : 2 ≤ (a :: b :: rest).length := by simp
      have hpos := splitShape.pos htwo
      have hlt := splitShape.lt htwo
      have hsplit : splitShape.split = splitPoint := rfl
      rw [hsplit] at hpos hlt
      rw [Merkle.TreeHash.root_halves _ _ htwo, hsplit, ← ih, ← ih]
      · rfl
      · rw [List.length_drop]
        omega
      · rw [List.length_take]
        omega

theorem root_eq (tags : TreeTags) (leaves : List Hash) :
    root tags leaves = tags.hashing.root splitShape leaves :=
  rootWithin_eq (Nat.le_succ _)

omit [Platform] in
theorem expectedSidesWithin_eq {depth count index : ℕ} (h : count ≤ depth + 1) :
    expectedSidesWithin depth count index = splitShape.sides count index := by
  induction depth generalizing count index with
  | zero => rw [expectedSidesWithin, splitShape.sides_of_lt (by omega)]
  | succ depth ih =>
    by_cases hsmall : count ≤ 1
    · rw [expectedSidesWithin, if_pos hsmall, splitShape.sides_of_lt (by omega)]
    · have htwo : 2 ≤ count := by omega
      have hpos := splitShape.pos htwo
      have hlt := splitShape.lt htwo
      have hsplit : splitShape.split = splitPoint := rfl
      rw [hsplit] at hpos hlt
      rw [expectedSidesWithin, if_neg hsmall]
      dsimp only
      by_cases hindex : index < splitPoint count
      · rw [if_pos hindex, splitShape.sides_left htwo hindex, hsplit, ih (by omega)]
      · rw [if_neg hindex, splitShape.sides_right htwo hindex, hsplit, ih (by omega)]

omit [Platform] in
theorem expectedSides_eq (count index : ℕ) :
    expectedSides count index = splitShape.sides count index :=
  expectedSidesWithin_eq (Nat.le_succ _)

theorem auditPathWithin_eq {tags : TreeTags} {depth index : ℕ} {leaves : List Hash}
    (h : leaves.length ≤ depth + 1) :
    (auditPathWithin tags depth leaves index).map ProofStep.parts =
      tags.hashing.path splitShape leaves index := by
  induction depth generalizing leaves index with
  | zero => rw [auditPathWithin, Merkle.TreeHash.path_of_lt _ _ (by omega), List.map_nil]
  | succ depth ih =>
    by_cases hsmall : leaves.length ≤ 1
    · rw [auditPathWithin, if_pos hsmall, Merkle.TreeHash.path_of_lt _ _ (by omega), List.map_nil]
    · have htwo : 2 ≤ leaves.length := by omega
      have hpos := splitShape.pos htwo
      have hlt := splitShape.lt htwo
      have hsplit : splitShape.split = splitPoint := rfl
      rw [hsplit] at hpos hlt
      rw [auditPathWithin, if_neg hsmall]
      dsimp only
      by_cases hindex : index < splitPoint leaves.length
      · rw [if_pos hindex, Merkle.TreeHash.path_left _ _ htwo hindex, List.map_append, hsplit, ih,
          ← root_eq]
        · rfl
        · rw [List.length_take]
          omega
      · rw [if_neg hindex, Merkle.TreeHash.path_right _ _ htwo hindex, List.map_append, hsplit, ih,
          ← root_eq]
        · rfl
        · rw [List.length_drop]
          omega

theorem auditPath_eq (tags : TreeTags) (leaves : List Hash) (index : ℕ) :
    (auditPath tags leaves index).map ProofStep.parts =
      tags.hashing.path splitShape leaves index :=
  auditPathWithin_eq (Nat.le_succ _)

theorem climb_eq (tags : TreeTags) (steps : List ProofStep) (start : Hash) :
    steps.foldl (ProofStep.climb tags) start =
      (steps.map ProofStep.parts).foldl tags.hashing.climb start := by
  rw [List.foldl_map]
  rfl

omit [Platform] in
theorem sides_eq (steps : List ProofStep) :
    steps.map ProofStep.side = (steps.map ProofStep.parts).map Prod.fst := by
  rw [List.map_map]
  rfl

/-- A hash without collisions keeps distinct domains apart. -/
theorem TreeTags.collisionFree {tags : TreeTags} (hash : Function.Injective Platform.blake3)
    (hnode : tags.leaf ≠ tags.node) (hempty : tags.leaf ≠ tags.empty)
    (hinner : tags.node ≠ tags.empty) : tags.hashing.CollisionFree where
  leaf_inj h := Hash.codec.encode_injective (domainBytes_inj (hash h)).2
  node_inj {l r l' r'} h := by
    have hbytes := (domainBytes_inj (hash h)).2
    obtain ⟨hleft, hright⟩ := Hash.codec.encode_append_inj hbytes
    exact ⟨hleft, Hash.codec.encode_injective hright⟩
  leaf_ne_node h := hnode (domainBytes_inj (hash h)).1
  leaf_ne_empty h := hempty (domainBytes_inj (hash h)).1
  node_ne_empty h := hinner (domainBytes_inj (hash h)).1

theorem verifyWith_generateWith {tags : TreeTags} {leaves : List Hash} {index : ℕ} {leaf : Hash}
    (hleaf : leaves[index]? = some leaf) (hcount : leaves.length ≤ u32Max) :
    ∃ proof, InclusionProof.generateWith tags leaves index = some proof ∧
      proof.verifyWith tags leaf leaves.length (root tags leaves) = .ok () := by
  have hindex : index < leaves.length := (List.getElem?_eq_some_iff.mp hleaf).1
  refine ⟨⟨index, auditPath tags leaves index⟩, ?_, ?_⟩
  · rw [InclusionProof.generateWith, if_neg (by omega), if_pos (by omega)]
  · refine InclusionProof.verifyWith_eq_ok.mpr ⟨hindex, ?_, ?_⟩
    · rw [sides_eq, auditPath_eq, Merkle.TreeHash.path_sides, expectedSides_eq]
    · rw [climb_eq, auditPath_eq, root_eq]
      exact tags.hashing.climb_path splitShape hleaf

theorem getElem_of_verifyWith {tags : TreeTags} (hfree : tags.hashing.CollisionFree)
    {proof : InclusionProof} {leaf : Hash} {leaves : List Hash}
    (h : proof.verifyWith tags leaf leaves.length (root tags leaves) = .ok ()) :
    leaves[proof.index]? = some leaf := by
  obtain ⟨hindex, hsides, hroot⟩ := InclusionProof.verifyWith_eq_ok.mp h
  rw [sides_eq, expectedSides_eq] at hsides
  rw [climb_eq, root_eq] at hroot
  exact hfree.climb_sound splitShape hindex hsides hroot

/-- Generated proofs verify, what verifies is in the list, and the root determines the list. -/
theorem inclusion_proofs_exact (tags : TreeTags) :
    (∀ (leaves : List Hash) (index : ℕ) (leaf : Hash), leaves[index]? = some leaf →
      leaves.length ≤ u32Max → ∃ proof, InclusionProof.generateWith tags leaves index = some proof ∧
        proof.verifyWith tags leaf leaves.length (root tags leaves) = .ok ()) ∧
    (tags.hashing.CollisionFree →
      (∀ (proof : InclusionProof) (leaf : Hash) (leaves : List Hash),
        proof.verifyWith tags leaf leaves.length (root tags leaves) = .ok () →
          leaves[proof.index]? = some leaf) ∧
      ∀ leaves leaves' : List Hash, root tags leaves = root tags leaves' → leaves = leaves') := by
  refine ⟨fun leaves index leaf => verifyWith_generateWith, fun hfree => ⟨?_, ?_⟩⟩
  · intro proof leaf leaves
    exact getElem_of_verifyWith hfree
  · intro leaves leaves' h
    rw [root_eq, root_eq] at h
    exact hfree.root_injective splitShape h

end Rules

section Samples

attribute [local instance] Sample.numberingPlatform

/-- Over three leaves, only the last one verifies at the last position. -/
theorem inclusion_proofs_exact_three :
    TreeTags.prunellaV1.hashing.CollisionFree ∧
      (∃ proof, InclusionProof.generateWith .prunellaV1 [⟨1⟩, ⟨2⟩, ⟨3⟩] 2 = some proof ∧
        proof.verifyWith .prunellaV1 ⟨3⟩ 3 (root .prunellaV1 [⟨1⟩, ⟨2⟩, ⟨3⟩]) = .ok ()) ∧
      root .prunellaV1 [⟨1⟩, ⟨2⟩, ⟨3⟩] ≠ root .prunellaV1 [⟨1⟩, ⟨2⟩, ⟨3⟩, ⟨3⟩] := by
  have hfree : TreeTags.prunellaV1.hashing.CollisionFree :=
    TreeTags.collisionFree Sample.numbering_injective (by decide) (by decide) (by decide)
  have hexact := inclusion_proofs_exact .prunellaV1
  refine ⟨hfree, hexact.1 [⟨1⟩, ⟨2⟩, ⟨3⟩] 2 ⟨3⟩ rfl (by decide), fun h => ?_⟩
  have hlists := (hexact.2 hfree).2 _ _ h
  cases hlists

end Samples

end Irena.Prunella
