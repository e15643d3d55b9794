import Fidensur.MerkleTree

set_option autoImplicit false

namespace Fidensur.MerkleTree

variable (keccak : Keccak)

theorem built_buildLevels {leaves : List Bytes32} :
    PairHashTree.Built (nextLevel keccak) leaves (buildLevels keccak leaves.length leaves) := by
  have hnext : nextLevel keccak = PairHashTree.nextLevel (AllocationMerkle.hashPair keccak) :=
    funext (nextLevel_eq keccak)
  rw [hnext, buildLevels_eq]
  exact PairHashTree.built_levels _ le_rfl

/-- The loop ends in a single root, and every leaf has a proof that leads to it, with one sibling
for each level at which an ancestor of the leaf is paired. -/
theorem proofs_complete_and_short {leaves : List Bytes32} {i : ℕ} (hi : i < leaves.length) :
    ∃ levels, buildMerkleTree keccak leaves = some levels ∧
      PairHashTree.Built (nextLevel keccak) leaves levels ∧
      levels.getLastD [] = [root levels] ∧
      verifyProof keccak (root levels) leaves[i] (proof levels i) = true ∧
      (proof levels i).length ≤ Nat.clog 2 leaves.length ∧
      (proof levels i).length = PairHashTree.pairedLevels leaves.length i := by
  have hne : leaves ≠ [] := List.ne_nil_of_length_pos (Nat.zero_lt_of_lt hi)
  have hbuild : buildMerkleTree keccak leaves = some (buildLevels keccak leaves.length leaves) := if_neg hne
  have hproof := proof_eq keccak hbuild hi
  have hlevels := buildLevels_eq keccak leaves.length leaves
  have hlength : (proof (buildLevels keccak leaves.length leaves) i).length =
      PairHashTree.pairedLevels leaves.length i := by
    rw [hproof, hlevels]
    exact PairHashTree.length_proof _ le_rfl hi
  refine ⟨_, hbuild, built_buildLevels keccak, ?_, ?_, ?_, hlength⟩
  · obtain ⟨r, hr⟩ := PairHashTree.getLast_levels (AllocationMerkle.hashPair keccak) le_rfl hne
    rw [root, hlevels, hr]
    rfl
  · rw [verifyProof, hashPair_eq, hproof, hlevels]
    have hroot := PairHashTree.foldl_proof _ (hashPair_comm keccak) (0 : Bytes32) le_rfl i hi
    rw [hroot]
    exact decide_eq_true rfl
  · rw [hlength]
    exact PairHashTree.pairedLevels_le _ _

def spreadingHash : Keccak := fun b => Fin.ofNat _ (ByteWords.value b % (2 ^ 256 - 1) + 1)

/-- The last of five leaves is promoted twice and paired once; its proof does not lead from another
leaf to the root. -/
theorem proofs_complete_and_short_sample : ∃ levels,
    buildMerkleTree spreadingHash [11, 12, 13, 14, 15] = some levels ∧
    verifyProof spreadingHash (root levels) 15 (proof levels 4) = true ∧
    verifyProof spreadingHash (root levels) 14 (proof levels 4) = false ∧
    (proof levels 4).length = 1 ∧ (proof levels 3).length = 3 := by
  obtain ⟨levels, hlevels, -, -, hverify, -, hlength⟩ :=
    @proofs_complete_and_short spreadingHash [11, 12, 13, 14, 15] 4 (by decide)
  obtain ⟨levels', hlevels', -, -, -, -, hlength'⟩ :=
    @proofs_complete_and_short spreadingHash [11, 12, 13, 14, 15] 3 (by decide)
  obtain rfl := Option.some.inj (hlevels'.symm.trans hlevels)
  refine ⟨levels', hlevels, hverify, ?_, hlength, hlength'⟩
  have hbuilt : (buildMerkleTree spreadingHash [11, 12, 13, 14, 15]).map
      (fun levels => verifyProof spreadingHash (root levels) 14 (proof levels 4)) = some false := by
    decide +kernel
  rw [hlevels] at hbuilt
  exact Option.some.inj hbuilt

end Fidensur.MerkleTree
