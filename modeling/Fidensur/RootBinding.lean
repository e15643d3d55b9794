import Fidensur.HonestRun

set_option autoImplicit false

/-! A Merkle root commits to one table of one round. -/

namespace Fidensur

open ByteWords

variable {keccak : Keccak} {S : Set Bytes} {cfg cfg' : EngineConfig} {p p' : Policy}
  {table table' : List Allocation} {tree tree' : List (List Bytes32)} {roundId roundId' : Uint256}

structure Commits (keccak : Keccak) (S : Set Bytes) (roundId : Uint256) (table : List Allocation)
    (tree : List (List Bytes32)) : Prop where
  policy : ∃ cfg p, validate cfg p = .ok () ∧ evaluate p = .ok table ∧ p.roundId = some ((roundId : ℕ) : ℤ) ∧
    value p.totalBudget < 2 ^ 256
  built : MerkleTree.buildMerkleTree keccak (leavesOf keccak (roundId : ℕ) table) = some tree
  hashed : ∀ b ∈ MerkleTree.preimages keccak (roundId : ℕ) table tree, b ∈ S

theorem Commits.nonempty (h : Commits keccak S roundId table tree) : table ≠ [] := by
  obtain ⟨cfg, p, hvalid, htable, -⟩ := h.policy
  exact (evaluate_ok (Policy.Valid.of_validate hvalid) htable).nonempty

theorem Commits.indexed (h : Commits keccak S roundId table tree) :
    ∀ i, (hi : i < table.length) → table[i].index = i := by
  obtain ⟨cfg, p, hvalid, htable, -⟩ := h.policy
  exact (evaluate_ok (Policy.Valid.of_validate hvalid) htable).indexed

theorem Commits.exists_leaf (h : Commits keccak S roundId table tree) {j : ℕ} (hj : j < table.length) :
    ∃ l : Leaf, l.row = table[j] := by
  obtain ⟨cfg, p, hvalid, htable, -, hbudget⟩ := h.policy
  have hp := Policy.Valid.of_validate hvalid
  have htab := evaluate_ok hp htable
  have hcount : table.length ≤ 4096 := htab.count.trans hp.count
  have hpos := htab.positive _ (List.getElem_mem hj)
  have hle : table[j].amount ≤ sumAllocations table :=
    List.single_le_sum (List.forall_mem_map.mpr fun a ha => (htab.positive a ha).le) _
      (List.mem_map_of_mem (List.getElem_mem hj))
  have hsum := htab.budget
  have hindex := htab.indexed j hj
  refine ⟨⟨⟨table[j].index, by omega⟩, table[j].recipient, ⟨table[j].amount.toNat, by omega⟩⟩, ?_⟩
  have hamount : ((table[j].amount.toNat : ℕ) : ℤ) = table[j].amount := Int.toNat_of_nonneg hpos.le
  simp only [Leaf.row, hamount]

theorem Commits.row (hk : Set.InjOn keccak S) (h : Commits keccak S roundId table tree)
    (h' : Commits keccak S roundId' table' tree') (hroot : MerkleTree.root tree = MerkleTree.root tree')
    {j : ℕ} (hj : j < table'.length) : roundId = roundId' ∧ table[j]? = some table'[j] := by
  obtain ⟨l, hl⟩ := h'.exists_leaf hj
  have hindex : table'[j].index = (l.index : ℕ) := by rw [← hl]; rfl
  have hamount : table'[j].amount = (l.amount : ℕ) := by rw [← hl]; rfl
  have hrecipient : table'[j].recipient = l.recipient := by rw [← hl]; rfl
  have hlen : j < (leavesOf keccak (roundId' : ℕ) table').length := by simpa [leavesOf] using hj
  have hleaf : (leavesOf keccak (roundId' : ℕ) table')[j] =
      AllocationMerkle.leafHash keccak roundId' l.index l.recipient l.amount := by
    simp only [leavesOf, List.getElem_map, ← hl]
    exact MerkleTree.leafHash_eq keccak rfl rfl rfl
  have hverified := MerkleTree.verifyLeaf_proof keccak h'.built hlen
  rw [hleaf, AllocationMerkle.verifyLeaf, decide_eq_true_eq, ← hroot] at hverified
  have hclaim := MerkleTree.preimages_subset hj hindex hamount h'.built
  rw [hrecipient] at hclaim
  obtain ⟨a, ha, hpreimage⟩ := MerkleTree.row_of_root hk h.built h.hashed
    (fun b hb => h'.hashed b (hclaim b hb)) hverified
  obtain rfl := MerkleTree.leafPreimage_round hpreimage
  obtain ⟨i, hi, rfl⟩ := List.getElem_of_mem ha
  obtain ⟨m, hm⟩ := h.exists_leaf hi
  have hsmall : table[i].index < 256 ^ 32 := by
    rw [← hm]
    exact word_lt m.index
  have hpositive : 0 ≤ table[i].amount := by
    rw [← hm]
    exact Int.natCast_nonneg _
  obtain ⟨hidx, hrec, hamt⟩ := MerkleTree.leafPreimage_inj hsmall hpositive hpreimage
  have hsame : table[i] = table'[j] := by
    rw [← hl, Leaf.row, ← hidx, ← hrec, ← hamt]
  have hi' := h.indexed i hi
  have hj' := h'.indexed j hj
  rw [hsame, hj'] at hi'
  subst hi'
  exact ⟨rfl, by rw [List.getElem?_eq_getElem hi, hsame]⟩

/-- Equal roots come from equal tables of the same round, whatever policies and modes they were
evaluated from. -/
theorem root_binds_table (keccak : Keccak) (S : Set Bytes) (hk : Set.InjOn keccak S)
    (roundId roundId' : Uint256) (table table' : List Allocation) (tree tree' : List (List Bytes32))
    (h : Commits keccak S roundId table tree) (h' : Commits keccak S roundId' table' tree') :
    MerkleTree.root tree = MerkleTree.root tree' ↔ roundId = roundId' ∧ table = table' := by
  constructor
  · intro hroot
    have hsub (j : ℕ) (hj : j < table'.length) := h.row hk h' hroot hj
    have hsub' (j : ℕ) (hj : j < table.length) := h'.row hk h hroot.symm hj
    refine ⟨(hsub 0 (List.length_pos_iff.mpr h'.nonempty)).1, ?_⟩
    apply List.ext_getElem?
    intro j
    by_cases hj : j < table'.length
    · rw [(hsub j hj).2, List.getElem?_eq_getElem hj]
    · by_cases hj' : j < table.length
      · rw [(hsub' j hj').2, List.getElem?_eq_getElem hj']
      · rw [List.getElem?_eq_none (not_lt.mp hj), List.getElem?_eq_none (not_lt.mp hj')]
  · rintro ⟨rfl, rfl⟩
    have hbuilt := h.built
    rw [h'.built] at hbuilt
    rw [Option.some.inj hbuilt]

/-- The table of another round that pays the same rows. -/
def laterTree : List (List Bytes32) :=
  MerkleTree.buildLevels sampleDeployment.keccak 3 (leavesOf sampleDeployment.keccak 100 sampleTable)

def bothHashed : List Bytes :=
  MerkleTree.preimages sampleDeployment.keccak 0 sampleTable sampleTree ++
    MerkleTree.preimages sampleDeployment.keccak 100 sampleTable laterTree

theorem root_binds_table_sample : MerkleTree.root sampleTree ≠ MerkleTree.root laterTree := by
  have hinjective : Set.InjOn sampleDeployment.keccak {b | b ∈ bothHashed} := by
    apply injOn_hashed
    decide +kernel
  have hfirst : Commits sampleDeployment.keccak {b | b ∈ bothHashed} 0 sampleTable sampleTree := by
    refine ⟨⟨sampleConfig, samplePolicy, by decide +kernel, by decide +kernel, rfl, by decide⟩, by decide +kernel, ?_⟩
    exact fun b hb => List.mem_append_left _ hb
  have hlater : Commits sampleDeployment.keccak {b | b ∈ bothHashed} 100 sampleTable laterTree := by
    refine ⟨⟨sampleConfig, { samplePolicy with roundId := some 100 }, by decide, by decide, rfl,
      by decide⟩, by decide +kernel, ?_⟩
    exact fun b hb => List.mem_append_right _ hb
  intro hroot
  have hround := ((root_binds_table sampleDeployment.keccak {b | b ∈ bothHashed} hinjective 0 100 sampleTable
    sampleTable sampleTree laterTree hfirst hlater).mp hroot).1
  exact absurd hround (by decide)

end Fidensur
