import Fidensur.EngineHandlers

set_option autoImplicit false

namespace Fidensur.MerkleTree

open ByteWords

variable {keccak : Keccak} {S : Set Bytes}

def preimages (keccak : Keccak) (roundId : ℤ) (table : List Allocation)
    (levels : List (List Bytes32)) : List Bytes :=
  table.flatMap (fun a =>
    let leaf := leafPreimage roundId a.index a.recipient a.amount
    [leaf, ofNat 32 (keccak leaf)]) ++
  (levels.flatMap PairHashTree.levelPairs).map (fun q => AllocationMerkle.pairPreimage q.1 q.2)

section Preimages

theorem length_pairPreimage (a b : Bytes32) : (AllocationMerkle.pairPreimage a b).length = 64 := by
  unfold AllocationMerkle.pairPreimage
  split <;> exact length_ofWords 32 _

theorem pairPreimage_inj {a b c d : Bytes32}
    (h : AllocationMerkle.pairPreimage a b = AllocationMerkle.pairPreimage c d) : c = a ∨ c = b := by
  have hlt (x y : Bytes32) : ∀ v ∈ [(x : ℕ), (y : ℕ)], v < 256 ^ 32 := by
    intro v hv
    simp only [List.mem_cons, List.not_mem_nil, or_false] at hv
    rcases hv with rfl | rfl <;> exact word_lt _
  have hwords {x y z w : Bytes32} (h : abiEncode [(x : ℕ), y] = abiEncode [(z : ℕ), w]) :
      x = z ∧ y = w := by
    have hlist : [(x : ℕ), (y : ℕ)] = [(z : ℕ), (w : ℕ)] :=
      ofWords_injective (by simp) (hlt x y) (hlt z w) h
    obtain ⟨hx, hrest⟩ := List.cons.inj hlist
    exact ⟨Fin.ext hx, Fin.ext (List.cons.inj hrest).1⟩
  unfold AllocationMerkle.pairPreimage at h
  split_ifs at h
  · exact .inl (hwords h).1.symm
  · exact .inr (hwords h).2.symm
  · exact .inr (hwords h).1.symm
  · exact .inl (hwords h).2.symm

theorem value_append (as bs : Bytes) :
    ByteWords.value (as ++ bs) = ByteWords.value as * 256 ^ bs.length + ByteWords.value bs := by
  induction bs using List.reverseRecOn with
  | nil => simp
  | append_singleton bs b ih =>
    rw [← List.append_assoc, value_concat, value_concat, ih, List.length_append, List.length_singleton]
    ring

theorem value_leftPadBytes (b : Bytes) (l : ℕ) :
    ByteWords.value (leftPadBytes b l) = ByteWords.value b := by
  have hzero (n : ℕ) : ByteWords.value (List.replicate n 0) = 0 := by
    rw [← ofNat_zero, value_ofNat, Nat.zero_mod]
  rw [leftPadBytes, value_append, hzero, Nat.zero_mul, Nat.zero_add]

theorem value_bigEndian {fuel n : ℕ} (h : n < 256 ^ fuel) :
    ByteWords.value (bigEndian fuel n) = n := by
  have hpad := leftPadBytes_bigEndian h h
  rw [← value_leftPadBytes (bigEndian fuel n) fuel, hpad, value_ofNat, Nat.mod_eq_of_lt h]

theorem leafPreimage_inj {roundId index amount : Uint256} {recipient recipient' : Address} {i : ℕ}
    {x : ℤ} (hi : i < 256 ^ 32) (hx : 0 ≤ x)
    (h : leafPreimage (roundId : ℕ) i recipient' x =
      AllocationMerkle.leafPreimage roundId index recipient amount) :
    i = index ∧ recipient' = recipient ∧ x = (amount : ℕ) := by
  have hround : ((roundId : ℕ) : ℤ).natAbs < 256 ^ 32 := by
    rw [Int.natAbs_natCast]
    exact word_lt roundId
  have hindex : ((i : ℕ) : ℤ).natAbs < 256 ^ 32 := by simpa using hi
  have haddr (a : Address) : (a : ℕ) < 256 ^ 20 := by
    have := a.isLt
    norm_num at this ⊢
    exact this
  have haddr' (a : Address) : (a : ℕ) < 256 ^ 32 := (haddr a).trans (by norm_num)
  rw [leafPreimage, leftPadBytes_bigBytes hround, leftPadBytes_bigBytes hindex,
    leftPadBytes_ofNat (haddr _) (by decide), AllocationMerkle.leafPreimage, abiEncode] at h
  simp only [ofWords_cons, ofWords_nil, List.append_nil, List.append_assoc] at h
  obtain ⟨-, h⟩ := List.append_inj h (by simp)
  obtain ⟨hidx, h⟩ := List.append_inj h (by simp)
  obtain ⟨hrec, hamount⟩ := List.append_inj h (by simp)
  refine ⟨?_, ?_, ?_⟩
  · simpa using ofNat_injective hindex (word_lt index) hidx
  · exact Fin.ext (ofNat_injective (haddr' _) (haddr' _) hrec)
  · have hv := congrArg ByteWords.value hamount
    rw [value_leftPadBytes, bigBytes, value_bigEndian (Nat.lt_pow_self (by decide)), value_ofNat,
      Nat.mod_eq_of_lt (word_lt amount)] at hv
    omega

theorem mem_proofPreimages (x : Bytes32) (q : List Bytes32) (s : Bytes32) (rest : List Bytes32) :
    AllocationMerkle.pairPreimage (q.foldl (AllocationMerkle.hashPair keccak) x) s ∈
      AllocationMerkle.proofPreimages keccak x (q ++ s :: rest) := by
  induction q generalizing x with
  | nil => exact List.mem_cons_self
  | cons y q ih => exact List.mem_cons_of_mem _ (ih _)

theorem exists_step_of_mem {x : Bytes32} {proof : List Bytes32} {b : Bytes}
    (h : b ∈ AllocationMerkle.proofPreimages keccak x proof) : ∃ q s rest, proof = q ++ s :: rest ∧
      b = AllocationMerkle.pairPreimage (q.foldl (AllocationMerkle.hashPair keccak) x) s := by
  induction proof generalizing x with
  | nil => cases h
  | cons sibling proof ih =>
    rcases List.mem_cons.mp h with rfl | h
    · exact ⟨[], sibling, proof, rfl, rfl⟩
    · obtain ⟨q, s, rest, rfl, rfl⟩ := ih h
      exact ⟨sibling :: q, s, rest, rfl, rfl⟩

theorem preimages_subset {roundId index amount : Uint256} {table : List Allocation}
    {tree : List (List Bytes32)} {j : ℕ} (hj : j < table.length)
    (hindex : table[j].index = (index : ℕ)) (hamount : table[j].amount = (amount : ℕ))
    (htree : buildMerkleTree keccak (leavesOf keccak (roundId : ℕ) table) = some tree) :
    ∀ b ∈ AllocationMerkle.preimages keccak roundId index table[j].recipient amount (proof tree j),
      b ∈ preimages keccak (roundId : ℕ) table tree := by
  have hleaf : leafPreimage (roundId : ℕ) table[j].index table[j].recipient table[j].amount =
      AllocationMerkle.leafPreimage roundId index table[j].recipient amount :=
    leafPreimage_eq rfl hindex hamount
  have hlen : j < (leavesOf keccak (roundId : ℕ) table).length := by simpa [leavesOf] using hj
  have hget : (leavesOf keccak (roundId : ℕ) table)[j] =
      AllocationMerkle.leafHash keccak roundId index table[j].recipient amount := by
    simp only [leavesOf, List.getElem_map]
    exact leafHash_eq keccak rfl hindex hamount
  obtain ⟨-, hlevels⟩ := buildMerkleTree_eq keccak htree
  have hproof := proof_eq keccak htree hlen
  have hrow (b : Bytes) (hb : b = AllocationMerkle.leafPreimage roundId index table[j].recipient amount ∨
      b = ofNat 32 (keccak (AllocationMerkle.leafPreimage roundId index table[j].recipient amount))) :
      b ∈ preimages keccak (roundId : ℕ) table tree := by
    refine List.mem_append_left _ (List.mem_flatMap.mpr ⟨table[j], List.getElem_mem hj, ?_⟩)
    simpa [hleaf] using hb
  intro b hb
  simp only [AllocationMerkle.preimages, List.mem_cons] at hb
  rcases hb with hb | hb | hb
  · exact hrow b (.inl hb)
  · exact hrow b (.inr hb)
  · obtain ⟨q, s, rest, hsplit, rfl⟩ := exists_step_of_mem hb
    rw [hproof, hlevels] at hsplit
    have hpair := PairHashTree.pair_of_proof _ (hashPair_comm keccak) le_rfl hlen hsplit
    rw [hget, ← hlevels] at hpair
    refine List.mem_append_right _ (List.mem_map.mpr ?_)
    rcases hpair with hpair | hpair
    · exact ⟨_, hpair, rfl⟩
    · exact ⟨_, hpair, AllocationMerkle.pairPreimage_comm _ _⟩

theorem exists_root_preimage {roundId : ℤ} {table : List Allocation} {tree : List (List Bytes32)}
    (htree : buildMerkleTree keccak (leavesOf keccak roundId table) = some tree) :
    ∃ b ∈ preimages keccak roundId table tree, root tree = keccak b := by
  obtain ⟨hne, hlevels⟩ := buildMerkleTree_eq keccak htree
  have hnode := PairHashTree.node_root (AllocationMerkle.hashPair keccak) (0 : Bytes32) le_rfl hne
  rw [← hlevels] at hnode
  change PairHashTree.Node _ _ _ (root tree) at hnode
  generalize root tree = r at hnode
  cases hnode with
  | leaf x hx =>
    obtain ⟨a, ha, rfl⟩ := List.mem_map.mp hx
    exact ⟨_, List.mem_append_left _ (List.mem_flatMap.mpr ⟨a, ha, List.mem_cons_of_mem _ List.mem_cons_self⟩), rfl⟩
  | combined a b hb =>
    exact ⟨_, List.mem_append_right _ (List.mem_map.mpr ⟨(a, b), hb, rfl⟩), AllocationMerkle.hashPair_eq keccak a b⟩

end Preimages

theorem leafPreimage_round {roundId roundId' index amount : Uint256} {recipient recipient' : Address} {i : ℕ}
    {x : ℤ} (h : leafPreimage (roundId : ℕ) i recipient' x =
      AllocationMerkle.leafPreimage roundId' index recipient amount) : roundId = roundId' := by
  have hround : ((roundId : ℕ) : ℤ).natAbs < 256 ^ 32 := by
    rw [Int.natAbs_natCast]
    exact word_lt roundId
  rw [leafPreimage, leftPadBytes_bigBytes hround, AllocationMerkle.leafPreimage, abiEncode] at h
  simp only [ofWords_cons, List.append_assoc] at h
  obtain ⟨hid, -⟩ := List.append_inj h (by simp)
  exact Fin.ext (by simpa using ofNat_injective hround (word_lt roundId') hid)

/-- Whatever the proof, a leaf of any round that leads to the root of a table is a row of that table. -/
theorem row_of_root (hk : Set.InjOn keccak S) {roundId roundId' index amount : Uint256}
    {table : List Allocation} {tree : List (List Bytes32)} {recipient : Address}
    {proof : List Bytes32}
    (htree : buildMerkleTree keccak (leavesOf keccak (roundId : ℕ) table) = some tree)
    (hbuilt : ∀ b ∈ preimages keccak (roundId : ℕ) table tree, b ∈ S)
    (hclaim : ∀ b ∈ AllocationMerkle.preimages keccak roundId' index recipient amount proof, b ∈ S)
    (hroot : proof.foldl (AllocationMerkle.hashPair keccak)
      (AllocationMerkle.leafHash keccak roundId' index recipient amount) = root tree) :
    ∃ a ∈ table, leafPreimage (roundId : ℕ) a.index a.recipient a.amount =
      AllocationMerkle.leafPreimage roundId' index recipient amount := by
  obtain ⟨hne, hlevels⟩ := buildMerkleTree_eq keccak htree
  have hrow (a : Allocation) (ha : a ∈ table) :
      leafPreimage (roundId : ℕ) a.index a.recipient a.amount ∈ S ∧
        ofNat 32 (keccak (leafPreimage (roundId : ℕ) a.index a.recipient a.amount)) ∈ S := by
    constructor
    all_goals
      refine hbuilt _ (List.mem_append_left _ (List.mem_flatMap.mpr ⟨a, ha, ?_⟩))
      simp
  have hpairs (a b : Bytes32) (hab : (a, b) ∈ tree.flatMap PairHashTree.levelPairs) :
      AllocationMerkle.pairPreimage a b ∈ S :=
    hbuilt _ (List.mem_append_right _ (List.mem_map.mpr ⟨(a, b), hab, rfl⟩))
  -- a leaf hashes 32 bytes and a pair 64, so no leaf is a pair
  have hseparate (x : Bytes32) (hx : ofNat 32 x ∈ S) (a b : Bytes32)
      (hab : AllocationMerkle.pairPreimage a b ∈ S) :
      keccak (ofNat 32 x) ≠ AllocationMerkle.hashPair keccak a b := by
    intro heq
    rw [AllocationMerkle.hashPair_eq] at heq
    have hlen := congrArg List.length (hk hx hab heq)
    rw [length_ofNat, length_pairPreimage] at hlen
    omega
  have hnode : PairHashTree.Node (AllocationMerkle.hashPair keccak)
      (leavesOf keccak (roundId : ℕ) table) (tree.flatMap PairHashTree.levelPairs)
      (proof.foldl (AllocationMerkle.hashPair keccak)
        (AllocationMerkle.leafHash keccak roundId' index recipient amount)) := by
    rw [hroot, hlevels]
    exact PairHashTree.node_root _ 0 le_rfl hne
  let used (c d : Bytes32) : Prop := AllocationMerkle.pairPreimage c d ∈ S
  have hleaf := @PairHashTree.node_of_foldl _ (AllocationMerkle.hashPair keccak) _ _ used ?_ ?_ proof _ ?_
    hnode
  · have hmem := PairHashTree.mem_leaves_of_node (AllocationMerkle.hashPair keccak) ?_ hleaf
    · obtain ⟨a, ha, heq⟩ := List.mem_map.mp hmem
      refine ⟨a, ha, ?_⟩
      obtain ⟨hpre, hinner⟩ := hrow a ha
      have houter := hk hinner (hclaim _ (by simp [AllocationMerkle.preimages])) heq
      exact hk hpre (hclaim _ (by simp [AllocationMerkle.preimages]))
        (word_injective houter)
    · intro a b hab
      exact hseparate _ (hclaim _ (by simp [AllocationMerkle.preimages])) a b (hpairs a b hab)
  · intro x hx a b hab
    obtain ⟨r, hr, rfl⟩ := List.mem_map.mp hx
    exact hseparate _ (hrow r hr).2 a b hab
  · intro a b c d hab hcd heq
    rw [AllocationMerkle.hashPair_eq, AllocationMerkle.hashPair_eq] at heq
    exact pairPreimage_inj (hk (hpairs a b hab) hcd heq)
  · intro q s rest heq
    apply hclaim _
    rw [heq, AllocationMerkle.preimages]
    exact List.mem_cons_of_mem _ (List.mem_cons_of_mem _ (mem_proofPreimages _ q s rest))

/-- Whatever the proof, a claim that verifies under the root of a table is a row of that table. -/
theorem row_of_verify (hk : Set.InjOn keccak S) {roundId index amount : Uint256}
    {table : List Allocation} {tree : List (List Bytes32)} {recipient : Address}
    {proof : List Bytes32}
    (htree : buildMerkleTree keccak (leavesOf keccak (roundId : ℕ) table) = some tree)
    (hbuilt : ∀ b ∈ preimages keccak (roundId : ℕ) table tree, b ∈ S)
    (hclaim : ∀ b ∈ AllocationMerkle.preimages keccak roundId index recipient amount proof, b ∈ S)
    (hv : AllocationMerkle.verify keccak (root tree) roundId index recipient amount proof = true) :
    ∃ a ∈ table, leafPreimage (roundId : ℕ) a.index a.recipient a.amount =
      AllocationMerkle.leafPreimage roundId index recipient amount := by
  simp only [AllocationMerkle.verify, AllocationMerkle.verifyLeaf] at hv
  split at hv
  · cases hv
  · exact row_of_root hk htree hbuilt hclaim (of_decide_eq_true hv)

end Fidensur.MerkleTree
