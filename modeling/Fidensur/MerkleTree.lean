import Fidensur.AllocationMerkle
import Fidensur.PairHashTree

set_option autoImplicit false

namespace Fidensur.MerkleTree

open ByteWords

/-- `big.Int.Bytes`: big-endian without leading zeros. -/
def bigEndian : ℕ → ℕ → Bytes
  | 0, _ => []
  | fuel + 1, n => if n = 0 then [] else bigEndian fuel (n / 256) ++ [UInt8.ofNat n]

def bigBytes (n : ℤ) : Bytes := bigEndian n.natAbs n.natAbs

/-- Longer strings are left as they are. -/
def leftPadBytes (b : Bytes) (l : ℕ) : Bytes := List.replicate (l - b.length) 0 ++ b

variable (keccak : Keccak)

def leafPreimage (roundId : ℤ) (index : ℕ) (recipient : Address) (amount : ℤ) : Bytes :=
  leftPadBytes (bigBytes roundId) 32 ++ leftPadBytes (bigBytes index) 32 ++
    leftPadBytes (ofNat 20 recipient) 32 ++ leftPadBytes (bigBytes amount) 32

def leafHash (roundId : ℤ) (index : ℕ) (recipient : Address) (amount : ℤ) : Bytes32 :=
  keccak (ofNat 32 (keccak (leafPreimage roundId index recipient amount)))

def bytesLess : Bytes → Bytes → Bool
  | a :: as, b :: bs => if a ≠ b then decide (a < b) else bytesLess as bs
  | _, _ => false

def hashPair (a b : Bytes32) : Bytes32 :=
  if bytesLess (ofNat 32 a) (ofNat 32 b) then keccak (ofNat 32 a ++ ofNat 32 b)
  else keccak (ofNat 32 b ++ ofNat 32 a)

def nextLevel (level : List Bytes32) : List Bytes32 :=
  (List.range ((level.length + 1) / 2)).map fun i =>
    if 2 * i + 1 < level.length then hashPair keccak (level.getD (2 * i) 0) (level.getD (2 * i + 1) 0)
    else level.getD (2 * i) 0

/-- The loop of `BuildMerkleTree`; a level of `n` nodes takes at most `n` rounds. -/
def buildLevels : ℕ → List Bytes32 → List (List Bytes32)
  | 0, level => [level]
  | fuel + 1, level =>
      if 1 < level.length then level :: buildLevels fuel (nextLevel keccak level) else [level]

def buildMerkleTree (leaves : List Bytes32) : Option (List (List Bytes32)) :=
  if leaves = [] then none else some (buildLevels keccak leaves.length leaves)

def root (levels : List (List Bytes32)) : Bytes32 := (levels.getLastD []).headD 0

def siblings : List (List Bytes32) → ℕ → List Bytes32
  | level :: next :: above, idx =>
      (if idx ^^^ 1 < level.length then [level.getD (idx ^^^ 1) 0] else []) ++
        siblings (next :: above) (idx >>> 1)
  | _, _ => []

def proof (levels : List (List Bytes32)) (index : ℕ) : List Bytes32 :=
  if (levels.headD []).length ≤ index then [] else siblings levels index

def verifyProof (root leaf : Bytes32) (proof : List Bytes32) : Bool :=
  proof.foldl (hashPair keccak) leaf = root

section Encoding

theorem ofNat_zero (l : ℕ) : ofNat l 0 = List.replicate l 0 := by
  induction l with
  | zero => rfl
  | succ l ih => rw [ofNat, Nat.zero_div, ih, List.replicate_succ']; rfl

theorem leftPadBytes_bigEndian {fuel l n : ℕ} (hf : n < 256 ^ fuel) (hl : n < 256 ^ l) :
    leftPadBytes (bigEndian fuel n) l = ofNat l n := by
  induction l generalizing fuel n with
  | zero =>
    obtain rfl : n = 0 := by simpa using hl
    cases fuel <;> simp [leftPadBytes, bigEndian, ofNat]
  | succ l ih =>
    by_cases hn : n = 0
    · subst hn
      rw [ofNat_zero]
      cases fuel <;> simp [leftPadBytes, bigEndian]
    cases fuel with
    | zero =>
      simp only [pow_zero, Nat.lt_one_iff] at hf
      exact absurd hf hn
    | succ fuel =>
      rw [Nat.pow_succ] at hf hl
      have hrec : leftPadBytes (bigEndian fuel (n / 256)) l = ofNat l (n / 256) :=
        ih (by omega) (by omega)
      rw [ofNat, ← hrec]
      simp only [leftPadBytes, bigEndian, hn, if_false, List.length_append, List.length_singleton,
        Nat.add_sub_add_right, List.append_assoc]

theorem leftPadBytes_bigBytes {n : ℤ} (h : n.natAbs < 256 ^ 32) :
    leftPadBytes (bigBytes n) 32 = ofNat 32 n.natAbs :=
  leftPadBytes_bigEndian (Nat.lt_pow_self (by decide)) h

theorem leftPadBytes_ofNat {k l n : ℕ} (h : n < 256 ^ k) (hkl : k ≤ l) :
    leftPadBytes (ofNat k n) l = ofNat l n := by
  induction l generalizing k n with
  | zero =>
    obtain rfl : k = 0 := by omega
    rfl
  | succ l ih =>
    cases k with
    | zero =>
      obtain rfl : n = 0 := by simpa using h
      rw [ofNat_zero (l + 1)]
      simp [leftPadBytes, ofNat]
    | succ k =>
      rw [Nat.pow_succ] at h
      have hrec := ih (k := k) (n := n / 256) (by omega) (by omega)
      rw [ofNat, ofNat, ← hrec]
      simp only [leftPadBytes, List.length_append, List.length_singleton, length_ofNat,
        Nat.add_sub_add_right, List.append_assoc]

theorem leafPreimage_eq {roundId amount : ℤ} {index : ℕ} {recipient : Address} {id i a : Uint256}
    (hr : roundId = (id : ℕ)) (hi : index = i) (ha : amount = (a : ℕ)) :
    leafPreimage roundId index recipient amount = AllocationMerkle.leafPreimage id i recipient a := by
  subst hr hi ha
  have hword (w : Uint256) : leftPadBytes (bigBytes (w : ℕ)) 32 = ofNat 32 (w : ℕ) := by
    apply leftPadBytes_bigBytes
    have := w.isLt
    simp only [Int.natAbs_natCast]
    omega
  have hrecipient : leftPadBytes (ofNat 20 recipient) 32 = ofNat 32 (recipient : ℕ) := by
    apply leftPadBytes_ofNat _ (by decide)
    have := recipient.isLt
    omega
  simp only [leafPreimage, AllocationMerkle.leafPreimage, abiEncode, ofWords_cons, ofWords_nil, hword,
    hrecipient, List.append_nil, List.append_assoc]

theorem leafHash_eq {roundId amount : ℤ} {index : ℕ} {recipient : Address} {id i a : Uint256}
    (hr : roundId = (id : ℕ)) (hi : index = i) (ha : amount = (a : ℕ)) :
    leafHash keccak roundId index recipient amount =
      AllocationMerkle.leafHash keccak id i recipient a := by
  rw [leafHash, leafPreimage_eq hr hi ha]
  rfl

end Encoding

section Refinement

theorem bytesLess_append {as bs as' bs' : Bytes} (h : as.length = bs.length) :
    bytesLess (as ++ as') (bs ++ bs') = if as = bs then bytesLess as' bs' else bytesLess as bs := by
  induction as generalizing bs with
  | nil =>
    obtain rfl := List.length_eq_zero_iff.mp h.symm
    simp
  | cons a as ih =>
    cases bs with
    | nil => simp at h
    | cons b bs =>
      have hlen : as.length = bs.length := by simpa using h
      have hrec := ih hlen
      by_cases hab : a = b
      · subst hab
        simp only [List.cons_append, bytesLess, hrec, List.cons.injEq, true_and, ne_eq,
          not_true_eq_false, if_false]
      · simp [bytesLess, hab]

theorem bytesLess_ofNat {k v w : ℕ} (hv : v < 256 ^ k) (hw : w < 256 ^ k) :
    bytesLess (ofNat k v) (ofNat k w) = decide (v < w) := by
  induction k generalizing v w with
  | zero =>
    simp only [pow_zero, Nat.lt_one_iff] at hv hw
    simp [hv, hw, ofNat, bytesLess]
  | succ k ih =>
    rw [Nat.pow_succ] at hv hw
    have hv' : v / 256 < 256 ^ k := by omega
    have hw' : w / 256 < 256 ^ k := by omega
    rw [ofNat, ofNat, bytesLess_append (by simp), ih hv' hw']
    by_cases hdiv : v / 256 = w / 256
    · have hlast : (UInt8.ofNat v < UInt8.ofNat w) ↔ v % 256 < w % 256 := by
        simp [UInt8.lt_iff_toNat_lt]
      have hne : UInt8.ofNat v = UInt8.ofNat w ↔ v % 256 = w % 256 := by
        simp [← UInt8.toNat_inj]
      simp only [hdiv, if_true, bytesLess, hlast, ne_eq, hne]
      by_cases hmod : v % 256 = w % 256
      · have : ¬ v < w := by omega
        simp [hmod, this]
      · simp only [hmod, not_false_eq_true, if_true, decide_eq_decide]
        omega
    · have hne : ofNat k (v / 256) ≠ ofNat k (w / 256) := fun h => hdiv (ofNat_injective hv' hw' h)
      rw [if_neg hne, decide_eq_decide]
      omega

theorem hashPair_eq : hashPair keccak = AllocationMerkle.hashPair keccak := by
  funext a b
  have ha : (a : ℕ) < 256 ^ 32 := lt_of_lt_of_eq a.isLt (by norm_num)
  have hb : (b : ℕ) < 256 ^ 32 := lt_of_lt_of_eq b.isLt (by norm_num)
  simp only [hashPair, AllocationMerkle.hashPair, AllocationMerkle.efficientHash, bytesLess_ofNat ha hb,
    decide_eq_true_eq, Fin.lt_def, abiEncode, ofWords_cons, ofWords_nil, List.append_nil]

theorem nextLevel_eq (level : List Bytes32) :
    nextLevel keccak level = PairHashTree.nextLevel (AllocationMerkle.hashPair keccak) level := by
  rw [nextLevel, hashPair_eq]
  exact PairHashTree.map_range_eq_nextLevel _ 0 level

theorem buildLevels_eq (fuel : ℕ) (level : List Bytes32) :
    buildLevels keccak fuel level = PairHashTree.levels (AllocationMerkle.hashPair keccak) fuel level := by
  induction fuel generalizing level with
  | zero => rfl
  | succ fuel ih =>
    rw [buildLevels, PairHashTree.levels, nextLevel_eq, ih]
    split_ifs <;> first | rfl | omega

theorem buildMerkleTree_eq {leaves : List Bytes32} {levels : List (List Bytes32)}
    (h : buildMerkleTree keccak leaves = some levels) :
    leaves ≠ [] ∧
      levels = PairHashTree.levels (AllocationMerkle.hashPair keccak) leaves.length leaves := by
  unfold buildMerkleTree at h
  split_ifs at h with hne
  exact ⟨hne, by rw [← buildLevels_eq]; exact (Option.some.inj h).symm⟩

theorem siblings_eq (levels : List (List Bytes32)) (idx : ℕ) :
    siblings levels idx = PairHashTree.proof levels idx := by
  induction levels generalizing idx with
  | nil => rfl
  | cons level levels ih =>
    cases levels with
    | nil => rfl
    | cons next above =>
      rw [siblings, PairHashTree.proof, ih, Nat.shiftRight_eq_div_pow, Nat.pow_one]
      congr 1
      split
      · next h => rw [List.getD_eq_getElem _ _ h, List.getElem?_eq_getElem h]; rfl
      · next h => rw [List.getElem?_eq_none (by omega)]; rfl

end Refinement

section Proofs

theorem hashPair_comm (a b : Bytes32) :
    AllocationMerkle.hashPair keccak a b = AllocationMerkle.hashPair keccak b a := by
  rw [AllocationMerkle.hashPair_eq, AllocationMerkle.hashPair_eq, AllocationMerkle.pairPreimage_comm]

theorem proof_eq {leaves : List Bytes32} {levels : List (List Bytes32)}
    (h : buildMerkleTree keccak leaves = some levels) {i : ℕ} (hi : i < leaves.length) :
    proof levels i = PairHashTree.proof levels i := by
  obtain ⟨-, rfl⟩ := buildMerkleTree_eq keccak h
  obtain ⟨above, habove⟩ :=
    PairHashTree.levels_cons (AllocationMerkle.hashPair keccak) leaves.length leaves
  rw [proof, if_neg (by rw [habove]; simpa using hi), siblings_eq]

theorem verifyLeaf_proof {leaves : List Bytes32} {levels : List (List Bytes32)}
    (h : buildMerkleTree keccak leaves = some levels) {i : ℕ} (hi : i < leaves.length) :
    AllocationMerkle.verifyLeaf keccak (root levels) leaves[i] (proof levels i) = true := by
  have hproof := proof_eq keccak h hi
  obtain ⟨-, rfl⟩ := buildMerkleTree_eq keccak h
  have hroot := PairHashTree.foldl_proof _ (hashPair_comm keccak) (0 : Bytes32) le_rfl i hi
  rw [AllocationMerkle.verifyLeaf, hproof, hroot]
  exact decide_eq_true rfl

end Proofs

end Fidensur.MerkleTree
