import Fidensur.ContractState

set_option autoImplicit false

namespace Fidensur

open ByteWords

structure AllocationResult where
  contractAddr : Address
  roundId : Uint256
  policyCommitment : Bytes32
  merkleRoot : Bytes32
  totalAllocated : Uint256
  recipientCount : Fin (2 ^ 32)
  engineVersion : Bytes32
  deriving DecidableEq

namespace AllocationResult

def words (r : AllocationResult) : List ℕ :=
  [r.contractAddr, r.roundId, r.policyCommitment, r.merkleRoot, r.totalAllocated,
    r.recipientCount, r.engineVersion]

def encode (r : AllocationResult) : Bytes := abiEncode r.words

/-- `abi.decode`: reverts on short data and on an address or a `uint32` with dirty high bits,
and ignores what follows the seven words. -/
def decode (data : Bytes) : Option AllocationResult :=
  if data.length < 224 then none
  else if wordAt 32 0 data ≥ 2 ^ 160 then none
  else if wordAt 32 5 data ≥ 2 ^ 32 then none
  else some
    { contractAddr := Fin.ofNat _ (wordAt 32 0 data)
      roundId := Fin.ofNat _ (wordAt 32 1 data)
      policyCommitment := Fin.ofNat _ (wordAt 32 2 data)
      merkleRoot := Fin.ofNat _ (wordAt 32 3 data)
      totalAllocated := Fin.ofNat _ (wordAt 32 4 data)
      recipientCount := Fin.ofNat _ (wordAt 32 5 data)
      engineVersion := Fin.ofNat _ (wordAt 32 6 data) }

theorem words_lt (r : AllocationResult) : ∀ w ∈ r.words, w < 256 ^ 32 := by
  intro w hw
  simp only [words, List.mem_cons, List.not_mem_nil, or_false] at hw
  rcases hw with rfl | rfl | rfl | rfl | rfl | rfl | rfl <;> omega

theorem wordAt_encode (r : AllocationResult) (i : ℕ) (hi : i < r.words.length) :
    wordAt 32 i r.encode = r.words[i] :=
  wordAt_ofWords 32 r.words i hi (r.words_lt _ (List.getElem_mem hi))

theorem decode_encode (r : AllocationResult) : decode r.encode = some r := by
  have hlen : r.encode.length = 224 := length_ofWords 32 r.words
  have h0 : wordAt 32 0 r.encode = r.contractAddr := r.wordAt_encode 0 (by simp [words])
  have h1 : wordAt 32 1 r.encode = r.roundId := r.wordAt_encode 1 (by simp [words])
  have h2 : wordAt 32 2 r.encode = r.policyCommitment := r.wordAt_encode 2 (by simp [words])
  have h3 : wordAt 32 3 r.encode = r.merkleRoot := r.wordAt_encode 3 (by simp [words])
  have h4 : wordAt 32 4 r.encode = r.totalAllocated := r.wordAt_encode 4 (by simp [words])
  have h5 : wordAt 32 5 r.encode = r.recipientCount := r.wordAt_encode 5 (by simp [words])
  have h6 : wordAt 32 6 r.encode = r.engineVersion := r.wordAt_encode 6 (by simp [words])
  have ha := r.contractAddr.isLt
  have hc := r.recipientCount.isLt
  simp only [decode, hlen, h0, h1, h2, h3, h4, h5, h6, lt_irrefl, ↓reduceIte, ge_iff_le,
    Nat.not_le.mpr ha, Nat.not_le.mpr hc, Fin.ofNat_eq_cast, Fin.cast_val_eq_self]

end AllocationResult

end Fidensur
