import Fidensur.ContractState

set_option autoImplicit false

namespace Fidensur.AllocationMerkle

open ByteWords

variable (keccak : Keccak)

def leafPreimage (roundId index : Uint256) (recipient : Address) (amount : Uint256) : Bytes :=
  abiEncode [roundId, index, recipient, amount]

theorem leafWords_lt (roundId index : Uint256) (recipient : Address) (amount : Uint256) :
    ∀ v ∈ [(roundId : ℕ), (index : ℕ), (recipient : ℕ), (amount : ℕ)], v < 256 ^ 32 := by
  have haddr : (recipient : ℕ) < 256 ^ 32 := recipient.isLt.trans (by norm_num)
  intro v hv
  simp only [List.mem_cons, List.not_mem_nil, or_false] at hv
  rcases hv with rfl | rfl | rfl | rfl
  · exact word_lt roundId
  · exact word_lt index
  · exact haddr
  · exact word_lt amount

theorem leafPreimage_inj {roundId roundId' index index' amount amount' : Uint256} {recipient recipient' : Address}
    (h : leafPreimage roundId index recipient amount = leafPreimage roundId' index' recipient' amount') :
    roundId = roundId' ∧ index = index' ∧ recipient = recipient' ∧ amount = amount' := by
  have hwords := ofWords_injective (by simp) (leafWords_lt roundId index recipient amount)
    (leafWords_lt roundId' index' recipient' amount') h
  simpa only [List.cons.injEq, Fin.val_inj, and_true] using hwords

theorem length_leafPreimage (roundId index : Uint256) (recipient : Address) (amount : Uint256) :
    (leafPreimage roundId index recipient amount).length = 128 := length_ofWords _ _

def leafHash (roundId index : Uint256) (recipient : Address) (amount : Uint256) : Bytes32 :=
  keccak (ofNat 32 (keccak (leafPreimage roundId index recipient amount)))

def efficientHash (a b : Bytes32) : Bytes32 := keccak (abiEncode [a, b])

def hashPair (a b : Bytes32) : Bytes32 :=
  if a < b then efficientHash keccak a b else efficientHash keccak b a

def verifyLeaf (root leaf : Bytes32) (proof : List Bytes32) : Bool :=
  proof.foldl (hashPair keccak) leaf = root

/-- A zero root means the round is not finalized and verifies nothing. -/
def verify (root : Bytes32) (roundId index : Uint256) (recipient : Address) (amount : Uint256)
    (proof : List Bytes32) : Bool :=
  if root = 0 then false
  else verifyLeaf keccak root (leafHash keccak roundId index recipient amount) proof

def pairPreimage (a b : Bytes32) : Bytes := if a < b then abiEncode [a, b] else abiEncode [b, a]

theorem pairPreimage_comm (a b : Bytes32) : pairPreimage a b = pairPreimage b a := by
  unfold pairPreimage
  rcases lt_trichotomy a b with h | rfl | h
  · rw [if_pos h, if_neg h.not_gt]
  · rfl
  · rw [if_neg h.not_gt, if_pos h]

theorem hashPair_eq (a b : Bytes32) : hashPair keccak a b = keccak (pairPreimage a b) := by
  unfold hashPair pairPreimage efficientHash
  split_ifs <;> rfl

def proofPreimages : Bytes32 → List Bytes32 → List Bytes
  | _, [] => []
  | node, sibling :: proof => pairPreimage node sibling :: proofPreimages (hashPair keccak node sibling) proof

/-- All strings hashed to verify a claim. -/
def preimages (roundId index : Uint256) (recipient : Address) (amount : Uint256)
    (proof : List Bytes32) : List Bytes :=
  let leaf := leafPreimage roundId index recipient amount
  leaf :: ofNat 32 (keccak leaf) ::
    proofPreimages keccak (leafHash keccak roundId index recipient amount) proof

end Fidensur.AllocationMerkle
