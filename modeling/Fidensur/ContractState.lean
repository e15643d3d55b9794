import Fidensur.ByteWords

set_option autoImplicit false

namespace Fidensur

open ByteWords

abbrev Uint256 := Fin (2 ^ 256)
abbrev Uint48 := Fin (2 ^ 48)
abbrev Bytes32 := Fin (2 ^ 256)
abbrev Address := Fin (2 ^ 160)
abbrev Keccak := Bytes → Bytes32

instance Uint256.neZero : NeZero (2 ^ 256) := ⟨Nat.two_pow_pos 256 |>.ne'⟩
instance Address.neZero : NeZero (2 ^ 160) := ⟨Nat.two_pow_pos 160 |>.ne'⟩
instance Uint48.neZero : NeZero (2 ^ 48) := ⟨Nat.two_pow_pos 48 |>.ne'⟩
instance Uint32.neZero : NeZero (2 ^ 32) := ⟨Nat.two_pow_pos 32 |>.ne'⟩

theorem word_lt (w : Bytes32) : (w : ℕ) < 256 ^ 32 := by
  have := w.isLt
  norm_num at this ⊢
  exact this

theorem word_injective {v w : Bytes32} (h : ofNat 32 (v : ℕ) = ofNat 32 (w : ℕ)) : v = w :=
  Fin.ext (ofNat_injective (word_lt v) (word_lt w) h)

def abiEncode (words : List ℕ) : Bytes := ofWords 32 words

def asciiBytes (s : String) : Bytes := s.toList.map (fun c => UInt8.ofNat c.toNat)

/-- A string literal converted to `bytes32`: its bytes first, zeros after. -/
def bytes32Literal (s : String) : Bytes32 :=
  Fin.ofNat (2 ^ 256) (value ((asciiBytes s ++ List.replicate 32 0).take 32))

inductive RoundStatus
  | none | opened | committed | computing | finalized | closed | cancelled
  deriving DecidableEq, Repr

structure Round where
  organization : Address
  status : RoundStatus
  swept : Bool
  recipientCount : ℕ
  claimWindow : ℕ
  token : Address
  claimDeadline : ℕ
  computeRequestedAt : ℕ
  funded : ℕ
  totalAllocated : ℕ
  totalClaimed : ℕ
  policyCommitment : Bytes32
  merkleRoot : Bytes32
  computeInstructionId : Bytes32
  engineVersion : Bytes32

def Round.unset : Round :=
  ⟨0, .none, false, 0, 0, 0, 0, 0, 0, 0, 0, 0, 0, 0, 0⟩

structure Storage where
  owner : Address
  pendingOwner : Address
  entered : Bool
  extensionId : ℕ
  teeAddress : Address
  rounds : ℕ → Round
  claimedBitmap : ℕ → ℕ → BitVec 256
  outstanding : Address → ℕ
  nextRoundId : ℕ

def Storage.deployed (initialOwner : Address) : Storage :=
  ⟨initialOwner, 0, false, 0, 0, fun _ => .unset, fun _ _ => 0, fun _ => 0, 0⟩

def Storage.setRound (s : Storage) (roundId : ℕ) (r : Round) : Storage :=
  { s with rounds := Function.update s.rounds roundId r }

def Storage.setOutstanding (s : Storage) (token : Address) (amount : ℕ) : Storage :=
  { s with outstanding := Function.update s.outstanding token amount }

section

variable (s : Storage) (roundId : ℕ) (r : Round) (token : Address) (amount : ℕ)

@[simp] theorem Storage.setRound_rounds :
    (s.setRound roundId r).rounds = Function.update s.rounds roundId r := rfl

@[simp] theorem Storage.setRound_outstanding : (s.setRound roundId r).outstanding = s.outstanding := rfl

@[simp] theorem Storage.setRound_claimedBitmap :
    (s.setRound roundId r).claimedBitmap = s.claimedBitmap := rfl

@[simp] theorem Storage.setRound_nextRoundId : (s.setRound roundId r).nextRoundId = s.nextRoundId := rfl

@[simp] theorem Storage.setRound_entered : (s.setRound roundId r).entered = s.entered := rfl

@[simp] theorem Storage.setRound_teeAddress : (s.setRound roundId r).teeAddress = s.teeAddress := rfl

@[simp] theorem Storage.setOutstanding_rounds : (s.setOutstanding token amount).rounds = s.rounds := rfl

@[simp] theorem Storage.setOutstanding_outstanding :
    (s.setOutstanding token amount).outstanding = Function.update s.outstanding token amount := rfl

@[simp] theorem Storage.setOutstanding_claimedBitmap :
    (s.setOutstanding token amount).claimedBitmap = s.claimedBitmap := rfl

@[simp] theorem Storage.setOutstanding_nextRoundId :
    (s.setOutstanding token amount).nextRoundId = s.nextRoundId := rfl

@[simp] theorem Storage.setOutstanding_entered :
    (s.setOutstanding token amount).entered = s.entered := rfl

@[simp] theorem Storage.setOutstanding_teeAddress :
    (s.setOutstanding token amount).teeAddress = s.teeAddress := rfl

end

/-- The code outside the contract that its functions call and cannot change: hashing,
signature recovery and the chain it is deployed on. -/
structure Deployment where
  self : Address
  chainId : Uint256
  keccak : Keccak
  ecrecover : Bytes32 → UInt8 → Bytes32 → Bytes32 → Address

structure RegistryView where
  nextPublicExtensionId : ℕ
  instructionsSender : ℕ → Address
  randomTeeIds : List Address

structure Msg where
  sender : Address
  value : ℕ
  timestamp : ℕ
  registry : RegistryView

inductive Error
  | zeroAddress
  | extensionIdAlreadySet
  | extensionIdNotFound
  | extensionIdNotSet
  | teeAddressNotSet
  | noSuchRound (roundId : ℕ)
  | wrongStatus (roundId : ℕ) (actual expected : RoundStatus)
  | notOrganization (caller organization : Address)
  | invalidClaimWindow (provided : ℕ)
  | zeroAmount
  | nothingFunded (roundId : ℕ)
  | emptyCommitment
  | ciphertextMismatch (provided committed : Bytes32)
  | emptyCiphertext
  | retryTooSoon (requestedAt earliestRetry : ℕ)
  | noTeeAvailable
  | resultNotForThisContract (encoded : Address)
  | resultNotForThisRound (actionId expected : Bytes32)
  | policyCommitmentMismatch (encoded stored : Bytes32)
  | emptyMerkleRoot
  | noRecipients
  | overAllocated (totalAllocated funded : ℕ)
  | alreadyClaimed (roundId index : ℕ)
  | claimWindowClosed (deadline : ℕ)
  | claimWindowStillOpen (deadline : ℕ)
  | badMerkleProof
  | alreadySwept (roundId : ℕ)
  | invalidDisclosureKey (length : ℕ)
  | nothingToRescue
  | notOwner (caller : Address)
  | notPendingOwner (caller : Address)
  | zeroOwner
  | reentrantCall
  | teeReportedFailure (status : UInt8)
  | badSignatureLength (length : ℕ)
  | badSignatureV (v : UInt8)
  | invalidSignature
  | unexpectedSigner (recovered expected : Address)
  | nativeTransferFailed (recipient : Address) (amount : ℕ)
  | erc20TransferFailed (token recipient : Address) (amount : ℕ)
  | erc20TransferFromFailed (token sender : Address) (amount : ℕ)
  | unexpectedNativeValue
  /-- Checked arithmetic out of range. -/
  | panic
  /-- A revert without one of the contract's own errors: malformed calldata, value sent to a
  function that is not payable, or a registry call that reverted. -/
  | plainRevert
  deriving DecidableEq

def require {ε : Type} (p : Prop) [Decidable p] (e : ε) : Except ε Unit :=
  if p then .ok () else .error e

@[simp] theorem require_ok {ε : Type} {p : Prop} [Decidable p] {e : ε} {u : Unit} :
    require p e = .ok u ↔ p := by
  by_cases hp : p <;> simp [require, hp]

theorem bind_ok {ε α β : Type} {m : Except ε α} {f : α → Except ε β} {y : β} :
    (m >>= f) = .ok y ↔ ∃ x, m = .ok x ∧ f x = .ok y := by
  cases m <;> simp [bind, Except.bind]

theorem bind_error {ε α β : Type} {m : Except ε α} {f : α → Except ε β} {e : ε} :
    (m >>= f) = .error e ↔ m = .error e ∨ ∃ x, m = .ok x ∧ f x = .error e := by
  cases m <;> simp [bind, Except.bind]

theorem require_error {ε : Type} {P : Prop} [Decidable P] {e e' : ε} :
    require P e = .error e' ↔ ¬ P ∧ e = e' := by
  by_cases h : P <;> simp [require, h]

end Fidensur
