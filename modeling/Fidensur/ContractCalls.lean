import Fidensur.AllocationMerkle
import Fidensur.TeeResultVerifier
import Fidensur.AllocationResult

set_option autoImplicit false

namespace Fidensur

open ByteWords

def opTypeAlloc : Bytes32 := bytes32Literal "ALLOC"
def opCommandCompute : Bytes32 := bytes32Literal "COMPUTE"
def opCommandDisclose : Bytes32 := bytes32Literal "DISCLOSE"
def opCommandAttest : Bytes32 := bytes32Literal "ATTEST"

def firstPublicExtensionId : ℕ := 0x10000
def computeRetryTimeout : ℕ := 30 * 60
def minClaimWindow : ℕ := 60 * 60
def maxClaimWindow : ℕ := 365 * 24 * 60 * 60

structure TeeInstructionParams where
  opType : Bytes32
  opCommand : Bytes32
  message : Bytes
  cosigners : List Address
  cosignersThreshold : ℕ
  claimBackAddress : Address

inductive Interaction
  | sendNative (recipient : Address) (amount : ℕ)
  | transfer (token recipient : Address) (amount : ℕ)
  | transferFrom (token sender : Address) (amount : ℕ)
  | sendInstructions (teeIds : List Address) (params : TeeInstructionParams) (value : ℕ)

/-- How such a call ends: a low-level call with its flag and return data, the registry with an
instruction id, or a revert that is not caught. -/
inductive Reply
  | returned (ok : Bool) (data : Bytes)
  | instruction (id : Bytes32)
  | reverted

inductive Call
  | transferOwnership (newOwner : Address)
  | acceptOwnership
  | setExtensionId
  | setTeeAddress (tee : Address)
  | createRound (token : Address) (claimWindow : Uint48)
  | fund (roundId amount : Uint256)
  | submitPolicy (roundId : Uint256) (policyCommitment : Bytes32)
  | requestCompute (roundId : Uint256) (ciphertext : Bytes)
  | finalizeRound (resultData : Bytes) (actionId : Bytes32) (submissionTag : Bytes)
      (status : UInt8) (signature : Bytes)
  | requestDisclosure (roundId : Uint256) (disclosureKey : Bytes)
  | claim (roundId index amount : Uint256) (proof : List Bytes32)
  | closeRound (roundId : Uint256)
  | cancelRound (roundId : Uint256)
  | rescue (token recipient : Address)
  | requestAttestation (roundId : Uint256)

def Call.payable : Call → Bool
  | .fund .. | .requestCompute .. | .requestDisclosure .. | .requestAttestation .. => true
  | _ => false

/-- The storage a function leaves when it returns, or when it first calls out. -/
abbrev Outcome := Except Error (Storage × Option Interaction)

/-- The guard is taken before the body and released when the body runs to its end. -/
def nonReentrant (s : Storage) (body : Storage → Outcome) : Outcome := do
  require (s.entered = false) .reentrantCall
  let (s', x) ← body { s with entered := true }
  return ({ s' with entered := x.isSome }, x)

def requireRound (s : Storage) (roundId : ℕ) : Except Error Round := do
  require ((s.rounds roundId).status ≠ .none) (.noSuchRound roundId)
  return s.rounds roundId

namespace SafeTransfer

def payOut (token recipient : Address) (amount : ℕ) : Option Interaction :=
  if amount = 0 then none
  else if token = 0 then some (.sendNative recipient amount)
  else some (.transfer token recipient amount)

def collect (token sender : Address) (amount nativeValue : ℕ) :
    Except Error (Option Interaction) := do
  if token = 0 then
    require (nativeValue = amount) .unexpectedNativeValue
    return none
  else
    require (nativeValue = 0) .unexpectedNativeValue
    return some (.transferFrom token sender amount)

/-- Return data that is neither empty nor a well-formed `bool` makes `abi.decode` revert. -/
def succeeded (ok : Bool) (data : Bytes) : Except Error Bool :=
  if ok = false then .ok false
  else if data = [] then .ok true
  else if data.length < 32 ∨ 1 < wordAt 32 0 data then .error .plainRevert
  else .ok (wordAt 32 0 data == 1)

end SafeTransfer

/-- What the caller makes of a reply; the registry's reply carries the instruction id. -/
def Interaction.accept : Interaction → Reply → Except Error Bytes32
  | .sendNative recipient amount, .returned ok _ => do
      require (ok = true) (.nativeTransferFailed recipient amount)
      return 0
  | .transfer token recipient amount, .returned ok data => do
      let succeeded ← SafeTransfer.succeeded ok data
      require (succeeded = true) (.erc20TransferFailed token recipient amount)
      return 0
  | .transferFrom token sender amount, .returned ok data => do
      let succeeded ← SafeTransfer.succeeded ok data
      require (succeeded = true) (.erc20TransferFromFailed token sender amount)
      return 0
  | .sendInstructions .., .instruction id => return id
  | _, _ => .error .plainRevert

variable (D : Deployment) (msg : Msg)

section Configuration

def onlyOwner (s : Storage) : Except Error Unit := require (msg.sender = s.owner) (.notOwner msg.sender)

def transferOwnership (newOwner : Address) (s : Storage) : Outcome := do
  onlyOwner msg s
  require (newOwner ≠ 0) .zeroOwner
  return ({ s with pendingOwner := newOwner }, none)

def acceptOwnership (s : Storage) : Outcome := do
  require (msg.sender = s.pendingOwner) (.notPendingOwner msg.sender)
  return ({ s with owner := s.pendingOwner, pendingOwner := 0 }, none)

def findExtension (view : RegistryView) : ℕ → ℕ → Option ℕ
  | 0, _ => none
  | n + 1, i => if view.instructionsSender i = D.self then some i else findExtension view n (i + 1)

def setExtensionId (s : Storage) : Outcome := do
  require (s.extensionId = 0) .extensionIdAlreadySet
  let c := msg.registry.nextPublicExtensionId
  match findExtension D msg.registry (c - firstPublicExtensionId) firstPublicExtensionId with
  | some i => return ({ s with extensionId := i }, none)
  | none => .error .extensionIdNotFound

def setTeeAddress (tee : Address) (s : Storage) : Outcome := do
  onlyOwner msg s
  require (tee ≠ 0) .zeroAddress
  return ({ s with teeAddress := tee }, none)

end Configuration

section Organization

def createRound (token : Address) (claimWindow : Uint48) (s : Storage) : Outcome := do
  require (minClaimWindow ≤ claimWindow ∧ claimWindow ≤ maxClaimWindow)
    (.invalidClaimWindow claimWindow)
  let roundId := s.nextRoundId
  require (roundId + 1 < 2 ^ 256) .panic
  let r := s.rounds roundId
  let s := { s with nextRoundId := roundId + 1 }
  return (s.setRound roundId { r with
    organization := msg.sender, status := .opened, token := token, claimWindow := claimWindow }, none)

def creditRound (roundId amount : ℕ) (s : Storage) : Except Error Storage := do
  let r := s.rounds roundId
  require (r.funded + amount < 2 ^ 256) .panic
  let s := s.setRound roundId { r with funded := r.funded + amount }
  require (s.outstanding r.token + amount < 2 ^ 256) .panic
  return s.setOutstanding r.token (s.outstanding r.token + amount)

def fund (roundId amount : Uint256) (s : Storage) : Outcome := nonReentrant s fun s => do
  let r ← requireRound s roundId
  require (r.status = .opened) (.wrongStatus roundId r.status .opened)
  require (amount ≠ 0) .zeroAmount
  match ← SafeTransfer.collect r.token msg.sender amount msg.value with
  | some x => return (s, some x)
  | none => return (← creditRound roundId amount s, none)

def submitPolicy (roundId : Uint256) (policyCommitment : Bytes32) (s : Storage) : Outcome := do
  let r ← requireRound s roundId
  require (r.status = .opened) (.wrongStatus roundId r.status .opened)
  require (msg.sender = r.organization) (.notOrganization msg.sender r.organization)
  require (policyCommitment ≠ 0) .emptyCommitment
  require (r.funded ≠ 0) (.nothingFunded roundId)
  return (s.setRound roundId { r with
    policyCommitment := policyCommitment, status := .committed }, none)

def getExtensionId (s : Storage) : Except Error ℕ := do
  require (s.extensionId ≠ 0) .extensionIdNotSet
  return s.extensionId

def pickTee (s : Storage) : Except Error (List Address) := do
  let _ ← getExtensionId s
  let teeIds := msg.registry.randomTeeIds
  require (teeIds ≠ []) .noTeeAvailable
  return teeIds

def send (opCommand : Bytes32) (message : Bytes) (teeIds : List Address) : Interaction :=
  .sendInstructions teeIds
    { opType := opTypeAlloc
      opCommand := opCommand
      message := message
      cosigners := []
      cosignersThreshold := 0
      claimBackAddress := msg.sender } msg.value

def blockTimestamp48 : ℕ := msg.timestamp % 2 ^ 48

/-- A committed round may be dispatched, and a computing one again after the timeout. -/
def requireDispatchable (roundId : ℕ) (r : Round) : Except Error Unit := do
  if r.status = .computing then
    let earliest := r.computeRequestedAt + computeRetryTimeout
    require (earliest < 2 ^ 48) .panic
    require (earliest ≤ blockTimestamp48 msg) (.retryTooSoon r.computeRequestedAt earliest)
  else
    require (r.status = .committed) (.wrongStatus roundId r.status .committed)

def requestCompute (roundId : Uint256) (ciphertext : Bytes) (s : Storage) : Outcome := do
  let r ← requireRound s roundId
  require (msg.sender = r.organization) (.notOrganization msg.sender r.organization)
  require (ciphertext ≠ []) .emptyCiphertext
  requireDispatchable msg roundId r
  let provided := D.keccak ciphertext
  require (provided = r.policyCommitment) (.ciphertextMismatch provided r.policyCommitment)
  let teeIds ← pickTee msg s
  return (s, some (send msg opCommandCompute ciphertext teeIds))

def recordDispatch (roundId : ℕ) (instructionId : Bytes32) (s : Storage) : Storage :=
  s.setRound roundId { s.rounds roundId with
    computeInstructionId := instructionId
    computeRequestedAt := blockTimestamp48 msg
    status := .computing }

end Organization

section Finalization

def applyAllocationResult (res : AllocationResult) (actionId : Bytes32) (s : Storage) : Outcome := do
  require (res.contractAddr = D.self) (.resultNotForThisContract res.contractAddr)
  let r ← requireRound s res.roundId
  require (r.status = .computing) (.wrongStatus res.roundId r.status .computing)
  require (actionId = r.computeInstructionId) (.resultNotForThisRound actionId r.computeInstructionId)
  require (res.policyCommitment = r.policyCommitment)
    (.policyCommitmentMismatch res.policyCommitment r.policyCommitment)
  require (res.merkleRoot ≠ 0) .emptyMerkleRoot
  require (res.recipientCount ≠ 0) .noRecipients
  require (res.totalAllocated ≤ r.funded) (.overAllocated res.totalAllocated r.funded)
  require (blockTimestamp48 msg + r.claimWindow < 2 ^ 48) .panic
  return (s.setRound res.roundId { r with
    merkleRoot := res.merkleRoot
    totalAllocated := res.totalAllocated
    recipientCount := res.recipientCount
    engineVersion := res.engineVersion
    claimDeadline := blockTimestamp48 msg + r.claimWindow
    status := .finalized }, none)

def finalizeRound (resultData : Bytes) (actionId : Bytes32) (submissionTag : Bytes)
    (status : UInt8) (signature : Bytes) (s : Storage) : Outcome := do
  let tee := s.teeAddress
  require (tee ≠ 0) .teeAddressNotSet
  TeeResultVerifier.requireValid D resultData actionId submissionTag status signature tee
  match AllocationResult.decode resultData with
  | some res => applyAllocationResult D msg res actionId s
  | none => .error .plainRevert

end Finalization

section Recipients

/-- `abi.encode` of a `DiscloseMessage`, whose last field is dynamic. -/
def encodeDiscloseMessage (roundId : Uint256) (requester : Address) (policyCommitment : Bytes32)
    (disclosureKey : Bytes) : Bytes :=
  abiEncode [32, roundId, D.self, requester, policyCommitment, 160, disclosureKey.length] ++
    disclosureKey ++ List.replicate ((32 - disclosureKey.length % 32) % 32) 0

def encodeAttestMessage (roundId : Uint256) (policyCommitment : Bytes32) : Bytes :=
  abiEncode [roundId, D.self, policyCommitment]

def requestDisclosure (roundId : Uint256) (disclosureKey : Bytes) (s : Storage) : Outcome := do
  let r ← requireRound s roundId
  require (r.status = .computing ∨ r.status = .finalized) (.wrongStatus roundId r.status .finalized)
  require (disclosureKey.length = 33 ∨ disclosureKey.length = 65)
    (.invalidDisclosureKey disclosureKey.length)
  let message := encodeDiscloseMessage D roundId msg.sender r.policyCommitment disclosureKey
  let teeIds ← pickTee msg s
  return (s, some (send msg opCommandDisclose message teeIds))

def requestAttestation (roundId : Uint256) (s : Storage) : Outcome := do
  let r ← requireRound s roundId
  require (r.status = .computing ∨ r.status = .finalized) (.wrongStatus roundId r.status .finalized)
  let message := encodeAttestMessage D roundId r.policyCommitment
  let teeIds ← pickTee msg s
  return (s, some (send msg opCommandAttest message teeIds))

def claimWord (index : ℕ) : ℕ := index >>> 8

def claimMask (index : ℕ) : BitVec 256 := 1#256 <<< (index &&& 0xff)

def isClaimed (s : Storage) (roundId index : ℕ) : Bool :=
  (s.claimedBitmap roundId (claimWord index) &&& claimMask index) != 0

def setClaimed (roundId index : ℕ) (s : Storage) : Storage :=
  let words := s.claimedBitmap roundId
  let word := words (claimWord index) ||| claimMask index
  { s with claimedBitmap :=
      Function.update s.claimedBitmap roundId (Function.update words (claimWord index) word) }

def claim (roundId index amount : Uint256) (proof : List Bytes32) (s : Storage) : Outcome :=
  nonReentrant s fun s => do
    let r ← requireRound s roundId
    require (r.status = .finalized) (.wrongStatus roundId r.status .finalized)
    require (blockTimestamp48 msg ≤ r.claimDeadline) (.claimWindowClosed r.claimDeadline)
    require (isClaimed s roundId index = false) (.alreadyClaimed roundId index)
    require (AllocationMerkle.verify D.keccak r.merkleRoot roundId index msg.sender amount proof = true)
      .badMerkleProof
    let s := setClaimed roundId index s
    require (r.totalClaimed + amount < 2 ^ 256) .panic
    let s := s.setRound roundId { r with totalClaimed := r.totalClaimed + amount }
    require ((amount : ℕ) ≤ s.outstanding r.token) .panic
    let s := s.setOutstanding r.token (s.outstanding r.token - amount)
    return (s, SafeTransfer.payOut r.token msg.sender amount)

end Recipients

section WindDown

def closeRound (roundId : Uint256) (s : Storage) : Outcome := nonReentrant s fun s => do
  let r ← requireRound s roundId
  require (r.status = .finalized) (.wrongStatus roundId r.status .finalized)
  require (r.claimDeadline < blockTimestamp48 msg) (.claimWindowStillOpen r.claimDeadline)
  require (r.swept = false) (.alreadySwept roundId)
  require (r.totalClaimed ≤ r.funded) .panic
  let remainder := r.funded - r.totalClaimed
  let s := s.setRound roundId { r with swept := true, status := .closed }
  require (remainder ≤ s.outstanding r.token) .panic
  let s := s.setOutstanding r.token (s.outstanding r.token - remainder)
  return (s, SafeTransfer.payOut r.token r.organization remainder)

def cancelRound (roundId : Uint256) (s : Storage) : Outcome := nonReentrant s fun s => do
  let r ← requireRound s roundId
  require (r.status = .opened ∨ r.status = .committed) (.wrongStatus roundId r.status .opened)
  require (msg.sender = r.organization) (.notOrganization msg.sender r.organization)
  let refund := r.funded
  let s := s.setRound roundId { r with status := .cancelled, swept := true }
  require (refund ≤ s.outstanding r.token) .panic
  let s := s.setOutstanding r.token (s.outstanding r.token - refund)
  return (s, SafeTransfer.payOut r.token r.organization refund)

def rescue (balance : Address → ℕ) (token recipient : Address) (s : Storage) : Outcome := do
  onlyOwner msg s
  nonReentrant s fun s => do
    require (recipient ≠ 0) .zeroAddress
    let owed := s.outstanding token
    require (owed < balance token) .nothingToRescue
    return (s, SafeTransfer.payOut token recipient (balance token - owed))

end WindDown

def Call.hashed : Call → List Bytes
  | .requestCompute _ ciphertext => [ciphertext]
  | .finalizeRound resultData actionId submissionTag status _ =>
      TeeResultVerifier.preimages D resultData actionId submissionTag status
  | .claim roundId index amount proof =>
      AllocationMerkle.preimages D.keccak roundId index msg.sender amount proof
  | _ => []

/-- Runs a call up to its first interaction. `balance` is what the contract holds of each token,
`address(0)` standing for the native one. -/
def dispatch (balance : Address → ℕ) (s : Storage) : Call → Outcome
  | .transferOwnership newOwner => transferOwnership msg newOwner s
  | .acceptOwnership => acceptOwnership msg s
  | .setExtensionId => setExtensionId D msg s
  | .setTeeAddress tee => setTeeAddress msg tee s
  | .createRound token claimWindow => createRound msg token claimWindow s
  | .fund roundId amount => fund msg roundId amount s
  | .submitPolicy roundId policyCommitment => submitPolicy msg roundId policyCommitment s
  | .requestCompute roundId ciphertext => requestCompute D msg roundId ciphertext s
  | .finalizeRound resultData actionId submissionTag status signature =>
      finalizeRound D msg resultData actionId submissionTag status signature s
  | .requestDisclosure roundId disclosureKey => requestDisclosure D msg roundId disclosureKey s
  | .claim roundId index amount proof => claim D msg roundId index amount proof s
  | .closeRound roundId => closeRound msg roundId s
  | .cancelRound roundId => cancelRound msg roundId s
  | .rescue token recipient => rescue msg balance token recipient s
  | .requestAttestation roundId => requestAttestation D msg roundId s

def start (balance : Address → ℕ) (s : Storage) (call : Call) : Outcome := do
  require (call.payable = true ∨ msg.value = 0) .plainRevert
  dispatch D msg balance s call

/-- Runs the rest of a call, after its interaction was answered. -/
def finish (s : Storage) (x : Interaction) (reply : Reply) (call : Call) : Except Error Storage := do
  let instructionId ← x.accept reply
  match call with
  | .fund roundId amount =>
      let s ← creditRound roundId amount s
      return { s with entered := false }
  | .claim .. | .closeRound .. | .cancelRound .. | .rescue .. => return { s with entered := false }
  | .requestCompute roundId _ => return recordDispatch msg roundId instructionId s
  | _ => return s

end Fidensur
