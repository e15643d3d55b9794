import Fidensur.AllocationResult
import Fidensur.MerkleTree
import Fidensur.PolicyEvaluation

set_option autoImplicit false

namespace Fidensur

open ByteWords DigitText

def engineVersionText : String := "0.1.0"

structure Action where
  id : Bytes32
  submissionTag : Bytes
  deriving DecidableEq

structure DataFixed where
  opType : Bytes32
  opCommand : Bytes32
  originalMessage : Bytes
  deriving DecidableEq

structure ActionResult where
  id : Bytes32
  submissionTag : Bytes
  version : String
  opType : Bytes32
  opCommand : Bytes32
  data : Bytes
  status : UInt8
  log : String

structure DiscloseRequest where
  roundId : ℤ
  contractAddr : Address
  requester : Address
  policyCommitment : Bytes32
  disclosureKey : Bytes
  deriving DecidableEq

structure AttestRequest where
  roundId : ℤ
  contractAddr : Address
  policyCommitment : Bytes32
  deriving DecidableEq

structure Disclosure where
  roundId : String
  index : ℕ
  recipient : String
  amount : String
  proof : List String
  merkleRoot : String
  totalCount : ℕ
  engineVersion : String
  computedAt : ℤ
  deriving DecidableEq

structure ComputedRound where
  roundId : ℤ
  policyCommitment : Bytes32
  organization : Address
  allocations : List Allocation
  tree : List (List Bytes32)
  root : Bytes32
  total : ℤ
  computedAt : ℤ
  byRecipient : Address → Option ℕ

structure Stats where
  computeRequests : ℕ
  discloseRequests : ℕ
  attestRequests : ℕ
  failedRequests : ℕ
  lastComputedAt : ℤ

structure Engine where
  rounds : Bytes32 → Option ComputedRound
  stats : Stats

/-- The configuration of an engine and the code it calls: hashing and the texts of addresses, the local node,
the ABI and JSON codecs and the elliptic curve library. Errors are given by their texts. -/
structure Enclave where
  cfg : EngineConfig
  keccak : Keccak
  addressHex : Address → String
  nodeDecrypt : Bytes → Except String Bytes
  decodePolicy : Bytes → Except String Policy
  decodeDisclose : Bytes → Except String DiscloseRequest
  decodeAttest : Bytes → Except String AttestRequest
  marshal : Disclosure → Bytes
  unmarshalPubkey : Bytes → Except String Bytes
  decompressPubkey : Bytes → Except String Bytes
  /-- The first argument is what was drawn from the random source. -/
  eciesEncrypt : ℕ → Bytes → Bytes → Except String Bytes
  addressHex_eq (a : Address) : addressHex a = checksumHex keccak a

def statusError : UInt8 := 0
def statusSuccess : UInt8 := 1

def emptyEngine : Engine := ⟨fun _ => none, ⟨0, 0, 0, 0, 0⟩⟩

def Engine.bump (engine : Engine) (f : Stats → Stats) : Engine := { engine with stats := f engine.stats }

def buildResult (action : Action) (df : DataFixed) (data : Bytes) (status : UInt8) (err : String) :
    ActionResult where
  id := action.id
  submissionTag := action.submissionTag
  version := engineVersionText
  opType := df.opType
  opCommand := df.opCommand
  data := data
  status := status
  log := if status = statusError then "error: " ++ err
    else if status = statusSuccess then "ok" else "pending"

@[simp] theorem buildResult_data (action : Action) (df : DataFixed) (data : Bytes) (status : UInt8)
    (err : String) : (buildResult action df data status err).data = data := rfl

@[simp] theorem buildResult_status (action : Action) (df : DataFixed) (data : Bytes) (status : UInt8)
    (err : String) : (buildResult action df data status err).status = status := rfl

def fail (engine : Engine) (action : Action) (df : DataFixed) (err : String) : Engine × ActionResult :=
  (engine.bump (fun s => { s with failedRequests := s.failedRequests + 1 }),
    buildResult action df [] statusError err)

variable (E : Enclave)

section Compute

def decryptViaNode (ciphertext : Bytes) : Except String Bytes := do
  require (ciphertext ≠ []) "empty ciphertext"
  let plaintext ← E.nodeDecrypt ciphertext
  require (plaintext ≠ []) "node returned an empty plaintext"
  return plaintext

/-- `uint256` packing keeps the low 256 bits. -/
def packUint256 (v : ℤ) : Uint256 := Fin.ofNat _ (v % 2 ^ 256).toNat

def ComputedRound.result (round : ComputedRound) : AllocationResult where
  contractAddr := E.cfg.contractAddress
  roundId := packUint256 round.roundId
  policyCommitment := round.policyCommitment
  merkleRoot := round.root
  totalAllocated := packUint256 round.total
  recipientCount := Fin.ofNat _ round.allocations.length
  engineVersion := E.cfg.engineVersion

def encodeAllocationResult (round : ComputedRound) : Bytes := (round.result E).encode

def leavesOf (keccak : Keccak) (roundId : ℤ) (allocations : List Allocation) : List Bytes32 :=
  allocations.map (fun a => MerkleTree.leafHash keccak roundId a.index a.recipient a.amount)

def indexRecipients : ℕ → List Allocation → (Address → Option ℕ) → Address → Option ℕ
  | _, [], m => m
  | i, a :: rest, m => indexRecipients (i + 1) rest (Function.update m a.recipient (some i))

def ComputedRound.build (commitment : Bytes32) (policy : Policy) (allocations : List Allocation)
    (tree : List (List Bytes32)) (now : ℤ) : ComputedRound where
  roundId := value policy.roundId
  policyCommitment := commitment
  organization := policy.organization
  allocations := allocations
  tree := tree
  root := MerkleTree.root tree
  total := sumAllocations allocations
  computedAt := now
  byRecipient := indexRecipients 0 allocations (fun _ => none)

def computeRound (message : Bytes) (now : ℤ) : Except String ComputedRound := do
  let commitment := E.keccak message
  let plaintext ← (decryptViaNode E message).mapError ("decrypting policy: " ++ ·)
  let policy ← (E.decodePolicy plaintext).mapError ("decoding policy: " ++ ·)
  (validate E.cfg policy).mapError (fun e => "invalid policy: " ++ e.text E.addressHex)
  let allocations ← (evaluate policy).mapError (fun e => "evaluating policy: " ++ e.text E.addressHex)
  match MerkleTree.buildMerkleTree E.keccak (leavesOf E.keccak (value policy.roundId) allocations) with
  | none => .error "internal: empty allocation table survived validation"
  | some tree => return .build commitment policy allocations tree now

def Engine.store (engine : Engine) (computed : ComputedRound) : Engine where
  rounds := Function.update engine.rounds computed.policyCommitment (some computed)
  stats := { engine.stats with lastComputedAt := computed.computedAt }

def processCompute (engine : Engine) (action : Action) (df : DataFixed) (now : ℤ) :
    Engine × ActionResult :=
  let engine := engine.bump (fun s => { s with computeRequests := s.computeRequests + 1 })
  match computeRound E df.originalMessage now with
  | .error err => fail engine action df err
  | .ok computed => (engine.store computed,
      buildResult action df (encodeAllocationResult E computed) statusSuccess "")

end Compute

section Lookup

def lookupRound (engine : Engine) (roundId : ℤ) (commitment : Bytes32) : Except String ComputedRound :=
  match engine.rounds commitment with
  | none => .error ("no computed round for commitment " ++ hashHex commitment ++ "; re-run COMPUTE")
  | some round => do
      require (round.roundId = roundId)
        ("commitment belongs to round " ++ round.roundId.repr ++ ", not " ++ roundId.repr)
      return round

def requireServed (contractAddr : Address) : Except String Unit :=
  require (E.cfg.contractAddressSet = true ∧ contractAddr = E.cfg.contractAddress)
    ("request targets contract " ++ E.addressHex contractAddr ++ ", this engine serves " ++
      E.addressHex E.cfg.contractAddress)

end Lookup

section Disclose

def parsePublicKey (key : Bytes) : Except String Bytes :=
  if key.length = 65 then
    (E.unmarshalPubkey key).mapError ("invalid uncompressed public key: " ++ ·)
  else if key.length = 33 then
    (E.decompressPubkey key).mapError ("invalid compressed public key: " ++ ·)
  else .error ("public key must be 33 or 65 bytes, got " ++ key.length.repr)

def encryptToRecipient (draw : ℕ) (key plaintext : Bytes) : Except String Bytes := do
  let pub ← parsePublicKey E key
  (E.eciesEncrypt draw pub plaintext).mapError ("ecies encrypt: " ++ ·)

def ComputedRound.disclosure (round : ComputedRound) (idx : ℕ) (alloc : Allocation) : Disclosure where
  roundId := round.roundId.repr
  index := alloc.index
  recipient := E.addressHex alloc.recipient
  amount := alloc.amount.repr
  proof := (MerkleTree.proof round.tree idx).map hashHex
  merkleRoot := hashHex round.root
  totalCount := round.allocations.length % 2 ^ 32
  engineVersion := engineVersionText
  computedAt := round.computedAt

/-- The flat tuple of a disclosure result; its last component is dynamic. -/
def encodeDisclosureResult (requester : Address) (roundId : ℤ) (ciphertext : Bytes) : Bytes :=
  abiEncode [requester, packUint256 roundId, 96, ciphertext.length] ++ ciphertext ++
    List.replicate ((32 - ciphertext.length % 32) % 32) 0

def disclose (engine : Engine) (message : Bytes) (draw : ℕ) : Except String Bytes := do
  let req ← (E.decodeDisclose message).mapError ("decoding disclosure request: " ++ ·)
  requireServed E req.contractAddr
  require (req.requester ≠ 0) "requester must not be the zero address"
  let round ← lookupRound engine req.roundId req.policyCommitment
  match round.byRecipient req.requester with
  | none => .error "requester has no allocation in this round"
  | some idx => do
      let alloc := round.allocations.getD idx ⟨0, 0, 0⟩
      let plaintext := E.marshal (round.disclosure E idx alloc)
      let ciphertext ← (encryptToRecipient E draw req.disclosureKey plaintext).mapError
        ("encrypting disclosure: " ++ ·)
      return encodeDisclosureResult req.requester round.roundId ciphertext

def processDisclose (engine : Engine) (action : Action) (df : DataFixed) (draw : ℕ) :
    Engine × ActionResult :=
  let engine := engine.bump (fun s => { s with discloseRequests := s.discloseRequests + 1 })
  match disclose E engine df.originalMessage draw with
  | .error err => fail engine action df err
  | .ok data => (engine, buildResult action df data statusSuccess "")

end Disclose

section Attest

def rootIsIntact (round : ComputedRound) : Bool :=
  (MerkleTree.buildMerkleTree E.keccak (leavesOf E.keccak round.roundId round.allocations)).any
    (fun tree => decide (MerkleTree.root tree = round.root))

def attest (engine : Engine) (message : Bytes) : Except String Bytes := do
  let req ← (E.decodeAttest message).mapError ("decoding attestation request: " ++ ·)
  requireServed E req.contractAddr
  let round ← lookupRound engine req.roundId req.policyCommitment
  require (rootIsIntact E round = true) "internal: stored root does not match stored allocations"
  return encodeAllocationResult E round

def processAttest (engine : Engine) (action : Action) (df : DataFixed) : Engine × ActionResult :=
  let engine := engine.bump (fun s => { s with attestRequests := s.attestRequests + 1 })
  match attest E engine df.originalMessage with
  | .error err => fail engine action df err
  | .ok data => (engine, buildResult action df data statusSuccess "")

end Attest

section Specification

variable {E} {engine : Engine} {action : Action} {df : DataFixed} {message : Bytes} {now : ℤ}

theorem mapError_ok {ε ε' α : Type} {f : ε → ε'} {x : Except ε α} {y : α} :
    x.mapError f = .ok y ↔ x = .ok y := by
  cases x <;> simp [Except.mapError]

theorem mapError_error {ε ε' α : Type} {f : ε → ε'} {x : Except ε α} {e : ε'} :
    x.mapError f = .error e ↔ ∃ e₀, x = .error e₀ ∧ f e₀ = e := by
  cases x <;> simp [Except.mapError]

def Enclave.Opens (E : Enclave) (message : Bytes) (p : Policy) : Prop :=
  ∃ plaintext, decryptViaNode E message = .ok plaintext ∧ E.decodePolicy plaintext = .ok p

theorem indexRecipients_of_notMem {i : ℕ} {allocations : List Allocation}
    {m : Address → Option ℕ} {a : Address} (h : a ∉ allocations.map Allocation.recipient) :
    indexRecipients i allocations m a = m a := by
  induction allocations generalizing i m with
  | nil => rfl
  | cons b rest ih =>
    simp only [List.map_cons, List.mem_cons, not_or] at h
    rw [indexRecipients, ih h.2, Function.update_of_ne h.1]

theorem indexRecipients_getElem {i : ℕ} {allocations : List Allocation} {m : Address → Option ℕ}
    (hn : (allocations.map Allocation.recipient).Nodup) (j : ℕ) (hj : j < allocations.length) :
    indexRecipients i allocations m allocations[j].recipient = some (i + j) := by
  induction allocations generalizing i m j with
  | nil => simp at hj
  | cons b rest ih =>
    rw [List.map_cons, List.nodup_cons] at hn
    cases j with
    | zero => simp [indexRecipients, indexRecipients_of_notMem hn.1]
    | succ j =>
      rw [indexRecipients, List.getElem_cons_succ, ih hn.2 j (by simpa using hj)]
      congr 1
      omega

theorem buildMerkleTree_leavesOf {roundId : ℤ} {allocations : List Allocation}
    (h : allocations ≠ []) :
    ∃ tree, MerkleTree.buildMerkleTree E.keccak (leavesOf E.keccak roundId allocations) = some tree := by
  have hne : leavesOf E.keccak roundId allocations ≠ [] := by simpa [leavesOf] using h
  exact ⟨_, if_neg hne⟩

theorem evaluate_ne_nil {p : Policy} {table : List Allocation} (h : evaluate p = .ok table) :
    table ≠ [] := by
  obtain ⟨amounts, -, h⟩ := bind_ok.mp h
  simp only [tabulate, bind_ok, require_ok, exists_const] at h
  obtain ⟨hne, -, h⟩ := h
  cases h
  rw [assignIndices, ne_eq, List.mapIdx_eq_nil_iff]
  intro hnil
  exact hne ((List.perm_insertionSort byRecipient _).symm.trans (by rw [hnil])).eq_nil

theorem computeRound_ok {round : ComputedRound} :
    computeRound E message now = .ok round ↔ ∃ p table tree, E.Opens message p ∧
      validate E.cfg p = .ok () ∧ evaluate p = .ok table ∧
      MerkleTree.buildMerkleTree E.keccak (leavesOf E.keccak (value p.roundId) table) = some tree ∧
      round = .build (E.keccak message) p table tree now := by
  simp only [computeRound, bind_ok, mapError_ok]
  constructor
  · rintro ⟨plaintext, hplain, p, hp, _, hvalid, table, htable, h⟩
    split at h
    · cases h
    · next tree htree =>
      cases h
      exact ⟨p, table, tree, ⟨plaintext, hplain, hp⟩, hvalid, htable, htree, rfl⟩
  · rintro ⟨p, table, tree, ⟨plaintext, hplain, hp⟩, hvalid, htable, htree, rfl⟩
    exact ⟨plaintext, hplain, p, hp, (), hvalid, table, htable, by rw [htree]; rfl⟩

theorem computeRound_of_evaluate {p : Policy} {table : List Allocation} (hopen : E.Opens message p)
    (hvalid : validate E.cfg p = .ok ()) (htable : evaluate p = .ok table) :
    ∃ tree, MerkleTree.buildMerkleTree E.keccak (leavesOf E.keccak (value p.roundId) table) = some tree ∧
      computeRound E message now = .ok (.build (E.keccak message) p table tree now) := by
  obtain ⟨tree, htree⟩ : ∃ tree, MerkleTree.buildMerkleTree E.keccak
      (leavesOf E.keccak (value p.roundId) table) = some tree :=
    buildMerkleTree_leavesOf (evaluate_ne_nil htable)
  exact ⟨tree, htree, computeRound_ok.mpr ⟨p, table, tree, hopen, hvalid, htable, htree, rfl⟩⟩

end Specification

end Fidensur
