import Fidensur.ContractState

set_option autoImplicit false

namespace Fidensur.TeeResultVerifier

open ByteWords

def teeActionResultPrefix : Bytes32 := bytes32Literal "TEE_ACTION_RESULT"

def statusSuccess : UInt8 := 1

variable (D : Deployment)

def resultPreimage (resultData : Bytes) (actionId : Bytes32) (submissionTag : Bytes)
    (status : UInt8) : Bytes :=
  ofNat 32 (D.keccak resultData) ++ ofNat 32 actionId ++ ofNat 32 (D.keccak submissionTag) ++ [status]

def resultHash (resultData : Bytes) (actionId : Bytes32) (submissionTag : Bytes)
    (status : UInt8) : Bytes32 :=
  D.keccak (resultPreimage D resultData actionId submissionTag status)

def payloadPreimage (resultHash : Bytes32) : Bytes :=
  abiEncode [teeActionResultPrefix, D.chainId, resultHash]

def payloadHash (resultHash : Bytes32) : Bytes32 := D.keccak (payloadPreimage D resultHash)

/-- EIP-191 personal-sign wrapping of a 32-byte digest. -/
def ethSignedPreimage (hash : Bytes32) : Bytes :=
  asciiBytes "\x19Ethereum Signed Message:\n32" ++ ofNat 32 hash

def ethSigned (hash : Bytes32) : Bytes32 := D.keccak (ethSignedPreimage hash)

def digest (resultData : Bytes) (actionId : Bytes32) (submissionTag : Bytes)
    (status : UInt8) : Bytes32 :=
  ethSigned D (payloadHash D (resultHash D resultData actionId submissionTag status))

def preimages (resultData : Bytes) (actionId : Bytes32) (submissionTag : Bytes)
    (status : UInt8) : List Bytes :=
  let result := resultHash D resultData actionId submissionTag status
  [resultData, submissionTag, resultPreimage D resultData actionId submissionTag status,
    payloadPreimage D result, ethSignedPreimage (payloadHash D result)]

/-- The recovery id of a 65-byte signature, shifted to 27 or 28 when it is 0 or 1. -/
def signatureV (sig : Bytes) : UInt8 :=
  let v := sig.getD 64 0
  if v < 27 then v + 27 else v

def signatureR (sig : Bytes) : Bytes32 := Fin.ofNat _ (wordAt 32 0 sig)

def signatureS (sig : Bytes) : Bytes32 := Fin.ofNat _ (wordAt 32 1 sig)

def recover (digest : Bytes32) (sig : Bytes) : Except Error Address := do
  require (sig.length = 65) (.badSignatureLength sig.length)
  require (signatureV sig = 27 ∨ signatureV sig = 28) (.badSignatureV (signatureV sig))
  let signer := D.ecrecover digest (signatureV sig) (signatureR sig) (signatureS sig)
  require (signer ≠ 0) .invalidSignature
  return signer

def recoverSigner (resultData : Bytes) (actionId : Bytes32) (submissionTag : Bytes)
    (status : UInt8) (signature : Bytes) : Except Error Address :=
  recover D (digest D resultData actionId submissionTag status) signature

def requireValid (resultData : Bytes) (actionId : Bytes32) (submissionTag : Bytes)
    (status : UInt8) (signature : Bytes) (expectedTee : Address) : Except Error Unit := do
  require (status = statusSuccess) (.teeReportedFailure status)
  let signer ← recoverSigner D resultData actionId submissionTag status signature
  require (signer = expectedTee) (.unexpectedSigner signer expectedTee)

def isValid (resultData : Bytes) (actionId : Bytes32) (submissionTag : Bytes)
    (status : UInt8) (signature : Bytes) (expectedTee : Address) : Bool :=
  if status ≠ statusSuccess then false
  else if signature.length ≠ 65 then false
  else if expectedTee = 0 then false
  else if signatureV signature ≠ 27 ∧ signatureV signature ≠ 28 then false
  else
    D.ecrecover (digest D resultData actionId submissionTag status) (signatureV signature)
      (signatureR signature) (signatureS signature) = expectedTee

theorem requireValid_ok {resultData : Bytes} {actionId : Bytes32} {submissionTag : Bytes}
    {status : UInt8} {signature : Bytes} {expectedTee : Address} {u : Unit} :
    requireValid D resultData actionId submissionTag status signature expectedTee = .ok u ↔
      status = statusSuccess ∧
        recoverSigner D resultData actionId submissionTag status signature = .ok expectedTee := by
  simp only [requireValid, bind_ok, require_ok, exists_const]
  apply and_congr_right'
  constructor
  · rintro ⟨signer, hs, rfl⟩
    exact hs
  · intro hs
    exact ⟨expectedTee, hs, rfl⟩

def SignedBy (digest : Bytes32) (signature : Bytes) (signer : Address) : Prop :=
  signature.length = 65 ∧ (signatureV signature = 27 ∨ signatureV signature = 28) ∧
    D.ecrecover digest (signatureV signature) (signatureR signature) (signatureS signature) = signer

theorem recover_ok {digest : Bytes32} {signature : Bytes} {signer : Address} :
    recover D digest signature = .ok signer ↔ SignedBy D digest signature signer ∧ signer ≠ 0 := by
  simp only [recover, SignedBy, bind_ok, require_ok, exists_const, pure, Except.pure, Except.ok.injEq]
  constructor
  · rintro ⟨hlen, hv, hne, rfl⟩
    exact ⟨⟨hlen, hv, rfl⟩, hne⟩
  · rintro ⟨⟨hlen, hv, rfl⟩, hne⟩
    exact ⟨hlen, hv, hne, rfl⟩

theorem recoverSigner_ok {resultData : Bytes} {actionId : Bytes32} {submissionTag : Bytes}
    {status : UInt8} {signature : Bytes} {signer : Address} :
    recoverSigner D resultData actionId submissionTag status signature = .ok signer ↔
      SignedBy D (digest D resultData actionId submissionTag status) signature signer ∧ signer ≠ 0 :=
  recover_ok D

theorem isValid_iff {resultData : Bytes} {actionId : Bytes32} {submissionTag : Bytes}
    {status : UInt8} {signature : Bytes} {expectedTee : Address} :
    isValid D resultData actionId submissionTag status signature expectedTee = true ↔
      status = statusSuccess ∧ expectedTee ≠ 0 ∧
        SignedBy D (digest D resultData actionId submissionTag status) signature expectedTee := by
  unfold isValid SignedBy
  split_ifs with hs hl he hv <;> simp_all
  tauto

theorem words_lt (a b c : Bytes32) : ∀ v ∈ [(a : ℕ), b, c], v < 256 ^ 32 := by
  intro v hv
  simp only [List.mem_cons, List.not_mem_nil, or_false] at hv
  rcases hv with rfl | rfl | rfl <;> exact word_lt _

theorem ethSignedPreimage_injective {hash hash' : Bytes32}
    (h : ethSignedPreimage hash = ethSignedPreimage hash') : hash = hash' :=
  word_injective (List.append_cancel_left h)

theorem payloadPreimage_injective {D' : Deployment} {result result' : Bytes32}
    (h : payloadPreimage D result = payloadPreimage D' result') :
    D.chainId = D'.chainId ∧ result = result' := by
  have hlist : [(teeActionResultPrefix : ℕ), D.chainId, result] =
      [(teeActionResultPrefix : ℕ), D'.chainId, result'] :=
    ofWords_injective (by simp) (words_lt _ _ _) (words_lt _ _ _) h
  exact ⟨Fin.ext (List.cons.inj (List.cons.inj hlist).2).1,
    Fin.ext (List.cons.inj (List.cons.inj (List.cons.inj hlist).2).2).1⟩

theorem resultPreimage_injective {resultData resultData' : Bytes} {actionId actionId' : Bytes32}
    {submissionTag submissionTag' : Bytes} {status status' : UInt8}
    (h : resultPreimage D resultData actionId submissionTag status =
      resultPreimage D resultData' actionId' submissionTag' status') :
    D.keccak resultData = D.keccak resultData' ∧ actionId = actionId' ∧
      D.keccak submissionTag = D.keccak submissionTag' ∧ status = status' := by
  obtain ⟨hwords, hstatus⟩ := List.append_inj h (by simp)
  obtain ⟨hwords, htag⟩ := List.append_inj hwords (by simp)
  obtain ⟨hdata, haction⟩ := List.append_inj hwords (by simp)
  exact ⟨word_injective hdata, word_injective haction, word_injective htag, (List.cons.inj hstatus).1⟩

/-- A digest binds the whole result and the chain, as long as hashing does not collide. -/
theorem digest_injective {S : Set Bytes} (hk : Set.InjOn D.keccak S) {chainId' : Uint256}
    {resultData resultData' : Bytes} {actionId actionId' : Bytes32}
    {submissionTag submissionTag' : Bytes} {status status' : UInt8}
    (hS : ∀ b ∈ preimages D resultData actionId submissionTag status, b ∈ S)
    (hS' : ∀ b ∈ preimages { D with chainId := chainId' } resultData' actionId' submissionTag' status',
      b ∈ S)
    (h : digest D resultData actionId submissionTag status =
      digest { D with chainId := chainId' } resultData' actionId' submissionTag' status') :
    resultData = resultData' ∧ actionId = actionId' ∧ submissionTag = submissionTag' ∧
      status = status' ∧ D.chainId = chainId' := by
  have heth := hk (hS _ (by simp [preimages])) (hS' _ (by simp [preimages])) h
  have hpayload := ethSignedPreimage_injective heth
  obtain ⟨hchain, hresult⟩ := payloadPreimage_injective D
    (hk (hS _ (by simp [preimages])) (hS' _ (by simp [preimages])) hpayload)
  have hpre := hk (hS _ (by simp [preimages])) (hS' _ (by simp [preimages])) hresult
  obtain ⟨hdata, haction, htag, hstatus⟩ := resultPreimage_injective D hpre
  exact ⟨hk (hS _ (by simp [preimages])) (hS' _ (by simp [preimages])) hdata, haction,
    hk (hS _ (by simp [preimages])) (hS' _ (by simp [preimages])) htag, hstatus, hchain⟩

end Fidensur.TeeResultVerifier
