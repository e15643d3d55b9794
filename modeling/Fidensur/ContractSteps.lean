import Fidensur.ContractCalls

set_option autoImplicit false

namespace Fidensur

open ByteWords

def Storage.credited (s : Storage) (roundId amount : ℕ) : Storage :=
  let r := s.rounds roundId
  (s.setRound roundId { r with funded := r.funded + amount }).setOutstanding r.token
    (s.outstanding r.token + amount)

def Storage.claimPaid (s : Storage) (roundId index amount : ℕ) : Storage :=
  let r := s.rounds roundId
  ((setClaimed roundId index s).setRound roundId
    { r with totalClaimed := r.totalClaimed + amount }).setOutstanding r.token
      (s.outstanding r.token - amount)

/-- A round leaves the ledger with what it still held. -/
def Storage.wound (s : Storage) (roundId : ℕ) (status : RoundStatus) (amount : ℕ) : Storage :=
  let r := s.rounds roundId
  (s.setRound roundId { r with swept := true, status := status }).setOutstanding r.token
    (s.outstanding r.token - amount)

theorem requireRound_ok {s : Storage} {roundId : ℕ} {r : Round} :
    requireRound s roundId = .ok r ↔ (s.rounds roundId).status ≠ .none ∧ r = s.rounds roundId := by
  simp only [requireRound, bind_ok, require_ok, exists_const, pure, Except.pure, Except.ok.injEq]
  exact and_congr_right' eq_comm

theorem nonReentrant_ok {s s' : Storage} {x : Option Interaction} {body : Storage → Outcome} :
    nonReentrant s body = .ok (s', x) ↔ s.entered = false ∧
      ∃ t, body { s with entered := true } = .ok (t, x) ∧ s' = { t with entered := x.isSome } := by
  simp only [nonReentrant, bind_ok, require_ok, exists_const, pure, Except.pure, Except.ok.injEq,
    Prod.exists, Prod.mk.injEq]
  apply and_congr_right'
  constructor
  · rintro ⟨t, y, hb, rfl, rfl⟩
    exact ⟨t, hb, rfl⟩
  · rintro ⟨t, hb, rfl⟩
    exact ⟨t, x, hb, rfl, rfl⟩

theorem creditRound_ok {s s' : Storage} {roundId amount : ℕ} :
    creditRound roundId amount s = .ok s' ↔ (s.rounds roundId).funded + amount < 2 ^ 256 ∧
      s.outstanding (s.rounds roundId).token + amount < 2 ^ 256 ∧ s' = s.credited roundId amount := by
  simp only [creditRound, bind_ok, require_ok, exists_const, pure, Except.pure, Except.ok.injEq]
  exact and_congr_right' (and_congr_right' eq_comm)

theorem pickTee_ok {msg : Msg} {s : Storage} {teeIds : List Address} :
    pickTee msg s = .ok teeIds ↔
      s.extensionId ≠ 0 ∧ msg.registry.randomTeeIds ≠ [] ∧ teeIds = msg.registry.randomTeeIds := by
  simp only [pickTee, getExtensionId, bind_ok, require_ok, exists_const, pure, Except.pure,
    Except.ok.injEq]
  constructor
  · rintro ⟨_, ⟨he, -⟩, ht, rfl⟩
    exact ⟨he, ht, rfl⟩
  · rintro ⟨he, ht, rfl⟩
    exact ⟨_, ⟨he, rfl⟩, ht, rfl⟩

theorem requireDispatchable_ok {msg : Msg} {roundId : ℕ} {r : Round} {u : Unit} :
    requireDispatchable msg roundId r = .ok u ↔
      r.status = .committed ∨ r.status = .computing ∧
        r.computeRequestedAt + computeRetryTimeout < 2 ^ 48 ∧
        r.computeRequestedAt + computeRetryTimeout ≤ blockTimestamp48 msg := by
  unfold requireDispatchable
  split_ifs with hc
  · simp [bind_ok, hc]
  · simp [hc]

def Call.configures : Call → Bool
  | .transferOwnership .. | .acceptOwnership | .setExtensionId | .setTeeAddress .. => true
  | _ => false

variable (D : Deployment) (msg : Msg) (balance : Address → ℕ) (s : Storage)

/-- What a call has checked and written when it returns or first calls out. -/
inductive Started : Call → Storage → Option Interaction → Prop
  | configure (call : Call) (owner pendingOwner : Address) (extensionId : ℕ) (tee : Address)
      (hc : call.configures = true) :
      Started call { s with
        owner := owner, pendingOwner := pendingOwner
        extensionId := extensionId, teeAddress := tee } none
  | createRound (token : Address) (claimWindow : Uint48) (hid : s.nextRoundId + 1 < 2 ^ 256)
      (hw : minClaimWindow ≤ claimWindow ∧ claimWindow ≤ maxClaimWindow) :
      Started (.createRound token claimWindow)
        ({ s with nextRoundId := s.nextRoundId + 1 }.setRound s.nextRoundId
          { s.rounds s.nextRoundId with
            organization := msg.sender, status := .opened
            token := token, claimWindow := claimWindow }) none
  | fundNative (roundId amount : Uint256) (hg : s.entered = false)
      (hs : (s.rounds roundId).status = .opened) (ha : amount ≠ 0)
      (ht : (s.rounds roundId).token = 0) (hv : msg.value = amount)
      (hf : (s.rounds roundId).funded + amount < 2 ^ 256) :
      Started (.fund roundId amount) { s.credited roundId amount with entered := false } none
  | fundToken (roundId amount : Uint256) (hg : s.entered = false)
      (hs : (s.rounds roundId).status = .opened) (ha : amount ≠ 0)
      (ht : (s.rounds roundId).token ≠ 0) (hv : msg.value = 0) :
      Started (.fund roundId amount) { s with entered := true }
        (some (.transferFrom (s.rounds roundId).token msg.sender amount))
  | submitPolicy (roundId : Uint256) (policyCommitment : Bytes32)
      (hs : (s.rounds roundId).status = .opened)
      (ho : msg.sender = (s.rounds roundId).organization) (hp : policyCommitment ≠ 0)
      (hf : (s.rounds roundId).funded ≠ 0) :
      Started (.submitPolicy roundId policyCommitment)
        (s.setRound roundId { s.rounds roundId with
          policyCommitment := policyCommitment, status := .committed }) none
  | requestCompute (roundId : Uint256) (ciphertext : Bytes)
      (ho : msg.sender = (s.rounds roundId).organization)
      (hs : (s.rounds roundId).status = .committed ∨ (s.rounds roundId).status = .computing ∧
        (s.rounds roundId).computeRequestedAt + computeRetryTimeout < 2 ^ 48 ∧
        (s.rounds roundId).computeRequestedAt + computeRetryTimeout ≤ blockTimestamp48 msg)
      (hp : D.keccak ciphertext = (s.rounds roundId).policyCommitment) :
      Started (.requestCompute roundId ciphertext) s
        (some (send msg opCommandCompute ciphertext msg.registry.randomTeeIds))
  | finalizeRound (resultData : Bytes) (actionId : Bytes32) (submissionTag : Bytes)
      (signature : Bytes) (res : AllocationResult) (ht : s.teeAddress ≠ 0)
      (hsig : TeeResultVerifier.recoverSigner D resultData actionId submissionTag
        TeeResultVerifier.statusSuccess signature = .ok s.teeAddress)
      (hd : AllocationResult.decode resultData = some res) (hself : res.contractAddr = D.self)
      (hs : (s.rounds res.roundId).status = .computing)
      (hid : actionId = (s.rounds res.roundId).computeInstructionId)
      (hp : res.policyCommitment = (s.rounds res.roundId).policyCommitment)
      (hroot : res.merkleRoot ≠ 0) (hn : res.recipientCount ≠ 0)
      (htotal : res.totalAllocated ≤ (s.rounds res.roundId).funded)
      (hdeadline : blockTimestamp48 msg + (s.rounds res.roundId).claimWindow < 2 ^ 48) :
      Started (.finalizeRound resultData actionId submissionTag TeeResultVerifier.statusSuccess
          signature)
        (s.setRound res.roundId { s.rounds res.roundId with
          merkleRoot := res.merkleRoot
          totalAllocated := res.totalAllocated
          recipientCount := res.recipientCount
          engineVersion := res.engineVersion
          claimDeadline := blockTimestamp48 msg + (s.rounds res.roundId).claimWindow
          status := .finalized }) none
  | requestDisclosure (roundId : Uint256) (disclosureKey message : Bytes)
      (hs : (s.rounds roundId).status = .computing ∨ (s.rounds roundId).status = .finalized) :
      Started (.requestDisclosure roundId disclosureKey) s
        (some (send msg opCommandDisclose message msg.registry.randomTeeIds))
  | requestAttestation (roundId : Uint256)
      (hs : (s.rounds roundId).status = .computing ∨ (s.rounds roundId).status = .finalized) :
      Started (.requestAttestation roundId) s
        (some (send msg opCommandAttest
          (encodeAttestMessage D roundId (s.rounds roundId).policyCommitment)
          msg.registry.randomTeeIds))
  | claim (roundId index amount : Uint256) (proof : List Bytes32) (hg : s.entered = false)
      (hs : (s.rounds roundId).status = .finalized)
      (ht : blockTimestamp48 msg ≤ (s.rounds roundId).claimDeadline)
      (hb : isClaimed s roundId index = false)
      (hp : AllocationMerkle.verify D.keccak (s.rounds roundId).merkleRoot roundId index msg.sender
        amount proof = true)
      (hc : (s.rounds roundId).totalClaimed + amount < 2 ^ 256)
      (ho : amount ≤ s.outstanding (s.rounds roundId).token) :
      Started (.claim roundId index amount proof)
        { s.claimPaid roundId index amount with
          entered := (SafeTransfer.payOut (s.rounds roundId).token msg.sender amount).isSome }
        (SafeTransfer.payOut (s.rounds roundId).token msg.sender amount)
  | closeRound (roundId : Uint256) (hg : s.entered = false)
      (hs : (s.rounds roundId).status = .finalized)
      (ht : (s.rounds roundId).claimDeadline < blockTimestamp48 msg)
      (hw : (s.rounds roundId).swept = false)
      (hf : (s.rounds roundId).totalClaimed ≤ (s.rounds roundId).funded)
      (ho : (s.rounds roundId).funded - (s.rounds roundId).totalClaimed ≤
        s.outstanding (s.rounds roundId).token) :
      Started (.closeRound roundId)
        { s.wound roundId .closed ((s.rounds roundId).funded - (s.rounds roundId).totalClaimed) with
          entered := (SafeTransfer.payOut (s.rounds roundId).token (s.rounds roundId).organization
            ((s.rounds roundId).funded - (s.rounds roundId).totalClaimed)).isSome }
        (SafeTransfer.payOut (s.rounds roundId).token (s.rounds roundId).organization
          ((s.rounds roundId).funded - (s.rounds roundId).totalClaimed))
  | cancelRound (roundId : Uint256) (hg : s.entered = false)
      (hs : (s.rounds roundId).status = .opened ∨ (s.rounds roundId).status = .committed)
      (hsender : msg.sender = (s.rounds roundId).organization)
      (ho : (s.rounds roundId).funded ≤ s.outstanding (s.rounds roundId).token) :
      Started (.cancelRound roundId)
        { s.wound roundId .cancelled (s.rounds roundId).funded with
          entered := (SafeTransfer.payOut (s.rounds roundId).token (s.rounds roundId).organization
            (s.rounds roundId).funded).isSome }
        (SafeTransfer.payOut (s.rounds roundId).token (s.rounds roundId).organization
          (s.rounds roundId).funded)
  | rescue (token recipient : Address) (hg : s.entered = false)
      (ho : s.outstanding token < balance token) :
      Started (.rescue token recipient)
        { s with
          entered := (SafeTransfer.payOut token recipient (balance token - s.outstanding token)).isSome }
        (SafeTransfer.payOut token recipient (balance token - s.outstanding token))

variable {D msg balance s}

variable {s' : Storage} {x : Option Interaction}

theorem transferOwnership_started {newOwner : Address} (h : transferOwnership msg newOwner s = .ok (s', x)) :
    Started D msg balance s (.transferOwnership newOwner) s' x := by
  simp only [transferOwnership, onlyOwner, bind_ok, require_ok, exists_const, pure, Except.pure,
    Except.ok.injEq, Prod.mk.injEq] at h
  obtain ⟨-, -, rfl, rfl⟩ := h
  exact .configure _ s.owner newOwner s.extensionId s.teeAddress rfl

theorem acceptOwnership_started (h : acceptOwnership msg s = .ok (s', x)) :
    Started D msg balance s .acceptOwnership s' x := by
  simp only [acceptOwnership, bind_ok, require_ok, exists_const, pure, Except.pure,
    Except.ok.injEq, Prod.mk.injEq] at h
  obtain ⟨-, rfl, rfl⟩ := h
  exact .configure _ s.pendingOwner 0 s.extensionId s.teeAddress rfl

theorem setExtensionId_started (h : setExtensionId D msg s = .ok (s', x)) :
    Started D msg balance s .setExtensionId s' x := by
  simp only [setExtensionId, bind_ok, require_ok, exists_const] at h
  obtain ⟨-, h⟩ := h
  split at h
  · cases h
    exact .configure _ s.owner s.pendingOwner _ s.teeAddress rfl
  · cases h

theorem setTeeAddress_started {tee : Address} (h : setTeeAddress msg tee s = .ok (s', x)) :
    Started D msg balance s (.setTeeAddress tee) s' x := by
  simp only [setTeeAddress, onlyOwner, bind_ok, require_ok, exists_const, pure, Except.pure,
    Except.ok.injEq, Prod.mk.injEq] at h
  obtain ⟨-, -, rfl, rfl⟩ := h
  exact .configure _ s.owner s.pendingOwner s.extensionId tee rfl

theorem createRound_started {token : Address} {claimWindow : Uint48}
    (h : createRound msg token claimWindow s = .ok (s', x)) :
    Started D msg balance s (.createRound token claimWindow) s' x := by
  simp only [createRound, bind_ok, require_ok, exists_const, pure, Except.pure,
    Except.ok.injEq, Prod.mk.injEq] at h
  obtain ⟨hw, hid, rfl, rfl⟩ := h
  exact .createRound token claimWindow hid hw

theorem fund_started {roundId amount : Uint256} (h : fund msg roundId amount s = .ok (s', x)) :
    Started D msg balance s (.fund roundId amount) s' x := by
  obtain ⟨hg, t, hbody, rfl⟩ := nonReentrant_ok.mp h
  simp only [bind_ok, requireRound_ok, require_ok, exists_const] at hbody
  obtain ⟨_, ⟨-, rfl⟩, hs, ha, y, hy, hx⟩ := hbody
  simp only [SafeTransfer.collect] at hy
  split_ifs at hy with ht
  · simp only [bind_ok, require_ok, exists_const, pure, Except.pure, Except.ok.injEq] at hy
    obtain ⟨hv, rfl⟩ := hy
    simp only [bind_ok, creditRound_ok, pure, Except.pure, Except.ok.injEq, Prod.mk.injEq] at hx
    obtain ⟨_, ⟨hf, -, rfl⟩, rfl, rfl⟩ := hx
    exact .fundNative roundId amount hg hs ha ht hv hf
  · simp only [bind_ok, require_ok, exists_const, pure, Except.pure, Except.ok.injEq] at hy
    obtain ⟨hv, rfl⟩ := hy
    cases hx
    exact .fundToken roundId amount hg hs ha ht hv

theorem submitPolicy_started {roundId : Uint256} {policyCommitment : Bytes32}
    (h : submitPolicy msg roundId policyCommitment s = .ok (s', x)) :
    Started D msg balance s (.submitPolicy roundId policyCommitment) s' x := by
  simp only [submitPolicy, bind_ok, requireRound_ok, require_ok, exists_const, pure, Except.pure,
    Except.ok.injEq, Prod.mk.injEq] at h
  obtain ⟨_, ⟨-, rfl⟩, hs, ho, hp, hf, rfl, rfl⟩ := h
  exact .submitPolicy roundId policyCommitment hs ho hp hf

theorem requestCompute_started {roundId : Uint256} {ciphertext : Bytes}
    (h : requestCompute D msg roundId ciphertext s = .ok (s', x)) :
    Started D msg balance s (.requestCompute roundId ciphertext) s' x := by
  simp only [requestCompute, bind_ok, requireRound_ok, require_ok, requireDispatchable_ok,
    pickTee_ok, exists_const, pure, Except.pure, Except.ok.injEq, Prod.mk.injEq] at h
  obtain ⟨_, ⟨-, rfl⟩, ho, -, hs, hp, _, ⟨-, -, rfl⟩, rfl, rfl⟩ := h
  exact .requestCompute roundId ciphertext ho hs hp

theorem finalizeRound_started {resultData submissionTag signature : Bytes} {actionId : Bytes32}
    {status : UInt8}
    (h : finalizeRound D msg resultData actionId submissionTag status signature s = .ok (s', x)) :
    Started D msg balance s
      (.finalizeRound resultData actionId submissionTag status signature) s' x := by
  simp only [finalizeRound, bind_ok, require_ok, exists_const,
    TeeResultVerifier.requireValid_ok] at h
  obtain ⟨ht, ⟨rfl, hsig⟩, h⟩ := h
  cases hd : AllocationResult.decode resultData with
  | none =>
    rw [hd] at h
    cases h
  | some res =>
    simp only [hd, applyAllocationResult, bind_ok, requireRound_ok, require_ok, exists_const, pure,
      Except.pure, Except.ok.injEq, Prod.mk.injEq] at h
    obtain ⟨hself, _, ⟨-, rfl⟩, hs, hid, hp, hroot, hn, htotal, hdeadline, rfl, rfl⟩ := h
    exact .finalizeRound resultData actionId submissionTag signature res ht hsig hd hself hs hid
      hp hroot hn htotal hdeadline

theorem requestDisclosure_started {roundId : Uint256} {disclosureKey : Bytes}
    (h : requestDisclosure D msg roundId disclosureKey s = .ok (s', x)) :
    Started D msg balance s (.requestDisclosure roundId disclosureKey) s' x := by
  simp only [requestDisclosure, bind_ok, requireRound_ok, require_ok, pickTee_ok, exists_const,
    pure, Except.pure, Except.ok.injEq, Prod.mk.injEq] at h
  obtain ⟨_, ⟨-, rfl⟩, hs, -, _, ⟨-, -, rfl⟩, rfl, rfl⟩ := h
  exact .requestDisclosure roundId disclosureKey _ hs

theorem requestAttestation_started {roundId : Uint256}
    (h : requestAttestation D msg roundId s = .ok (s', x)) :
    Started D msg balance s (.requestAttestation roundId) s' x := by
  simp only [requestAttestation, bind_ok, requireRound_ok, require_ok, pickTee_ok, exists_const,
    pure, Except.pure, Except.ok.injEq, Prod.mk.injEq] at h
  obtain ⟨_, ⟨-, rfl⟩, hs, _, ⟨-, -, rfl⟩, rfl, rfl⟩ := h
  exact .requestAttestation roundId hs

theorem claim_started {roundId index amount : Uint256} {proof : List Bytes32}
    (h : claim D msg roundId index amount proof s = .ok (s', x)) :
    Started D msg balance s (.claim roundId index amount proof) s' x := by
  obtain ⟨hg, t, hbody, rfl⟩ := nonReentrant_ok.mp h
  simp only [bind_ok, requireRound_ok, require_ok, exists_const, pure, Except.pure,
    Except.ok.injEq, Prod.mk.injEq] at hbody
  obtain ⟨_, ⟨-, rfl⟩, hs, ht, hb, hp, hc, ho, rfl, rfl⟩ := hbody
  exact .claim roundId index amount proof hg hs ht hb hp hc ho

theorem closeRound_started {roundId : Uint256} (h : closeRound msg roundId s = .ok (s', x)) :
    Started D msg balance s (.closeRound roundId) s' x := by
  obtain ⟨hg, t, hbody, rfl⟩ := nonReentrant_ok.mp h
  simp only [bind_ok, requireRound_ok, require_ok, exists_const, pure, Except.pure,
    Except.ok.injEq, Prod.mk.injEq] at hbody
  obtain ⟨_, ⟨-, rfl⟩, hs, ht, hw, hf, ho, rfl, rfl⟩ := hbody
  exact .closeRound roundId hg hs ht hw hf ho

theorem cancelRound_started {roundId : Uint256} (h : cancelRound msg roundId s = .ok (s', x)) :
    Started D msg balance s (.cancelRound roundId) s' x := by
  obtain ⟨hg, t, hbody, rfl⟩ := nonReentrant_ok.mp h
  simp only [bind_ok, requireRound_ok, require_ok, exists_const, pure, Except.pure,
    Except.ok.injEq, Prod.mk.injEq] at hbody
  obtain ⟨_, ⟨-, rfl⟩, hs, hsender, ho, rfl, rfl⟩ := hbody
  exact .cancelRound roundId hg hs hsender ho

theorem rescue_started {token recipient : Address} (h : rescue msg balance token recipient s = .ok (s', x)) :
    Started D msg balance s (.rescue token recipient) s' x := by
  simp only [rescue, onlyOwner, bind_ok, require_ok, exists_const] at h
  obtain ⟨hg, t, hbody, rfl⟩ := nonReentrant_ok.mp h.2
  simp only [bind_ok, require_ok, exists_const, pure, Except.pure, Except.ok.injEq,
    Prod.mk.injEq] at hbody
  obtain ⟨-, ho, rfl, rfl⟩ := hbody
  exact .rescue token recipient hg ho

theorem Started.of_start {call : Call} (h : start D msg balance s call = .ok (s', x)) :
    Started D msg balance s call s' x := by
  obtain ⟨_, -, h⟩ := bind_ok.mp h
  cases call with
  | transferOwnership newOwner => exact transferOwnership_started h
  | acceptOwnership => exact acceptOwnership_started h
  | setExtensionId => exact setExtensionId_started h
  | setTeeAddress tee => exact setTeeAddress_started h
  | createRound token claimWindow => exact createRound_started h
  | fund roundId amount => exact fund_started h
  | submitPolicy roundId policyCommitment => exact submitPolicy_started h
  | requestCompute roundId ciphertext => exact requestCompute_started h
  | finalizeRound resultData actionId submissionTag status signature => exact finalizeRound_started h
  | requestDisclosure roundId disclosureKey => exact requestDisclosure_started h
  | claim roundId index amount proof => exact claim_started h
  | closeRound roundId => exact closeRound_started h
  | cancelRound roundId => exact cancelRound_started h
  | rescue token recipient => exact rescue_started h
  | requestAttestation roundId => exact requestAttestation_started h

def Call.paysOut : Call → Bool
  | .claim .. | .closeRound .. | .cancelRound .. | .rescue .. => true
  | _ => false

variable (msg s) in
inductive Finished (x : Interaction) (reply : Reply) : Call → Storage → Prop
  | fund (roundId amount : Uint256) (hf : (s.rounds roundId).funded + amount < 2 ^ 256) :
      Finished x reply (.fund roundId amount) { s.credited roundId amount with entered := false }
  | release (call : Call) (hc : call.paysOut = true) :
      Finished x reply call { s with entered := false }
  | requestCompute (roundId : Uint256) (ciphertext : Bytes) (instructionId : Bytes32)
      (hid : x.accept reply = .ok instructionId) :
      Finished x reply (.requestCompute roundId ciphertext) (recordDispatch msg roundId instructionId s)
  | keep (call : Call) (hp : call.paysOut = false) (hf : ∀ roundId amount, call ≠ .fund roundId amount)
      (hr : ∀ roundId ciphertext, call ≠ .requestCompute roundId ciphertext) :
      Finished x reply call s

theorem Finished.of_finish {s' : Storage} {x : Interaction} {reply : Reply} {call : Call}
    (h : finish msg s x reply call = .ok s') : Finished msg s x reply call s' := by
  obtain ⟨instructionId, hid, h⟩ := bind_ok.mp h
  cases call with
  | fund roundId amount =>
    simp only [bind_ok, creditRound_ok, pure, Except.pure, Except.ok.injEq] at h
    obtain ⟨_, ⟨hf, -, rfl⟩, rfl⟩ := h
    exact .fund roundId amount hf
  | requestCompute roundId ciphertext =>
    cases h
    exact .requestCompute roundId ciphertext instructionId hid
  | claim roundId index amount proof => cases h; exact .release _ rfl
  | closeRound roundId => cases h; exact .release _ rfl
  | cancelRound roundId => cases h; exact .release _ rfl
  | rescue token recipient => cases h; exact .release _ rfl
  | _ => cases h; exact .keep _ rfl nofun nofun

theorem accept_sendInstructions {teeIds : List Address} {params : TeeInstructionParams} {value : ℕ}
    {reply : Reply} {instructionId : Bytes32} :
    (Interaction.sendInstructions teeIds params value).accept reply = .ok instructionId ↔
      reply = .instruction instructionId := by
  cases reply <;> simp [Interaction.accept, pure, Except.pure]

end Fidensur
