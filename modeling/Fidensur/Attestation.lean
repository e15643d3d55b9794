import Fidensur.ClaimSoundness
import Fidensur.PublicFailure

set_option autoImplicit false

namespace Fidensur

open NestedCalls ByteWords

variable {D : Deployment} {msg : Msg} {view : Address → ℕ} {s s' : Storage} {call : Call}
  {x : Option Interaction} {c : ContractConfig} {initialOwner : Address}
  {balance : Address → ℕ} {now : ℕ} {ok : ContractConfig → Act → Prop} {log : List Entry}

section Dispatches

def Awaited (s : Storage) (log : List Entry) : Prop :=
  ∀ id, (s.rounds id).status = .computing → ∃ e ∈ log, ∃ roundId ciphertext,
    e.call = .requestCompute roundId ciphertext ∧
    e.phase = .finished (.instruction (s.rounds id).computeInstructionId)

theorem Started.computing (h : Started D msg view s call s' x) (id : ℕ)
    (hst : (s'.rounds id).status = .computing) :
    (s.rounds id).status = .computing ∧
      (s'.rounds id).computeInstructionId = (s.rounds id).computeInstructionId := by
  have hother {roundId : ℕ} {r : Round} (hr : s'.rounds = Function.update s.rounds roundId r)
      (hne : r.status ≠ .computing) : (s.rounds id).status = .computing ∧
        (s'.rounds id).computeInstructionId = (s.rounds id).computeInstructionId := by
    rw [hr] at hst ⊢
    by_cases hid : id = roundId
    · rw [hid, Function.update_self] at hst
      exact absurd hst hne
    · rw [Function.update_of_ne hid] at hst ⊢
      exact ⟨hst, rfl⟩
  have hsame {roundId : ℕ} {r : Round} (hr : s'.rounds = Function.update s.rounds roundId r)
      (hstatus : r.status = (s.rounds roundId).status)
      (hinstruction : r.computeInstructionId = (s.rounds roundId).computeInstructionId) :
      (s.rounds id).status = .computing ∧
        (s'.rounds id).computeInstructionId = (s.rounds id).computeInstructionId := by
    rw [← Round.field_same Round.status hr hstatus id]
    exact ⟨hst, Round.field_same Round.computeInstructionId hr hinstruction id⟩
  cases h with
  | createRound => exact hother rfl nofun
  | fundNative => exact hsame rfl rfl rfl
  | submitPolicy => exact hother rfl nofun
  | finalizeRound => exact hother rfl nofun
  | claim => exact hsame rfl rfl rfl
  | closeRound => exact hother rfl nofun
  | cancelRound => exact hother rfl nofun
  | _ => exact ⟨hst, rfl⟩

theorem Awaited.started (h : Awaited s log) (hst : Started D msg view s call s' x) (e : Entry) :
    Awaited s' (e :: log) := by
  intro id hs
  obtain ⟨hold, hinstruction⟩ := hst.computing id hs
  obtain ⟨e', he', hcall⟩ := h id hold
  rw [hinstruction]
  exact ⟨e', List.mem_cons_of_mem _ he', hcall⟩

theorem Awaited.cons (h : Awaited s log) (e : Entry) : Awaited s (e :: log) := by
  intro id hs
  obtain ⟨e', he', hcall⟩ := h id hs
  exact ⟨e', List.mem_cons_of_mem _ he', hcall⟩

theorem Reachable.awaited (h : Reachable D initialOwner balance now ok c) :
    Awaited c.world.storage c.world.log := by
  refine Reachable.invariant (P := fun c => Awaited c.world.storage c.world.log) nofun ?_ h
  intro c a d hr hp _ hstep
  cases hstep with
  | done msg call ht hself hst => exact hp.started hst _
  | pending msg call ht hself hst => exact hp.started hst _
  | settled p => exact hp.cons _
  | @replied w saved fs p reply s ha hf =>
    have horigin := hr.originated
    obtain ⟨pmsg, pcall, y, settled⟩ := p
    cases hf with
    | fund roundId amount =>
      intro id hs
      have hfields (f : Round → Prod RoundStatus Bytes32) (hf : f = fun r =>
          (r.status, r.computeInstructionId)) :
          f ({ w.storage.credited roundId amount with entered := false }.rounds id) =
            f (w.storage.rounds id) := Round.field_same f rfl (by rw [hf]) id
      obtain ⟨hstatus, hinstruction⟩ := Prod.mk.inj (hfields _ rfl)
      simp only [World.record] at hs ⊢
      rw [hstatus] at hs
      rw [hinstruction]
      exact hp.cons _ id hs
    | release _ hc => exact hp.cons _
    | keep _ _ _ hr => exact hp.cons _
    | requestCompute roundId ciphertext instructionId hid =>
      obtain rfl := horigin.answered rfl hid
      intro id hs
      by_cases heq : id = roundId
      · refine ⟨_, List.mem_cons_self, roundId, ciphertext, rfl, ?_⟩
        simp [World.record, recordDispatch, heq]
      · simp only [World.record, recordDispatch, Storage.setRound_rounds,
          Function.update_of_ne heq] at hs ⊢
        exact hp.cons _ id hs
  | _ => exact hp

theorem Reachable.not_awaited (h : Reachable D initialOwner balance now FreshIds c) {id : ℕ}
    (hst : (c.world.storage.rounds id).status = .computing) {e : Entry} (he : e ∈ c.world.log)
    {instructionId : Bytes32} (hid : e.phase = .finished (.instruction instructionId))
    (hcall : ∀ roundId ciphertext, e.call ≠ .requestCompute roundId ciphertext) :
    instructionId ≠ (c.world.storage.rounds id).computeInstructionId := by
  rintro rfl
  obtain ⟨e', he', roundId, ciphertext, hcall', hid'⟩ := h.awaited id hst
  rw [Reachable.answered_unique (fun _ _ ha => ha) h he he' hid hid'] at hcall
  exact hcall roundId ciphertext hcall'

end Dispatches

section Engine

variable {E : Enclave} {engine : Engine} {action : Action} {df : DataFixed} {round : ComputedRound}

theorem rootIsIntact_of_computeRound {message : Bytes} {time : ℤ}
    (h : computeRound E message time = .ok round) : rootIsIntact E round = true := by
  obtain ⟨p, table, tree, -, -, -, htree, rfl⟩ := computeRound_ok.mp h
  simp [rootIsIntact, ComputedRound.build, htree]

theorem processAttest_ok {req : AttestRequest} (hreq : E.decodeAttest df.originalMessage = .ok req)
    (hset : E.cfg.contractAddressSet = true) (hcontract : req.contractAddr = E.cfg.contractAddress)
    (hround : engine.rounds req.policyCommitment = some round) (hid : round.roundId = req.roundId)
    (hintact : rootIsIntact E round = true) :
    (processAttest E engine action df).2 =
      buildResult action df (encodeAllocationResult E round) statusSuccess "" := by
  have hattest (engine' : Engine) (hr : engine'.rounds = engine.rounds) :
      attest E engine' df.originalMessage = .ok (encodeAllocationResult E round) := by
    simp only [attest, bind_ok, mapError_ok, requireServed, require_ok, exists_const, lookupRound, hr]
    refine ⟨req, hreq, ⟨hset, hcontract⟩, round, ?_, hintact, rfl⟩
    rw [hround]
    simp only [bind_ok, require_ok, exists_const]
    exact ⟨hid, rfl⟩
  rw [processAttest]
  simp only [hattest (engine.bump _) rfl]

end Engine

theorem finalizeRound_otherInstruction {resultData submissionTag signature : Bytes}
    {actionId : Bytes32} {res : AllocationResult} {roundId : Uint256} (htee : s.teeAddress ≠ 0)
    (hsig : TeeResultVerifier.recoverSigner D resultData actionId submissionTag
      TeeResultVerifier.statusSuccess signature = .ok s.teeAddress)
    (hd : AllocationResult.decode resultData = some res) (hself : res.contractAddr = D.self)
    (hround : res.roundId = roundId) (hst : (s.rounds roundId).status = .computing)
    (hid : actionId ≠ (s.rounds roundId).computeInstructionId) :
    finalizeRound D msg resultData actionId submissionTag TeeResultVerifier.statusSuccess signature s =
      .error (.resultNotForThisRound actionId (s.rounds roundId).computeInstructionId) := by
  subst hround
  have hvalid := (TeeResultVerifier.requireValid_ok D (u := ())).mpr ⟨rfl, hsig⟩
  have hstored : requireRound s res.roundId = .ok (s.rounds res.roundId) :=
    requireRound_ok.mpr ⟨by simp [hst], rfl⟩
  have happly : applyAllocationResult D msg res actionId s =
      .error (.resultNotForThisRound actionId (s.rounds res.roundId).computeInstructionId) :=
    bind_error.mpr (.inr ⟨(), require_ok.mpr hself, bind_error.mpr (.inr ⟨_, hstored,
      bind_error.mpr (.inr ⟨(), require_ok.mpr hst,
        bind_error.mpr (.inl (require_error.mpr ⟨hid, rfl⟩))⟩)⟩)⟩)
  refine bind_error.mpr (.inr ⟨(), require_ok.mpr htee, bind_error.mpr (.inr ⟨(), hvalid, ?_⟩)⟩)
  rw [hd]
  exact happly

theorem packUint256_natCast (v : Uint256) : packUint256 (v : ℕ) = v := by
  have hlt := v.isLt
  have hmod : ((v : ℕ) : ℤ) % 2 ^ 256 = (v : ℕ) := by
    apply Int.emod_eq_of_lt (by omega)
    exact_mod_cast hlt
  rw [packUint256, hmod, Int.toNat_natCast]
  exact Fin.cast_val_eq_self v

/-- The attestation of a computing round carries the bytes of its computation, and is refused. -/
theorem attestation_never_finalizes (D : Deployment) (initialOwner : Address)
    (balance : Address → ℕ) (now : ℕ) (c : ContractConfig)
    (h : Reachable D initialOwner balance now FreshIds c) (roundId : Uint256)
    (hst : (c.world.storage.rounds roundId).status = .computing)
    (e : Entry) (he : e ∈ c.world.log) (hcall : e.call = .requestAttestation roundId)
    (instructionId : Bytes32) (hanswer : e.phase = .finished (.instruction instructionId))
    (E : Enclave) (hset : E.cfg.contractAddressSet = true) (hself : E.cfg.contractAddress = D.self)
    (engine : Engine) (round : ComputedRound)
    (hround : engine.rounds (c.world.storage.rounds roundId).policyCommitment = some round)
    (message : Bytes) (time : ℤ) (hcomputed : computeRound E message time = .ok round)
    (hid : round.roundId = (roundId : ℕ))
    (df : DataFixed)
    (hmessage : df.originalMessage =
      encodeAttestMessage D roundId (c.world.storage.rounds roundId).policyCommitment)
    (hdecode : E.decodeAttest
        (encodeAttestMessage D roundId (c.world.storage.rounds roundId).policyCommitment) =
      .ok ⟨(roundId : ℕ), D.self, (c.world.storage.rounds roundId).policyCommitment⟩)
    (submissionTag signature : Bytes) (msg : Msg) (htee : c.world.storage.teeAddress ≠ 0)
    (hsig : TeeResultVerifier.recoverSigner D (encodeAllocationResult E round) instructionId
      submissionTag statusSuccess signature = .ok c.world.storage.teeAddress) :
    (processAttest E engine ⟨instructionId, submissionTag⟩ df).2 =
        buildResult ⟨instructionId, submissionTag⟩ df (encodeAllocationResult E round) statusSuccess "" ∧
      finalizeRound D msg (encodeAllocationResult E round) instructionId submissionTag statusSuccess
          signature c.world.storage =
        .error (.resultNotForThisRound instructionId
          (c.world.storage.rounds roundId).computeInstructionId) := by
  constructor
  · rw [← hmessage] at hdecode
    exact processAttest_ok hdecode hset hself.symm hround hid (rootIsIntact_of_computeRound hcomputed)
  · apply finalizeRound_otherInstruction htee hsig (AllocationResult.decode_encode _) hself
    · rw [ComputedRound.result, hid]
      exact packUint256_natCast roundId
    · exact hst
    · exact h.not_awaited hst he hanswer (by simp [hcall])

section Sample

/-- An engine for the sample contract that knows one ciphertext, which is its own plaintext. -/
def sampleEnclave : Enclave where
  cfg := sampleConfig
  keccak := sampleDeployment.keccak
  addressHex := checksumHex sampleDeployment.keccak
  addressHex_eq _ := rfl
  nodeDecrypt b := .ok b
  decodePolicy b := if b = [42] then .ok samplePolicy else .error "abi: cannot unmarshal"
  decodeDisclose b := .ok ⟨wordAt 32 1 b, Fin.ofNat _ (wordAt 32 2 b), Fin.ofNat _ (wordAt 32 3 b),
    Fin.ofNat _ (wordAt 32 4 b), (b.drop 224).take (wordAt 32 6 b)⟩
  decodeAttest b := .ok ⟨wordAt 32 0 b, Fin.ofNat _ (wordAt 32 1 b), Fin.ofNat _ (wordAt 32 2 b)⟩
  marshal d := asciiBytes (d.roundId ++ d.recipient ++ d.amount)
  unmarshalPubkey b := .ok (b.drop 1)
  decompressPubkey b := .ok (b.drop 1)
  eciesEncrypt _ _ b := .ok b

def sampleRound : ComputedRound :=
  .build (sampleDeployment.keccak [42]) samplePolicy sampleTable sampleTree 0

theorem computeRound_sample : computeRound sampleEnclave [42] 0 = .ok sampleRound :=
  computeRound_ok.mpr ⟨samplePolicy, sampleTable, sampleTree, ⟨[42], rfl, rfl⟩, by decide,
    by decide +kernel, by decide +kernel, rfl⟩

def sampleEngine : Engine := emptyEngine.store sampleRound

def attestRun : List Act :=
  tableRun.take 7 ++ [.call (sampleMsg 3 0) (.requestAttestation 0), .reply (.instruction 100)]

def attestData : DataFixed :=
  ⟨opTypeAlloc, opCommandAttest, encodeAttestMessage sampleDeployment 0 (sampleDeployment.keccak [42])⟩

def sampleSignature : Bytes := List.replicate 64 0 ++ [27]

def Outcome.refusal : Outcome → Option Error
  | .error e => some e
  | .ok _ => none

def attested (log : List Entry) (roundId : Uint256) : List Bytes32 :=
  log.filterMap fun e =>
    match e.call, e.phase with
    | .requestAttestation id, .finished (.instruction instructionId) =>
        if id = roundId then some instructionId else none
    | _, _ => none

theorem mem_attested {log : List Entry} {roundId : Uint256} {instructionId : Bytes32}
    (h : instructionId ∈ attested log roundId) :
    ∃ e ∈ log, e.call = .requestAttestation roundId ∧
      e.phase = .finished (.instruction instructionId) := by
  obtain ⟨⟨emsg, ecall, phase, post⟩, he, hx⟩ := List.mem_filterMap.mp h
  split at hx
  · next id i hcall hphase =>
    simp only at hcall hphase
    split at hx
    · next heq =>
      cases hx
      exact ⟨_, he, heq ▸ hcall, hphase⟩
    · cases hx
  · cases hx

/-- The same bytes finalize the round under the id of the computation, not under the attestation's. -/
theorem attestation_refused :
    let data := (processAttest sampleEnclave sampleEngine ⟨100, []⟩ attestData).2.data
    (processAttest sampleEnclave sampleEngine ⟨100, []⟩ attestData).2.status = statusSuccess ∧
    ((machine sampleDeployment).run attestRun sampleStart).map (fun c =>
      ((c.world.storage.rounds 0).status, attested c.world.log 0,
        Outcome.refusal (finalizeRound sampleDeployment (sampleMsg 3 0) data 100 [] statusSuccess
          sampleSignature c.world.storage),
        Outcome.refusal (finalizeRound sampleDeployment (sampleMsg 3 0) data 99 [] statusSuccess
          sampleSignature c.world.storage))) =
      some (.computing, [100], some (.resultNotForThisRound 100 99), none) := by
  decide +kernel

def idsFresh (c : ContractConfig) : Act → Bool
  | .reply (.instruction id) => c.world.log.all fun e =>
      match e.phase with
      | .finished (.instruction id') => decide (id' ≠ id)
      | _ => true
  | _ => true

theorem idsFresh_ok {a : Act} (h : idsFresh c a = true) : FreshIds c a := by
  rintro id rfl e he hid
  have hcheck := List.all_eq_true.mp h e he
  simp [hid] at hcheck

theorem attestation_never_finalizes_sample : ∃ c,
    (machine sampleDeployment).run attestRun sampleStart = some c ∧
    (processAttest sampleEnclave sampleEngine ⟨100, []⟩ attestData).2 =
      buildResult ⟨100, []⟩ attestData (encodeAllocationResult sampleEnclave sampleRound)
        statusSuccess "" ∧
    finalizeRound sampleDeployment (sampleMsg 3 0) (encodeAllocationResult sampleEnclave sampleRound)
        100 [] statusSuccess sampleSignature c.world.storage =
      .error (.resultNotForThisRound 100 (c.world.storage.rounds 0).computeInstructionId) := by
  have hrun : ((machine sampleDeployment).run attestRun sampleStart).map (fun c =>
      ((c.world.storage.rounds 0).status, (c.world.storage.rounds 0).policyCommitment,
        attested c.world.log 0, c.world.storage.teeAddress)) =
      some (.computing, sampleDeployment.keccak [42], [100], 7) := by
    decide
  have hsteps : StepsMeet (machine sampleDeployment) attestRun sampleStart FreshIds :=
    .of_meets (fun _ _ => idsFresh_ok) (by decide)
  obtain ⟨c, hc, hend⟩ := Option.map_eq_some_iff.mp hrun
  simp only [Prod.mk.injEq] at hend
  obtain ⟨hst, hcommitment, hattested, htee⟩ := hend
  have hmem : (100 : Bytes32) ∈ attested c.world.log 0 := by
    rw [hattested]
    exact List.mem_singleton_self _
  obtain ⟨e, he, hcall, hphase⟩ := mem_attested hmem
  have hresult := attestation_never_finalizes sampleDeployment 1 (fun _ => 0) 0 c
    (hsteps.reaches _ List.prefix_rfl c hc) 0 hst e he hcall 100 hphase sampleEnclave rfl rfl
    sampleEngine sampleRound (by simp only [Fin.coe_ofNat_eq_mod, Nat.zero_mod, hcommitment]; rfl)
    [42] 0 computeRound_sample rfl attestData
    (by simp only [Fin.coe_ofNat_eq_mod, Nat.zero_mod, hcommitment]; rfl)
    (by simp only [Fin.coe_ofNat_eq_mod, Nat.zero_mod, hcommitment]; decide)
    [] sampleSignature (sampleMsg 3 0) (by rw [htee]; decide) (by rw [htee]; decide)
  exact ⟨c, hc, hresult⟩

end Sample

end Fidensur
