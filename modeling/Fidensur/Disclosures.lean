import Fidensur.AbiLayout
import Fidensur.EngineRecovery
import Fidensur.Governance

set_option autoImplicit false

/-! What the engine answers to the instructions that the contract sent, and to whom. -/

namespace Fidensur

open NestedCalls CriticalSections ByteWords AbiLayout

section Wire

def discloseRequestArg : Layout := .tuple [.tuple [.word, .word, .word, .word, .bytes]]

def attestRequestArg : Layout := .tuple [.tuple [.word, .word, .word]]

def disclosureResultArgs : Layout := .tuple [.word, .word, .bytes]

def readDiscloseRequest (message : Bytes) : Option DiscloseRequest :=
  match decode message discloseRequestArg 0 with
  | some (.list [.list [.word roundId, .word contractAddr, .word requester, .word policyCommitment,
      .bytes disclosureKey]]) =>
      some ⟨roundId, Fin.ofNat _ contractAddr, Fin.ofNat _ requester, Fin.ofNat _ policyCommitment,
        disclosureKey⟩
  | _ => none

def readAttestRequest (message : Bytes) : Option AttestRequest :=
  match decode message attestRequestArg 0 with
  | some (.list [.list [.word roundId, .word contractAddr, .word policyCommitment]]) =>
      some ⟨roundId, Fin.ofNat _ contractAddr, Fin.ofNat _ policyCommitment⟩
  | _ => none

/-- The requester, the round and the ciphertext of a reply, as the recipient's browser decodes them. -/
def readDisclosureResult (data : Bytes) : Option (Address × ℕ × Bytes) :=
  match decode data disclosureResultArgs 0 with
  | some (.list [.word requester, .word roundId, .bytes ciphertext]) =>
      some (Fin.ofNat _ requester, roundId, ciphertext)
  | _ => none

variable (D : Deployment) (roundId : Uint256) (requester : Address) (policyCommitment : Bytes32)

theorem address_lt (a : Address) : (a : ℕ) < 256 ^ 32 := by
  have := a.isLt
  norm_num at this ⊢
  omega

theorem decode_whole {l : Layout} {v : Value} (h : Fits l v) (hlength : (encode l v).length < 256 ^ 32) :
    decode (encode l v) l 0 = some v := by
  apply decode_encode l v h hlength
  rw [List.drop_zero]

theorem encodeDiscloseMessage_eq (disclosureKey : Bytes) :
    encodeDiscloseMessage D roundId requester policyCommitment disclosureKey =
      encode discloseRequestArg (.list [.list [.word roundId, .word D.self, .word requester,
        .word policyCommitment, .bytes disclosureKey]]) := by
  simp [encodeDiscloseMessage, discloseRequestArg, encode, parts, join, heads, tails, Part.head, padding,
    Layout.dynamic, anyDynamic, abiEncode]

theorem encodeAttestMessage_eq :
    encodeAttestMessage D roundId policyCommitment =
      encode attestRequestArg (.list [.list [.word roundId, .word D.self, .word policyCommitment]]) := by
  simp [encodeAttestMessage, attestRequestArg, encode, parts, join, heads, tails, Layout.dynamic,
    anyDynamic, abiEncode]

theorem encodeDisclosureResult_eq (round : ℤ) (ciphertext : Bytes) :
    encodeDisclosureResult requester round ciphertext =
      encode disclosureResultArgs (.list [.word requester, .word (packUint256 round), .bytes ciphertext]) := by
  simp [encodeDisclosureResult, disclosureResultArgs, encode, parts, join, heads, tails, Part.head, padding,
    Layout.dynamic, abiEncode]

theorem readDiscloseRequest_encode {disclosureKey : Bytes} (h : disclosureKey.length < 2 ^ 64) :
    readDiscloseRequest (encodeDiscloseMessage D roundId requester policyCommitment disclosureKey) =
      some ⟨(roundId : ℕ), D.self, requester, policyCommitment, disclosureKey⟩ := by
  have hfits : Fits discloseRequestArg (.list [.list [.word roundId, .word D.self, .word requester,
      .word policyCommitment, .bytes disclosureKey]]) :=
    ⟨⟨word_lt _, address_lt _, address_lt _, word_lt _, trivial, trivial⟩, trivial⟩
  have hlength : (encodeDiscloseMessage D roundId requester policyCommitment disclosureKey).length < 256 ^ 32 := by
    simp only [encodeDiscloseMessage, abiEncode, List.length_append, length_ofWords, List.length_replicate,
      List.length_cons, List.length_nil]
    norm_num at h ⊢
    omega
  rw [encodeDiscloseMessage_eq] at hlength ⊢
  rw [readDiscloseRequest, decode_whole hfits hlength]
  simp

theorem readAttestRequest_encode :
    readAttestRequest (encodeAttestMessage D roundId policyCommitment) =
      some ⟨(roundId : ℕ), D.self, policyCommitment⟩ := by
  have hfits : Fits attestRequestArg (.list [.list [.word roundId, .word D.self, .word policyCommitment]]) :=
    ⟨⟨word_lt _, address_lt _, word_lt _, trivial⟩, trivial⟩
  have hlength : (encodeAttestMessage D roundId policyCommitment).length < 256 ^ 32 := by
    simp [encodeAttestMessage, abiEncode]
  rw [encodeAttestMessage_eq] at hlength ⊢
  rw [readAttestRequest, decode_whole hfits hlength]
  simp

theorem readDisclosureResult_encode (round : Uint256) {ciphertext : Bytes} (h : ciphertext.length < 2 ^ 64) :
    readDisclosureResult (encodeDisclosureResult requester (round : ℕ) ciphertext) =
      some (requester, (round : ℕ), ciphertext) := by
  have hfits : Fits disclosureResultArgs (.list [.word requester, .word (packUint256 (round : ℕ)),
      .bytes ciphertext]) := ⟨address_lt _, word_lt _, trivial, trivial⟩
  have hlength : (encodeDisclosureResult requester (round : ℕ) ciphertext).length < 256 ^ 32 := by
    simp only [encodeDisclosureResult, abiEncode, List.length_append, length_ofWords, List.length_replicate,
      List.length_cons, List.length_nil]
    norm_num at h ⊢
    omega
  rw [encodeDisclosureResult_eq] at hlength ⊢
  rw [readDisclosureResult, decode_whole hfits hlength]
  simp [packUint256_natCast]

end Wire

section Instructions

def Interaction.instruction : Interaction → Option (Bytes32 × Bytes)
  | .sendInstructions _ params _ => some (params.opCommand, params.message)
  | _ => none

def Entry.sent (e : Entry) : Option (Bytes32 × Bytes) :=
  match e.phase with
  | .started x => x.bind Interaction.instruction
  | _ => none

theorem send_instruction (msg : Msg) (opCommand : Bytes32) (message : Bytes) (teeIds : List Address) :
    (send msg opCommand message teeIds).instruction = some (opCommand, message) := rfl

theorem payOut_instruction (token recipient : Address) (amount : ℕ) :
    (SafeTransfer.payOut token recipient amount).bind Interaction.instruction = none := by
  unfold SafeTransfer.payOut
  split_ifs <;> rfl

def Entry.Began (D : Deployment) (e : Entry) : Prop :=
  ∀ x, e.phase = .started x → ∃ view s, start D e.msg view s e.call = .ok (e.post, x)

variable {D : Deployment} {initialOwner : Address} {balance : Address → ℕ} {now : ℕ}
  {ok : ContractConfig → Act → Prop} {c : ContractConfig} {e : Entry} {message : Bytes}

theorem Reachable.began (h : Reachable D initialOwner balance now ok c) : ∀ e ∈ c.world.log, e.Began D := by
  refine Reaches.invariant (P := fun c => ∀ e ∈ c.world.log, e.Began D) rfl (List.forall_mem_nil _) ?_ h
  intro c act e d _ hp _ he hne hd
  have hother {msg : Msg} {call : Call} {phase : Phase} {post : Storage} (hphase : ∀ x, phase ≠ .started x) :
      Entry.Began D ⟨msg, call, phase, post⟩ := fun x hx => absurd hx (hphase x)
  cases act with
  | call msg call =>
    obtain ⟨s, x, b, hstart, hworld⟩ := machine_call he hd
    rw [hworld]
    apply List.forall_mem_cons.mpr ⟨?_, hp⟩
    intro y hy
    cases hy
    exact ⟨_, _, hstart⟩
  | settle =>
    obtain ⟨w, fs⟩ := c
    cases Stepped.of_machine he hne hd with
    | settled p => exact List.forall_mem_cons.mpr ⟨hother fun _ hx => Phase.noConfusion hx, hp⟩
  | reply reply =>
    obtain ⟨w, fs⟩ := c
    cases Stepped.of_machine he hne hd with
    | replied p => exact List.forall_mem_cons.mpr ⟨hother fun _ hx => Phase.noConfusion hx, hp⟩
  | credit token amount =>
    obtain ⟨w, fs⟩ := c
    cases Stepped.of_machine he hne hd
    exact hp
  | drift token amount =>
    obtain ⟨w, fs⟩ := c
    cases Stepped.of_machine he hne hd
    exact hp
  | tick seconds =>
    obtain ⟨w, fs⟩ := c
    cases Stepped.of_machine he hne hd
    exact hp

structure ComputeSent (D : Deployment) (message : Bytes) (roundId : Uint256) (e : Entry) : Prop where
  call : e.call = .requestCompute roundId message
  sender : e.msg.sender = (e.post.rounds roundId).organization
  commitment : D.keccak message = (e.post.rounds roundId).policyCommitment

structure DisclosureSent (D : Deployment) (message : Bytes) (roundId : Uint256) (disclosureKey : Bytes)
    (e : Entry) : Prop where
  call : e.call = .requestDisclosure roundId disclosureKey
  key : disclosureKey.length = 33 ∨ disclosureKey.length = 65
  message : message = encodeDiscloseMessage D roundId e.msg.sender (e.post.rounds roundId).policyCommitment
    disclosureKey

structure AttestationSent (D : Deployment) (message : Bytes) (roundId : Uint256) (e : Entry) : Prop where
  call : e.call = .requestAttestation roundId
  message : message = encodeAttestMessage D roundId (e.post.rounds roundId).policyCommitment

/-- The registry takes instructions from the contract alone, and each command from one function. -/
theorem Entry.Began.sent {opCommand : Bytes32} (h : e.Began D) (hsent : e.sent = some (opCommand, message)) :
    (opCommand = opCommandCompute ∧ ∃ roundId, ComputeSent D message roundId e) ∨
    (opCommand = opCommandDisclose ∧ ∃ roundId key, DisclosureSent D message roundId key e) ∨
    (opCommand = opCommandAttest ∧ ∃ roundId, AttestationSent D message roundId e) := by
  obtain ⟨msg, call, phase, post⟩ := e
  obtain ⟨x, hphase, hx⟩ : ∃ x, phase = .started x ∧ x.bind Interaction.instruction = some (opCommand, message) := by
    cases phase with
    | started x => exact ⟨x, rfl, hsent⟩
    | settled => cases hsent
    | finished => cases hsent
  obtain ⟨view, s, hstart⟩ : ∃ view s, start D msg view s call = .ok (post, x) := h x hphase
  obtain ⟨_, -, hcall⟩ := bind_ok.mp hstart
  cases Started.of_start hstart with
  | requestCompute roundId ciphertext ho hs hp =>
    rw [Option.bind_some, send_instruction] at hx
    cases hx
    exact .inl ⟨rfl, roundId, rfl, ho, hp⟩
  | requestDisclosure roundId disclosureKey sent hs =>
    simp only [dispatch, requestDisclosure, bind_ok, requireRound_ok, require_ok, pickTee_ok, exists_const,
      pure, Except.pure, Except.ok.injEq, Prod.mk.injEq] at hcall
    obtain ⟨r, ⟨-, rfl⟩, -, hkey, _, -, -, hsend⟩ := hcall
    rw [← hsend, Option.bind_some, send_instruction] at hx
    cases hx
    exact .inr (.inl ⟨rfl, roundId, disclosureKey, rfl, hkey, rfl⟩)
  | requestAttestation roundId hs =>
    rw [Option.bind_some, send_instruction] at hx
    cases hx
    exact .inr (.inr ⟨rfl, roundId, rfl, rfl⟩)
  | fundToken => cases hx
  | configure => cases hx
  | createRound => cases hx
  | fundNative => cases hx
  | submitPolicy => cases hx
  | finalizeRound => cases hx
  | _ => cases (payOut_instruction _ _ _).symm.trans hx

end Instructions

section Replies

def Request.command : Request → Bytes32
  | .compute .. => opCommandCompute
  | .disclose .. => opCommandDisclose
  | .attest .. => opCommandAttest

def Request.message : Request → Bytes
  | .compute _ df _ => df.originalMessage
  | .disclose _ df _ => df.originalMessage
  | .attest _ df => df.originalMessage

def Dispatched (D : Deployment) (log : List Entry) : Set Bytes :=
  {message | ∃ e ∈ log, ∃ roundId, ComputeSent D message roundId e}

/-- Every instruction reaches the handler of its command, once, more often or never. -/
def Relayed (log : List Entry) (q : Request) : Prop := ∃ e ∈ log, e.sent = some (q.command, q.message)

def Tells (E : Enclave) (S : Set Bytes) : Request → Bytes → Prop
  | .compute _ df _, data => ∃ round, Recorded E S (E.keccak df.originalMessage) round ∧
      data = encodeAllocationResult E round
  | .disclose _ df draw, data => ∃ req, discloseRequest E df.originalMessage = .ok req ∧
      Disclosed E S req draw data
  | .attest _ df, data => ∃ req, attestRequest E df.originalMessage = .ok req ∧
      ∃ round, Recorded E S req.policyCommitment round ∧ round.roundId = req.roundId ∧
        data = encodeAllocationResult E round

def Discreet (E : Enclave) (S : Set Bytes) (q : Request) (r : ActionResult) : Prop :=
  (r.status ≠ statusSuccess → r.data = []) ∧ (r.status = statusSuccess → Tells E S q r.data)

variable {E : Enclave} {S : Set Bytes} {engine : Engine}

theorem discreet_failed (q : Request) (action : Action) (df : DataFixed) (err : String) :
    Discreet E S q (buildResult action df [] statusError err) :=
  ⟨fun _ => buildResult_data _ _ _ _ _, fun hst => absurd hst (status_failed _ _ _)⟩

theorem discreet_success {q : Request} {data : Bytes} (action : Action) (df : DataFixed)
    (h : Tells E S q data) : Discreet E S q (buildResult action df data statusSuccess "") :=
  ⟨fun hst => absurd (buildResult_status _ _ _ _ _) hst, fun _ => h⟩

theorem attestFrom_recorded (h : Computed E S engine) {req : AttestRequest} {data : Bytes}
    (hdata : attestFrom E engine req = .ok data) :
    ∃ round, Recorded E S req.policyCommitment round ∧ round.roundId = req.roundId ∧
      data = encodeAllocationResult E round := by
  simp only [attestFrom, lookupRound, bind_ok, require_ok, exists_const, pure, Except.pure,
    Except.ok.injEq] at hdata
  obtain ⟨round, hround, -, rfl⟩ := hdata
  split at hround
  · cases hround
  · next stored hstored =>
    simp only [bind_ok, require_ok, exists_const, Except.ok.injEq] at hround
    obtain ⟨hid, rfl⟩ := hround
    obtain ⟨message, hm, hc, now, hcomputed⟩ := h _ _ hstored
    exact ⟨stored, recorded_of_computeRound hm hc hcomputed, hid, rfl⟩

theorem handler_discreet (hS : Set.InjOn E.keccak S) (q : Request) (hq : Admitted S q) :
    Keeps (Computed E S) Refreshes (Discreet E S q) (handler E q) := by
  cases q with
  | compute action df now =>
    apply keeps_bump
    intro _ _
    cases hround : computeRound E df.originalMessage now with
    | error err => exact keeps_fail (discreet_failed _ _ _ _)
    | ok round =>
      apply Keeps.locked
      · exact fun engine h => (h.store hS hq hround).1
      · exact fun engine h => (h.store hS hq hround).2
      · intro _ _
        apply Keeps.done
        exact discreet_success action df ⟨round, recorded_of_computeRound hq rfl hround, rfl⟩
  | disclose action df draw =>
    apply keeps_bump
    intro _ _
    cases hreq : discloseRequest E df.originalMessage with
    | error err => exact keeps_fail (discreet_failed _ _ _ _)
    | ok req =>
      apply Keeps.locked
      · exact fun engine h => h
      · exact fun engine _ => .refl engine
      · intro engine h
        cases hdata : discloseFrom E engine req draw with
        | error err => exact keeps_fail (discreet_failed _ _ _ _)
        | ok data => exact .done (discreet_success action df ⟨req, hreq, discloseFrom_ok h hdata⟩)
  | attest action df =>
    apply keeps_bump
    intro _ _
    cases hreq : attestRequest E df.originalMessage with
    | error err => exact keeps_fail (discreet_failed _ _ _ _)
    | ok req =>
      apply Keeps.locked
      · exact fun engine h => h
      · exact fun engine _ => .refl engine
      · intro engine h
        cases hdata : attestFrom E engine req with
        | error err => exact keeps_fail (discreet_failed _ _ _ _)
        | ok data => exact .done (discreet_success action df ⟨req, hreq, attestFrom_recorded h hdata⟩)

theorem discloseRequest_ok {message : Bytes} {req : DiscloseRequest} :
    discloseRequest E message = .ok req ↔ E.decodeDisclose message = .ok req ∧
      E.cfg.contractAddressSet = true ∧ req.contractAddr = E.cfg.contractAddress ∧ req.requester ≠ 0 := by
  simp only [discloseRequest, requireServed, bind_ok, mapError_ok, require_ok, exists_const, pure,
    Except.pure, Except.ok.injEq]
  constructor
  · rintro ⟨req', hdecode, ⟨hset, hcontract⟩, hrequester, rfl⟩
    exact ⟨hdecode, hset, hcontract, hrequester⟩
  · rintro ⟨hdecode, hset, hcontract, hrequester⟩
    exact ⟨req, hdecode, ⟨hset, hcontract⟩, hrequester, rfl⟩

theorem attestRequest_ok {message : Bytes} {req : AttestRequest} :
    attestRequest E message = .ok req ↔ E.decodeAttest message = .ok req ∧
      E.cfg.contractAddressSet = true ∧ req.contractAddr = E.cfg.contractAddress := by
  simp only [attestRequest, requireServed, bind_ok, mapError_ok, require_ok, exists_const, pure,
    Except.pure, Except.ok.injEq]
  constructor
  · rintro ⟨req', hdecode, ⟨hset, hcontract⟩, rfl⟩
    exact ⟨hdecode, hset, hcontract⟩
  · rintro ⟨hdecode, hset, hcontract⟩
    exact ⟨req, hdecode, ⟨hset, hcontract⟩, rfl⟩

end Replies

section Privacy

variable {D : Deployment} {E : Enclave} {log : List Entry} {q : Request}

def RowSealed (E : Enclave) (draw : ℕ) (roundId : Uint256) (disclosureKey : Bytes) (sender : Address)
    (round : ComputedRound) (data : Bytes) : Prop :=
  ∃ i row ciphertext, round.allocations[i]? = some row ∧ row.recipient = sender ∧
    (∀ other ∈ round.allocations, other.recipient = sender → other = row) ∧
    encryptToRecipient E draw disclosureKey (E.marshal (round.disclosure E i row)) = .ok ciphertext ∧
    data = encodeDisclosureResult sender (roundId : ℕ) ciphertext ∧
    (ciphertext.length < 2 ^ 64 → readDisclosureResult data = some (sender, (roundId : ℕ), ciphertext))

def Reveals (D : Deployment) (E : Enclave) (log : List Entry) : Request → Bytes → Prop
  | .compute _ df _, data => ∃ e ∈ log, ∃ roundId, ComputeSent D df.originalMessage roundId e ∧
      ∃ round, Recorded E (Dispatched D log) (e.post.rounds roundId).policyCommitment round ∧
        data = encodeAllocationResult E round
  | .disclose _ df draw, data => ∃ e ∈ log, ∃ roundId disclosureKey,
      DisclosureSent D df.originalMessage roundId disclosureKey e ∧ E.cfg.contractAddress = D.self ∧
      ∃ round, Recorded E (Dispatched D log) (e.post.rounds roundId).policyCommitment round ∧
        round.roundId = (roundId : ℕ) ∧ RowSealed E draw roundId disclosureKey e.msg.sender round data
  | .attest _ df, data => ∃ e ∈ log, ∃ roundId, AttestationSent D df.originalMessage roundId e ∧
      E.cfg.contractAddress = D.self ∧
      ∃ round, Recorded E (Dispatched D log) (e.post.rounds roundId).policyCommitment round ∧
        round.roundId = (roundId : ℕ) ∧ data = encodeAllocationResult E round

theorem commands_distinct : opCommandCompute ≠ opCommandDisclose ∧ opCommandCompute ≠ opCommandAttest ∧
    opCommandDisclose ≠ opCommandAttest := by
  decide

def Request.SentBy (D : Deployment) (e : Entry) : Request → Prop
  | .compute _ df _ => ∃ roundId, ComputeSent D df.originalMessage roundId e
  | .disclose _ df _ => ∃ roundId disclosureKey, DisclosureSent D df.originalMessage roundId disclosureKey e
  | .attest _ df => ∃ roundId, AttestationSent D df.originalMessage roundId e

theorem Relayed.sentBy (h : Relayed log q) (hbegan : ∀ e ∈ log, e.Began D) : ∃ e ∈ log, q.SentBy D e := by
  obtain ⟨e, he, hsent⟩ := h
  obtain ⟨hcd, hca, hda⟩ := commands_distinct
  refine ⟨e, he, ?_⟩
  rcases (hbegan e he).sent hsent with ⟨hcommand, hcompute⟩ | ⟨hcommand, hdisclose⟩ | ⟨hcommand, hattest⟩
  · cases q with
    | compute => exact hcompute
    | disclose => exact absurd hcommand.symm hcd
    | attest => exact absurd hcommand.symm hca
  · cases q with
    | compute => exact absurd hcommand hcd
    | disclose => exact hdisclose
    | attest => exact absurd hcommand.symm hda
  · cases q with
    | compute => exact absurd hcommand hca
    | disclose => exact absurd hcommand hda
    | attest => exact hattest

theorem Relayed.admitted (h : Relayed log q) (hbegan : ∀ e ∈ log, e.Began D) : Admitted (Dispatched D log) q := by
  obtain ⟨e, he, hsent⟩ := h.sentBy hbegan
  cases q with
  | compute => exact ⟨e, he, hsent⟩
  | disclose => trivial
  | attest => trivial

theorem Tells.reveals {e : Entry} {data : Bytes} (h : Tells E (Dispatched D log) q data) (he : e ∈ log)
    (hsent : q.SentBy D e) (hkeccak : E.keccak = D.keccak)
    (hdisclose : ∀ message req, readDiscloseRequest message = some req → E.decodeDisclose message = .ok req)
    (hattest : ∀ message req, readAttestRequest message = some req → E.decodeAttest message = .ok req) :
    Reveals D E log q data := by
  cases q with
  | compute action df now =>
    obtain ⟨roundId, hsent⟩ := hsent
    obtain ⟨round, hrecorded, hdata⟩ := h
    rw [hkeccak, hsent.commitment] at hrecorded
    exact ⟨e, he, roundId, hsent, round, hrecorded, hdata⟩
  | disclose action df draw =>
    obtain ⟨roundId, disclosureKey, hsent⟩ := hsent
    obtain ⟨req, hreq, round, hrecorded, hid, i, row, ciphertext, hrow, howner, honly, hcipher, hdata⟩ := h
    obtain ⟨hdecode, -, hcontract, -⟩ := discloseRequest_ok.mp hreq
    have hkey : disclosureKey.length < 2 ^ 64 := by
      have := hsent.key
      omega
    have hread := readDiscloseRequest_encode D roundId e.msg.sender (e.post.rounds roundId).policyCommitment hkey
    rw [← hsent.message] at hread
    obtain rfl := Except.ok.inj ((hdisclose _ _ hread).symm.trans hdecode)
    refine ⟨e, he, roundId, disclosureKey, hsent, hcontract.symm, round, hrecorded, hid, i, row, ciphertext,
      hrow, howner, honly, hcipher, ?_, ?_⟩
    · rw [hdata, hid]
    · intro hlength
      rw [hdata, hid]
      exact readDisclosureResult_encode e.msg.sender roundId hlength
  | attest action df =>
    obtain ⟨roundId, hsent⟩ := hsent
    obtain ⟨req, hreq, round, hrecorded, hid, hdata⟩ := h
    obtain ⟨hdecode, -, hcontract⟩ := attestRequest_ok.mp hreq
    have hread := readAttestRequest_encode D roundId (e.post.rounds roundId).policyCommitment
    rw [← hsent.message] at hread
    obtain rfl := Except.ok.inj ((hattest _ _ hread).symm.trans hdecode)
    exact ⟨e, he, roundId, hsent, hcontract.symm, round, hrecorded, hid, hdata⟩

/-- Whatever the contract's callers do, and in whatever order its instructions are relayed and served,
a failed request says nothing, computations and attestations say the aggregate of a dispatched policy,
and a disclosure says the one row of the address that asked for it on the chain, under its key. -/
theorem disclosures_private (D : Deployment) (initialOwner : Address) (balance : Address → ℕ) (now : ℕ)
    (c : ContractConfig) (h : Reachable D initialOwner balance now (fun _ _ => True) c) (E : Enclave)
    (hkeccak : E.keccak = D.keccak) (hS : Set.InjOn D.keccak (Dispatched D c.world.log))
    (hdisclose : ∀ message req, readDiscloseRequest message = some req → E.decodeDisclose message = .ok req)
    (hattest : ∀ message req, readAttestRequest message = some req → E.decodeAttest message = .ok req)
    (p : Pool Engine Request ActionResult)
    (hp : CriticalSections.Reaches (handler E) (Relayed c.world.log) (.start emptyEngine) p)
    (q : Request) (r : ActionResult) (hr : (q, r) ∈ p.finished) :
    (r.status ≠ statusSuccess → r.data = []) ∧
      (r.status = statusSuccess → Reveals D E c.world.log q r.data) := by
  have hbegan := h.began
  have hadmitted : CriticalSections.Reaches (handler E) (Admitted (Dispatched D c.world.log))
      (.start emptyEngine) p := by
    refine Relation.ReflTransGen.mono ?_ _ _ hp
    intro old new hstep
    cases hstep with
    | arrive p' q hq => exact .arrive _ q (hq.admitted hbegan)
    | advance s finished before after q update next => exact .advance s finished before after q update next
    | finish s finished before after q r => exact .finish s finished before after q r
  have hrelayed : Relayed c.world.log q :=
    admitted_of_reaches hp q (List.mem_append_right _ (List.mem_map_of_mem hr))
  obtain ⟨e, he, hsent⟩ := hrelayed.sentBy hbegan
  rw [← hkeccak] at hS
  obtain ⟨hfailed, htells⟩ := (safe_of_reaches (handler_discreet hS) (computed_empty E _) hadmitted).finished _ hr
  exact ⟨hfailed, fun hst => (htells hst).reveals he hsent hkeccak hdisclose hattest⟩

section Sample

/-- The sample engine, with decoders that follow the layouts. -/
def wiredEnclave : Enclave :=
  { sampleEnclave with
    decodeDisclose := fun message => (readDiscloseRequest message).elim (.error "abi: cannot unmarshal") .ok
    decodeAttest := fun message => (readAttestRequest message).elim (.error "abi: cannot unmarshal") .ok }

def disclosureKey : Bytes := List.replicate 33 2

/-- The second recipient and a stranger ask for their rows. -/
def askingRun : List Act :=
  tableRun.take 7 ++ [.call (sampleMsg 4 0) (.requestDisclosure 0 disclosureKey), .reply (.instruction 100),
    .call (sampleMsg 9 0) (.requestDisclosure 0 disclosureKey), .reply (.instruction 101)]

def askingMessage (requester : Address) : Bytes :=
  encodeDiscloseMessage sampleDeployment 0 requester (sampleDeployment.keccak [42]) disclosureKey

def askedBy (requester : Address) : Request :=
  .disclose ⟨100, []⟩ ⟨opTypeAlloc, opCommandDisclose, askingMessage requester⟩ 0

def servedAll : List Request → Pool Engine Request ActionResult
  | [] => .start emptyEngine
  | q :: qs =>
    let p := servedAll qs
    ⟨((handler wiredEnclave q).run p.shared).1, [], (q, ((handler wiredEnclave q).run p.shared).2) :: p.finished⟩

theorem servedAll_reached {log : List Entry} : ∀ {qs : List Request}, (∀ q ∈ qs, Relayed log q) →
    CriticalSections.Reaches (handler wiredEnclave) (Relayed log) (.start emptyEngine) (servedAll qs)
  | [], _ => .refl
  | q :: qs, h => by
    obtain ⟨hq, hqs⟩ := List.forall_mem_cons.mp h
    apply (servedAll_reached hqs).trans
    apply reaches_run (handler wiredEnclave) hq
    cases qs <;> rfl

def askedRequests : List Request := [askedBy 9, askedBy 4, storeRequest]

def ciphertexts (log : List Entry) : List Bytes :=
  log.filterMap fun e =>
    match e.call with
    | .requestCompute _ ciphertext => some ciphertext
    | _ => none

theorem mem_ciphertexts {message : Bytes} (h : message ∈ Dispatched D log) : message ∈ ciphertexts log := by
  obtain ⟨e, he, roundId, hsent⟩ := h
  refine List.mem_filterMap.mpr ⟨e, he, ?_⟩
  rw [hsent.call]

theorem relayed_of_sent (h : ∀ q ∈ askedRequests, some (q.command, q.message) ∈ log.map Entry.sent) :
    ∀ q ∈ askedRequests, Relayed log q := by
  intro q hq
  exact List.mem_map.mp (h q hq)

theorem disclosures_private_sample : ∃ c, (machine sampleDeployment).run askingRun sampleStart = some c ∧
    ∃ r r', (askedBy 4, r) ∈ (servedAll askedRequests).finished ∧ r.status = statusSuccess ∧
      Reveals sampleDeployment wiredEnclave c.world.log (askedBy 4) r.data ∧
      (askedBy 9, r') ∈ (servedAll askedRequests).finished ∧ r'.status = statusError ∧ r'.data = [] := by
  have hrun : ((machine sampleDeployment).run askingRun sampleStart).map (fun c =>
      (ciphertexts c.world.log, askedRequests.all fun q => some (q.command, q.message) ∈ c.world.log.map Entry.sent)) =
      some ([[42], [42]], true) := by
    decide +kernel
  have hsteps : StepsMeet (machine sampleDeployment) askingRun sampleStart (fun _ _ => True) :=
    fun _ _ _ _ _ => trivial
  obtain ⟨c, hc, hend⟩ := Option.map_eq_some_iff.mp hrun
  obtain ⟨hciphertexts, hsent⟩ := Prod.mk.inj hend
  have hrelayed : ∀ q ∈ askedRequests, Relayed c.world.log q := by
    apply relayed_of_sent
    intro q hq
    exact of_decide_eq_true (List.all_eq_true.mp hsent q hq)
  have hS : Set.InjOn sampleDeployment.keccak (Dispatched sampleDeployment c.world.log) := by
    have honly : ∀ m ∈ Dispatched sampleDeployment c.world.log, m = [42] := by
      intro m hm
      have hmem := mem_ciphertexts hm
      rw [hciphertexts] at hmem
      simpa using hmem
    intro a ha b hb _
    rw [honly a ha, honly b hb]
  have hdecoded {α : Type} {x : Option α} {y : α} (h : x = some y) :
      x.elim (.error "abi: cannot unmarshal") Except.ok = .ok y := by
    rw [h]
    rfl
  have hprivate := disclosures_private sampleDeployment 1 (fun _ => 0) 0 c
    (hsteps.reaches _ List.prefix_rfl c hc) wiredEnclave rfl hS (fun _ _ => hdecoded) (fun _ _ => hdecoded)
    (servedAll askedRequests) (servedAll_reached hrelayed)
  let answer := ((handler wiredEnclave (askedBy 4)).run (servedAll [storeRequest]).shared).2
  let refusal := ((handler wiredEnclave (askedBy 9)).run (servedAll [askedBy 4, storeRequest]).shared).2
  have hanswer : (askedBy 4, answer) ∈ (servedAll askedRequests).finished :=
    List.mem_cons_of_mem _ List.mem_cons_self
  have hrefusal : (askedBy 9, refusal) ∈ (servedAll askedRequests).finished := List.mem_cons_self
  have hsuccess : answer.status = statusSuccess := by decide +kernel
  have hfailure : refusal.status = statusError := by decide +kernel
  refine ⟨c, hc, answer, refusal, hanswer, hsuccess, (hprivate _ _ hanswer).2 hsuccess, hrefusal, hfailure, ?_⟩
  apply (hprivate _ _ hrefusal).1
  rw [hfailure]
  decide

end Sample

end Privacy

end Fidensur
