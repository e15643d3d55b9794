import Fidensur.Ecies
import Fidensur.HonestPath
import Fidensur.PolicyTransfer

set_option autoImplicit false

/-! From the policy in the organization's browser to the dispatch of its ciphertext. -/

namespace Fidensur.BrowserPolicy

open NestedCalls ByteWords ByteView DigitText HexText Ecies

variable {keccak : Keccak}

section Definitions

/-- A point as the node reports it, by two hexadecimal coordinates. -/
structure TeePublicKey where
  x : Text
  y : Text

/-- `v.slice(2).padStart(64, "0")`. -/
def coord (v : Text) : Text := (v.drop 2).leftpad 64 '0'

def encodeTeePublicKey (key : TeePublicKey) : Except String Text :=
  if (coord key.x).length ≠ 64 ∨ (coord key.y).length ≠ 64 then
    .error ("TEE public key coordinates are not 32 bytes: x=" ++ String.ofList key.x ++ " y=" ++
      String.ofList key.y)
  else .ok ("0x04".toList ++ coord key.x ++ coord key.y)

structure SealedPolicy where
  ciphertext : Text
  commitment : Text

/-- The ephemeral key and the iv are what the random generators returned. -/
def sealPolicy (V : Viem keccak) (C : PolicyCodec keccak) (crypto : Crypto) (ephemeralPrivate iv : Bytes)
    (policy : Policy) (extensionPubKey : Text) : Except String SealedPolicy := do
  let validation := validatePolicy policy
  if validation.ok = false then
    .error ("invalid policy:\n  - " ++ "\n  - ".intercalate validation.errors)
  else
    let encoded ← encodePolicy C policy
    let plaintext ← V.hexToBytes encoded
    let recipient ← V.hexToBytes extensionPubKey
    let ciphertextBytes ← eciesEncrypt crypto ephemeralPrivate iv (.ofBytes plaintext) (.ofBytes recipient)
    let ciphertext := V.bytesToHex ciphertextBytes.bytes
    let commitment ← V.keccak256 ciphertext
    return ⟨ciphertext, commitment⟩

/-- The text of a coordinate, in which leading zero digits may be missing. -/
def Spells (v : Text) (b : Bytes) : Prop :=
  b.length = 32 ∧ ∃ n digits, v = '0' :: 'x' :: digits ∧
    b.flatMap (fun x => hexDigits 2 x.toNat) = List.replicate n '0' ++ digits

/-- The node reports the point of its private key and opens what is sealed for that point. -/
structure Node (E : Enclave) (crypto : Crypto) (isPrivateKey : Bytes → Prop) (privateKey : View)
    (key : TeePublicKey) : Prop where
  standard : crypto.Standard isPrivateKey
  isKey : isPrivateKey privateKey.bytes
  reports : ∃ x y, crypto.getPublicKey privateKey.bytes false = .ok (0x04 :: (x ++ y)) ∧ Spells key.x x ∧
    Spells key.y y
  opens : ∀ publicKey plaintext c, crypto.getPublicKey privateKey.bytes false = .ok publicKey →
    Sealed crypto isPrivateKey publicKey plaintext c → E.nodeDecrypt c = .ok plaintext

/-- The engine decodes with the layout the browser knows, and nothing from no bytes at all. -/
structure Decodes (E : Enclave) (C : PolicyCodec keccak) : Prop where
  decodes : E.decodePolicy = C.decodeTo policyArg
  blank : ∀ p, C.decodeTo policyArg [] ≠ .ok p

end Definitions

section Keys

theorem coord_spells {v : Text} {b : Bytes} (h : Spells v b) :
    coord v = b.flatMap (fun x => hexDigits 2 x.toNat) := by
  obtain ⟨hb, n, digits, rfl, hdigits⟩ := h
  have hlength : n + digits.length = 64 := by
    have h64 := congrArg List.length hdigits
    rw [flatMap_hexDigits, length_hexDigits, hb, List.length_append, List.length_replicate] at h64
    exact h64.symm
  have hn : 64 - digits.length = n := by omega
  rw [hdigits, coord, List.drop_succ_cons, List.drop_succ_cons, List.drop_zero, List.leftpad, hn]

theorem encodeTeePublicKey_spells {key : TeePublicKey} {x y : Bytes} (hx : Spells key.x x)
    (hy : Spells key.y y) : encodeTeePublicKey key = .ok (ofBytes (0x04 :: (x ++ y))) := by
  have hlength {v : Text} {b : Bytes} (h : Spells v b) : (coord v).length = 64 := by
    rw [coord_spells h, flatMap_hexDigits, length_hexDigits, h.1]
  have hfour : hexDigits 2 (0x04 : UInt8).toNat = ['0', '4'] := by decide
  have hne : ¬ ((coord key.x).length ≠ 64 ∨ (coord key.y).length ≠ 64) := by
    rw [hlength hx, hlength hy]
    simp
  rw [encodeTeePublicKey, if_neg hne, coord_spells hx, coord_spells hy, ofBytes, List.flatMap_cons, hfour,
    List.flatMap_append, List.append_assoc]
  rfl

end Keys

section Sealing

variable {E : Enclave} {crypto : Crypto} {isPrivateKey : Bytes → Prop} {privateKey : View}
  {key : TeePublicKey} {ephemeralPrivate iv : Bytes}

theorem length_of_set {out filled : Bytes} {source : View} {offset : ℕ}
    (h : ByteView.set out source offset = .ok filled) : filled.length = out.length := by
  unfold ByteView.set at h
  split_ifs at h with hle
  obtain rfl := Except.ok.inj h
  simp only [List.length_append, List.length_take, List.length_drop, View.length_bytes]
  omega

theorem length_of_joinCiphertext {ephemeralPublic em tag : View} {out : Bytes}
    (h : joinCiphertext ephemeralPublic em tag = .ok out) : out.length = pubkeyLen + em.length + tagLen := by
  simp only [joinCiphertext, bind_ok] at h
  obtain ⟨first, hfirst, second, hsecond, hlast⟩ := h
  rw [length_of_set hlast, length_of_set hsecond, length_of_set hfirst, ByteView.length_zeros]

theorem length_of_eciesEncrypt {ephemeralPrivate iv : Bytes} {plaintext key c : View}
    (h : eciesEncrypt crypto ephemeralPrivate iv plaintext key = .ok c) : 32 < c.bytes.length := by
  simp only [eciesEncrypt, bind_ok, pure, Except.pure, Except.ok.injEq] at h
  obtain ⟨pub, -, ephemeralPublic, -, keys, -, encrypted, -, em, -, out, hout, rfl⟩ := h
  rw [View.bytes_ofBytes, length_of_joinCiphertext hout]
  simp only [pubkeyLen, tagLen]
  omega

/-- What the browser seals for the reported key is opened by the node, and the engine reads the policy
from it. -/
theorem sealPolicy_ok (hnode : Node E crypto isPrivateKey privateKey key) {V : Viem keccak}
    {C : PolicyCodec keccak} (hdecode : Decodes E C) (he : isPrivateKey ephemeralPrivate)
    (hiv : iv.length = ivLen) {policy : Policy} {t : PolicyTerms}
    (hd : policy.Denotes keccak t) (hok : (validatePolicy policy).ok = true) :
    ∃ c, (encodeTeePublicKey key >>= sealPolicy V C crypto ephemeralPrivate iv policy) =
        .ok ⟨ofBytes c, wordText (keccak c)⟩ ∧ c ≠ [] ∧ E.Opens c t.policy := by
  have hmode : t.mode < 256 := by
    have hrules := ((validatePolicy_ok hd).mp hok).mode
    cases hrules <;> omega
  obtain ⟨b, hencode, hread⟩ := C.decode_encode hd hmode
  obtain ⟨x, y, hpub, hx, hy⟩ := hnode.reports
  have hrecipient : crypto.getPublicKey privateKey.bytes false =
      .ok (View.ofBytes (0x04 :: (x ++ y))).bytes := by
    rw [View.bytes_ofBytes, hpub]
  obtain ⟨ciphertext, hseal, hsealed⟩ :=
    eciesEncrypt_sealed hnode.standard he hiv hnode.isKey hrecipient hpub (.ofBytes b)
  rw [View.bytes_ofBytes] at hsealed
  have hne : ciphertext.bytes ≠ [] := by
    have hlong := length_of_eciesEncrypt hseal
    rintro hnil
    rw [hnil] at hlong
    cases hlong
  refine ⟨ciphertext.bytes, ?_, hne, b, ?_, ?_⟩
  · have hencode' : encodePolicy C policy = .ok (ofBytes b) := hencode
    rw [encodeTeePublicKey_spells hx hy]
    change sealPolicy V C crypto ephemeralPrivate iv policy _ = _
    rw [sealPolicy]
    dsimp only
    rw [if_neg (by simp [hok]), hencode', ok_bind, V.hexToBytes_ofBytes, ok_bind, V.hexToBytes_ofBytes, ok_bind,
      hseal, ok_bind, V.bytesToHex_eq, V.keccak256_ofBytes, ok_bind]
    rfl
  · have hplain : b ≠ [] := by
      rintro rfl
      exact hdecode.blank _ hread
    simp only [decryptViaNode, bind_ok, require_ok, exists_const]
    exact ⟨hne, _, hnode.opens _ _ _ hpub hsealed, hplain, rfl⟩
  · rw [hdecode.decodes]
    exact hread

end Sealing

section Commitment

variable {D : Deployment} {E : Enclave} {S : Set Bytes} {msg : Msg} {view : Address → ℕ} {s s' : Storage}
  {call : Call} {x : Option Interaction} {w : World} {c : ContractConfig} {initialOwner : Address}
  {balance : Address → ℕ} {now : ℕ} {roundId : Uint256} {commitment : Bytes32}

theorem started_commitment (h : Started D msg view s call s' x) (id : ℕ) (hst : (s.rounds id).status ≠ .opened) :
    (s'.rounds id).policyCommitment = (s.rounds id).policyCommitment := by
  have hupdate {i : ℕ} {r : Round} (hr : s'.rounds = Function.update s.rounds i r)
      (hsame : r.policyCommitment = (s.rounds i).policyCommitment) :
      (s'.rounds id).policyCommitment = (s.rounds id).policyCommitment := by
    rw [hr]
    by_cases hid : id = i
    · rw [hid, Function.update_self, hsame]
    · rw [Function.update_of_ne hid]
  cases h with
  | submitPolicy i _ hopen =>
    have hid : id ≠ i := by
      rintro rfl
      exact hst hopen
    rw [Storage.setRound_rounds, Function.update_of_ne hid]
  | createRound => exact hupdate rfl rfl
  | fundNative => exact hupdate rfl rfl
  | finalizeRound => exact hupdate rfl rfl
  | claim => exact hupdate rfl rfl
  | closeRound => exact hupdate rfl rfl
  | cancelRound => exact hupdate rfl rfl
  | _ => rfl

theorem finished_commitment {y : Interaction} {reply : Reply} (h : Finished msg s y reply call s') (id : ℕ) :
    (s'.rounds id).policyCommitment = (s.rounds id).policyCommitment := by
  have hupdate {i : ℕ} {r : Round} (hr : s'.rounds = Function.update s.rounds i r)
      (hsame : r.policyCommitment = (s.rounds i).policyCommitment) :
      (s'.rounds id).policyCommitment = (s.rounds id).policyCommitment := by
    rw [hr]
    by_cases hid : id = i
    · rw [hid, Function.update_self, hsame]
    · rw [Function.update_of_ne hid]
  cases h with
  | fund => exact hupdate rfl rfl
  | requestCompute => exact hupdate rfl rfl
  | _ => rfl

/-- A round whose policy is fixed: what stays as it is until the round ends. -/
structure Fixed (roundId : Uint256) (commitment : Bytes32) (organization : Address) (r : Round) : Prop where
  past : r.status ≠ .none ∧ r.status ≠ .opened
  commitment : r.policyCommitment = commitment
  organization : r.organization = organization

theorem Fixed.evolves {organization : Address} {r r' : Round} (h : Fixed roundId commitment organization r)
    (he : r.Evolves r') (hc : r'.policyCommitment = r.policyCommitment) :
    Fixed roundId commitment organization r' := by
  obtain ⟨⟨hnone, hopen⟩, hcommitment, horganization⟩ := h
  refine ⟨?_, hc.trans hcommitment, (he.organization hnone).trans horganization⟩
  have hmove := he.status
  generalize r.status = status at hmove hnone hopen
  generalize r'.status = status' at hmove ⊢
  cases hmove with
  | stay => exact ⟨hnone, hopen⟩
  | create => exact absurd rfl hnone
  | commit => exact absurd rfl hopen
  | cancelOpened => exact absurd rfl hopen
  | _ => exact ⟨RoundStatus.noConfusion, RoundStatus.noConfusion⟩

theorem fixed_of_reaches {organization : Address}
    (h : Reachable D initialOwner balance now (Honest D E S) ⟨w, []⟩)
    (hfixed : Fixed roundId commitment organization (w.storage.rounds roundId))
    (hc : Reaches (machine D) (Honest D E S) ⟨w, []⟩ c) :
    Fixed roundId commitment organization (c.world.storage.rounds roundId) := by
  refine Reaches.invariant (P := fun c =>
    Fixed roundId commitment organization (c.world.storage.rounds roundId)) rfl hfixed ?_ hc
  intro c a e d hreach hp ha he hne hd
  have hcoherent := Reachable.honest_coherent (h.trans hreach)
  cases Stepped.of_machine he hne hd with
  | done msg call ht hself hst =>
    exact hp.evolves (hst.evolves hcoherent.shape roundId) (started_commitment hst _ hp.past.2)
  | pending msg call ht hself hst =>
    exact hp.evolves (hst.evolves hcoherent.shape roundId) (started_commitment hst _ hp.past.2)
  | replied p reply hacc hf =>
    have hdispatch := hcoherent.dispatchable (Reachable.honest_fresh (h.trans hreach)) hf
    exact hp.evolves (hf.evolves hdispatch roundId) (finished_commitment hf _)
  | _ => exact hp

end Commitment

section Dispatch

/-- Dispatching `c` in a state of the chain: no other bytes are taken, and the round then waits for the
engine's answer to the sealed policy if the engine accepts it and the round can pay. -/
structure Dispatches (D : Deployment) (E : Enclave) (S : Set Bytes) (w : World) (roundId : Uint256)
    (t : PolicyTerms) (c : Bytes) (request : Msg) : Prop where
  only : ∀ c' ∈ S, c' ≠ c → (machine D).next (.call request (.requestCompute roundId c')) ⟨w, []⟩ = none
  waits : ∀ id, ∃ w', Reaches (machine D) (Honest D E S) ⟨w, []⟩ ⟨w', []⟩ ∧
    (w'.storage.rounds roundId).status = .computing ∧ (w'.storage.rounds roundId).computeInstructionId = id ∧
    ∀ table, AwaitsResult D E S w' roundId c t.policy table ↔ ¬ t.LongBands ∧
      evaluate t.policy = .ok table ∧ sumAllocations table ≤ (w.storage.rounds roundId).funded

variable {D : Deployment} {E : Enclave} {S : Set Bytes} {msg : Msg} {s : Storage} {w : World}
  {initialOwner : Address} {balance : Address → ℕ} {now : ℕ} {roundId : Uint256} {c : Bytes}
  {t : PolicyTerms} {organization : Address}

theorem submitPolicy_ok {commitment : Bytes32} (hst : (s.rounds roundId).status = .opened)
    (ho : msg.sender = (s.rounds roundId).organization) (hne : commitment ≠ 0)
    (hfunded : (s.rounds roundId).funded ≠ 0) :
    submitPolicy msg roundId commitment s = .ok (s.setRound roundId { s.rounds roundId with
      policyCommitment := commitment, status := .committed }, none) := by
  simp only [submitPolicy, bind_ok, requireRound_ok, require_ok, exists_const, pure, Except.pure]
  exact ⟨_, ⟨by simp [hst], rfl⟩, hst, ho, hne, hfunded, rfl⟩

theorem requestCompute_sent (ho : msg.sender = (s.rounds roundId).organization) (hne : c ≠ [])
    (hst : (s.rounds roundId).status ≠ .none)
    (hdispatch : requireDispatchable msg roundId (s.rounds roundId) = .ok ())
    (hp : D.keccak c = (s.rounds roundId).policyCommitment) (hext : s.extensionId ≠ 0)
    (htees : msg.registry.randomTeeIds ≠ []) :
    requestCompute D msg roundId c s =
      .ok (s, some (send msg opCommandCompute c msg.registry.randomTeeIds)) := by
  simp only [requestCompute, bind_ok, requireRound_ok, require_ok, pickTee_ok, exists_const, pure, Except.pure]
  exact ⟨_, ⟨hst, rfl⟩, ho, hne, (), hdispatch, hp, _, ⟨hext, htees, rfl⟩, rfl⟩

theorem requestCompute_refused (hp : D.keccak c ≠ (w.storage.rounds roundId).policyCommitment) :
    (machine D).next (.call msg (.requestCompute roundId c)) ⟨w, []⟩ = none := by
  have hstart : ∀ out, start D msg (msg.received w.balance) w.storage (.requestCompute roundId c) ≠
      .ok out := by
    rintro ⟨s', x⟩ hok
    cases Started.of_start hok with
    | requestCompute _ _ _ _ hkeccak => exact hp hkeccak
    | configure _ _ _ _ _ hc => cases hc
  cases hs : start D msg (msg.received w.balance) w.storage (.requestCompute roundId c) with
  | ok out => exact absurd hs (hstart out)
  | error e => simp [System.next, machine, hs]

theorem honest_call {call : Call} (hf : call.isFinalization = false) (hc : call.isClaim = false) :
    Honest D E S ⟨w, []⟩ (.call msg call) := by
  constructor
  · exact fun _ _ _ => rfl
  · exact tokensExact_call msg _
  · rintro _ _ _ _ _ _ ⟨⟩
    cases hf
  · rintro _ _ _ _ _ ⟨⟩
    cases hc

theorem awaitsResult_iff (hcfg : E.cfg.contractAddressSet = true) (hserves : E.cfg.contractAddress = D.self)
    (ht : t.contractAddr = D.self) (hid : t.roundId = roundId) (hrules : t.Rules) (hopens : E.Opens c t.policy)
    (hhashed : AnswerHashedIn E S c) (hst : (w.storage.rounds roundId).status = .computing)
    (hc : D.keccak c = (w.storage.rounds roundId).policyCommitment) (table : List Allocation) :
    AwaitsResult D E S w roundId c t.policy table ↔ ¬ t.LongBands ∧ evaluate t.policy = .ok table ∧
      sumAllocations table ≤ (w.storage.rounds roundId).funded := by
  have hmode : t.mode < 256 := by
    have hmode := hrules.mode
    cases hmode <;> omega
  have hvalid : validate E.cfg t.policy = .ok () ↔ ¬ t.LongBands := by
    rw [validate_policy hcfg (ht.trans hserves.symm) hmode]
    exact and_iff_right hrules
  constructor
  · intro hawaits
    exact ⟨hvalid.mp hawaits.valid, hawaits.evaluated, hawaits.funds⟩
  · rintro ⟨hshort, htable, hfunds⟩
    refine ⟨hst, hc, hopens, ht, ?_, hvalid.mpr hshort, htable, hfunds, hhashed⟩
    rw [← hid]
    rfl

theorem dispatches (hS : Set.InjOn D.keccak S) (hcfg : E.cfg.contractAddressSet = true)
    (hserves : E.cfg.contractAddress = D.self) (ht : t.contractAddr = D.self) (hid : t.roundId = roundId)
    (hrules : t.Rules) (hopens : E.Opens c t.policy) (hne : c ≠ []) (hhashed : AnswerHashedIn E S c)
    (h : Reachable D initialOwner balance now (Honest D E S) ⟨w, []⟩)
    (hfixed : Fixed roundId (D.keccak c) organization (w.storage.rounds roundId)) {request : Msg}
    (hsender : request.sender = organization) (hnow : request.timestamp = w.now)
    (htees : request.registry.randomTeeIds ≠ []) (hext : w.storage.extensionId ≠ 0)
    (hdispatch : requireDispatchable request roundId (w.storage.rounds roundId) = .ok ()) :
    Dispatches D E S w roundId t c request := by
  have hself : request.sender ≠ D.self := by
    rw [hsender, ← hfixed.organization]
    exact (h.anchored.chartered.of_created hfixed.past.1).organization
  have hstart : start D request (request.received w.balance) w.storage (.requestCompute roundId c) =
      .ok (w.storage, some (send request opCommandCompute c request.registry.randomTeeIds)) := by
    refine bind_ok.mpr ⟨(), require_ok.mpr (.inl rfl), ?_⟩
    exact requestCompute_sent (hsender.trans hfixed.organization.symm) hne hfixed.past.1 hdispatch
      hfixed.commitment.symm hext htees
  constructor
  · intro c' hc' hother
    apply requestCompute_refused
    intro hsame
    rw [hfixed.commitment] at hsame
    exact hother (hS hc' hhashed.1 hsame)
  · intro id
    obtain ⟨w', hreach, hstorage, -, -⟩ := reaches_dispatch (Honest D E S) id (honest_call rfl rfl)
      (fun c f hstack _ hs _ => honest_reply hstack hs) hnow hself hstart
    have hround : w'.storage.rounds roundId = { w.storage.rounds roundId with
        computeInstructionId := id
        computeRequestedAt := blockTimestamp48 request
        status := .computing } := by
      rw [hstorage, recordDispatch, Storage.setRound_rounds, Function.update_self]
    refine ⟨w', hreach, by rw [hround], by rw [hround], fun table => ?_⟩
    rw [awaitsResult_iff hcfg hserves ht hid hrules hopens hhashed (by rw [hround])
      (by rw [hround, hfixed.commitment])]
    simp only [hround]

theorem processCompute_success_iff (hcfg : E.cfg.contractAddressSet = true)
    (hserves : t.contractAddr = E.cfg.contractAddress) (hrules : t.Rules) (hopens : E.Opens c t.policy)
    (engine : Engine) (action : Action) {df : DataFixed} (hdf : df.originalMessage = c) (time : ℤ) :
    (processCompute E engine action df time).2.status = statusSuccess ↔ ¬ t.LongBands ∧
      ∃ table, evaluate t.policy = .ok table := by
  have hmode : t.mode < 256 := by
    have hmode := hrules.mode
    cases hmode <;> omega
  have hvalid : validate E.cfg t.policy = .ok () ↔ ¬ t.LongBands := by
    rw [validate_policy hcfg hserves hmode]
    exact and_iff_right hrules
  subst hdf
  constructor
  · intro hstatus
    simp only [processCompute] at hstatus
    cases hround : computeRound E df.originalMessage time with
    | error err =>
      rw [hround] at hstatus
      cases hstatus
    | ok round =>
      obtain ⟨p, table, tree, ⟨plaintext', hplain', hp'⟩, hvalid', htable, -⟩ := computeRound_ok.mp hround
      obtain ⟨plaintext, hplain, hp⟩ := hopens
      obtain rfl := Except.ok.inj (hplain.symm.trans hplain')
      obtain rfl := Except.ok.inj (hp.symm.trans hp')
      exact ⟨hvalid.mp hvalid', table, htable⟩
  · rintro ⟨hshort, table, htable⟩
    obtain ⟨tree, -, hround⟩ : ∃ tree, _ ∧ computeRound E df.originalMessage time = .ok (.build _ t.policy table tree time) :=
      computeRound_of_evaluate hopens (hvalid.mpr hshort) htable
    simp only [processCompute, hround, buildResult_status]

end Dispatch

/-- A policy that the browser passes, sealed for the key the node reports, is what the engine opens; its
commitment is accepted, and from then on the round takes its ciphertext and nothing else, however
late and however often it is dispatched. -/
theorem sealed_policy_dispatched (D : Deployment) (E : Enclave) (S : Set Bytes) (hS : Set.InjOn D.keccak S)
    (hnonzero : ∀ b ∈ S, D.keccak b ≠ 0) (V : Viem D.keccak) (C : PolicyCodec D.keccak)
    (hdecode : Decodes E C) (hcfg : E.cfg.contractAddressSet = true)
    (hserves : E.cfg.contractAddress = D.self) (crypto : Crypto) (isPrivateKey : Bytes → Prop)
    (privateKey : View) (key : TeePublicKey) (hnode : Node E crypto isPrivateKey privateKey key)
    (ephemeralPrivate iv : Bytes) (he : isPrivateKey ephemeralPrivate) (hiv : iv.length = ivLen)
    (initialOwner : Address) (balance : Address → ℕ) (now : ℕ) (w : World)
    (h : Reachable D initialOwner balance now (Honest D E S) ⟨w, []⟩) (roundId : Uint256)
    (hopen : (w.storage.rounds roundId).status = .opened) (hfunded : (w.storage.rounds roundId).funded ≠ 0)
    (policy : Policy) (t : PolicyTerms) (hd : policy.Denotes D.keccak t)
    (hok : (validatePolicy policy).ok = true) (ht : t.contractAddr = D.self) (hid : t.roundId = roundId)
    (submit : Msg) (hsender : submit.sender = (w.storage.rounds roundId).organization)
    (hvalue : submit.value = 0) (htime : submit.timestamp = w.now) :
    ∃ c, (encodeTeePublicKey key >>= sealPolicy V C crypto ephemeralPrivate iv policy) =
        .ok ⟨ofBytes c, wordText (D.keccak c)⟩ ∧
      (∀ engine action df time, df.originalMessage = c →
        ((processCompute E engine action df time).2.status = statusSuccess ↔ ¬ t.LongBands ∧
          ∃ table, evaluate t.policy = .ok table)) ∧
      (AnswerHashedIn E S c → ∃ w₁,
        (machine D).next (.call submit (.submitPolicy roundId (D.keccak c))) ⟨w, []⟩ = some ⟨w₁, []⟩ ∧
        ∀ w₂, Reaches (machine D) (Honest D E S) ⟨w₁, []⟩ ⟨w₂, []⟩ → ∀ request : Msg,
          request.sender = submit.sender → request.timestamp = w₂.now →
          request.registry.randomTeeIds ≠ [] → w₂.storage.extensionId ≠ 0 →
          requireDispatchable request roundId (w₂.storage.rounds roundId) = .ok () →
          Dispatches D E S w₂ roundId t c request) := by
  have hrules : t.Rules := (validatePolicy_ok hd).mp hok
  obtain ⟨c, hseal, hne, hopens⟩ := sealPolicy_ok (V := V) hnode hdecode he hiv hd hok
  refine ⟨c, hseal, ?_, ?_⟩
  · intro engine action df time hdf
    exact processCompute_success_iff hcfg (ht.trans hserves.symm) hrules hopens engine action hdf time
  · intro hhashed
    have hself : submit.sender ≠ D.self := by
      have hcreated : (w.storage.rounds roundId).status ≠ .none := by simp [hopen]
      rw [hsender]
      exact (h.anchored.chartered.of_created hcreated).organization
    have hstart : start D submit (submit.received w.balance) w.storage
        (.submitPolicy roundId (D.keccak c)) = .ok _ :=
      bind_ok.mpr ⟨(), require_ok.mpr (.inr hvalue),
        submitPolicy_ok hopen hsender (hnonzero c hhashed.1) hfunded⟩
    have hnext := next_done htime hself hstart
    refine ⟨_, hnext, fun w₂ hreach request hrequest hnow htees hext hdispatch => ?_⟩
    have h₁ := h.tail (honest_call rfl rfl) hnext
    have hfixed : Fixed roundId (D.keccak c) submit.sender _ := fixed_of_reaches h₁ ?_ hreach
    · exact dispatches hS hcfg hserves ht hid hrules hopens hne hhashed (h₁.trans hreach) hfixed hrequest hnow
        htees hext hdispatch
    · simp only [World.record, Storage.setRound_rounds, Function.update_self]
      exact ⟨⟨RoundStatus.noConfusion, RoundStatus.noConfusion⟩, rfl, hsender.symm⟩

section Sample

def sealingEnclave : Enclave :=
  { Fidensur.sampleEnclave with
    decodePolicy := decodePolicy
    nodeDecrypt := fun b => (eciesDecrypt sampleCrypto (.ofBytes b) (.ofBytes one)).map View.bytes }

def reportedKey : TeePublicKey := ⟨ofBytes baseX, ofBytes baseY⟩

def sealedTerms : PolicyTerms :=
  { tieredTerms 1 with contractAddr := Fidensur.sampleDeployment.self, roundId := 0, totalBudget := 10 }

def draftPolicy : Policy :=
  { tieredPolicy 1 with
    contractAddr := addressText Fidensur.sampleDeployment.self, roundId := 0, totalBudget := 10 }

theorem draftPolicy_denotes : draftPolicy.Denotes Fidensur.sampleDeployment.keccak sealedTerms where
  contractAddr := .address _
  roundId := rfl
  organization := .address 2
  mode := rfl
  totalBudget := rfl
  minAlloc := rfl
  maxAlloc := rfl
  bands := rfl
  bandCount := by decide
  salt := rfl
  entries := .cons ⟨.address 3, rfl, rfl⟩ .nil
  entryCount := by decide

def sealing : Except String SealedPolicy :=
  encodeTeePublicKey reportedKey >>= sealPolicy (.standard Fidensur.sampleDeployment.keccak)
    (.standard Fidensur.sampleDeployment.keccak) sampleCrypto one (zeros 16) draftPolicy

def sealedBytes : Bytes := (sealing.toOption.bind fun sealed => toBytes sealed.ciphertext).getD []

def sealedTable : List Allocation := [⟨0, 3, 7⟩]

def sealedTree : List (List Bytes32) :=
  (MerkleTree.buildMerkleTree sealingEnclave.keccak (leavesOf sealingEnclave.keccak 0 sealedTable)).getD []

def sealedHashed : List Bytes :=
  sealedBytes :: MerkleTree.preimages sealingEnclave.keccak 0 sealedTable sealedTree

theorem spells_ofBytes {b : Bytes} (h : b.length = 32) : Spells (ofBytes b) b :=
  ⟨h, 0, _, rfl, rfl⟩

theorem reportedKey_node : Node sealingEnclave sampleCrypto (· = one) (.ofBytes one) reportedKey where
  standard := sampleCrypto_standard
  isKey := View.bytes_ofBytes one
  reports := ⟨baseX, baseY, rfl, spells_ofBytes (length_ofNat _ _), spells_ofBytes (length_ofNat _ _)⟩
  opens publicKey plaintext c hpub h := by
    have hsame : sealingEnclave.nodeDecrypt c =
        (eciesDecrypt sampleCrypto (.ofBytes c) (.ofBytes one)).map View.bytes := rfl
    rw [← View.bytes_ofBytes c] at h
    obtain ⟨opened, hopened, rfl⟩ := eciesDecrypt_sealed sampleCrypto_standard (View.bytes_ofBytes one) hpub h
    rw [hsame, hopened]
    rfl

theorem decodes_standard : Decodes sealingEnclave (.standard Fidensur.sampleDeployment.keccak) where
  decodes := rfl
  blank p h := by
    have hshort : decodePolicy [] = .error "abi: cannot marshal in to go slice" := rfl
    cases hshort.symm.trans h

/-- The acts that set a round up: calls from outside that neither claim nor finalize. -/
def setsUp (c : ContractConfig) : Act → Bool
  | .call _ call => c.stack.isEmpty && !call.isFinalization && !call.isClaim
  | _ => false

theorem honest_setUp {S : Set Bytes} {c : ContractConfig} {a : Act} (h : setsUp c a = true) :
    Honest Fidensur.sampleDeployment sealingEnclave S c a := by
  cases a with
  | call msg call =>
    simp only [setsUp, Bool.and_eq_true, Bool.not_eq_true', List.isEmpty_iff] at h
    obtain ⟨⟨hstack, hf⟩, hc⟩ := h
    obtain ⟨w, stack⟩ := c
    obtain rfl : stack = [] := hstack
    exact honest_call hf hc
  | _ => cases h

theorem sealing_opens : sealing =
      .ok ⟨ofBytes sealedBytes, wordText (Fidensur.sampleDeployment.keccak sealedBytes)⟩ ∧
    sealingEnclave.Opens sealedBytes sealedTerms.policy := by
  obtain ⟨c, hseal, -, hopens⟩ := sealPolicy_ok reportedKey_node decodes_standard
    (V := .standard Fidensur.sampleDeployment.keccak) rfl (length_zeros 16) draftPolicy_denotes
    (by decide)
  have hsealing : sealing = .ok ⟨ofBytes c, wordText (Fidensur.sampleDeployment.keccak c)⟩ := hseal
  have hbytes : sealedBytes = c := by
    rw [sealedBytes, hsealing]
    change (toBytes (ofBytes c)).getD [] = c
    rw [toBytes_ofBytes]
    rfl
  rw [hbytes]
  exact ⟨hsealing, hopens⟩

theorem answerHashed_sealed : AnswerHashedIn sealingEnclave {b | b ∈ sealedHashed} sealedBytes := by
  refine ⟨List.mem_cons_self, ?_⟩
  rintro p table tree ⟨plaintext', hplain', hp'⟩ hevaluated hbuilt
  obtain ⟨plaintext, hplain, hp⟩ := sealing_opens.2
  obtain rfl := Except.ok.inj (hplain.symm.trans hplain')
  obtain rfl := Except.ok.inj (hp.symm.trans hp')
  have htable : evaluate sealedTerms.policy = .ok sealedTable := by decide
  obtain rfl := Except.ok.inj (hevaluated.symm.trans htable)
  have htree : sealedTree = tree := congrArg (Option.getD · []) hbuilt
  rw [← htree]
  exact fun b hb => List.mem_cons_of_mem _ hb

theorem sealed_policy_dispatched_sample : ∃ w w₁ w₂,
    (machine Fidensur.sampleDeployment).run ((waitingRun [] 10).take 4) sampleStart = some ⟨w, []⟩ ∧
    sealing.toOption.map SealedPolicy.ciphertext = some (ofBytes sealedBytes) ∧
    (machine Fidensur.sampleDeployment).next (.call (sampleMsg 2 0)
      (.submitPolicy 0 (Fidensur.sampleDeployment.keccak sealedBytes))) ⟨w, []⟩ = some ⟨w₁, []⟩ ∧
    Reaches (machine Fidensur.sampleDeployment)
      (Honest Fidensur.sampleDeployment sealingEnclave {b | b ∈ sealedHashed}) ⟨w₁, []⟩ ⟨w₂, []⟩ ∧
    AwaitsResult Fidensur.sampleDeployment sealingEnclave {b | b ∈ sealedHashed} w₂ 0 sealedBytes
      sealedTerms.policy sealedTable := by
  let open₀ : List Act := (waitingRun [] 10).take 4
  have hrun : ((machine Fidensur.sampleDeployment).run open₀ sampleStart).map
      (fun c => (c.stack.length, c.world.waiting, c.world.now, (c.world.storage.rounds 0).organization,
        c.world.storage.extensionId)) = some (0, ⟨.opened, false, 0, 10, 0, 7, 0, 1⟩, 0, 2, 0x10000) := by
    decide
  have hsteps : StepsMeet (machine Fidensur.sampleDeployment) open₀ sampleStart
      (Honest Fidensur.sampleDeployment sealingEnclave {b | b ∈ sealedHashed}) :=
    .of_meets (fun _ _ => honest_setUp) (by decide)
  have hS : Set.InjOn Fidensur.sampleDeployment.keccak {b | b ∈ sealedHashed} := by
    apply injOn_hashed
    decide +kernel
  have hnonzero : ∀ b ∈ sealedHashed, Fidensur.sampleDeployment.keccak b ≠ 0 := by
    decide +kernel
  obtain ⟨⟨w, stack⟩, hc, hend⟩ := Option.map_eq_some_iff.mp hrun
  simp only [World.waiting, Prod.mk.injEq, Waiting.mk.injEq, List.length_eq_zero_iff] at hend
  obtain ⟨rfl, ⟨hst, -, -, hfunded, -⟩, hnow, horganization, hext⟩ := hend
  obtain ⟨c, hseal, -, hcommit⟩ := sealed_policy_dispatched Fidensur.sampleDeployment sealingEnclave
    {b | b ∈ sealedHashed} hS hnonzero (.standard _) (.standard _)
    decodes_standard rfl rfl sampleCrypto (· = one) (.ofBytes one) reportedKey reportedKey_node one (zeros 16)
    rfl (length_zeros 16) 1 (fun _ => 0) 0 w (hsteps.reaches _ List.prefix_rfl _ hc) 0 hst
    (by rw [Fin.val_zero, hfunded]; decide) draftPolicy sealedTerms draftPolicy_denotes (by decide) rfl
    rfl (sampleMsg 2 0) horganization.symm rfl hnow.symm
  have hsealing : sealing = .ok ⟨ofBytes c, wordText (Fidensur.sampleDeployment.keccak c)⟩ := hseal
  have hbytes : c = sealedBytes := by
    have hsame := hsealing.symm.trans sealing_opens.1
    simp only [Except.ok.injEq, SealedPolicy.mk.injEq] at hsame
    exact ofBytes_injective hsame.1
  rw [hbytes] at hsealing hcommit
  obtain ⟨w₁, hnext, hdispatch⟩ := hcommit answerHashed_sealed
  let submit : Act := .call (sampleMsg 2 0) (.submitPolicy 0 (Fidensur.sampleDeployment.keccak sealedBytes))
  have hrun₁ : ((machine Fidensur.sampleDeployment).run (open₀ ++ [submit]) sampleStart).map
      (fun c => ((c.world.storage.rounds 0).status, (c.world.storage.rounds 0).funded, c.world.now,
        c.world.storage.extensionId)) = some (.committed, 10, 0, 0x10000) := by
    decide +kernel
  rw [System.run_concat, hc, Option.bind_some, hnext, Option.map_some, Option.some.injEq] at hrun₁
  simp only [Prod.mk.injEq] at hrun₁
  obtain ⟨hst₁, hfunded₁, hnow₁, hext₁⟩ := hrun₁
  obtain ⟨w₂, hreach, -, -, hawaits⟩ := (hdispatch w₁ .refl (sampleMsg 2 0) rfl hnow₁.symm (List.cons_ne_nil _ _)
    (by rw [hext₁]; decide) (requireDispatchable_ok.mpr (.inl hst₁))).waits 99
  refine ⟨w, w₁, w₂, hc, by rw [hsealing]; rfl, hnext, hreach, (hawaits sealedTable).mpr ⟨by decide, ?_, ?_⟩⟩
  · decide
  · rw [Fin.val_zero, hfunded₁]
    decide

end Sample

end Fidensur.BrowserPolicy
