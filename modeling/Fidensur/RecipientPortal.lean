import Fidensur.Disclosures
import Fidensur.FriendlyErrors
import Fidensur.SealedPolicy
import Fidensur.VerificationReport

set_option autoImplicit false

/-! The page on which a recipient asks for an allocation, checks it and claims it. -/

namespace Fidensur.RecipientPortal

open NestedCalls ByteWords ByteView DigitText HexText Ecies BrowserPolicy BrowserVerification
  BrowserMerkle VerificationReport FriendlyErrors

section Proxy

inductive Tick
  | unreachable
  | refused
  | answered (json : Except String ActionResponse)

def result : Tick → Except String (Option BrowserVerification.ActionResult)
  | .unreachable | .refused => .ok none
  | .answered json => json.map normalizeActionResult

/-- The requests are those sent before the deadline. -/
def waitForResult (instructionId : Text) (timeoutMs : ℕ) :
    List Tick → Except String BrowserVerification.ActionResult
  | [] => .error ("no completed result for instruction " ++ String.ofList instructionId ++ " within " ++
      timeoutMs.repr ++ "ms. The TEE may be unreachable — the round can be retried after " ++
      "COMPUTE_RETRY_TIMEOUT.")
  | tick :: ticks => do
      match ← result tick with
      | some result =>
          if result.status ≠ 2 then return result else waitForResult instructionId timeoutMs ticks
      | none => waitForResult instructionId timeoutMs ticks

end Proxy

section Page

structure Libraries where
  crypto : Crypto
  hexToBytes : Text → Except String Bytes
  bytesToHex : Bytes → Text
  /-- `decodeAbiParameters` for the address, the number and the bytes of a reply. -/
  decodeReply : Text → Except String (Text × ℤ × Text)
  /-- `JSON.parse` of the decoded text. -/
  parse : Bytes → Except String BrowserMerkle.Disclosure
  toLocaleString : ℕ → String

structure DisclosureKeypair where
  privateKey : Text
  publicKey : Text
  compressed : Text

structure Portal where
  roundId : Option ℕ
  round : Option Round
  disclosure : Option BrowserMerkle.Disclosure
  claimed : Option ℤ
  failure : Option FriendlyError

structure Receipt where
  success : Bool
  /-- The instructions of its `DisclosureRequested` events. -/
  instructionIds : List Bytes32

structure RequestInput where
  proxyUrl : Bool
  address : Text
  randomPrivateKey : Bytes
  send : ℕ → Text → Except Failure Receipt
  ticks : Text → List Tick

def blankPortal : Portal := ⟨none, none, none, none, none⟩

variable (L : Libraries)

def generateDisclosureKeypair (randomPrivateKey : Bytes) : Except String DisclosureKeypair := do
  let publicKey ← L.crypto.getPublicKey randomPrivateKey false
  let compressed ← L.crypto.getPublicKey randomPrivateKey true
  return ⟨L.bytesToHex randomPrivateKey, L.bytesToHex publicKey, L.bytesToHex compressed⟩

def decryptDisclosure (ciphertextHex privateKeyHex : Text) : Except String BrowserMerkle.Disclosure := do
  let ciphertext ← L.hexToBytes ciphertextHex
  let privateKey ← L.hexToBytes privateKeyHex
  let plaintext ← eciesDecrypt L.crypto (.ofBytes ciphertext) (.ofBytes privateKey)
  L.parse plaintext.bytes

/-- `getRound` for a round number, which the library rejects when it is no word; `raw` is the message of
the library's error. -/
def fetchRound (s : Storage) (id : ℕ) (answered : Bool) (raw : String) : Except Failure Round :=
  if answered = false ∨ 2 ^ 256 ≤ id then .error (.message raw)
  else (requireRound s id).mapError (.reverted · raw)

def Portal.load (p : Portal) (id : ℕ) (fetched : Except Failure Round) : Portal :=
  let p := { p with failure := none, disclosure := none, claimed := none, roundId := some id }
  match fetched with
  | .ok round => { p with round := some round }
  | .error failure => { p with failure := some (humanizeError L.toLocaleString failure) }

def readReply (address privateKey : Text) (reply : BrowserVerification.ActionResult) :
    Except Failure BrowserMerkle.Disclosure := do
  require (reply.status = 1) (.eligibility (reply.log.getD "not a recipient of this round"))
  let (requester, _, ciphertext) ← (L.decodeReply reply.data).mapError .message
  require (toLowerCase requester = toLowerCase address)
    (.message ("the reply is addressed to " ++ String.ofList requester ++ ", not to you"))
  (decryptDisclosure L ciphertext privateKey).mapError .message

def Portal.request (p : Portal) (input : RequestInput) : Except Failure BrowserMerkle.Disclosure := do
  require (input.proxyUrl = true) (.message "NEXT_PUBLIC_EXT_PROXY_URL is not set")
  match p.roundId, p.round with
  | some roundId, some _ =>
      let keys ← (generateDisclosureKeypair L input.randomPrivateKey).mapError .message
      let receipt ← input.send roundId keys.compressed
      require (receipt.success = true) (.message "requestDisclosure reverted")
      match receipt.instructionIds with
      | [] => .error (.message "no DisclosureRequested event in the receipt")
      | instructionId :: _ =>
          let reply ← (waitForResult (wordText instructionId) 240000
            (input.ticks (wordText instructionId))).mapError .message
          readReply L input.address keys.privateKey reply
  | _, _ => .error (.message "no round loaded")

def Portal.guard (p : Portal) (outcome : Except Failure Portal) : Portal :=
  match outcome with
  | .ok p => { p with failure := none }
  | .error failure => { p with failure := some (humanizeError L.toLocaleString failure) }

def Portal.disclosed (p : Portal) (input : RequestInput) : Portal :=
  p.guard L ((p.request L input).map fun d => { p with disclosure := some d })

def Portal.claimArgs (p : Portal) : Except Failure (ℕ × ℤ × ℤ × List Text) :=
  match p.disclosure, p.roundId with
  | some d, some roundId => do
      let amount ← (bigIntOf d.amount).mapError .message
      return (roundId, d.index, amount, d.proof)
  | _, _ => .error (.message "no disclosure")

def Portal.claim (p : Portal) (send : ℕ × ℤ × ℤ × List Text → Except Failure Bool)
    (fetch : ℕ → Except Failure Round) : Except Failure Portal := do
  let args ← p.claimArgs
  let success ← send args
  require (success = true) (.message "claim reverted")
  let round ← fetch args.1
  return { p with round := some round, claimed := some args.2.2.1 }

variable {keccak : Keccak} (V : Viem keccak)

def Portal.check (p : Portal) : Option (Except String DisclosureCheck) :=
  match p.disclosure, p.round with
  | some d, some round => some (checkDisclosure V d (wordText round.merkleRoot))
  | _, _ => none

/-- The button to claim is on the page; `clock` is the visitor's. -/
def Portal.offersClaim (p : Portal) (clock : ℕ) : Bool :=
  match p.roundId, p.round, p.check V with
  | some _, some round, some (.ok check) =>
      check.ok && p.claimed.isNone && decide (round.status = .finalized) && !decide (round.claimDeadline < clock)
  | _, _, _ => false

end Page

section Site

/-- The page beside the chain. `shown` is the round that the data on the page is of, which a failed load
leaves there under the number of another round. -/
structure Site where
  chain : ContractConfig
  portal : Portal
  shown : Option ℕ

inductive Visit
  | chain (act : Act)
  | load (id : ℕ) (answered : Bool) (raw : String)
  | request (input : RequestInput)
  | claim (send : ℕ × ℤ × ℤ × List Text → Except Failure Bool) (answered : Bool) (raw : String)

def visit (D : Deployment) (L : Libraries) : Visit → Site → Option Site
  | .chain act, s => ((machine D).next act s.chain).map fun c => { s with chain := c }
  | .load id answered raw, s =>
      if s.chain.stack ≠ [] then none
      else
        let fetched := fetchRound s.chain.world.storage id answered raw
        some { s with
          portal := s.portal.load L id fetched
          shown := match fetched with
            | .ok _ => some id
            | .error _ => s.shown }
  | .request input, s => some { s with portal := s.portal.disclosed L input }
  | .claim send answered raw, s =>
      if s.chain.stack ≠ [] then none
      else
        let outcome := s.portal.claim send fun id => fetchRound s.chain.world.storage id answered raw
        some { s with
          portal := s.portal.guard L outcome
          shown := match outcome with
            | .ok _ => s.portal.roundId
            | .error _ => s.shown }

inductive Visited (D : Deployment) (L : Libraries) (ok : Site → Visit → Prop) (start : Site) : Site → Prop
  | refl : Visited D L ok start start
  | tail {s t : Site} {v : Visit} : Visited D L ok start s → ok s v → visit D L v s = some t →
      Visited D L ok start t

def opened (initialOwner : Address) (balance : Address → ℕ) (now : ℕ) : Site :=
  ⟨deployed initialOwner balance now, blankPortal, none⟩

/-- The registry does not call back into the contract; nothing is asked of the page or the proxy. -/
def Quiet (s : Site) : Visit → Prop
  | .chain act => RegistryQuiet s.chain act
  | _ => True

structure Payable (s : Storage) (msg : Msg) (roundId index amount : Uint256) : Prop where
  entered : s.entered = false
  status : (s.rounds roundId).status = .finalized
  time : blockTimestamp48 msg ≤ (s.rounds roundId).claimDeadline
  unclaimed : isClaimed s roundId index = false
  fits : (s.rounds roundId).totalClaimed + amount < 2 ^ 256
  covered : (amount : ℕ) ≤ s.outstanding (s.rounds roundId).token

structure Denotes (keccak : Keccak) (d : BrowserMerkle.Disclosure) (roundId index amount : Uint256)
    (recipient : Address) (proof : List Bytes32) : Prop where
  roundId : JsText.bigInt d.roundId = some ((roundId : ℕ) : ℤ)
  index : d.index = (index : ℕ)
  amount : JsText.bigInt d.amount = some ((amount : ℕ) : ℤ)
  recipient : (AbiParam.address d.recipient).Denotes keccak recipient
  proof : d.proof = proof.map wordText

end Site

section Check

variable {D : Deployment} {keccak : Keccak} {V : Viem keccak} {msg : Msg} {view : Address → ℕ} {s : Storage}
  {roundId id index amount : Uint256} {recipient sender : Address} {proof : List Bytes32}
  {d : BrowserMerkle.Disclosure} {root : Bytes32} {S : Set Bytes}

theorem bigIntOf_ok {t : Text} {n : ℤ} (h : JsText.bigInt t = some n) : bigIntOf t = .ok n := by
  rw [bigIntOf, h]

theorem verifyProof_zero (leaf : Text) (proof : List Text) :
    verifyProof V (wordText 0) leaf proof = .ok false := by
  have hzero := bigInt_wordText 0
  rw [Fin.val_zero] at hzero
  simp only [verifyProof, hzero, bind, Except.bind, if_true]
  rfl

theorem check_ok {check : DisclosureCheck} (hd : Denotes keccak d roundId index amount recipient proof)
    (hcheck : checkDisclosure V d (wordText root) = .ok check) (hok : check.ok = true) :
    AllocationMerkle.verify keccak root roundId index recipient amount proof = true := by
  simp only [checkDisclosure, verifyAllocation, bigIntOf_ok hd.roundId, bigIntOf_ok hd.amount, hd.index, hd.proof,
    leafHash_wordText V roundId index amount hd.recipient, bind, Except.bind, pure, Except.pure] at hcheck
  by_cases hroot : root = 0
  · subst hroot
    rw [verifyProof_zero] at hcheck
    obtain rfl := Except.ok.inj hcheck
    simp at hok
  · rw [verifyProof_wordText V hroot] at hcheck
    obtain rfl := Except.ok.inj hcheck
    simp only [Bool.and_eq_true] at hok
    rw [AllocationMerkle.verify, if_neg hroot]
    exact hok.2

theorem foldl_hashPair_inj (hk : Set.InjOn keccak S) {x y : Bytes32}
    (hx : ∀ b ∈ AllocationMerkle.proofPreimages keccak x proof, b ∈ S)
    (hy : ∀ b ∈ AllocationMerkle.proofPreimages keccak y proof, b ∈ S)
    (h : proof.foldl (AllocationMerkle.hashPair keccak) x = proof.foldl (AllocationMerkle.hashPair keccak) y) :
    x = y := by
  induction proof generalizing x y with
  | nil => exact h
  | cons sibling proof ih =>
    obtain ⟨hx, hxs⟩ := List.forall_mem_cons.mp hx
    obtain ⟨hy, hys⟩ := List.forall_mem_cons.mp hy
    have hpair := ih hxs hys h
    rw [AllocationMerkle.hashPair_eq, AllocationMerkle.hashPair_eq] at hpair
    have hsame := hk hx hy hpair
    rcases MerkleTree.pairPreimage_inj hsame with hyx | hys
    · exact hyx.symm
    · rcases MerkleTree.pairPreimage_inj hsame.symm with hxy | hxs
      · exact hxy
      · exact hxs.trans hys.symm

theorem leafHash_inj (hk : Set.InjOn keccak S)
    (hS : ∀ b ∈ AllocationMerkle.preimages keccak roundId index recipient amount proof, b ∈ S)
    (hS' : ∀ b ∈ AllocationMerkle.preimages keccak id index sender amount proof, b ∈ S)
    (h : AllocationMerkle.leafHash keccak roundId index recipient amount =
      AllocationMerkle.leafHash keccak id index sender amount) : roundId = id ∧ recipient = sender := by
  have hlt (roundId : Uint256) (recipient : Address) :
      ∀ v ∈ [(roundId : ℕ), index, recipient, amount], v < 256 ^ 32 := by
    intro v hv
    simp only [List.mem_cons, List.not_mem_nil, or_false] at hv
    rcases hv with rfl | rfl | rfl | rfl
    · exact word_lt _
    · exact word_lt _
    · exact address_lt _
    · exact word_lt _
  have hinner := hk (hS _ (by simp [AllocationMerkle.preimages])) (hS' _ (by simp [AllocationMerkle.preimages])) h
  have hleaf := hk (hS _ (by simp [AllocationMerkle.preimages])) (hS' _ (by simp [AllocationMerkle.preimages]))
    (word_injective hinner)
  have hwords : [(roundId : ℕ), index, recipient, amount] = [(id : ℕ), index, sender, amount] :=
    ofWords_injective rfl (hlt _ _) (hlt _ _) hleaf
  simp only [List.cons.injEq, true_and, and_true] at hwords
  exact ⟨Fin.ext hwords.1, Fin.ext hwords.2⟩

theorem verify_iff (hk : Set.InjOn keccak S)
    (hS : ∀ b ∈ AllocationMerkle.preimages keccak roundId index recipient amount proof, b ∈ S)
    (hS' : ∀ b ∈ AllocationMerkle.preimages keccak id index sender amount proof, b ∈ S)
    (hverify : AllocationMerkle.verify keccak root roundId index recipient amount proof = true) :
    AllocationMerkle.verify keccak root id index sender amount proof = true ↔
      roundId = id ∧ recipient = sender := by
  constructor
  · intro hverify'
    simp only [AllocationMerkle.verify, AllocationMerkle.verifyLeaf, Bool.if_false_left, Bool.and_eq_true,
      Bool.not_eq_true', decide_eq_false_iff_not, decide_eq_true_eq] at hverify hverify'
    apply leafHash_inj hk hS hS'
    apply foldl_hashPair_inj hk ?_ ?_ (hverify.2.trans hverify'.2.symm)
    · exact fun b hb => hS b (List.mem_cons_of_mem _ (List.mem_cons_of_mem _ hb))
    · exact fun b hb => hS' b (List.mem_cons_of_mem _ (List.mem_cons_of_mem _ hb))
  · rintro ⟨rfl, rfl⟩
    exact hverify

theorem claim_accepted_iff (hvalue : msg.value = 0) :
    (∃ out, start D msg view s (.claim roundId index amount proof) = .ok out) ↔
      Payable s msg roundId index amount ∧
        AllocationMerkle.verify D.keccak (s.rounds roundId).merkleRoot roundId index msg.sender amount proof =
          true := by
  constructor
  · rintro ⟨⟨s', x⟩, hstart⟩
    cases Started.of_start hstart with
    | configure _ _ _ _ _ hconf => cases hconf
    | claim _ _ _ _ hg hst ht hb hp hc ho => exact ⟨⟨hg, hst, ht, hb, hc, ho⟩, hp⟩
  · rintro ⟨⟨hg, hst, ht, hb, hc, ho⟩, hp⟩
    exact ⟨_, bind_ok.mpr ⟨(), require_ok.mpr (.inr hvalue), claim_ok hg hst ht hb hp hc ho⟩⟩

end Check

section Visits

variable {D : Deployment} {L : Libraries} {initialOwner : Address} {balance : Address → ℕ} {now : ℕ}
  {s t : Site} {v : Visit} {ok : Site → Visit → Prop} {p p' : Portal} {storage : Storage} {id : ℕ}
  {answered : Bool} {raw : String} {r : Round}

theorem fetchRound_ok (h : fetchRound storage id answered raw = .ok r) : storage.rounds id = r := by
  unfold fetchRound at h
  split_ifs at h
  simp only [mapError_ok, requireRound, bind_ok, require_ok, exists_const, pure, Except.pure,
    Except.ok.injEq] at h
  exact h.2

theorem guard_disclosed (input : RequestInput) :
    (p.disclosed L input).round = p.round ∧ (p.disclosed L input).roundId = p.roundId := by
  unfold Portal.disclosed Portal.guard
  cases p.request L input with
  | error failure => exact ⟨rfl, rfl⟩
  | ok d => exact ⟨rfl, rfl⟩

theorem claim_fetched {send : ℕ × ℤ × ℤ × List Text → Except Failure Bool} {fetch : ℕ → Except Failure Round}
    (h : p.claim send fetch = .ok p') :
    ∃ id r, p.roundId = some id ∧ p'.roundId = some id ∧ p'.round = some r ∧ fetch id = .ok r := by
  simp only [Portal.claim, bind_ok, require_ok, exists_const, pure, Except.pure, Except.ok.injEq] at h
  obtain ⟨args, hargs, success, -, -, r, hfetch, rfl⟩ := h
  unfold Portal.claimArgs at hargs
  split at hargs
  · next d roundId hd hid =>
    simp only [bind_ok, pure, Except.pure, Except.ok.injEq] at hargs
    obtain ⟨amount, -, rfl⟩ := hargs
    exact ⟨roundId, r, hid, hid, rfl, hfetch⟩
  · cases hargs

structure Site.Sound (D : Deployment) (initialOwner : Address) (balance : Address → ℕ) (now : ℕ) (s : Site) :
    Prop where
  reached : Reachable D initialOwner balance now RegistryQuiet s.chain
  shown : ∀ r, s.portal.round = some r → ∃ id w, s.shown = some id ∧ w.storage.rounds id = r ∧
    Reachable D initialOwner balance now RegistryQuiet ⟨w, []⟩ ∧
    Reaches (machine D) RegistryQuiet ⟨w, []⟩ s.chain

theorem Site.Sound.read (h : s.Sound D initialOwner balance now) (hstack : s.chain.stack = [])
    (hround : t.portal.round = some (s.chain.world.storage.rounds id)) (hshown : t.shown = some id)
    (hchain : t.chain = s.chain) : t.Sound D initialOwner balance now := by
  have hidle : s.chain = ⟨s.chain.world, []⟩ := by rw [← hstack]
  constructor
  · rw [hchain]
    exact h.reached
  · intro r hr
    obtain rfl := Option.some.inj (hround.symm.trans hr)
    refine ⟨id, s.chain.world, hshown, rfl, ?_, ?_⟩
    · rw [← hidle]
      exact h.reached
    · rw [hchain, ← hidle]
      exact .refl

theorem Site.Sound.visit (h : s.Sound D initialOwner balance now) (hq : Quiet s v) (hv : visit D L v s = some t) :
    t.Sound D initialOwner balance now := by
  cases v with
  | chain act =>
    obtain ⟨c, hc, rfl⟩ := Option.map_eq_some_iff.mp hv
    refine ⟨h.reached.tail hq hc, fun r hr => ?_⟩
    obtain ⟨id, w, hshown, hround, hreached, hsince⟩ := h.shown r hr
    exact ⟨id, w, hshown, hround, hreached, hsince.tail hq hc⟩
  | load id answered raw =>
    simp only [RecipientPortal.visit] at hv
    split_ifs at hv with hstack
    obtain rfl := Option.some.inj hv
    cases hfetch : fetchRound s.chain.world.storage id answered raw with
    | error failure => exact ⟨h.reached, h.shown⟩
    | ok r =>
      refine h.read (not_not.mp hstack) ?_ rfl rfl
      rw [fetchRound_ok hfetch]
      rfl
  | request input =>
    obtain rfl := Option.some.inj hv
    refine ⟨h.reached, fun r hr => h.shown r ?_⟩
    rw [← (guard_disclosed input).1]
    exact hr
  | claim send answered raw =>
    simp only [RecipientPortal.visit] at hv
    split_ifs at hv with hstack
    obtain rfl := Option.some.inj hv
    cases hclaim : s.portal.claim send fun id => fetchRound s.chain.world.storage id answered raw with
    | error failure => exact ⟨h.reached, h.shown⟩
    | ok p =>
      obtain ⟨id, r, hid, -, hround, hfetch⟩ := claim_fetched hclaim
      refine h.read (not_not.mp hstack) ?_ hid rfl
      rw [fetchRound_ok hfetch]
      exact hround

theorem Visited.sound (h : Visited D L Quiet (opened initialOwner balance now) s) :
    s.Sound D initialOwner balance now := by
  induction h with
  | refl => exact ⟨.refl, nofun⟩
  | tail _ hq hv ih => exact ih.visit hq hv

def LoadsAnswered (s : Site) : Visit → Prop
  | .load id answered raw => ∃ r, fetchRound s.chain.world.storage id answered raw = .ok r
  | _ => True

theorem Visited.shown (hok : ∀ s v, ok s v → LoadsAnswered s v)
    (h : Visited D L ok (opened initialOwner balance now) s) : s.shown = s.portal.roundId := by
  induction h with
  | refl => rfl
  | @tail s t v _ ha hv ih =>
    cases v with
    | chain act =>
      obtain ⟨c, -, rfl⟩ := Option.map_eq_some_iff.mp hv
      exact ih
    | load id answered raw =>
      obtain ⟨r, hfetch⟩ := hok _ _ ha
      simp only [RecipientPortal.visit, hfetch] at hv
      split_ifs at hv
      obtain rfl := Option.some.inj hv
      rfl
    | request input =>
      obtain rfl := Option.some.inj hv
      exact ih.trans (guard_disclosed input).2.symm
    | claim send answered raw =>
      simp only [RecipientPortal.visit] at hv
      split_ifs at hv with hstack
      obtain rfl := Option.some.inj hv
      cases hclaim : s.portal.claim send fun id => fetchRound s.chain.world.storage id answered raw with
      | error failure => exact ih
      | ok p =>
        obtain ⟨id, r, hid, hid', -, -⟩ := claim_fetched hclaim
        exact hid.trans hid'.symm

theorem root_kept {w : World} (h : Reachable D initialOwner balance now RegistryQuiet ⟨w, []⟩)
    (hroot : (w.storage.rounds id).merkleRoot ≠ 0) {c : ContractConfig}
    (hc : Reaches (machine D) RegistryQuiet ⟨w, []⟩ c) :
    (c.world.storage.rounds id).merkleRoot = (w.storage.rounds id).merkleRoot := by
  refine Reaches.invariant (P := fun c => (c.world.storage.rounds id).merkleRoot =
    (w.storage.rounds id).merkleRoot) rfl rfl ?_ hc
  intro c a e d hreach hp ha he hne hd
  have hreached := h.trans hreach
  have hcoherent := Reachable.coherent (fun _ _ ha => ha.2) (Reachable.fresh (fun _ _ ha => ha) hreached)
  have hkeep {r' : Round} (hevolves : (c.world.storage.rounds id).Evolves r') :
      r'.merkleRoot = (w.storage.rounds id).merkleRoot := by
    rw [hevolves.merkleRoot, hp]
    rw [hp]
    exact hroot
  cases Stepped.of_machine he hne hd with
  | done msg call ht hself hst => exact hkeep (hst.evolves hcoherent.shape id)
  | pending msg call ht hself hst => exact hkeep (hst.evolves hcoherent.shape id)
  | replied p reply hacc hf =>
    have hlast := Reachable.dispatchesLast (fun _ _ ha => ha) hreached
    exact hkeep (hf.evolves (hcoherent.dispatchable hlast.fresh hf) id)
  | _ => exact hp

theorem offersClaim_check {keccak : Keccak} {V : Viem keccak} {clock : ℕ} (h : p.offersClaim V clock = true) :
    ∃ d id r check, p.disclosure = some d ∧ p.roundId = some id ∧ p.round = some r ∧
      checkDisclosure V d (wordText r.merkleRoot) = .ok check ∧ check.ok = true := by
  unfold Portal.offersClaim at h
  split at h
  · next id r check hid hr hcheck =>
    simp only [Bool.and_eq_true] at h
    unfold Portal.check at hcheck
    split at hcheck
    · next d r' hd hr' =>
      obtain rfl := Option.some.inj (hr.symm.trans hr')
      exact ⟨d, id, _, check, hd, hid, hr, Option.some.inj hcheck, h.1.1.1⟩
    · cases hcheck
  · cases h

end Visits

/-- Whatever the proxy replied and however the chain went on, the claim that the page offers takes the
opened round and the amount of the disclosure, and besides what it asks of the round's state it is
accepted exactly if the disclosure is for this round and this account, which the page does not check. -/
theorem portal_claim_accepted (D : Deployment) (L : Libraries) (V : Viem D.keccak) (initialOwner : Address)
    (balance : Address → ℕ) (now : ℕ) (s : Site)
    (h : Visited D L Quiet (opened initialOwner balance now) s) (clock : ℕ)
    (hoffers : s.portal.offersClaim V clock = true) (d : BrowserMerkle.Disclosure)
    (hdisclosure : s.portal.disclosure = some d) (roundId index amount : Uint256) (recipient : Address)
    (proof : List Bytes32) (hd : Denotes D.keccak d roundId index amount recipient proof) (id : Uint256)
    (hid : s.portal.roundId = some (id : ℕ)) (hshown : s.shown = s.portal.roundId) (msg : Msg)
    (hvalue : msg.value = 0)
    (hk : Set.InjOn D.keccak
      {b | b ∈ AllocationMerkle.preimages D.keccak roundId index recipient amount proof ∨
        b ∈ AllocationMerkle.preimages D.keccak id index msg.sender amount proof}) :
    s.portal.claimArgs = .ok ((id : ℕ), ((index : ℕ) : ℤ), ((amount : ℕ) : ℤ), proof.map wordText) ∧
      ((∃ out, start D msg (msg.received s.chain.world.balance) s.chain.world.storage
          (.claim id index amount proof) = .ok out) ↔
        Payable s.chain.world.storage msg id index amount ∧ roundId = id ∧ recipient = msg.sender) := by
  obtain ⟨d', id', r, check, hd', -, hround, hcheck, hok⟩ := offersClaim_check hoffers
  obtain rfl := Option.some.inj (hdisclosure.symm.trans hd')
  have hverify := check_ok hd hcheck hok
  obtain ⟨shown, w, hshown', hread, hreached, hsince⟩ := h.sound.shown r hround
  obtain rfl := Option.some.inj (hshown'.symm.trans (hshown.trans hid))
  have hroot : (s.chain.world.storage.rounds id).merkleRoot = r.merkleRoot := by
    rw [← hread]
    apply root_kept hreached ?_ hsince
    rw [hread]
    exact verify_root_ne_zero hverify
  constructor
  · simp only [Portal.claimArgs, hdisclosure, hid, bigIntOf_ok hd.amount, hd.index, hd.proof]
    rfl
  · rw [claim_accepted_iff hvalue, hroot, verify_iff hk (fun b hb => .inl hb) (fun b hb => .inr hb) hverify]

section Replies

/-- What the portal relies on: the engine's library seals in the same layout for the point of a compressed
key, and the page's libraries read what the engine encoded. -/
structure Libraries.Reads (L : Libraries) (E : Enclave) (isPrivateKey : Bytes → Prop) (round : ComputedRound) :
    Prop where
  standard : L.crypto.Standard isPrivateKey
  hexToBytes : ∀ b, L.hexToBytes (ofBytes b) = .ok b
  bytesToHex : ∀ b, L.bytesToHex b = ofBytes b
  encrypts : ∀ privateKey compressed publicKey point draw plaintext ciphertext, isPrivateKey privateKey →
    L.crypto.getPublicKey privateKey true = .ok compressed →
    L.crypto.getPublicKey privateKey false = .ok publicKey → E.decompressPubkey compressed = .ok point →
    E.eciesEncrypt draw point plaintext = .ok ciphertext →
    Sealed L.crypto isPrivateKey publicKey plaintext ciphertext
  decodes : ∀ (requester : Address) (roundId : Uint256) (ciphertext : Bytes), ciphertext.length < 2 ^ 64 →
    L.decodeReply (ofBytes (encodeDisclosureResult requester (roundId : ℕ) ciphertext)) =
      .ok ((checksumHex E.keccak requester).toList, ((roundId : ℕ) : ℤ), ofBytes ciphertext)
  parses : ∀ i row, round.allocations[i]? = some row →
    L.parse (E.marshal (round.disclosure E i row)) = .ok (BrowserMerkle.received (round.disclosure E i row))

def Tick.Pending (tick : Tick) : Prop :=
  result tick = .ok none ∨ ∃ reply, result tick = .ok (some reply) ∧ reply.status = 2

structure Carries (body : ActionResponse) (reply : ActionResult) : Prop where
  id : ∃ text ≠ [], body.id = some text
  data : body.data = some (ofBytes reply.data)
  status : body.status = some reply.status.toNat
  log : body.log = some reply.log

/-- The page asks on behalf of `sender`, its call goes through, and the proxy answers with `reply` while
the page still waits. -/
structure Asks (L : Libraries) (keccak : Keccak) (isPrivateKey : Bytes → Prop) (input : RequestInput)
    (sender : Address) (roundId : ℕ) (key : Bytes) (reply : ActionResult) : Prop where
  proxyUrl : input.proxyUrl = true
  address : (AbiParam.address input.address).Denotes keccak sender
  isKey : isPrivateKey input.randomPrivateKey
  compressed : L.crypto.getPublicKey input.randomPrivateKey true = .ok key
  answered : ∃ instructionId others, input.send roundId (ofBytes key) = .ok ⟨true, instructionId :: others⟩ ∧
    ∃ before body after, input.ticks (wordText instructionId) = before ++ .answered (.ok body) :: after ∧
      (∀ tick ∈ before, tick.Pending) ∧ Carries body reply

variable {L : Libraries} {keccak : Keccak} {E : Enclave} {isPrivateKey : Bytes → Prop} {input : RequestInput}
  {sender : Address} {roundId : Uint256} {key : Bytes} {reply : ActionResult} {p : Portal} {r : Round}
  {round : ComputedRound} {S : Set Bytes} {commitment : Bytes32}

theorem waitForResult_answered (instructionId : Text) (timeoutMs : ℕ) {before after : List Tick} {tick : Tick}
    {reply : BrowserVerification.ActionResult} (hbefore : ∀ tick ∈ before, tick.Pending)
    (htick : result tick = .ok (some reply)) (hstatus : reply.status ≠ 2) :
    waitForResult instructionId timeoutMs (before ++ tick :: after) = .ok reply := by
  induction before with
  | nil =>
    simp only [List.nil_append, waitForResult, htick, bind, Except.bind, if_pos hstatus]
    rfl
  | cons pending before ih =>
    obtain ⟨hpending, hrest⟩ := List.forall_mem_cons.mp hbefore
    rw [List.cons_append, waitForResult]
    rcases hpending with hnone | ⟨early, hearly, htwo⟩
    · simp only [hnone, bind, Except.bind]
      exact ih hrest
    · simp only [hearly, bind, Except.bind, if_neg (not_not.mpr htwo)]
      exact ih hrest

theorem Asks.request (hL : L.Reads E isPrivateKey round)
    (h : Asks L keccak isPrivateKey input sender roundId key reply) (hid : p.roundId = some (roundId : ℕ))
    (hr : p.round = some r) (hstatus : reply.status.toNat ≠ 2) : ∃ actionId submissionTag signature,
      p.request L input = readReply L input.address (ofBytes input.randomPrivateKey)
        ⟨ofBytes reply.data, actionId, submissionTag, reply.status.toNat, signature, some reply.log⟩ := by
  obtain ⟨instructionId, others, hsend, before, body, after, hticks, hpending, hcarries⟩ := h.answered
  obtain ⟨point, hpoint, -⟩ := hL.standard.uncompressed _ h.isKey
  obtain ⟨actionId, hne, hactionId⟩ := hcarries.id
  have hkeys : generateDisclosureKeypair L input.randomPrivateKey =
      .ok ⟨ofBytes input.randomPrivateKey, ofBytes (0x04 :: point), ofBytes key⟩ := by
    simp only [generateDisclosureKeypair, hpoint, h.compressed, hL.bytesToHex, bind, Except.bind]
    rfl
  have hresult : result (.answered (.ok body)) = .ok (some ⟨ofBytes reply.data, actionId,
      body.submissionTag.getD "submit", reply.status.toNat, body.signature.getD "0x".toList, some reply.log⟩) := by
    simp only [result, Except.map, normalizeActionResult, hactionId, hcarries.data, hcarries.status, hcarries.log,
      Option.getD_some, if_neg hne]
  have hwait : waitForResult (wordText instructionId) 240000 (before ++ .answered (.ok body) :: after) = .ok _ :=
    waitForResult_answered (wordText instructionId) 240000 hpending hresult hstatus
  rw [← hticks] at hwait
  refine ⟨actionId, body.submissionTag.getD "submit", body.signature.getD "0x".toList, ?_⟩
  simp only [Portal.request, require, h.proxyUrl, hid, hr, hkeys, hsend, hwait, bind, Except.bind, Except.mapError,
    if_true]

theorem received_row {i : ℕ} {l : Leaf} (hround : round.roundId = (roundId : ℕ)) :
    BrowserMerkle.received (round.disclosure E i l.row) =
      ⟨JsText.toText (roundId : ℕ), (l.index : ℕ), (checksumHex E.keccak l.recipient).toList,
        JsText.toText (l.amount : ℕ), (MerkleTree.proof round.tree i).map wordText, wordText round.root⟩ := by
  have hproof : ((MerkleTree.proof round.tree i).map hashHex).map String.toList =
      (MerkleTree.proof round.tree i).map wordText := by
    rw [List.map_map]
    exact List.map_congr_left fun h _ => toList_hashHex h
  simp only [BrowserMerkle.received, ComputedRound.disclosure, hround, hproof, toList_hashHex, Leaf.row,
    E.addressHex_eq]
  rfl

theorem encryptToRecipient_sealed (hL : L.Reads E isPrivateKey round) {privateKey publicKey plaintext ciphertext : Bytes}
    {draw : ℕ} (hprivate : isPrivateKey privateKey) (hkey : L.crypto.getPublicKey privateKey true = .ok key)
    (hpublic : L.crypto.getPublicKey privateKey false = .ok publicKey)
    (h : encryptToRecipient E draw key plaintext = .ok ciphertext) :
    Sealed L.crypto isPrivateKey publicKey plaintext ciphertext := by
  obtain ⟨sign, x, hx, -, hlength, -⟩ := hL.standard.compressed _ hprivate
  obtain rfl := Except.ok.inj (hx.symm.trans hkey)
  have h33 : (sign :: x).length = 33 := by rw [List.length_cons, hlength]
  simp only [encryptToRecipient, parsePublicKey, h33, bind_ok, mapError_ok, Nat.reduceEqDiff, if_true, if_false] at h
  obtain ⟨point, hpoint, hseal⟩ := h
  exact hL.encrypts _ _ _ point draw _ _ hprivate hkey hpublic hpoint hseal

theorem readReply_sealed (hL : L.Reads E isPrivateKey round)
    (h : Asks L E.keccak isPrivateKey input sender roundId key reply) {plaintext ciphertext : Bytes}
    {draw : ℕ} {d : BrowserMerkle.Disclosure} {answer : BrowserVerification.ActionResult}
    (hcipher : encryptToRecipient E draw key plaintext = .ok ciphertext) (hparse : L.parse plaintext = .ok d)
    (hsize : (encodeDisclosureResult sender (roundId : ℕ) ciphertext).length < 2 ^ 64)
    (hdata : answer.data = ofBytes (encodeDisclosureResult sender (roundId : ℕ) ciphertext))
    (hstatus : answer.status = 1) :
    readReply L input.address (ofBytes input.randomPrivateKey) answer = .ok d := by
  have hlength : ciphertext.length < 2 ^ 64 := by
    simp only [encodeDisclosureResult, List.length_append] at hsize
    omega
  have haddressed : toLowerCase (checksumHex E.keccak sender).toList = toLowerCase input.address :=
    (toLowerCase_eq_iff (.checksummed sender) h.address).mpr rfl
  obtain ⟨point, hpoint, -⟩ := hL.standard.uncompressed _ h.isKey
  have hsealed := encryptToRecipient_sealed hL h.isKey h.compressed hpoint hcipher
  have hprivate : isPrivateKey (View.ofBytes input.randomPrivateKey).bytes := by
    rw [View.bytes_ofBytes]
    exact h.isKey
  have hpublic : L.crypto.getPublicKey (View.ofBytes input.randomPrivateKey).bytes false = .ok (0x04 :: point) := by
    rw [View.bytes_ofBytes]
    exact hpoint
  rw [← View.bytes_ofBytes ciphertext] at hsealed
  obtain ⟨opened, hopen, hbytes⟩ := eciesDecrypt_sealed hL.standard hprivate hpublic hsealed
  simp only [readReply, require, hstatus, if_true, hdata, hL.decodes sender roundId ciphertext hlength, haddressed,
    decryptDisclosure, hL.hexToBytes, hopen, hbytes, hparse, bind, Except.bind, Except.mapError]

theorem bigInt_toText (n : ℕ) : JsText.bigInt (JsText.toText n) = some (n : ℤ) := by
  rw [JsText.bigInt_digits (JsText.digits_toText n), JsText.ofDigitChars_toText]

theorem denotes_row {i : ℕ} {l : Leaf} (hround : round.roundId = (roundId : ℕ)) :
    Denotes E.keccak (BrowserMerkle.received (round.disclosure E i l.row)) roundId l.index l.amount l.recipient
      (MerkleTree.proof round.tree i) := by
  rw [received_row hround]
  constructor
  · exact bigInt_toText (roundId : ℕ)
  · rfl
  · exact bigInt_toText (l.amount : ℕ)
  · dsimp only
    exact .checksummed l.recipient
  · rfl

structure ReadsRow (E : Enclave) (V : Viem E.keccak) (p : Portal) (roundId : Uint256) (sender : Address) (r : Round)
    (round : ComputedRound) (i : ℕ) (l : Leaf) : Prop where
  row : round.allocations[i]? = some l.row
  recipient : l.recipient = sender
  only : ∀ other ∈ round.allocations, other.recipient = sender → other = l.row
  disclosure : p.disclosure = some (BrowserMerkle.received (round.disclosure E i l.row))
  failure : p.failure = none
  denotes : Denotes E.keccak (BrowserMerkle.received (round.disclosure E i l.row)) roundId l.index l.amount sender
    (MerkleTree.proof round.tree i)
  offers : ∀ clock, p.offersClaim V clock = true ↔ r.status = .finalized ∧ clock ≤ r.claimDeadline
  claim : p.claimArgs = .ok ((roundId : ℕ), ((l.index : ℕ) : ℤ), ((l.amount : ℕ) : ℤ),
    (MerkleTree.proof round.tree i).map wordText)
  proven : AllocationMerkle.verify E.keccak r.merkleRoot roundId l.index sender l.amount
    (MerkleTree.proof round.tree i) = true

theorem exists_row (hwords : E.DecodesWords) (hrecorded : Recorded E S commitment round)
    (hround : round.roundId = (roundId : ℕ)) (hroot : round.root ≠ 0) {i : ℕ} {row : Allocation}
    (hrow : round.allocations[i]? = some row) : ∃ l : Leaf, l.row = row ∧
      AllocationMerkle.verify E.keccak round.root roundId l.index l.recipient l.amount
        (MerkleTree.proof round.tree i) = true := by
  obtain ⟨message, -, -, policy, ⟨plaintext, -, hdecode⟩, hvalid, htable, -, -⟩ := hrecorded.source
  have hp := Policy.Valid.of_validate hvalid
  have htab := evaluate_ok hp htable
  have hsum : sumAllocations round.allocations < 2 ^ 256 :=
    htab.budget.trans_lt (hwords plaintext policy hdecode).2
  obtain ⟨hi, rfl⟩ := List.getElem?_eq_some_iff.mp hrow
  obtain ⟨l, -, hl⟩ := htab.exists_leaf hp hsum hi
  have htree := hrecorded.tree
  rw [hround] at htree
  refine ⟨l, hl, ?_⟩
  rw [hrecorded.root] at hroot ⊢
  exact verify_proof htree hroot hi hl

theorem Asks.refused (hL : L.Reads E isPrivateKey round)
    (h : Asks L keccak isPrivateKey input sender roundId key reply) (hid : p.roundId = some (roundId : ℕ))
    (hr : p.round = some r) (hstatus : reply.status = statusError) :
    p.disclosed L input = { p with failure := some (notEligible reply.log) } := by
  obtain ⟨actionId, submissionTag, signature, hread⟩ := h.request hL hid hr (by rw [hstatus]; decide)
  have hrefused : p.request L input = .error (.eligibility reply.log) := by
    rw [hread, hstatus]
    rfl
  simp only [Portal.disclosed, Portal.guard, hrefused, Except.map, humanizeError]

theorem Asks.reads_row {V : Viem E.keccak} (hL : L.Reads E isPrivateKey round)
    (h : Asks L E.keccak isPrivateKey input sender roundId key reply) (hwords : E.DecodesWords)
    (hrecorded : Recorded E S commitment round) (hround : round.roundId = (roundId : ℕ))
    (hid : p.roundId = some (roundId : ℕ)) (hr : p.round = some r) (hroot : r.merkleRoot = round.root)
    (hne : r.merkleRoot ≠ 0) (hclaimed : p.claimed = none) (hsize : reply.data.length < 2 ^ 64) {draw : ℕ}
    (hstatus : reply.status = statusSuccess) (hsealed : RowSealed E draw roundId key sender round reply.data) :
    ∃ i l, ReadsRow E V (p.disclosed L input) roundId sender r round i l := by
  obtain ⟨i, row, ciphertext, hrow, howner, honly, hcipher, hdata, -⟩ := hsealed
  obtain ⟨actionId, submissionTag, signature, hread⟩ := h.request hL hid hr (by rw [hstatus]; decide)
  rw [hroot] at hne
  obtain ⟨l, rfl, hverify⟩ := exists_row hwords hrecorded hround hne hrow
  have hreads : p.request L input = .ok (BrowserMerkle.received (round.disclosure E i l.row)) := by
    rw [hread]
    apply readReply_sealed hL h hcipher (hL.parses _ _ hrow)
    · rw [← hdata]
      exact hsize
    · rw [hdata]
    · rw [hstatus]
      rfl
  have hdisclosed : p.disclosed L input =
      { p with failure := none, disclosure := some (BrowserMerkle.received (round.disclosure E i l.row)) } := by
    simp only [Portal.disclosed, Portal.guard, hreads, Except.map]
  have hreceived := received_row (E := E) (i := i) (l := l) hround
  have hcheck : checkDisclosure V (BrowserMerkle.received (round.disclosure E i l.row)) (wordText round.root) =
      .ok ⟨true, true, true⟩ := by
    rw [AllocationMerkle.verify, if_neg hne] at hverify
    rw [hreceived, checkDisclosure_wordText V (.checksummed l.recipient) hne, hverify, decide_eq_true rfl]
    rfl
  refine ⟨i, l, hrow, howner, honly, ?_, ?_, ?_, ?_, ?_, ?_⟩
  · rw [hdisclosed]
  · rw [hdisclosed]
  · rw [← howner]
    exact denotes_row hround
  · intro clock
    simp [Portal.offersClaim, Portal.check, hdisclosed, hid, hr, hroot, hcheck, hclaimed]
  · simp only [Portal.claimArgs, hdisclosed, hid, hreceived, bigIntOf_toText]
    rfl
  · rw [hroot, ← howner]
    exact hverify

end Replies

/-- However long the proxy lets the page wait, a refusal is shown in the same words whatever its log says, and
an answer that seals the visitor's row is read, checked and offered to be claimed. -/
theorem portal_reads_row (E : Enclave) (hwords : E.DecodesWords) (V : Viem E.keccak) (L : Libraries)
    (isPrivateKey : Bytes → Prop) (S : Set Bytes) (commitment : Bytes32) (round : ComputedRound)
    (hL : L.Reads E isPrivateKey round) (hrecorded : Recorded E S commitment round) (roundId : Uint256)
    (hround : round.roundId = (roundId : ℕ)) (sender : Address) (p : Portal)
    (hid : p.roundId = some (roundId : ℕ)) (r : Round) (hr : p.round = some r) (hroot : r.merkleRoot = round.root)
    (hne : r.merkleRoot ≠ 0) (hclaimed : p.claimed = none) (input : RequestInput) (key : Bytes)
    (reply : ActionResult) (hasks : Asks L E.keccak isPrivateKey input sender roundId key reply)
    (hsize : reply.data.length < 2 ^ 64) :
    (reply.status = statusError →
      p.disclosed L input = { p with failure := some (notEligible reply.log) }) ∧
    ∀ draw, reply.status = statusSuccess → RowSealed E draw roundId key sender round reply.data →
      ∃ i l, ReadsRow E V (p.disclosed L input) roundId sender r round i l := by
  constructor
  · intro hstatus
    exact hasks.refused hL hid hr hstatus
  · intro draw hstatus hsealed
    exact hasks.reads_row hL hwords hrecorded hround hid hr hroot hne hclaimed hsize hstatus hsealed

section Sample

def recipientKey : Bytes := 0x02 :: baseX

def portalEnclave : Enclave :=
  { Fidensur.sampleEnclave with
    unmarshalPubkey := .ok
    decompressPubkey := .ok
    eciesEncrypt := fun _ pub plaintext =>
      (eciesEncrypt sampleCrypto one (zeros 16) (.ofBytes plaintext) (.ofBytes pub)).map View.bytes }

def disclosedRow (row : Allocation) : Disclosure := sampleRound.disclosure portalEnclave row.index row

def portalLibraries : Libraries where
  crypto := sampleCrypto
  hexToBytes := Viem.hexBytes
  bytesToHex := ofBytes
  decodeReply data :=
    match (toBytes data).bind readDisclosureResult with
    | some (requester, roundId, ciphertext) =>
        .ok ((checksumHex Fidensur.sampleDeployment.keccak requester).toList, (roundId : ℤ), ofBytes ciphertext)
    | none => .error "Cannot decode zero data"
  parse text :=
    match sampleTable.find? (fun row => portalEnclave.marshal (disclosedRow row) = text) with
    | some row => .ok (BrowserMerkle.received (disclosedRow row))
    | none => .error "Unexpected end of JSON input"
  toLocaleString := Nat.repr

theorem portalLibraries_reads : portalLibraries.Reads portalEnclave (· = one) sampleRound where
  standard := sampleCrypto_standard
  hexToBytes := Viem.hexBytes_ofBytes
  bytesToHex _ := rfl
  encrypts privateKey compressed publicKey point draw plaintext ciphertext hprivate hcompressed hpublic hpoint h := by
    obtain rfl : compressed = point := Except.ok.inj hpoint
    have hrecipient : sampleCrypto.getPublicKey privateKey true = .ok (View.ofBytes compressed).bytes := by
      rw [View.bytes_ofBytes]
      exact hcompressed
    obtain ⟨c, hseal, hsealed⟩ := eciesEncrypt_sealed sampleCrypto_standard (rfl : one = one)
      (length_zeros 16) hprivate hrecipient hpublic (.ofBytes plaintext)
    have hsame : portalEnclave.eciesEncrypt draw compressed plaintext = .ok c.bytes := congrArg (·.map View.bytes) hseal
    obtain rfl := Except.ok.inj (hsame.symm.trans h)
    rw [View.bytes_ofBytes] at hsealed
    exact hsealed
  decodes requester roundId ciphertext h := by
    simp only [portalLibraries, toBytes_ofBytes, Option.bind_some, readDisclosureResult_encode requester roundId h]
    rfl
  parses i row hrow := by
    have hfind : ∀ row ∈ sampleTable,
        sampleTable.find? (fun other => portalEnclave.marshal (disclosedRow other) =
          portalEnclave.marshal (disclosedRow row)) = some row := by
      decide +kernel
    have hindexed : ∀ i < 3, ∀ row ∈ sampleTable[i]?, row.index = i := by
      decide
    have hrow' : sampleTable[i]? = some row := hrow
    obtain ⟨hi, hget⟩ := List.getElem?_eq_some_iff.mp hrow'
    have hdisclosed : sampleRound.disclosure portalEnclave i row = disclosedRow row := by
      rw [disclosedRow, hindexed i hi row hrow']
    rw [hdisclosed]
    simp only [portalLibraries, hfind row (List.mem_of_getElem? hrow')]

def sealing : Except String Bytes :=
  encryptToRecipient portalEnclave 0 recipientKey (portalEnclave.marshal (disclosedRow ⟨1, 4, 6⟩))

def sealedRow : Bytes := sealing.toOption.getD []

def portalReply : ActionResult :=
  buildResult ⟨100, []⟩ ⟨opTypeAlloc, opCommandDisclose, []⟩ (encodeDisclosureResult 4 0 sealedRow)
    statusSuccess ""

def answerOf (reply : ActionResult) : ActionResponse :=
  ⟨some (wordText reply.id), some (ofBytes reply.data), some "submit", some reply.status.toNat, some reply.log, none⟩

/-- The proxy is first out of reach, then reports that the engine is still at work. -/
def portalInput : RequestInput where
  proxyUrl := true
  address := addressText 4
  randomPrivateKey := one
  send _ _ := .ok ⟨true, [100]⟩
  ticks _ := [.unreachable, .answered (.ok { answerOf portalReply with status := some 2 }),
    .answered (.ok (answerOf portalReply))]

theorem sealing_ok : sealing = .ok sealedRow ∧ sealedRow.length < 2 ^ 32 := by
  have hsize : sealing.toOption.map List.length = some 157 := by decide +kernel
  obtain ⟨b, hb, hlength⟩ := Option.map_eq_some_iff.mp hsize
  cases hs : sealing with
  | error e =>
    rw [hs] at hb
    cases hb
  | ok b' =>
    rw [hs] at hb
    obtain rfl := Option.some.inj hb
    have hrow : sealedRow = b' := by
      rw [sealedRow, hs]
      rfl
    rw [hrow]
    exact ⟨rfl, by omega⟩

theorem rowSealed_sample : RowSealed portalEnclave 0 0 recipientKey 4 sampleRound portalReply.data := by
  refine ⟨1, ⟨1, 4, 6⟩, sealedRow, rfl, rfl, by decide, sealing_ok.1, rfl, fun h => ?_⟩
  exact readDisclosureResult_encode 4 0 h

theorem asks_sample : Asks portalLibraries portalEnclave.keccak (· = one) portalInput 4 0 recipientKey portalReply where
  proxyUrl := rfl
  address := .address 4
  isKey := rfl
  compressed := rfl
  answered := by
    refine ⟨100, [], rfl, [.unreachable, .answered (.ok { answerOf portalReply with status := some 2 })],
      answerOf portalReply, [], rfl, ?_, ⟨⟨_, List.cons_ne_nil _ _, rfl⟩, rfl, rfl, rfl⟩⟩
    intro tick htick
    simp only [List.mem_cons, List.not_mem_nil, or_false] at htick
    rcases htick with rfl | rfl
    · exact .inl rfl
    · exact .inr ⟨_, rfl, rfl⟩

theorem recorded_sample : Recorded portalEnclave {[42]} (Fidensur.sampleDeployment.keccak [42]) sampleRound :=
  recorded_of_computeRound rfl rfl computeRound_sample

theorem portalEnclave_words : portalEnclave.DecodesWords := by
  intro plaintext p hp
  simp only [portalEnclave, sampleEnclave] at hp
  split at hp
  · obtain rfl := Except.ok.inj hp
    exact ⟨⟨0, rfl⟩, by decide⟩
  · cases hp

theorem portalReply_status : portalReply.status = statusSuccess := by
  rw [portalReply, buildResult_status]

theorem portalReply_size : portalReply.data.length < 2 ^ 64 := by
  have hsize := sealing_ok.2
  simp only [portalReply, buildResult_data, encodeDisclosureResult, abiEncode, List.length_append, length_ofWords,
    List.length_replicate, List.length_cons, List.length_nil]
  omega

def openRound : Round :=
  { Round.unset with status := .finalized, merkleRoot := sampleRound.root, claimDeadline := 3600 }

theorem portal_reads_row_sample : ∃ i l, ReadsRow portalEnclave (.standard portalEnclave.keccak)
    ((blankPortal.load portalLibraries 0 (.ok openRound)).disclosed portalLibraries portalInput) 0 4 openRound sampleRound i l := by
  obtain ⟨-, hsuccess⟩ := portal_reads_row portalEnclave portalEnclave_words (.standard _) portalLibraries (· = one)
    {[42]} _ sampleRound portalLibraries_reads recorded_sample 0 rfl 4 (blankPortal.load portalLibraries 0 (.ok openRound)) rfl
    openRound rfl (by rw [openRound]) (by decide +kernel) rfl portalInput recipientKey portalReply asks_sample portalReply_size
  exact hsuccess 0 portalReply_status rowSealed_sample

theorem Visited.of_reaches {D : Deployment} {L : Libraries} {start : ContractConfig} {p : Portal}
    {shown : Option ℕ} {c : ContractConfig} (h : Reaches (machine D) RegistryQuiet start c) :
    Visited D L Quiet ⟨start, p, shown⟩ ⟨c, p, shown⟩ := by
  induction h with
  | refl => exact .refl
  | @tail c d a _ ha hn ih =>
    apply ih.tail (v := .chain a) ha
    simp only [visit, hn, Option.map_some]

structure AwaitsClaim (s : Storage) : Prop where
  status : (s.rounds 0).status = .finalized
  root : (s.rounds 0).merkleRoot = sampleRound.root
  deadline : (s.rounds 0).claimDeadline = 3600
  totalClaimed : (s.rounds 0).totalClaimed = 0
  entered : s.entered = false
  unclaimed : isClaimed s 0 1 = false
  outstanding : s.outstanding (s.rounds 0).token = 18

theorem awaitsClaim_reached : ∃ w,
    Reaches (machine Fidensur.sampleDeployment) RegistryQuiet sampleStart ⟨w, []⟩ ∧ AwaitsClaim w.storage := by
  have hend : ((machine Fidensur.sampleDeployment).run (tableRun.take 8) sampleStart).map (fun c =>
      (c.stack.length, (c.world.storage.rounds 0).status, (c.world.storage.rounds 0).merkleRoot,
        (c.world.storage.rounds 0).claimDeadline)) = some (0, .finalized, sampleRound.root, 3600) := by
    decide +kernel
  have hledger : ((machine Fidensur.sampleDeployment).run (tableRun.take 8) sampleStart).map (fun c =>
      ((c.world.storage.rounds 0).totalClaimed, c.world.storage.entered, isClaimed c.world.storage 0 1,
        c.world.storage.outstanding (c.world.storage.rounds 0).token)) = some (0, false, false, 18) := by
    decide +kernel
  have hsteps : StepsMeet (machine Fidensur.sampleDeployment) (tableRun.take 8) sampleStart RegistryQuiet :=
    .of_meets (fun _ _ hc => (quietAndExact_ok hc).1) (by decide +kernel)
  obtain ⟨⟨w, stack⟩, hc, hend⟩ := Option.map_eq_some_iff.mp hend
  rw [hc, Option.map_some, Option.some.injEq] at hledger
  simp only [Prod.mk.injEq, List.length_eq_zero_iff] at hend hledger
  obtain ⟨rfl, hstatus, hroot, hdeadline⟩ := hend
  obtain ⟨hclaimed, hentered, hbit, houtstanding⟩ := hledger
  refine ⟨w, hsteps.reaches _ List.prefix_rfl _ hc, ?_⟩
  exact ⟨hstatus, hroot, hdeadline, hclaimed, hentered, hbit, houtstanding⟩

def samplePage (s : Storage) : Portal :=
  (blankPortal.load portalLibraries 0 (.ok (s.rounds 0))).disclosed portalLibraries portalInput

theorem samplePage_visited {w : World}
    (h : Reaches (machine Fidensur.sampleDeployment) RegistryQuiet sampleStart ⟨w, []⟩)
    (hw : AwaitsClaim w.storage) :
    Visited Fidensur.sampleDeployment portalLibraries Quiet (opened 1 (fun _ => 0) 0)
      ⟨⟨w, []⟩, samplePage w.storage, some 0⟩ := by
  have hfetch : fetchRound w.storage 0 true "" = .ok (w.storage.rounds 0) := by
    simp [fetchRound, requireRound, require, hw.status, bind, Except.bind, pure, Except.pure, Except.mapError]
  have hloaded : visit Fidensur.sampleDeployment portalLibraries (.load 0 true "") ⟨⟨w, []⟩, blankPortal, none⟩ =
      some ⟨⟨w, []⟩, blankPortal.load portalLibraries 0 (.ok (w.storage.rounds 0)), some 0⟩ := by
    simp only [visit, hfetch, ne_eq, not_true_eq_false, if_false]
  apply ((Visited.of_reaches h).tail (v := .load 0 true "") trivial hloaded).tail
    (v := .request portalInput) trivial
  rw [samplePage, visit]

theorem samplePage_row {s : Storage} (hs : AwaitsClaim s) :
    ReadsRow portalEnclave (.standard portalEnclave.keccak) (samplePage s) 0 4 (s.rounds 0) sampleRound 1
      ⟨1, 4, 6⟩ := by
  obtain ⟨i, l, hread⟩ := asks_sample.reads_row (V := .standard portalEnclave.keccak)
    (p := blankPortal.load portalLibraries 0 (.ok (s.rounds 0))) portalLibraries_reads portalEnclave_words
    recorded_sample rfl rfl rfl hs.root (by rw [hs.root]; decide +kernel) rfl portalReply_size
    portalReply_status rowSealed_sample
  have hfound : ∀ i < 3, ∀ row ∈ sampleTable[i]?, row.recipient = 4 → i = 1 ∧ row = ⟨1, 4, 6⟩ := by
    decide
  have hmem : sampleTable[i]? = some l.row := hread.row
  obtain ⟨hi, -⟩ := List.getElem?_eq_some_iff.mp hmem
  obtain ⟨rfl, hsame⟩ := hfound i hi l.row hmem hread.recipient
  have hl : l = ⟨1, 4, 6⟩ := by
    obtain ⟨index, recipient, amount⟩ := l
    simp only [Leaf.row, Allocation.mk.injEq] at hsame
    obtain ⟨hindex, rfl, hamount⟩ := hsame
    simp only [Leaf.mk.injEq, true_and]
    exact ⟨Fin.ext hindex, Fin.ext (by exact_mod_cast hamount)⟩
  rw [← hl]
  exact hread

def claimedHashed : List Bytes :=
  AllocationMerkle.preimages Fidensur.sampleDeployment.keccak 0 1 4 6 (MerkleTree.proof sampleTree 1) ++
    AllocationMerkle.preimages Fidensur.sampleDeployment.keccak 0 1 9 6 (MerkleTree.proof sampleTree 1)

theorem claimedHashed_injOn : Set.InjOn Fidensur.sampleDeployment.keccak {b | b ∈ claimedHashed} := by
  apply injOn_hashed
  decide +kernel

/-- The account that asked can claim the row it was told of; after a change of the account the page still
offers the claim, which is refused. -/
theorem portal_claim_accepted_sample : ∃ s,
    Visited Fidensur.sampleDeployment portalLibraries Quiet (opened 1 (fun _ => 0) 0) s ∧
    s.portal.offersClaim (.standard Fidensur.sampleDeployment.keccak) 0 = true ∧
    (∃ out, start Fidensur.sampleDeployment (sampleMsg 4 0) ((sampleMsg 4 0).received s.chain.world.balance)
      s.chain.world.storage (.claim 0 1 6 (MerkleTree.proof sampleTree 1)) = .ok out) ∧
    ¬ ∃ out, start Fidensur.sampleDeployment (sampleMsg 9 0) ((sampleMsg 9 0).received s.chain.world.balance)
      s.chain.world.storage (.claim 0 1 6 (MerkleTree.proof sampleTree 1)) = .ok out := by
  obtain ⟨w, hreached, hw⟩ := awaitsClaim_reached
  have hvisited := samplePage_visited hreached hw
  have hread := samplePage_row hw
  have hid : (samplePage w.storage).roundId = some 0 := by
    rw [samplePage, (guard_disclosed portalInput).2]
    rfl
  have hoffers : (samplePage w.storage).offersClaim (.standard Fidensur.sampleDeployment.keccak) 0 = true :=
    (hread.offers 0).mpr ⟨hw.status, Nat.zero_le _⟩
  have htree : sampleRound.tree = sampleTree := by rw [sampleRound, ComputedRound.build]
  have hdenotes := hread.denotes
  have hdisclosure := hread.disclosure
  rw [htree] at hdenotes
  generalize BrowserMerkle.received (sampleRound.disclosure portalEnclave 1 (Leaf.row ⟨1, 4, 6⟩)) = d
    at hdenotes hdisclosure
  generalize samplePage w.storage = p at hvisited hid hoffers hdisclosure
  have haccepted (sender : Address) (hmem : ∀ b ∈ AllocationMerkle.preimages Fidensur.sampleDeployment.keccak 0 1
      sender 6 (MerkleTree.proof sampleTree 1), b ∈ claimedHashed) := by
    have hinj := claimedHashed_injOn.mono (fun b (hb : b ∈ AllocationMerkle.preimages
        Fidensur.sampleDeployment.keccak 0 1 4 6 (MerkleTree.proof sampleTree 1) ∨
        b ∈ AllocationMerkle.preimages Fidensur.sampleDeployment.keccak 0 1 (sampleMsg sender 0).sender 6
          (MerkleTree.proof sampleTree 1)) => hb.elim (fun hb => List.mem_append_left _ hb) (hmem b))
    exact (portal_claim_accepted Fidensur.sampleDeployment portalLibraries (.standard _) 1 (fun _ => 0) 0 _
      hvisited 0 hoffers d hdisclosure 0 1 6 4 (MerkleTree.proof sampleTree 1) hdenotes 0 hid hid.symm
      (sampleMsg sender 0) rfl hinj).2
  refine ⟨_, hvisited, hoffers, (haccepted 4 fun b hb => List.mem_append_left _ hb).mpr ⟨?_, rfl, rfl⟩, ?_⟩
  · refine ⟨hw.entered, hw.status, ?_, hw.unclaimed, ?_, ?_⟩
    · rw [Fin.val_zero, hw.deadline]
      decide
    · rw [Fin.val_zero, hw.totalClaimed]
      decide
    · rw [Fin.val_zero, hw.outstanding]
      decide
  · intro hother
    obtain ⟨-, -, hsame⟩ := (haccepted 9 fun b hb => List.mem_append_right _ hb).mp hother
    exact absurd hsame (by decide)

end Sample

end Fidensur.RecipientPortal
