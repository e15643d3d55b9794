import Fidensur.BrowserDisclosure
import Fidensur.EngineStore
import Fidensur.EvaluatedTable
import Fidensur.HonestRun

set_option autoImplicit false

/-! From a ciphertext in the engine to the last claim on chain. -/

namespace Fidensur

open NestedCalls ByteWords HexText

section Definitions

/-- The engine after it served some requests, without a restart in between. -/
def serve (E : Enclave) (engine : Engine) (requests : List Request) : Engine :=
  requests.foldl (fun engine q => (process E engine q).1) engine

/-- The setting of the path: one hash function that neither collides nor vanishes on what is hashed. -/
structure Setting (D : Deployment) (E : Enclave) (S : Set Bytes) : Prop where
  keccak : E.keccak = D.keccak
  words : E.DecodesWords
  injective : Set.InjOn D.keccak S
  nonzero : ∀ b ∈ S, D.keccak b ≠ 0

structure AwaitsResult (D : Deployment) (E : Enclave) (S : Set Bytes) (w : World) (roundId : Uint256)
    (message : Bytes) (p : Policy) (table : List Allocation) : Prop where
  status : (w.storage.rounds roundId).status = .computing
  commitment : D.keccak message = (w.storage.rounds roundId).policyCommitment
  opens : E.Opens message p
  contract : p.contractAddr = D.self
  round : p.roundId = some ((roundId : ℕ) : ℤ)
  valid : validate E.cfg p = .ok ()
  evaluated : evaluate p = .ok table
  funds : sumAllocations table ≤ (w.storage.rounds roundId).funded
  hashed : AnswerHashedIn E S message

def Discloses (D : Deployment) (E : Enclave) (engine : Engine) (roundId : Uint256) (recipient : Address)
    (commitment : Bytes32) (d : Disclosure) : Prop :=
  ∀ action df draw key ciphertext,
    E.decodeDisclose df.originalMessage = .ok ⟨(roundId : ℕ), D.self, recipient, commitment, key⟩ →
    encryptToRecipient E draw key (E.marshal d) = .ok ciphertext →
    (processDisclose E engine action df draw).2 =
      buildResult action df (encodeDisclosureResult recipient (roundId : ℕ) ciphertext) statusSuccess ""

structure Disclosure.Spells (d : Disclosure) (l : Leaf) (proof : List Bytes32) : Prop where
  index : d.index = (l.index : ℕ)
  amount : JsText.bigInt d.amount.toList = some ((l.amount : ℕ) : ℤ)
  proof : d.proof = proof.map hashHex

/-- The disclosure of a row passes the browser's check, and the claim it spells is accepted exactly
as long as the row is unclaimed and then pays it. -/
def PaysRow (D : Deployment) (E : Enclave) (V : Viem D.keccak) (S : Set Bytes) (engine : Engine)
    (commitment : Bytes32) (roundId : Uint256) (w : World) (a : Allocation) : Prop :=
  ∃ d l proof, l.row = a ∧ Discloses D E engine roundId a.recipient commitment d ∧ d.Spells l proof ∧
    BrowserMerkle.checkDisclosure V (BrowserMerkle.received d)
      (wordText (w.storage.rounds roundId).merkleRoot) = .ok ⟨true, true, true⟩ ∧
    (∀ msg : Msg, msg.sender = a.recipient → msg.value = 0 → msg.timestamp = w.now →
      ((∃ out, start D msg (msg.received w.balance) w.storage
        (.claim roundId l.index l.amount proof) = .ok out) ↔ l ∉ claims w.log roundId)) ∧
    (a.recipient ≠ D.self → l ∉ claims w.log roundId →
      ∃ w', Reaches (machine D) (Honest D E S) ⟨w, []⟩ ⟨w', []⟩ ∧ w'.now = w.now ∧
        claims w'.log roundId = l :: claims w.log roundId)

structure PaidOut (roundId : Uint256) (w : World) (table : List Allocation) : Prop where
  claimed : (w.storage.rounds roundId).totalClaimed = (w.storage.rounds roundId).totalAllocated
  total : ((w.storage.rounds roundId).totalClaimed : ℤ) = sumAllocations table

structure Completes (D : Deployment) (E : Enclave) (V : Viem D.keccak) (S : Set Bytes) (engine : Engine)
    (commitment : Bytes32) (roundId : Uint256) (table : List Allocation) (w : World) (deadline : ℕ) :
    Prop where
  pays : ∀ requests w', (∀ q ∈ requests, Admitted S q) →
    Reaches (machine D) (Honest D E S) ⟨w, []⟩ ⟨w', []⟩ → w'.now ≤ deadline →
    ∀ a ∈ table, PaysRow D E V S (serve E engine requests) commitment roundId w' a
  totals : ∀ w', Reaches (machine D) (Honest D E S) ⟨w, []⟩ ⟨w', []⟩ →
    (∀ a ∈ table, a ∈ (claims w'.log roundId).map Leaf.row) → PaidOut roundId w' table
  anyOrder : ∀ order : List Allocation, order.Perm table → (∀ a ∈ table, a.recipient ≠ D.self) →
    ∃ w', Reaches (machine D) (Honest D E S) ⟨w, []⟩ ⟨w', []⟩ ∧ w'.now = w.now ∧
      (claims w'.log roundId).map Leaf.row = order.reverse ∧ PaidOut roundId w' table

end Definitions

section Serving

variable {E : Enclave} {S : Set Bytes} {engine : Engine} {message : Bytes} {round : ComputedRound}
  {time : ℤ}

theorem process_keeps (hS : Set.InjOn E.keccak S) (hm : message ∈ S)
    (hround : computeRound E message time = .ok round) {q : Request} (hq : Admitted S q)
    (h : ∃ old, engine.rounds (E.keccak message) = some old ∧ old.undated = round.undated) :
    ∃ new, (process E engine q).1.rounds (E.keccak message) = some new ∧ new.undated = round.undated := by
  cases q with
  | compute action df now =>
    simp only [process, processCompute]
    cases hcomputed : computeRound E df.originalMessage now with
    | error err => exact h
    | ok computed =>
      have hcommitment : computed.policyCommitment = E.keccak df.originalMessage :=
        (recorded_of_computeRound hq rfl hcomputed).commitment
      simp only [Engine.store, hcommitment]
      by_cases heq : E.keccak message = E.keccak df.originalMessage
      · obtain rfl := hS hm hq heq
        rw [Function.update_self]
        exact ⟨computed, rfl, computeRound_undated hcomputed hround⟩
      · rw [Function.update_of_ne heq]
        exact h
  | disclose action df draw =>
    simp only [process, processDisclose]
    cases disclose E _ df.originalMessage draw <;> exact h
  | attest action df =>
    simp only [process, processAttest]
    cases attest E _ df.originalMessage <;> exact h

theorem serve_keeps (hS : Set.InjOn E.keccak S) (hm : message ∈ S)
    (hround : computeRound E message time = .ok round) {requests : List Request}
    (hrequests : ∀ q ∈ requests, Admitted S q)
    (h : ∃ old, engine.rounds (E.keccak message) = some old ∧ old.undated = round.undated) :
    ∃ new, (serve E engine requests).rounds (E.keccak message) = some new ∧
      new.undated = round.undated := by
  induction requests generalizing engine with
  | nil => exact h
  | cons q requests ih =>
    obtain ⟨hq, hrest⟩ := List.forall_mem_cons.mp hrequests
    exact ih hrest (process_keeps hS hm hround hq h)

theorem discloses_row {D : Deployment} {p : Policy} {table : List Allocation} {tree : List (List Bytes32)}
    {roundId : Uint256} (hp : p.Valid E.cfg) (hself : p.contractAddr = D.self)
    (hid : p.roundId = some ((roundId : ℕ) : ℤ)) (htab : p.Tabulated table)
    (hnonzero : ∀ a ∈ table, a.recipient ≠ 0) (hstored : engine.rounds (E.keccak message) = some round)
    (hsame : round.undated = (ComputedRound.build (E.keccak message) p table tree time).undated)
    {j : ℕ} (hj : j < table.length) :
    Discloses D E engine roundId table[j].recipient (E.keccak message) (round.disclosure E j table[j]) := by
  intro action df draw key ciphertext hdecode hcipher
  have hround : round.roundId = (roundId : ℕ) := by
    have hvalue : round.roundId = value p.roundId := congrArg ComputedRound.roundId hsame
    rw [hvalue, hid]
    rfl
  have htable : round.allocations = table := congrArg ComputedRound.allocations hsame
  have hfound : round.byRecipient table[j].recipient = some j := by
    have hindex : round.byRecipient = indexRecipients 0 table (fun _ => none) :=
      congrArg ComputedRound.byRecipient hsame
    rw [hindex, indexRecipients_getElem htab.distinct j hj, Nat.zero_add]
  have hserved : requireServed E D.self = .ok () :=
    require_ok.mpr ⟨hp.served, hself.symm.trans hp.target⟩
  have hne : require (table[j].recipient ≠ 0) "requester must not be the zero address" = .ok () :=
    require_ok.mpr (hnonzero _ (List.getElem_mem hj))
  have hlookup (stats : Stats → Stats) : lookupRound (engine.bump stats) (roundId : ℕ) (E.keccak message) =
      .ok round := by
    simp only [lookupRound, Engine.bump, hstored]
    exact bind_ok.mpr ⟨(), require_ok.mpr hround, rfl⟩
  have hrow : round.allocations.getD j ⟨0, 0, 0⟩ = table[j] := by
    rw [htable, List.getD_eq_getElem _ _ hj]
  have hdisclose (stats : Stats → Stats) : disclose E (engine.bump stats) df.originalMessage draw =
      .ok (encodeDisclosureResult table[j].recipient (roundId : ℕ) ciphertext) := by
    simp only [disclose, hdecode, Except.mapError, hserved, hne, hlookup, hfound, hrow, hcipher, hround,
      bind, Except.bind, pure, Except.pure]
  simp only [processDisclose, hdisclose]

end Serving

section Path

variable {D : Deployment} {E : Enclave} {S : Set Bytes} {V : Viem D.keccak} {initialOwner : Address}
  {balance : Address → ℕ} {now : ℕ} {w w' : World} {roundId : Uint256} {message : Bytes} {p : Policy}
  {table : List Allocation} {tree : List (List Bytes32)} {engine : Engine} {round : ComputedRound}
  {time : ℤ} {msg : Msg} {l : Leaf} {j : ℕ}

theorem received_disclosure (hkeccak : E.keccak = D.keccak) (hid : p.roundId = some ((roundId : ℕ) : ℤ))
    (hsame : round.undated = (ComputedRound.build (E.keccak message) p table tree time).undated)
    (hj : j < table.length) (hrow : l.row = table[j]) :
    BrowserMerkle.received (round.disclosure E j table[j]) =
      ⟨JsText.toText (roundId : ℕ), (l.index : ℕ), (checksumHex D.keccak l.recipient).toList,
        JsText.toText (l.amount : ℕ), (MerkleTree.proof tree j).map wordText,
        wordText (MerkleTree.root tree)⟩ := by
  have hround : round.roundId = (roundId : ℕ) := by
    have hvalue : round.roundId = value p.roundId := congrArg ComputedRound.roundId hsame
    rw [hvalue, hid]
    rfl
  have htree : round.tree = tree := congrArg ComputedRound.tree hsame
  have hroot : round.root = MerkleTree.root tree := congrArg ComputedRound.root hsame
  have hproof : ((MerkleTree.proof tree j).map hashHex).map String.toList =
      (MerkleTree.proof tree j).map wordText := by
    rw [List.map_map]
    exact List.map_congr_left fun h _ => BrowserMerkle.toList_hashHex h
  simp only [BrowserMerkle.received, ComputedRound.disclosure, hround, htree, hroot, ← hrow, E.addressHex_eq, hkeccak, hproof,
    BrowserMerkle.toList_hashHex, Leaf.row]
  rfl

theorem paysRow (V : Viem D.keccak) (hset : Setting D E S) (hround : AwaitsResult D E S w roundId message p table)
    (h : Reachable D initialOwner balance now (Honest D E S) ⟨w', []⟩)
    (hclaimable : Claimable E S roundId table w')
    (hstored : engine.rounds (E.keccak message) = some round)
    (htree : MerkleTree.buildMerkleTree E.keccak (leavesOf E.keccak (roundId : ℕ) table) = some tree)
    (hsame : round.undated = (ComputedRound.build (E.keccak message) p table tree time).undated)
    {a : Allocation} (ha : a ∈ table) : PaysRow D E V S engine (E.keccak message) roundId w' a := by
  obtain ⟨j, hj, rfl⟩ := List.getElem_of_mem ha
  have hp := Policy.Valid.of_validate hround.valid
  have htab := evaluate_ok hp hround.evaluated
  have hS : Set.InjOn E.keccak S := hset.keccak ▸ hset.injective
  obtain ⟨tree', htree', -, hroot⟩ := hclaimable.backed.rooted
  obtain rfl := Option.some.inj (htree.symm.trans htree')
  have hsum : sumAllocations table < 2 ^ 256 := by
    rw [← hclaimable.backed.total]
    exact_mod_cast hclaimable.fits
  obtain ⟨l, hindex, hrow⟩ := htab.exists_leaf hp hsum hj
  have hrecipient : l.recipient = table[j].recipient := congrArg Allocation.recipient hrow
  have hreceived := received_disclosure hset.keccak hround.round hsame hj hrow
  have hnonzero : ∀ a ∈ table, a.recipient ≠ 0 := by
    obtain ⟨amounts, hamounts, hrecipients, -, -⟩ := computeAmounts_ok hp
    have htabulate := (evaluate_eq_tabulate hamounts).symm.trans hround.evaluated
    exact fun a ha => ((tabulate_wellFormed hp hamounts hrecipients htabulate).recipients a ha).1
  have hrootNe : MerkleTree.root tree ≠ 0 := by
    rw [← hroot]
    exact Reachable.honest_root_ne_zero h hclaimable.status
  refine ⟨round.disclosure E j table[j], l, MerkleTree.proof tree j, hrow, ?_, ?_, ?_, ?_, ?_⟩
  · exact discloses_row hp hround.contract hround.round htab hnonzero hstored hsame hj
  · have htreeSame : round.tree = tree := congrArg ComputedRound.tree hsame
    refine ⟨?_, ?_, ?_⟩
    · exact congrArg Allocation.index hrow.symm
    · have hamount : (round.disclosure E j table[j]).amount.toList = JsText.toText (l.amount : ℕ) :=
        congrArg BrowserMerkle.Disclosure.amount hreceived
      rw [hamount, JsText.bigInt_digits (JsText.digits_toText _), JsText.ofDigitChars_toText]
    · rw [ComputedRound.disclosure, htreeSame]
  · have hverify := verify_proof htree hrootNe hj hrow
    rw [AllocationMerkle.verify, if_neg hrootNe, hset.keccak] at hverify
    rw [hreceived, hroot, BrowserMerkle.checkDisclosure_wordText V (.checksummed l.recipient) hrootNe, hverify,
      decide_eq_true rfl]
    rfl
  · intro msg hsender hvalue ht
    exact Reachable.claim_iff hset.words hset.keccak hS h hclaimable htree hj hindex hrow
      (hsender.trans hrecipient.symm) hvalue ht
  · intro hself hnew
    exact Reachable.pays_claim hset.words hset.keccak hS h hclaimable hindex
      (by rw [hrow, List.getElem?_eq_getElem hj]) hnew (hrecipient.symm ▸ hself)

theorem AwaitsResult.computed (h : AwaitsResult D E S w roundId message p table) (engine : Engine)
    (action : Action) (time : ℤ) {df : DataFixed} (hdf : df.originalMessage = message) :
    ∃ tree, MerkleTree.buildMerkleTree E.keccak (leavesOf E.keccak (roundId : ℕ) table) = some tree ∧
      (∀ b ∈ MerkleTree.preimages E.keccak (roundId : ℕ) table tree, b ∈ S) ∧
      computeRound E message time = .ok (.build (E.keccak message) p table tree time) ∧
      (processCompute E engine action df time).1.rounds (E.keccak message) =
        some (.build (E.keccak message) p table tree time) ∧
      (processCompute E engine action df time).2 =
        buildResult action df (encodeAllocationResult E (.build (E.keccak message) p table tree time))
          statusSuccess "" := by
  subst hdf
  obtain ⟨tree, htree, hcomputed⟩ : ∃ tree,
      MerkleTree.buildMerkleTree E.keccak (leavesOf E.keccak (value p.roundId) table) = some tree ∧
      computeRound E df.originalMessage time = .ok (.build (E.keccak df.originalMessage) p table tree time) :=
    computeRound_of_evaluate h.opens h.valid h.evaluated
  have hbuilt := h.hashed.2 p table tree h.opens h.evaluated htree
  have hvalue : value p.roundId = (roundId : ℕ) := by rw [h.round]; rfl
  rw [hvalue] at htree hbuilt
  refine ⟨tree, htree, hbuilt, hcomputed, ?_, ?_⟩
  · simp only [processCompute, hcomputed, Engine.store, ComputedRound.build, Function.update_self]
  · simp only [processCompute, hcomputed]

theorem AwaitsResult.result (h : AwaitsResult D E S w roundId message p table) (hset : Setting D E S)
    (time : ℤ)
    (htree : MerkleTree.buildMerkleTree E.keccak (leavesOf E.keccak (roundId : ℕ) table) = some tree)
    (hbuilt : ∀ b ∈ MerkleTree.preimages E.keccak (roundId : ℕ) table tree, b ∈ S) :
    let res := (ComputedRound.build (E.keccak message) p table tree time).result E
    res.contractAddr = D.self ∧ res.roundId = roundId ∧
      res.policyCommitment = (w.storage.rounds roundId).policyCommitment ∧
      res.merkleRoot = MerkleTree.root tree ∧ res.merkleRoot ≠ 0 ∧ res.recipientCount ≠ 0 ∧
      ((res.totalAllocated : ℕ) : ℤ) = sumAllocations table := by
  have hp := Policy.Valid.of_validate h.valid
  have htab := evaluate_ok hp h.evaluated
  have hvalue : value p.roundId = (roundId : ℕ) := by rw [h.round]; rfl
  have hbudget : value p.totalBudget < 2 ^ 256 := by
    obtain ⟨plaintext, -, hdecode⟩ := h.opens
    exact (hset.words plaintext p hdecode).2
  have hnonneg : 0 ≤ sumAllocations table :=
    List.sum_nonneg (List.forall_mem_map.mpr fun a ha => (htab.positive a ha).le)
  refine ⟨?_, ?_, ?_, rfl, ?_, ?_, packUint256_eq hnonneg (htab.budget.trans_lt hbudget)⟩
  · exact hp.target.symm.trans h.contract
  · simp only [ComputedRound.result, ComputedRound.build, hvalue]
    exact packUint256_natCast roundId
  · simp only [ComputedRound.result, ComputedRound.build, hset.keccak]
    exact h.commitment
  · obtain ⟨b, hb, hroot⟩ := MerkleTree.exists_root_preimage htree
    simp only [ComputedRound.result, ComputedRound.build, hroot, hset.keccak]
    exact hset.nonzero b (hbuilt b hb)
  · have hpos : 0 < table.length := List.length_pos_iff.mpr htab.nonempty
    have hcount : table.length ≤ 4096 := htab.count.trans hp.count
    intro hzero
    have hmod : table.length % 2 ^ 32 = 0 := congrArg Fin.val hzero
    omega

theorem completes (V : Viem D.keccak) (hset : Setting D E S)
    (hround : AwaitsResult D E S w roundId message p table)
    (h : Reachable D initialOwner balance now (Honest D E S) ⟨w', []⟩)
    (htree : MerkleTree.buildMerkleTree E.keccak (leavesOf E.keccak (roundId : ℕ) table) = some tree)
    (hbuilt : ∀ b ∈ MerkleTree.preimages E.keccak (roundId : ℕ) table tree, b ∈ S)
    (hcomputed : computeRound E message time = .ok (.build (E.keccak message) p table tree time))
    (hstored : engine.rounds (E.keccak message) = some (.build (E.keccak message) p table tree time))
    (hstatus : (w'.storage.rounds roundId).status = .finalized)
    (hroot : (w'.storage.rounds roundId).merkleRoot = MerkleTree.root tree)
    (htotal : ((w'.storage.rounds roundId).totalAllocated : ℤ) = sumAllocations table)
    (hlt : (w'.storage.rounds roundId).totalAllocated < 2 ^ 256)
    (hdeadline : (w'.storage.rounds roundId).claimDeadline =
      w'.now % 2 ^ 48 + (w'.storage.rounds roundId).claimWindow)
    (hfits : (w'.storage.rounds roundId).claimDeadline < 2 ^ 48) (hclaims : claims w'.log roundId = []) :
    Completes D E V S engine (E.keccak message) roundId table w'
      (w'.now + (w'.storage.rounds roundId).claimWindow) := by
  have hp := Policy.Valid.of_validate hround.valid
  have htab := evaluate_ok hp hround.evaluated
  have hS : Set.InjOn E.keccak S := hset.keccak ▸ hset.injective
  have hbacked : TableBehind E S roundId (w'.storage.rounds roundId).merkleRoot
      (w'.storage.rounds roundId).totalAllocated table :=
    ⟨⟨p, hp, htab⟩, ⟨tree, htree, hbuilt, hroot⟩, htotal⟩
  have htotals (w₂ : World) (hreach : Reaches (machine D) (Honest D E S) ⟨w', []⟩ ⟨w₂, []⟩)
      (hall : ∀ a ∈ table, a ∈ (claims w₂.log roundId).map Leaf.row) : PaidOut roundId w₂ table := by
    obtain ⟨hbacked₂, hrows, -⟩ :=
      Reachable.table_kept hset.words hset.keccak hS h hstatus hbacked hlt hreach
    obtain ⟨hclaimed, hsum⟩ := Reachable.all_claimed (h.trans hreach) hbacked₂ hrows hall
    exact ⟨hclaimed, hsum⟩
  have hopen (w₂ : World) (hreach : Reaches (machine D) (Honest D E S) ⟨w', []⟩ ⟨w₂, []⟩)
      (hnow : w₂.now ≤ w'.now + (w'.storage.rounds roundId).claimWindow) : Claimable E S roundId table w₂ :=
    Reachable.stays_claimable hset.words hset.keccak hS h hstatus hbacked hlt hdeadline hfits hreach hnow
  refine ⟨?_, htotals, ?_⟩
  · intro requests w₂ hrequests hreach hnow a ha
    obtain ⟨new, hnew, hsame⟩ := serve_keeps hS hround.hashed.1 hcomputed hrequests ⟨_, hstored, rfl⟩
    exact paysRow V hset hround (h.trans hreach) (hopen w₂ hreach hnow) hnew htree hsame ha
  · intro order hperm hself
    have hsum : sumAllocations table < 2 ^ 256 := by
      rw [← htotal]
      exact_mod_cast hlt
    obtain ⟨leaves, rfl, hrows, hnodup⟩ := htab.exists_leaves hp hsum hperm
    have hrecipients : ∀ l ∈ leaves, l.recipient ≠ D.self := fun l hl =>
      hself l.row (hperm.mem_iff.mp (List.mem_map_of_mem hl))
    obtain ⟨w₂, hreach, hnow, hclaimed⟩ := Reachable.pays_all hset.words hset.keccak hS h
      (fun w₂ hreach hnow => hopen w₂ hreach (hnow.trans_le (Nat.le_add_right _ _))) hrows hnodup hclaims
      hrecipients
    refine ⟨w₂, hreach, hnow, by rw [hclaimed, List.map_reverse], htotals w₂ hreach fun a ha => ?_⟩
    rw [hclaimed, List.map_reverse, List.mem_reverse]
    exact hperm.mem_iff.mpr ha

theorem honest_finalize {action : Action} {df : DataFixed} {signature : Bytes}
    (hhashed : AnswerHashedIn E S df.originalMessage) :
    let reply := (processCompute E engine action df time).2
    Honest D E S ⟨w, []⟩ (.call msg
      (.finalizeRound reply.data action.id action.submissionTag reply.status signature)) := by
  constructor
  · exact fun _ _ _ => rfl
  · exact tokensExact_call msg _
  · rintro _ _ _ _ _ _ ⟨⟩ -
    exact ⟨df.originalMessage, ⟨engine, df, time, rfl, rfl, rfl⟩, hhashed⟩
  · rintro _ _ _ _ _ ⟨⟩

end Path

/-- The engine's answer to a computing round is accepted while the deadline fits the contract's clock,
and the round then pays its table out, whatever the order of the recipients. -/
theorem honest_path_completes (D : Deployment) (E : Enclave) (V : Viem D.keccak) (S : Set Bytes)
    (hset : Setting D E S) (initialOwner : Address) (balance : Address → ℕ) (now : ℕ) (w : World)
    (h : Reachable D initialOwner balance now (Honest D E S) ⟨w, []⟩) (roundId : Uint256)
    (message : Bytes) (p : Policy) (table : List Allocation)
    (hround : AwaitsResult D E S w roundId message p table) (engine : Engine) (action : Action)
    (df : DataFixed) (time : ℤ) (hdf : df.originalMessage = message)
    (hid : action.id = (w.storage.rounds roundId).computeInstructionId) (signature : Bytes)
    (hsig : TeeResultVerifier.recoverSigner D (processCompute E engine action df time).2.data action.id
      action.submissionTag (processCompute E engine action df time).2.status signature =
        .ok w.storage.teeAddress)
    (msg : Msg) (ht : msg.timestamp = w.now) (hvalue : msg.value = 0) (hsender : msg.sender ≠ D.self)
    (hfits : w.now % 2 ^ 48 + (w.storage.rounds roundId).claimWindow < 2 ^ 48) :
    let reply := (processCompute E engine action df time).2
    reply.status = statusSuccess ∧ ∃ w₁, (machine D).next (.call msg
        (.finalizeRound reply.data action.id action.submissionTag reply.status signature)) ⟨w, []⟩ =
          some ⟨w₁, []⟩ ∧
      (w₁.storage.rounds roundId).claimDeadline =
        w.now % 2 ^ 48 + (w.storage.rounds roundId).claimWindow ∧
      Completes D E V S (processCompute E engine action df time).1 (E.keccak message) roundId table w₁
        (w.now + (w.storage.rounds roundId).claimWindow) := by
  intro reply
  obtain ⟨tree, htree, hbuilt, hcomputed, hstored, hreply⟩ := hround.computed engine action time hdf
  obtain ⟨hself, hroundId, hcommitment, hroot, hrootNe, hcount, htotal⟩ :=
    hround.result hset time htree hbuilt
  have hstatus : reply.status = statusSuccess := by simp only [reply, hreply, buildResult_status]
  have hdecode : AllocationResult.decode reply.data =
      some ((ComputedRound.build (E.keccak message) p table tree time).result E) := by
    simp only [reply, hreply, buildResult_data]
    exact AllocationResult.decode_encode _
  have hhashed : AnswerHashedIn E S df.originalMessage := hdf ▸ hround.hashed
  have hhonest : Honest D E S ⟨w, []⟩ (.call msg (.finalizeRound reply.data action.id action.submissionTag
      reply.status signature)) := honest_finalize hhashed
  have hne : w.storage.teeAddress ≠ 0 := ((TeeResultVerifier.recoverSigner_ok D).mp hsig).2
  change TeeResultVerifier.recoverSigner D reply.data _ _ reply.status _ = _ at hsig
  clear_value reply
  refine ⟨hstatus, ?_⟩
  rw [hstatus] at hsig hhonest ⊢
  generalize (ComputedRound.build (E.keccak message) p table tree time).result E = res at *
  subst hroundId
  have hfunds : (res.totalAllocated : ℕ) ≤ (w.storage.rounds res.roundId).funded := by
    have := hround.funds
    omega
  have hdeadline : blockTimestamp48 msg + (w.storage.rounds res.roundId).claimWindow < 2 ^ 48 := by
    rw [blockTimestamp48, ht]
    exact hfits
  have hstart : start D msg (msg.received w.balance) w.storage
      (.finalizeRound reply.data action.id action.submissionTag statusSuccess signature) = .ok _ :=
    bind_ok.mpr ⟨(), require_ok.mpr (.inr hvalue), finalizeRound_ok hne hsig hdecode hself hround.status hid
      hcommitment hrootNe hcount hfunds hdeadline⟩
  have hnext := next_done ht hsender hstart
  have hreached := h.tail hhonest hnext
  have hclaims : claims w.log res.roundId = [] :=
    (Reachable.honest_claims h).none_of_computing (Reachable.honest_coherent h).shape hround.status
  refine ⟨_, hnext, ?_, ?_⟩
  · simp [World.record, blockTimestamp48, ht]
  · have hcompletes := completes V hset hround hreached htree hbuilt hcomputed hstored (by simp [World.record])
      (by simp [World.record, hroot]) (by simp [World.record, htotal]) (by simp [World.record])
      (by simp [World.record, blockTimestamp48, ht]) (by simpa [World.record] using hdeadline)
      ((claims_cons_of_not_claim rfl _ _).trans hclaims)
    simpa [World.record] using hcompletes

section Sample

def pathHashed : List Bytes :=
  [42] :: MerkleTree.preimages sampleDeployment.keccak 0 sampleTable sampleTree

theorem setting_sample : Setting sampleDeployment sampleEnclave {b | b ∈ pathHashed} := by
  refine ⟨rfl, ?_, ?_, ?_⟩
  · intro plaintext p hp
    simp only [sampleEnclave] at hp
    split at hp
    · obtain rfl := Except.ok.inj hp
      exact ⟨⟨0, rfl⟩, by decide⟩
    · cases hp
  · apply injOn_hashed
    decide +kernel
  · have h : ∀ b ∈ pathHashed, sampleDeployment.keccak b ≠ 0 := by
      decide +kernel
    exact h

def honestStep (c : ContractConfig) : Act → Bool
  | .call _ (.claim ..) | .call _ (.finalizeRound ..) => false
  | .call .. => c.stack.isEmpty
  | a => quietAndExact c a

theorem honestStep_ok {c : ContractConfig} {a : Act} (h : honestStep c a = true) :
    Honest sampleDeployment sampleEnclave {b | b ∈ pathHashed} c a := by
  have hexact : TokensExact c a := by
    unfold honestStep at h
    split at h
    · cases h
    · cases h
    · exact tokensExact_call _ _
    · exact (quietAndExact_ok h).2
  refine ⟨?_, hexact, ?_, ?_⟩
  · rintro msg call rfl
    cases call with
    | claim => cases h
    | finalizeRound => cases h
    | _ => exact List.isEmpty_iff.mp h
  · rintro _ _ _ _ _ _ rfl
    cases h
  · rintro _ _ _ _ _ rfl
    cases h

theorem awaits_sample {w : World} (h : w.waiting = ⟨.computing, false, 0, 18, sampleDeployment.keccak [42], 7, 0, 1⟩) :
    AwaitsResult sampleDeployment sampleEnclave {b | b ∈ pathHashed} w 0 [42] samplePolicy sampleTable := by
  simp only [World.waiting, Waiting.mk.injEq] at h
  obtain ⟨hstatus, -, -, hfunded, hcommitment, -⟩ := h
  have htable : evaluate samplePolicy = .ok sampleTable := by decide
  have htree : MerkleTree.buildMerkleTree sampleEnclave.keccak
      (leavesOf sampleEnclave.keccak (value samplePolicy.roundId) sampleTable) = some sampleTree := by
    decide +kernel
  refine ⟨hstatus, hcommitment.symm, ⟨[42], rfl, rfl⟩, rfl, rfl, by decide, htable, ?_, ?_⟩
  · rw [Fin.val_zero, hfunded]
    decide
  · refine ⟨List.mem_cons_self, ?_⟩
    rintro p table tree ⟨plaintext, -, hp⟩ hevaluated hbuilt
    simp only [sampleEnclave] at hp
    split at hp
    · obtain rfl := Except.ok.inj hp
      obtain rfl := Except.ok.inj (hevaluated.symm.trans htable)
      obtain rfl := Option.some.inj (hbuilt.symm.trans htree)
      exact fun b hb => List.mem_cons_of_mem _ hb
    · cases hp

def pathAction : Action := ⟨99, []⟩

def pathData : DataFixed := ⟨opTypeAlloc, opCommandCompute, [42]⟩

def pathReply : ActionResult := (processCompute sampleEnclave emptyEngine pathAction pathData 0).2

theorem honest_path_completes_sample : ∃ w w₁,
    (machine sampleDeployment).run (waitingRun [42] 18) sampleStart = some ⟨w, []⟩ ∧
    pathReply.status = statusSuccess ∧
    (machine sampleDeployment).next (.call (sampleMsg 3 0) (.finalizeRound pathReply.data pathAction.id
      pathAction.submissionTag pathReply.status sampleSignature)) ⟨w, []⟩ = some ⟨w₁, []⟩ ∧
    Completes sampleDeployment sampleEnclave (Viem.standard sampleDeployment.keccak)
      {b | b ∈ pathHashed} (processCompute sampleEnclave emptyEngine pathAction pathData 0).1
      (sampleDeployment.keccak [42]) 0 sampleTable w₁ 3600 := by
  have hrun : ((machine sampleDeployment).run (waitingRun [42] 18) sampleStart).map
      (fun c => (c.stack.length, c.world.waiting, c.world.now,
        (c.world.storage.rounds 0).computeInstructionId, (c.world.storage.rounds 0).claimWindow)) =
      some (0, ⟨.computing, false, 0, 18, sampleDeployment.keccak [42], 7, 0, 1⟩, 0, 99, 3600) := by
    decide
  have hsteps : StepsMeet (machine sampleDeployment) (waitingRun [42] 18) sampleStart
      (Honest sampleDeployment sampleEnclave {b | b ∈ pathHashed}) :=
    .of_meets (fun _ _ => honestStep_ok) (by decide)
  obtain ⟨⟨w, stack⟩, hc, hend⟩ := Option.map_eq_some_iff.mp hrun
  simp only [Prod.mk.injEq, List.length_eq_zero_iff] at hend
  obtain ⟨rfl, hwaiting, hnow, hid, hwindow⟩ := hend
  have htee : w.storage.teeAddress = 7 := congrArg Waiting.tee hwaiting
  obtain ⟨hstatus, w₁, hnext, -, hcompletes⟩ := honest_path_completes sampleDeployment sampleEnclave
    (Viem.standard sampleDeployment.keccak) {b | b ∈ pathHashed} setting_sample 1 (fun _ => 0) 0 w
    (hsteps.reaches _ List.prefix_rfl _ hc) 0 [42] samplePolicy sampleTable (awaits_sample hwaiting)
    emptyEngine pathAction pathData 0 rfl hid.symm sampleSignature (by rw [htee]; rfl) (sampleMsg 3 0)
    hnow.symm rfl (by decide) (by rw [hnow, Fin.val_zero, hwindow]; decide)
  rw [hnow, Fin.val_zero, hwindow] at hcompletes
  exact ⟨w, w₁, hc, hstatus, hnext, hcompletes⟩

/-- In the last second of the contract's clock the deadline overflows, and the same answer is
refused. -/
theorem late_answer_refused : ∃ w : World,
    Reachable sampleDeployment 1 (fun _ => 0) 0
      (Honest sampleDeployment sampleEnclave {b | b ∈ pathHashed}) ⟨w, []⟩ ∧
    AwaitsResult sampleDeployment sampleEnclave {b | b ∈ pathHashed} w 0 [42] samplePolicy sampleTable ∧
    pathAction.id = (w.storage.rounds 0).computeInstructionId ∧
    TeeResultVerifier.recoverSigner sampleDeployment pathReply.data pathAction.id pathAction.submissionTag
      pathReply.status sampleSignature = .ok w.storage.teeAddress ∧
    (machine sampleDeployment).next (.call ⟨3, 0, w.now, sampleRegistry⟩ (.finalizeRound pathReply.data
      pathAction.id pathAction.submissionTag pathReply.status sampleSignature)) ⟨w, []⟩ = none := by
  let late : List Act := waitingRun [42] 18 ++ [.tick (2 ^ 48 - 1)]
  let finalize : Act := .call ⟨3, 0, 2 ^ 48 - 1, sampleRegistry⟩ (.finalizeRound pathReply.data
    pathAction.id pathAction.submissionTag pathReply.status sampleSignature)
  have hrun : ((machine sampleDeployment).run late sampleStart).map
      (fun c => (c.stack.length, c.world.waiting, c.world.now,
        (c.world.storage.rounds 0).computeInstructionId,
        ((machine sampleDeployment).next finalize c).isNone)) =
      some (0, ⟨.computing, false, 0, 18, sampleDeployment.keccak [42], 7, 0, 1⟩, 2 ^ 48 - 1, 99, true) := by
    decide +kernel
  have hsteps : StepsMeet (machine sampleDeployment) late sampleStart
      (Honest sampleDeployment sampleEnclave {b | b ∈ pathHashed}) :=
    .of_meets (fun _ _ => honestStep_ok) (by decide)
  obtain ⟨⟨w, stack⟩, hc, hend⟩ := Option.map_eq_some_iff.mp hrun
  simp only [Prod.mk.injEq, List.length_eq_zero_iff, Option.isNone_iff_eq_none] at hend
  obtain ⟨rfl, hwaiting, hnow, hid, hrefused⟩ := hend
  have htee : w.storage.teeAddress = 7 := congrArg Waiting.tee hwaiting
  refine ⟨w, hsteps.reaches _ List.prefix_rfl _ hc, awaits_sample hwaiting, hid.symm, ?_, ?_⟩
  · rw [htee]
    rfl
  · rw [hnow]
    exact hrefused

end Sample

end Fidensur
