import Fidensur.DeadEnds

set_option autoImplicit false

/-! Runs in which every accepted result is the engine's answer to some ciphertext. -/

namespace Fidensur

open NestedCalls ByteWords

def Enclave.DecodesWords (E : Enclave) : Prop :=
  ∀ plaintext p, E.decodePolicy plaintext = .ok p →
    (∃ id : Uint256, p.roundId = some ((id : ℕ) : ℤ)) ∧ value p.totalBudget < 2 ^ 256

def AnswerHashedIn (E : Enclave) (S : Set Bytes) (ciphertext : Bytes) : Prop :=
  ciphertext ∈ S ∧ ∀ p table tree, E.Opens ciphertext p → evaluate p = .ok table →
    MerkleTree.buildMerkleTree E.keccak (leavesOf E.keccak (value p.roundId) table) = some tree →
    ∀ b ∈ MerkleTree.preimages E.keccak (value p.roundId) table tree, b ∈ S

/-- One call at a time, tokens that move what they report, and a registered machine that signs
nothing but the engine's answers. -/
structure Honest (D : Deployment) (E : Enclave) (S : Set Bytes) (c : ContractConfig) (a : Act) : Prop where
  sequential : Sequential c a
  exact : TokensExact c a
  signed : ∀ msg resultData actionId submissionTag status signature,
    a = .call msg (.finalizeRound resultData actionId submissionTag status signature) →
    TeeResultVerifier.recoverSigner D resultData actionId submissionTag status signature =
      .ok c.world.storage.teeAddress →
    ∃ ciphertext, Answers E ciphertext ⟨actionId, submissionTag⟩ status resultData ∧
      AnswerHashedIn E S ciphertext
  hashed : ∀ roundId, ClaimsHashedIn D S roundId c a

structure TableBehind (E : Enclave) (S : Set Bytes) (roundId : Uint256) (root : Bytes32) (total : ℕ)
    (table : List Allocation) : Prop where
  tabulated : ∃ p : Policy, p.Valid E.cfg ∧ p.Tabulated table
  rooted : ∃ tree, MerkleTree.buildMerkleTree E.keccak (leavesOf E.keccak (roundId : ℕ) table) = some tree ∧
    (∀ b ∈ MerkleTree.preimages E.keccak (roundId : ℕ) table tree, b ∈ S) ∧ root = MerkleTree.root tree
  total : (total : ℤ) = sumAllocations table

def RowsOf (table : List Allocation) (leaves : List Leaf) : Prop :=
  ∀ l ∈ leaves, table[(l.index : ℕ)]? = some l.row

def Kept (E : Enclave) (S : Set Bytes) (s : Storage) (log : List Entry) : Prop :=
  ∀ roundId : Uint256, (s.rounds roundId).merkleRoot ≠ 0 →
    ∃ table, TableBehind E S roundId (s.rounds roundId).merkleRoot (s.rounds roundId).totalAllocated table ∧
      RowsOf table (claims log roundId)

variable {D : Deployment} {E : Enclave} {S : Set Bytes} {msg : Msg} {view : Address → ℕ} {s s' : Storage}
  {call : Call} {x : Option Interaction} {c d : ContractConfig} {a : Act} {initialOwner : Address}
  {balance : Address → ℕ} {now : ℕ} {ok : ContractConfig → Act → Prop} {log : List Entry}
  {roundId : Uint256} {root : Bytes32} {total : ℕ} {table table' : List Allocation} {leaves : List Leaf}

section Tables

theorem RowsOf.subset (h : RowsOf table leaves) : leaves.map Leaf.row ⊆ table := by
  intro a ha
  obtain ⟨l, hl, rfl⟩ := List.mem_map.mp ha
  exact List.mem_of_getElem? (h l hl)

theorem RowsOf.sum_le (h : RowsOf table leaves) (hn : (leaves.map Leaf.index).Nodup)
    (hpos : ∀ a ∈ table, 0 < a.amount) :
    ((amounts leaves).sum : ℤ) ≤ sumAllocations table := by
  obtain ⟨rows, hperm, hsub⟩ := List.subperm_of_subset (nodup_map_row hn) h.subset
  have hsum : sumAllocations rows = sumAllocations (leaves.map Leaf.row) := (hperm.map _).sum_eq
  have hle : sumAllocations rows ≤ sumAllocations table := by
    apply (hsub.map Allocation.amount).sum_le_sum
    intro x hx
    obtain ⟨a, ha, rfl⟩ := List.mem_map.mp hx
    exact (hpos a ha).le
  rw [hsum, sum_map_row] at hle
  exact hle

theorem RowsOf.sum_eq (h : RowsOf table leaves) (hn : (leaves.map Leaf.index).Nodup)
    (htable : table.Nodup) (hall : table ⊆ leaves.map Leaf.row) :
    ((amounts leaves).sum : ℤ) = sumAllocations table := by
  have hperm : (leaves.map Leaf.row).Perm table :=
    (List.perm_ext_iff_of_nodup (nodup_map_row hn) htable).mpr fun a => ⟨fun ha => h.subset ha, fun ha => hall ha⟩
  rw [← sum_map_row]
  exact (hperm.map _).sum_eq

theorem Policy.Tabulated.exists_leaf {p : Policy} (h : p.Tabulated table) (hp : p.Valid E.cfg)
    (hsum : sumAllocations table < 2 ^ 256) {j : ℕ} (hj : j < table.length) :
    ∃ l : Leaf, (l.index : ℕ) = j ∧ l.row = table[j] := by
  have hcount : table.length ≤ 4096 := h.count.trans hp.count
  have hpos := h.positive _ (List.getElem_mem hj)
  have hle : table[j].amount ≤ sumAllocations table :=
    List.single_le_sum (List.forall_mem_map.mpr fun a ha => (h.positive a ha).le) _
      (List.mem_map_of_mem (List.getElem_mem hj))
  have hindex := h.indexed j hj
  refine ⟨⟨⟨table[j].index, by omega⟩, table[j].recipient, ⟨table[j].amount.toNat, by omega⟩⟩, hindex, ?_⟩
  have hamount : ((table[j].amount.toNat : ℕ) : ℤ) = table[j].amount := Int.toNat_of_nonneg hpos.le
  simp only [Leaf.row, hamount]

/-- Every order of the rows is a list of leaves. -/
theorem Policy.Tabulated.exists_leaves {p : Policy} (h : p.Tabulated table) (hp : p.Valid E.cfg)
    (hsum : sumAllocations table < 2 ^ 256) {order : List Allocation} (hperm : order.Perm table) :
    ∃ leaves : List Leaf, leaves.map Leaf.row = order ∧ RowsOf table leaves ∧ leaves.Nodup := by
  have hleaf : ∀ a ∈ order, a ∈ Set.range Leaf.row := by
    intro a ha
    obtain ⟨j, hj, rfl⟩ := List.getElem_of_mem (hperm.mem_iff.mp ha)
    obtain ⟨l, -, hrow⟩ := h.exists_leaf hp hsum hj
    exact ⟨l, hrow⟩
  obtain ⟨leaves, rfl⟩ : order ∈ Set.range (List.map Leaf.row) := by
    rw [Set.range_list_map]
    exact hleaf
  refine ⟨leaves, rfl, ?_, (hperm.nodup_iff.mpr h.distinct.of_map).of_map⟩
  intro l hl
  obtain ⟨j, hj, hrow⟩ := List.getElem_of_mem (hperm.mem_iff.mp (List.mem_map_of_mem hl))
  have hindex : (l.index : ℕ) = j := by
    have := h.indexed j hj
    rwa [hrow] at this
  rw [hindex, List.getElem?_eq_getElem hj, hrow]

theorem verify_proof {tree : List (List Bytes32)} {l : Leaf}
    (htree : MerkleTree.buildMerkleTree E.keccak (leavesOf E.keccak (roundId : ℕ) table) = some tree)
    (hroot : MerkleTree.root tree ≠ 0) {j : ℕ} (hj : j < table.length) (hrow : l.row = table[j]) :
    AllocationMerkle.verify E.keccak (MerkleTree.root tree) roundId l.index l.recipient l.amount
      (MerkleTree.proof tree j) = true := by
  have hlen : j < (leavesOf E.keccak (roundId : ℕ) table).length := by simpa [leavesOf] using hj
  have hleaf : (leavesOf E.keccak (roundId : ℕ) table)[j] =
      AllocationMerkle.leafHash E.keccak roundId l.index l.recipient l.amount := by
    simp only [leavesOf, List.getElem_map, ← hrow]
    exact MerkleTree.leafHash_eq E.keccak rfl rfl rfl
  have hverified := MerkleTree.verifyLeaf_proof E.keccak htree hlen
  rw [AllocationMerkle.verify, if_neg hroot, ← hleaf]
  exact hverified

theorem claim_hashed {tree : List (List Bytes32)} {l : Leaf}
    (htree : MerkleTree.buildMerkleTree E.keccak (leavesOf E.keccak (roundId : ℕ) table) = some tree)
    {j : ℕ} (hj : j < table.length) (hrow : l.row = table[j]) :
    ∀ b ∈ AllocationMerkle.preimages E.keccak roundId l.index l.recipient l.amount
      (MerkleTree.proof tree j), b ∈ MerkleTree.preimages E.keccak (roundId : ℕ) table tree := by
  have hindex : table[j].index = (l.index : ℕ) := by rw [← hrow]; rfl
  have hrecipient : table[j].recipient = l.recipient := by rw [← hrow]; rfl
  have hamount : table[j].amount = (l.amount : ℕ) := by rw [← hrow]; rfl
  have hsub := MerkleTree.preimages_subset hj hindex hamount htree
  rwa [hrecipient] at hsub

theorem TableBehind.subset (hS : Set.InjOn E.keccak S) (hroot : root ≠ 0) (hlt : total < 2 ^ 256)
    (h : TableBehind E S roundId root total table) (h' : TableBehind E S roundId root total table') :
    ∀ j, (hj : j < table.length) → table'[j]? = some table[j] := by
  intro j hj
  obtain ⟨p, hp, htab⟩ := h.tabulated
  obtain ⟨p', hp', htab'⟩ := h'.tabulated
  obtain ⟨tree, htree, hbuilt, rfl⟩ := h.rooted
  obtain ⟨tree', htree', hbuilt', hsame⟩ := h'.rooted
  have hsum : sumAllocations table < 2 ^ 256 := by
    rw [← h.total]
    exact_mod_cast hlt
  obtain ⟨l, hindex, hrow⟩ := htab.exists_leaf hp hsum hj
  have hverify := verify_proof htree hroot hj hrow
  have hclaim := claim_hashed htree hj hrow
  rw [hsame] at hverify
  have hrow' := htab'.row_of_claim hp' hS htree' hbuilt' (fun b hb => hbuilt b (hclaim b hb)) hverify
  rw [hindex] at hrow'
  rw [hrow', hrow]

/-- A root stands for one table. -/
theorem TableBehind.unique (hS : Set.InjOn E.keccak S) (hroot : root ≠ 0) (hlt : total < 2 ^ 256)
    (h : TableBehind E S roundId root total table) (h' : TableBehind E S roundId root total table') :
    table = table' := by
  have hsub := h.subset hS hroot hlt h'
  have hsub' := h'.subset hS hroot hlt h
  apply List.ext_getElem?
  intro j
  by_cases hj : j < table.length
  · rw [hsub j hj, List.getElem?_eq_getElem hj]
  · by_cases hj' : j < table'.length
    · rw [hsub' j hj', List.getElem?_eq_getElem hj']
    · rw [List.getElem?_eq_none (by omega), List.getElem?_eq_none (by omega)]

end Tables

section Runs

theorem packUint256_eq {v : ℤ} (h : 0 ≤ v) (hlt : v < 2 ^ 256) : ((packUint256 v : ℕ) : ℤ) = v := by
  have hword := packUint256_natCast ⟨v.toNat, by omega⟩
  rw [Int.toNat_of_nonneg h] at hword
  rw [hword]
  exact Int.toNat_of_nonneg h

theorem TableBehind.of_answer (hwords : E.DecodesWords) {ciphertext resultData : Bytes} {action : Action}
    {res : AllocationResult} (ha : Answers E ciphertext action statusSuccess resultData)
    (hhashed : AnswerHashedIn E S ciphertext) (hd : AllocationResult.decode resultData = some res) :
    ∃ table, TableBehind E S res.roundId res.merkleRoot res.totalAllocated table := by
  obtain ⟨p, table, tree, time, hopen, hvalid, htable, htree, rfl⟩ := ha.decoded hd
  have hbuilt := hhashed.2 p table tree hopen htable htree
  obtain ⟨plaintext, hplain, hp⟩ := hopen
  obtain ⟨⟨id, hid⟩, hbudget⟩ := hwords plaintext p hp
  have hv := Policy.Valid.of_validate hvalid
  have htab := evaluate_ok hv htable
  have hvalue : value p.roundId = (id : ℕ) := by rw [hid]; rfl
  have hround : packUint256 (value p.roundId) = id := by
    rw [hvalue]
    exact packUint256_natCast id
  have hnonneg : 0 ≤ sumAllocations table :=
    List.sum_nonneg (List.forall_mem_map.mpr fun a ha => (htab.positive a ha).le)
  rw [hvalue] at htree hbuilt
  refine ⟨table, ⟨p, hv, htab⟩, ⟨tree, ?_, ?_, rfl⟩, packUint256_eq hnonneg (htab.budget.trans_lt hbudget)⟩
  · simp only [ComputedRound.result, ComputedRound.build, hround]
    exact htree
  · simp only [ComputedRound.result, ComputedRound.build, hround]
    exact hbuilt

theorem ClaimsRecorded.none_of_computing {keccak : Keccak} (h : ClaimsRecorded keccak S s log) (hs : s.Shape)
    (hst : (s.rounds roundId).status = .computing) : claims log roundId = [] := by
  apply List.eq_nil_iff_forall_not_mem.mpr
  intro l hl
  obtain ⟨proof, hproof, -⟩ := h.proved roundId l hl
  exact verify_root_ne_zero hproof ((hs.rounds roundId).unclaimed (by simp [hst]) (by simp [hst])).2.2

theorem Reachable.honest_fresh (h : Reachable D initialOwner balance now (Honest D E S) c) :
    DispatchFresh c a :=
  (Reachable.atMostOne (fun _ _ ha => Honest.sequential ha) h).fresh

theorem Reachable.honest_coherent (h : Reachable D initialOwner balance now (Honest D E S) c) :
    Coherent D c := by
  have hseq := Reachable.sequential (fun _ _ ha => Honest.sequential ha) h
  exact Reachable.coherent (fun _ _ ha => ha.2) hseq

theorem Reachable.honest_claims (h : Reachable D initialOwner balance now (Honest D E S) c) :
    ClaimsRecorded D.keccak S c.world.storage c.world.log := by
  have hseq := Reachable.sequential (fun _ _ ha => Honest.sequential ha) h
  exact Reachable.claimsRecorded (fun _ _ ha => ⟨ha.2, ha.1.hashed⟩) hseq

theorem Reachable.honest_root_ne_zero (h : Reachable D initialOwner balance now (Honest D E S) c)
    (hst : (c.world.storage.rounds roundId).status = .finalized) :
    (c.world.storage.rounds roundId).merkleRoot ≠ 0 :=
  (h.honest_coherent.shape.rounds roundId).rooted (.inl hst)

theorem Kept.started (h : Kept E S c.world.storage c.world.log) (hwords : E.DecodesWords)
    (hkeccak : E.keccak = D.keccak) (hS : Set.InjOn E.keccak S)
    (hrecorded : ClaimsRecorded D.keccak S c.world.storage c.world.log) (hs : c.world.storage.Shape)
    (ha : Honest D E S c (.call msg call)) (hst : Started D msg view c.world.storage call s' x) :
    Kept E S s' (⟨msg, call, .started x, s'⟩ :: c.world.log) := by
  intro id hroot
  rcases hst.promise id with hp | ⟨data, actionId, tag, status, signature, res, rfl, hd, hid, hcomp, hp⟩
  · have hroot' : (s'.rounds id).merkleRoot = (c.world.storage.rounds id).merkleRoot :=
      congrArg Prod.fst hp
    have htotal : (s'.rounds id).totalAllocated = (c.world.storage.rounds id).totalAllocated :=
      congrArg Prod.snd hp
    rw [hroot'] at hroot ⊢
    rw [htotal]
    obtain ⟨table, hb, hrows⟩ := h id hroot
    refine ⟨table, hb, fun l hl => ?_⟩
    rw [claims_cons, List.mem_append, Option.mem_toList] at hl
    refine hl.elim (fun hl => ?_) (hrows l)
    obtain ⟨proof, y, hcall, -, hsender⟩ := claimed_some hl
    simp only at hcall hsender
    subst hcall
    obtain ⟨p, hv, htab⟩ := hb.tabulated
    obtain ⟨tree, htree, hbuilt, htreeRoot⟩ := hb.rooted
    cases hst with
    | configure _ _ _ _ _ hconf => cases hconf
    | claim _ _ _ _ _ _ _ _ hverify =>
      rw [htreeRoot, ← hkeccak] at hverify
      have hclaim := ha.hashed id msg l.index l.amount proof rfl
      rw [← hkeccak] at hclaim
      have hrow := htab.row_of_claim hv hS htree hbuilt hclaim hverify
      rwa [hsender] at hrow
  · obtain rfl := Fin.ext hid
    have hnone := hrecorded.none_of_computing hs hcomp
    cases hst with
    | configure _ _ _ _ _ hconf => cases hconf
    | finalizeRound _ _ _ _ res' _ hsig hd' =>
      obtain ⟨ciphertext, hanswer, hhashed⟩ := ha.signed _ _ _ _ _ _ rfl hsig
      obtain ⟨table, hb⟩ := TableBehind.of_answer hwords hanswer hhashed hd
      refine ⟨table, ?_, ?_⟩
      · obtain ⟨hroot', htotal⟩ := Prod.mk.inj hp
        rw [hroot', htotal]
        exact hb
      · rw [claims_cons_of_not_claim rfl, hnone]
        exact fun _ hl => absurd hl List.not_mem_nil

theorem Reachable.kept (hwords : E.DecodesWords) (hkeccak : E.keccak = D.keccak)
    (hS : Set.InjOn E.keccak S) (h : Reachable D initialOwner balance now (Honest D E S) c) :
    Kept E S c.world.storage c.world.log := by
  refine Reachable.invariant (P := fun c => Kept E S c.world.storage c.world.log)
    (fun _ hroot => absurd rfl hroot) ?_ h
  intro c a d hr hp ha hstep
  have hrecorded := Reachable.honest_claims hr
  have hshape := (Reachable.honest_coherent hr).shape
  have hkeep {s' : Storage} {log : List Entry}
      (hpromise : ∀ id, (s'.rounds id).promise = (c.world.storage.rounds id).promise)
      (hlog : ∀ id, claims log id = claims c.world.log id) : Kept E S s' log := by
    intro id hroot
    obtain ⟨hroot', htotal⟩ := Prod.mk.inj (hpromise id)
    rw [hroot'] at hroot ⊢
    rw [htotal, hlog]
    exact hp id hroot
  cases hstep with
  | done msg call ht hself hst => exact hp.started hwords hkeccak hS hrecorded hshape ha hst
  | pending msg call ht hself hst => exact hp.started hwords hkeccak hS hrecorded hshape ha hst
  | settled p => exact hkeep (fun _ => rfl) (claims_cons_settled _ _ _ _ _)
  | replied p reply hacc hf => exact hkeep hf.promise (claims_cons_finished _ _ _ _ _)
  | _ => exact hp

theorem Reachable.honest_solvent (hwords : E.DecodesWords) (hkeccak : E.keccak = D.keccak)
    (hS : Set.InjOn E.keccak S) (h : Reachable D initialOwner balance now (Honest D E S) c) :
    Solvent c := by
  have hrecorded := h.honest_claims
  have hkept := Reachable.kept hwords hkeccak hS h
  have hledger : Ledger c.world.storage c.world.log := by
    have hseq := Reachable.sequential (fun _ _ ha => Honest.sequential ha) h
    exact Reachable.ledger (fun _ _ ha => ha.2) hseq
  refine .of_claimed h.honest_coherent hledger (fun id => ?_)
  rw [← hrecorded.total]
  by_cases hid : id < 2 ^ 256
  · cases hl : claims c.world.log id with
    | nil => exact Nat.zero_le _
    | cons l ls =>
      obtain ⟨proof, hproof, -⟩ := hrecorded.proved ⟨id, hid⟩ l (by simp [hl])
      obtain ⟨table, hb, hrows⟩ := hkept ⟨id, hid⟩ (verify_root_ne_zero hproof)
      obtain ⟨p, -, htab⟩ := hb.tabulated
      have hle := hrows.sum_le (hrecorded.distinct id) htab.positive
      rw [← hb.total] at hle
      rw [← hl]
      exact_mod_cast hle
  · rw [claims_of_large hid _]
    exact Nat.zero_le _

theorem Reachable.honest_regular (hwords : E.DecodesWords) (hkeccak : E.keccak = D.keccak)
    (hS : Set.InjOn E.keccak S) (h : Reachable D initialOwner balance now (Honest D E S) c) :
    Reachable D initialOwner balance now Regular c := by
  have hboth : Reachable D initialOwner balance now (fun c a => Honest D E S c a ∧ Regular c a) c := by
    refine Reaches.and_taken ?_ h
    intro c a d hr ha hn
    have hd : Reachable D initialOwner balance now (Honest D E S) d := hr.tail ha hn
    exact ⟨Reachable.honest_fresh hr, ha.exact,
      claimCovered_of_solvent hn (Reachable.honest_solvent hwords hkeccak hS hd)⟩
  exact hboth.mono fun _ _ ha => ha.2

end Runs

section Finalized

def Round.terms (r : Round) : RoundStatus × (Bytes32 × ℕ) × ℕ := (r.status, r.promise, r.claimDeadline)

/-- Until its deadline only claims touch a finalized round. -/
theorem Started.terms (h : Started D msg view s call s' x) (hs : s.Shape) (id : ℕ)
    (hst : (s.rounds id).status = .finalized) : (s'.rounds id).terms = (s.rounds id).terms ∨
      (s.rounds id).claimDeadline < blockTimestamp48 msg := by
  have hlt : id < s.nextRoundId := hs.lt_next (by simp [hst])
  have hother {roundId : ℕ} {r : Round} (hr : s'.rounds = Function.update s.rounds roundId r)
      (hne : (s.rounds roundId).status ≠ .finalized) : (s'.rounds id).terms = (s.rounds id).terms := by
    have hid : id ≠ roundId := by
      rintro rfl
      exact hne hst
    rw [hr, Function.update_of_ne hid]
  cases h with
  | createRound =>
    left
    simp only [Storage.setRound_rounds, Function.update_of_ne hlt.ne]
  | fundNative => exact .inl (Round.field_same Round.terms rfl (by rfl) id)
  | submitPolicy roundId policyCommitment hopen => exact .inl (hother rfl (by simp [hopen]))
  | finalizeRound _ _ _ _ res _ _ _ _ hcomp => exact .inl (hother rfl (by simp [hcomp]))
  | claim => exact .inl (Round.field_same Round.terms rfl (by rfl) id)
  | closeRound roundId hg hfinal hlate =>
    by_cases hid : id = roundId
    · subst hid
      exact .inr hlate
    · left
      simp [Storage.wound, Function.update_of_ne hid]
  | cancelRound roundId hg hcancel =>
    exact .inl (hother rfl (by rcases hcancel with hcancel | hcancel <;> simp [hcancel]))
  | _ => exact .inl rfl

theorem Finished.terms {y : Interaction} {reply : Reply} (h : Finished msg s y reply call s') (id : ℕ)
    (hst : (s.rounds id).status = .finalized)
    (hdispatch : ∀ roundId ciphertext, call = .requestCompute roundId ciphertext →
      (s.rounds roundId).status.dispatchable) : (s'.rounds id).terms = (s.rounds id).terms := by
  cases h with
  | fund => exact Round.field_same Round.terms rfl (by rfl) id
  | requestCompute roundId ciphertext =>
    have hid : id ≠ roundId := by
      rintro rfl
      rcases hdispatch roundId ciphertext rfl with hd | hd <;> simp [hst] at hd
    simp [recordDispatch, Function.update_of_ne hid]
  | _ => rfl

/-- A round finalized at `time` stays as it is while its window lasts. -/
structure OpenUntil (roundId : Uint256) (r : Round) (time : ℕ) (c : ContractConfig) : Prop where
  later : time ≤ c.world.now
  terms (h : c.world.now ≤ time + r.claimWindow) :
    (c.world.storage.rounds roundId).terms = r.terms

theorem Round.Evolves.with_result {r r' : Round} (h : r.Evolves r')
    (hst : r.status = .finalized ∨ r.status = .closed) : r'.status = .finalized ∨ r'.status = .closed := by
  have hmove := h.status
  generalize r'.status = status' at hmove ⊢
  rcases hst with hst | hst
  · rw [hst] at hmove
    cases hmove with
    | stay => exact .inl rfl
    | close => exact .inr rfl
  · rw [hst] at hmove
    cases hmove
    exact .inr rfl

theorem Reachable.promise_kept {r : Round} {w : World}
    (h : Reachable D initialOwner balance now (Honest D E S) ⟨w, []⟩)
    (hr : w.storage.rounds roundId = r) (hst : r.status = .finalized)
    (hc : Reaches (machine D) (Honest D E S) ⟨w, []⟩ c) :
    ((c.world.storage.rounds roundId).status = .finalized ∨
      (c.world.storage.rounds roundId).status = .closed) ∧
      (c.world.storage.rounds roundId).promise = r.promise := by
  refine Reaches.invariant (P := fun c => ((c.world.storage.rounds roundId).status = .finalized ∨
    (c.world.storage.rounds roundId).status = .closed) ∧
    (c.world.storage.rounds roundId).promise = r.promise) rfl ⟨.inl (by rw [hr, hst]), by rw [hr]⟩ ?_ hc
  rintro c a e d hreach ⟨hstatus, hpromise⟩ ha he hne hd
  have hcoherent := Reachable.honest_coherent (h.trans hreach)
  have hstarted {msg : Msg} {call : Call} {s' : Storage} {x : Option Interaction}
      (hstart : Started D msg (msg.received c.world.balance) c.world.storage call s' x) :
      (s'.rounds roundId).promise = r.promise := by
    rcases hstart.promise roundId with hkept | ⟨_, _, _, _, _, _, -, -, -, hcomp, -⟩
    · exact hkept.trans hpromise
    · rw [hcomp] at hstatus
      simp at hstatus
  cases Stepped.of_machine he hne hd with
  | done msg call ht hself hstart =>
    exact ⟨(hstart.evolves hcoherent.shape roundId).with_result hstatus, hstarted hstart⟩
  | pending msg call ht hself hstart =>
    exact ⟨(hstart.evolves hcoherent.shape roundId).with_result hstatus, hstarted hstart⟩
  | replied p reply hacc hf =>
    have hdispatch := hcoherent.dispatchable (Reachable.honest_fresh (h.trans hreach)) hf
    exact ⟨(hf.evolves hdispatch roundId).with_result hstatus, (hf.promise _).trans hpromise⟩
  | _ => exact ⟨hstatus, hpromise⟩

theorem mod_within {time now window : ℕ} (hfits : time % 2 ^ 48 + window < 2 ^ 48) (hle : time ≤ now)
    (hnow : now ≤ time + window) : now % 2 ^ 48 ≤ time % 2 ^ 48 + window := by
  omega

theorem Reachable.openUntil {r : Round} {time : ℕ} {w : World}
    (h : Reachable D initialOwner balance now (Honest D E S) ⟨w, []⟩)
    (hr : w.storage.rounds roundId = r) (htime : w.now = time) (hst : r.status = .finalized)
    (hdeadline : r.claimDeadline = time % 2 ^ 48 + r.claimWindow) (hfits : r.claimDeadline < 2 ^ 48)
    (hc : Reaches (machine D) (Honest D E S) ⟨w, []⟩ c) : OpenUntil roundId r time c := by
  refine Reaches.invariant rfl ⟨htime.ge, fun _ => by rw [hr]⟩ ?_ hc
  intro c a e d hreach hp ha he hne hd
  have hcoherent := Reachable.honest_coherent (h.trans hreach)
  have hstarted {msg : Msg} {call : Call} {s' : Storage} {x : Option Interaction}
      (ht : msg.timestamp = c.world.now)
      (hstart : Started D msg (msg.received c.world.balance) c.world.storage call s' x)
      (hnow : c.world.now ≤ time + r.claimWindow) : (s'.rounds roundId).terms = r.terms := by
    have hterms := hp.terms hnow
    have hstatus : (c.world.storage.rounds roundId).status = .finalized :=
      (congrArg Prod.fst hterms).trans hst
    have hsame : (c.world.storage.rounds roundId).claimDeadline = r.claimDeadline :=
      congrArg (fun t => t.2.2) hterms
    rcases hstart.terms hcoherent.shape roundId hstatus with hkept | hlate
    · exact hkept.trans hterms
    · rw [hsame, blockTimestamp48, ht, hdeadline] at hlate
      have := mod_within (hdeadline ▸ hfits) hp.later hnow
      omega
  cases Stepped.of_machine he hne hd with
  | done msg call ht hself hstart => exact ⟨hp.later, hstarted ht hstart⟩
  | pending msg call ht hself hstart => exact ⟨hp.later, hstarted ht hstart⟩
  | settled p => exact ⟨hp.later, hp.terms⟩
  | replied p reply hacc hf =>
    refine ⟨hp.later, fun hnow => ?_⟩
    have hterms := hp.terms hnow
    have hstatus := (congrArg Prod.fst hterms).trans hst
    have hdispatch := hcoherent.dispatchable (Reachable.honest_fresh (h.trans hreach)) hf
    exact (hf.terms roundId hstatus hdispatch).trans hterms
  | credit => exact ⟨hp.later, hp.terms⟩
  | drift => exact ⟨hp.later, hp.terms⟩
  | tick seconds =>
    exact ⟨hp.later.trans (Nat.le_add_right _ _), fun hnow => hp.terms ((Nat.le_add_right _ _).trans hnow)⟩

end Finalized

section Claiming

variable {w : World} {tree : List (List Bytes32)} {l : Leaf} {j : ℕ}

structure Claimable (E : Enclave) (S : Set Bytes) (roundId : Uint256) (table : List Allocation)
    (w : World) : Prop where
  status : (w.storage.rounds roundId).status = .finalized
  time : w.now % 2 ^ 48 ≤ (w.storage.rounds roundId).claimDeadline
  backed : TableBehind E S roundId (w.storage.rounds roundId).merkleRoot
    (w.storage.rounds roundId).totalAllocated table
  rows : RowsOf table (claims w.log roundId)
  fits : (w.storage.rounds roundId).totalAllocated < 2 ^ 256

/-- A finalized round keeps its table, and only rows of it are claimed. -/
theorem Reachable.table_kept (hwords : E.DecodesWords) (hkeccak : E.keccak = D.keccak)
    (hS : Set.InjOn E.keccak S) (h : Reachable D initialOwner balance now (Honest D E S) ⟨w, []⟩)
    (hst : (w.storage.rounds roundId).status = .finalized)
    (hb : TableBehind E S roundId (w.storage.rounds roundId).merkleRoot
      (w.storage.rounds roundId).totalAllocated table)
    (hlt : (w.storage.rounds roundId).totalAllocated < 2 ^ 256) {w' : World}
    (hreach : Reaches (machine D) (Honest D E S) ⟨w, []⟩ ⟨w', []⟩) :
    TableBehind E S roundId (w'.storage.rounds roundId).merkleRoot
        (w'.storage.rounds roundId).totalAllocated table ∧
      RowsOf table (claims w'.log roundId) ∧ (w'.storage.rounds roundId).totalAllocated < 2 ^ 256 := by
  have hne := Reachable.honest_root_ne_zero h hst
  obtain ⟨-, hpromise⟩ := Reachable.promise_kept h rfl hst hreach
  obtain ⟨hroot, htotal⟩ := Prod.mk.inj hpromise
  obtain ⟨table', hb', hrows⟩ := Reachable.kept hwords hkeccak hS (h.trans hreach) roundId (hroot ▸ hne)
  simp only at hne hroot htotal hb' hrows
  rw [hroot, htotal] at hb'
  obtain rfl := hb.unique hS hne hlt hb'
  rw [hroot, htotal]
  exact ⟨hb, hrows, hlt⟩

theorem Reachable.stays_claimable (hwords : E.DecodesWords) (hkeccak : E.keccak = D.keccak)
    (hS : Set.InjOn E.keccak S) (h : Reachable D initialOwner balance now (Honest D E S) ⟨w, []⟩)
    (hst : (w.storage.rounds roundId).status = .finalized)
    (hb : TableBehind E S roundId (w.storage.rounds roundId).merkleRoot
      (w.storage.rounds roundId).totalAllocated table)
    (hlt : (w.storage.rounds roundId).totalAllocated < 2 ^ 256)
    (hdeadline : (w.storage.rounds roundId).claimDeadline =
      w.now % 2 ^ 48 + (w.storage.rounds roundId).claimWindow)
    (hfits : (w.storage.rounds roundId).claimDeadline < 2 ^ 48) {w' : World}
    (hreach : Reaches (machine D) (Honest D E S) ⟨w, []⟩ ⟨w', []⟩)
    (hnow : w'.now ≤ w.now + (w.storage.rounds roundId).claimWindow) :
    Claimable E S roundId table w' := by
  obtain ⟨hb', hrows, hlt'⟩ := Reachable.table_kept hwords hkeccak hS h hst hb hlt hreach
  have huntil := Reachable.openUntil h rfl rfl hst hdeadline hfits hreach
  have hterms := huntil.terms hnow
  refine ⟨(congrArg Prod.fst hterms).trans hst, ?_, hb', hrows, hlt'⟩
  have hsame : (w'.storage.rounds roundId).claimDeadline = (w.storage.rounds roundId).claimDeadline :=
    congrArg (fun t => t.2.2) hterms
  rw [hsame, hdeadline]
  exact mod_within (hdeadline ▸ hfits) huntil.later hnow

theorem RowsOf.eq_of_index (h : RowsOf table leaves) (hindex : (l.index : ℕ) = j)
    (hrow : some l.row = table[j]?) {l' : Leaf} (hl' : l' ∈ leaves) (heq : l'.index = l.index) : l' = l := by
  have hrow' := h l' hl'
  rw [heq, hindex, ← hrow, Option.some.injEq] at hrow'
  exact (l.row_injective hrow').symm

theorem Reachable.affordable (h : Reachable D initialOwner balance now Regular ⟨w, []⟩) {id : ℕ}
    (hl : (w.storage.rounds id).status.live = true) :
    w.storage.entered = false ∧
      (w.storage.rounds id).funded - (w.storage.rounds id).totalClaimed ≤
        w.storage.outstanding (w.storage.rounds id).token ∧
      ∀ msg : Msg, w.storage.outstanding (w.storage.rounds id).token ≤
        msg.received w.balance (w.storage.rounds id).token := by
  have hc := Reachable.coherent (fun _ _ ha => ha.1) h
  have hsolvent := Reachable.solvent (fun _ _ ha => ⟨ha.1, ha.2.2⟩) h
  have hcovered := Reachable.covered (fun _ _ ha => ha.2.1) h (w.storage.rounds id).token
  refine ⟨h.idle, ?_, ?_⟩
  · refine le_trans ?_ (hsolvent.covered _)
    have hlt : id < w.storage.nextRoundId := hc.shape.lt_next (RoundStatus.ne_none_of_live hl)
    exact Finset.single_le_sum (f := fun id =>
      (w.storage.rounds id).funded - (w.storage.rounds id).totalClaimed) (fun _ _ => Nat.zero_le _)
      (Finset.mem_filter.mpr ⟨Finset.mem_range.mpr hlt, hl, rfl⟩)
  · intro msg
    have hreceived := received_ge msg w.balance (w.storage.rounds id).token
    simp only at hcovered
    omega

theorem Started.claim_affordable {index amount : Uint256} {proof : List Bytes32}
    (h : Started D msg view s (.claim roundId index amount proof) s' x) :
    (amount : ℕ) ≤ s.outstanding (s.rounds roundId).token := by
  cases h with
  | configure _ _ _ _ _ hconf => cases hconf
  | claim _ _ _ _ _ _ _ _ _ _ ho => exact ho

theorem Reachable.claim_goes_through (hwords : E.DecodesWords) (hkeccak : E.keccak = D.keccak)
    (hS : Set.InjOn E.keccak S) (h : Reachable D initialOwner balance now (Honest D E S) ⟨w, []⟩)
    (hclaimable : Claimable E S roundId table w)
    (htree : MerkleTree.buildMerkleTree E.keccak (leavesOf E.keccak (roundId : ℕ) table) = some tree)
    (hj : j < table.length) (hindex : (l.index : ℕ) = j) (hrow : l.row = table[j])
    (hnew : l ∉ claims w.log roundId) (hsender : msg.sender = l.recipient) (hvalue : msg.value = 0)
    (ht : msg.timestamp = w.now) :
    start D msg (msg.received w.balance) w.storage
        (.claim roundId l.index l.amount (MerkleTree.proof tree j)) =
      .ok ({ w.storage.claimPaid roundId l.index l.amount with
        entered := (SafeTransfer.payOut (w.storage.rounds roundId).token msg.sender l.amount).isSome },
        SafeTransfer.payOut (w.storage.rounds roundId).token msg.sender l.amount) := by
  have hregular := Reachable.honest_regular hwords hkeccak hS h
  have hlive : (w.storage.rounds roundId).status.live = true := by rw [hclaimable.status]; rfl
  obtain ⟨hg, hout, -⟩ := Reachable.affordable hregular hlive
  have hcounted := h.claimsCounted
  obtain ⟨p, hp, htab⟩ := hclaimable.backed.tabulated
  obtain ⟨tree', htree', -, hroot⟩ := hclaimable.backed.rooted
  obtain rfl := Option.some.inj (htree.symm.trans htree')
  have hshape := (Reachable.coherent (fun _ _ ha => ha.1) hregular).shape.rounds roundId
  have hfunds : (w.storage.rounds roundId).totalAllocated ≤ (w.storage.rounds roundId).funded :=
    hshape.allocated
  have hindexNew : l.index ∉ (claims w.log roundId).map Leaf.index := by
    intro hmem
    obtain ⟨l', hl', heq⟩ := List.mem_map.mp hmem
    have hsame := hclaimable.rows.eq_of_index hindex (by rw [hrow, List.getElem?_eq_getElem hj]) hl' heq
    exact hnew (hsame ▸ hl')
  have hbit : isClaimed w.storage roundId l.index = false := by
    rw [← Bool.not_eq_true, hcounted.marked]
    exact hindexNew
  have hverify : AllocationMerkle.verify D.keccak (w.storage.rounds roundId).merkleRoot roundId l.index
      msg.sender l.amount (MerkleTree.proof tree j) = true := by
    rw [hroot, hsender, ← hkeccak]
    exact verify_proof htree (hroot ▸ hshape.rooted (.inl hclaimable.status)) hj hrow
  -- the claims so far and this one are rows of the table
  have hsum : (w.storage.rounds roundId).totalClaimed + (l.amount : ℕ) ≤
      (w.storage.rounds roundId).totalAllocated := by
    have hrows : RowsOf table (l :: claims w.log roundId) := by
      refine List.forall_mem_cons.mpr ⟨?_, hclaimable.rows⟩
      rw [hindex, List.getElem?_eq_getElem hj, hrow]
    have hle := hrows.sum_le (List.nodup_cons.mpr ⟨hindexNew, hcounted.distinct roundId⟩) htab.positive
    rw [← hclaimable.backed.total, amounts, List.map_cons, List.sum_cons] at hle
    have htotal : (amounts (claims w.log roundId)).sum = (w.storage.rounds roundId).totalClaimed :=
      hcounted.total roundId
    rw [amounts] at htotal
    rw [htotal] at hle
    have hle' : (l.amount : ℕ) + (w.storage.rounds roundId).totalClaimed ≤
        (w.storage.rounds roundId).totalAllocated := by exact_mod_cast hle
    omega
  have ht' : blockTimestamp48 msg ≤ (w.storage.rounds roundId).claimDeadline := by
    rw [blockTimestamp48, ht]
    exact hclaimable.time
  exact bind_ok.mpr ⟨(), require_ok.mpr (.inr hvalue),
    claim_ok hg hclaimable.status ht' hbit hverify (hsum.trans_lt hclaimable.fits) (by omega)⟩

theorem Reachable.claim_iff (hwords : E.DecodesWords) (hkeccak : E.keccak = D.keccak)
    (hS : Set.InjOn E.keccak S) (h : Reachable D initialOwner balance now (Honest D E S) ⟨w, []⟩)
    (hclaimable : Claimable E S roundId table w)
    (htree : MerkleTree.buildMerkleTree E.keccak (leavesOf E.keccak (roundId : ℕ) table) = some tree)
    (hj : j < table.length) (hindex : (l.index : ℕ) = j) (hrow : l.row = table[j])
    (hsender : msg.sender = l.recipient) (hvalue : msg.value = 0) (ht : msg.timestamp = w.now) :
    (∃ out, start D msg (msg.received w.balance) w.storage
        (.claim roundId l.index l.amount (MerkleTree.proof tree j)) = .ok out) ↔
      l ∉ claims w.log roundId := by
  constructor
  · rintro ⟨⟨s', x⟩, hstart⟩ hl
    have hmarked := (h.claimsCounted.marked roundId l.index).mpr (List.mem_map_of_mem hl)
    cases Started.of_start hstart with
    | configure _ _ _ _ _ hconf => cases hconf
    | claim _ _ _ _ _ _ _ hb =>
      simp only at hmarked
      rw [hb] at hmarked
      cases hmarked
  · intro hnew
    exact ⟨_, Reachable.claim_goes_through hwords hkeccak hS h hclaimable htree hj hindex hrow hnew hsender
      hvalue ht⟩

theorem honest_quiet (h : a = .settle ∨ ∃ seconds, a = .tick seconds) : Honest D E S c a := by
  constructor
  · rintro _ _ rfl
    simp at h
  · exact tokensExact_quiet h
  · rintro _ _ _ _ _ _ rfl
    simp at h
  · rintro _ _ _ _ _ rfl
    simp at h

theorem honest_reply {f : Frame World PendingCall} {reply : Reply} (hstack : c.stack = [f])
    (hsettled : f.info.settled = true) : Honest D E S c (.reply reply) := by
  constructor
  · rintro _ _ ⟨⟩
  · apply tokensExact_reply
    rw [hstack]
    rintro _ ⟨⟩
    exact hsettled
  · rintro _ _ _ _ _ _ ⟨⟩
  · rintro _ _ _ _ _ ⟨⟩

theorem honest_claim {index amount : Uint256} {proof : List Bytes32}
    (h : ∀ b ∈ AllocationMerkle.preimages D.keccak roundId index msg.sender amount proof, b ∈ S) :
    Honest D E S ⟨w, []⟩ (.call msg (.claim roundId index amount proof)) := by
  constructor
  · exact fun _ _ _ => rfl
  · exact tokensExact_call msg _
  · rintro _ _ _ _ _ _ ⟨⟩
  · rintro _ _ _ _ _ ⟨⟩
    exact h

theorem Reachable.pays_claim (hwords : E.DecodesWords) (hkeccak : E.keccak = D.keccak)
    (hS : Set.InjOn E.keccak S) (h : Reachable D initialOwner balance now (Honest D E S) ⟨w, []⟩)
    (hclaimable : Claimable E S roundId table w) (hindex : (l.index : ℕ) = j)
    (hrow : table[j]? = some l.row) (hnew : l ∉ claims w.log roundId) (hself : l.recipient ≠ D.self) :
    ∃ w', Reaches (machine D) (Honest D E S) ⟨w, []⟩ ⟨w', []⟩ ∧ w'.now = w.now ∧
      claims w'.log roundId = l :: claims w.log roundId := by
  obtain ⟨hj, hrow⟩ := List.getElem?_eq_some_iff.mp hrow
  obtain ⟨p, -, htab⟩ := hclaimable.backed.tabulated
  obtain ⟨tree, htree, hbuilt, -⟩ := hclaimable.backed.rooted
  have hregular := Reachable.honest_regular hwords hkeccak hS h
  have hlive : (w.storage.rounds roundId).status.live = true := by rw [hclaimable.status]; rfl
  obtain ⟨-, -, hbal⟩ := Reachable.affordable hregular hlive
  let msg : Msg := ⟨l.recipient, 0, w.now, ⟨0, fun _ => 0, []⟩⟩
  have hstart : start D msg (msg.received w.balance) w.storage _ = .ok _ :=
    Reachable.claim_goes_through hwords hkeccak hS h hclaimable htree hj hindex hrow.symm hnew rfl rfl rfl
  have hout : (l.amount : ℕ) ≤ w.storage.outstanding (w.storage.rounds roundId).token :=
    (Started.of_start hstart).claim_affordable
  have hpos : (l.amount : ℕ) ≠ 0 := by
    have := htab.positive _ (List.getElem_mem hj)
    rw [hrow] at this
    simp only [Leaf.row] at this
    omega
  have hclaim (b : Bytes) (hb : b ∈ AllocationMerkle.preimages D.keccak roundId l.index msg.sender l.amount
      (MerkleTree.proof tree j)) : b ∈ S := by
    rw [← hkeccak] at hb
    exact hbuilt b (claim_hashed htree hj hrow.symm b hb)
  obtain ⟨w', later, hreach, -, hnow, hlog, hlater⟩ := reaches_payout (Honest D E S) rfl
    (honest_claim hclaim) (fun _ => honest_quiet (.inl rfl))
    (fun c f hstack _ hs => honest_reply hstack hs) rfl hself hpos (hout.trans (hbal msg)) hstart
  refine ⟨w', hreach, hnow, ?_⟩
  have hnone : claims later roundId = [] := by
    apply List.eq_nil_iff_forall_not_mem.mpr
    intro l hl
    obtain ⟨e, he, proof, y, -, hphase, -⟩ := mem_claims hl
    exact hlater e he y hphase
  rw [claims] at hnone
  rw [hlog, claims, List.filterMap_append, hnone, List.nil_append]
  change claims (_ :: w.log) roundId = _
  rw [claims_claim, if_pos rfl]
  rfl

theorem Reachable.pays_all (hwords : E.DecodesWords) (hkeccak : E.keccak = D.keccak)
    (hS : Set.InjOn E.keccak S) (h : Reachable D initialOwner balance now (Honest D E S) ⟨w, []⟩)
    (hopen : ∀ w', Reaches (machine D) (Honest D E S) ⟨w, []⟩ ⟨w', []⟩ → w'.now = w.now →
      Claimable E S roundId table w')
    (hrows : RowsOf table leaves) (hn : leaves.Nodup) (hnew : claims w.log roundId = [])
    (hself : ∀ l ∈ leaves, l.recipient ≠ D.self) :
    ∃ w', Reaches (machine D) (Honest D E S) ⟨w, []⟩ ⟨w', []⟩ ∧ w'.now = w.now ∧
      claims w'.log roundId = leaves.reverse := by
  induction leaves using List.reverseRecOn with
  | nil => exact ⟨w, .refl, rfl, hnew⟩
  | append_singleton leaves l ih =>
    obtain ⟨hn', -, hnot⟩ := List.nodup_append.mp hn
    obtain ⟨hself', hl⟩ := List.forall_mem_append.mp hself
    obtain ⟨hrows', hrow⟩ := List.forall_mem_append.mp hrows
    obtain ⟨w₁, hreach₁, hnow₁, hclaims₁⟩ := ih hrows' hn' hself'
    have hfresh : l ∉ claims w₁.log roundId := by
      rw [hclaims₁, List.mem_reverse]
      exact fun hmem => hnot l hmem l (List.mem_singleton_self l) rfl
    obtain ⟨w₂, hreach₂, hnow₂, hclaims₂⟩ := Reachable.pays_claim hwords hkeccak hS (h.trans hreach₁)
      (hopen w₁ hreach₁ hnow₁) rfl (hrow l (List.mem_singleton_self l)) hfresh
      (hl l (List.mem_singleton_self l))
    refine ⟨w₂, hreach₁.trans hreach₂, hnow₂.trans hnow₁, ?_⟩
    rw [hclaims₂, hclaims₁, List.reverse_append, List.reverse_singleton, List.singleton_append]

theorem Reachable.all_claimed (h : Reachable D initialOwner balance now (Honest D E S) ⟨w, []⟩)
    (hb : TableBehind E S roundId root (w.storage.rounds roundId).totalAllocated table)
    (hrows : RowsOf table (claims w.log roundId))
    (hall : ∀ a ∈ table, a ∈ (claims w.log roundId).map Leaf.row) :
    (w.storage.rounds roundId).totalClaimed = (w.storage.rounds roundId).totalAllocated ∧
      ((w.storage.rounds roundId).totalClaimed : ℤ) = sumAllocations table := by
  have hcounted := h.claimsCounted
  obtain ⟨p, -, htab⟩ := hb.tabulated
  have htotal : (amounts (claims w.log roundId)).sum = (w.storage.rounds roundId).totalClaimed :=
    hcounted.total roundId
  have hsum := hrows.sum_eq (hcounted.distinct roundId) htab.distinct.of_map hall
  rw [htotal] at hsum
  refine ⟨?_, hsum⟩
  have hsame := hsum.trans hb.total.symm
  exact_mod_cast hsame

end Claiming

end Fidensur
