import Fidensur.Coherence

set_option autoImplicit false

namespace Fidensur

open NestedCalls ByteWords

section Bitmap

theorem bitOf_lt (index : ℕ) : index &&& 0xff < 256 := by
  have h : index &&& (2 ^ 8 - 1) = index % 2 ^ 8 := Nat.and_two_pow_sub_one_eq_mod index 8
  norm_num at h
  omega

theorem index_eq {i j : ℕ} (hw : claimWord i = claimWord j) (hb : i &&& 0xff = j &&& 0xff) : i = j := by
  have hi : i &&& (2 ^ 8 - 1) = i % 2 ^ 8 := Nat.and_two_pow_sub_one_eq_mod i 8
  have hj : j &&& (2 ^ 8 - 1) = j % 2 ^ 8 := Nat.and_two_pow_sub_one_eq_mod j 8
  norm_num at hi hj
  simp only [claimWord, Nat.shiftRight_eq_div_pow] at hw
  omega

theorem claimMask_getLsbD (index k : ℕ) :
    (claimMask index).getLsbD k = decide (k = index &&& 0xff) := by
  have hlt := bitOf_lt index
  simp only [claimMask, BitVec.getLsbD_shiftLeft, BitVec.getLsbD_one]
  grind

theorem and_claimMask (word : BitVec 256) (index : ℕ) :
    (word &&& claimMask index != 0) = word.getLsbD (index &&& 0xff) := by
  cases hb : word.getLsbD (index &&& 0xff) with
  | true =>
    have hne : word &&& claimMask index ≠ 0 := by
      intro hz
      have hbit := congrArg (fun v => BitVec.getLsbD v (index &&& 0xff)) hz
      simp [claimMask_getLsbD, hb] at hbit
    simpa using hne
  | false =>
    have hz : word &&& claimMask index = 0 := by
      apply BitVec.eq_of_getLsbD_eq
      intro k _
      rw [BitVec.getLsbD_and, claimMask_getLsbD]
      by_cases hk : k = index &&& 0xff
      · simp [hk, hb]
      · simp [hk]
    simp [hz]

theorem isClaimed_iff {s : Storage} {roundId index : ℕ} :
    isClaimed s roundId index = (s.claimedBitmap roundId (claimWord index)).getLsbD (index &&& 0xff) :=
  and_claimMask _ _

theorem isClaimed_setClaimed (s : Storage) (roundId index id i : ℕ) :
    isClaimed (setClaimed roundId index s) id i =
      (decide (id = roundId ∧ i = index) || isClaimed s id i) := by
  simp only [isClaimed_iff, setClaimed]
  by_cases hid : id = roundId
  · subst hid
    by_cases hw : claimWord i = claimWord index
    · simp only [Function.update_self, hw, BitVec.getLsbD_or, claimMask_getLsbD]
      by_cases hi : i = index
      · simp [hi]
      · have hb : ¬ i &&& 0xff = index &&& 0xff := fun hb => hi (index_eq hw hb)
        simp [hi, hb]
    · have hi : i ≠ index := fun hi => hw (by rw [hi])
      simp [hw, hi]
  · simp [hid]

end Bitmap

structure Leaf where
  index : Uint256
  recipient : Address
  amount : Uint256
  deriving DecidableEq

def ClaimsHashedIn (D : Deployment) (S : Set Bytes) (roundId : Uint256) (_ : ContractConfig)
    (a : Act) : Prop :=
  ∀ msg index amount proof, a = .call msg (.claim roundId index amount proof) →
    ∀ b ∈ AllocationMerkle.preimages D.keccak roundId index msg.sender amount proof, b ∈ S

/-- Some proof checks under the root, and checking it hashes nothing outside `S`. -/
def Leaf.Provable (keccak : Keccak) (S : Set Bytes) (root : Bytes32) (roundId : Uint256) (l : Leaf) : Prop :=
  ∃ proof, AllocationMerkle.verify keccak root roundId l.index l.recipient l.amount proof = true ∧
    ∀ b ∈ AllocationMerkle.preimages keccak roundId l.index l.recipient l.amount proof, b ∈ S

def Entry.claimed (roundId : ℕ) (e : Entry) : Option Leaf :=
  match e.call, e.phase with
  | .claim id index amount _, .started _ =>
      if (id : ℕ) = roundId then some ⟨index, e.msg.sender, amount⟩ else none
  | _, _ => none

def claims (log : List Entry) (roundId : ℕ) : List Leaf := log.filterMap (Entry.claimed roundId)

def amounts (leaves : List Leaf) : List ℕ := leaves.map (fun l => (l.amount : ℕ))

structure ClaimsCounted (s : Storage) (log : List Entry) : Prop where
  total (roundId : ℕ) : (amounts (claims log roundId)).sum = (s.rounds roundId).totalClaimed
  distinct (roundId : ℕ) : ((claims log roundId).map Leaf.index).Nodup
  marked (roundId : ℕ) (index : Uint256) :
    isClaimed s roundId index = true ↔ index ∈ (claims log roundId).map Leaf.index

structure ClaimsRecorded (keccak : Keccak) (S : Set Bytes) (s : Storage) (log : List Entry) : Prop
    extends ClaimsCounted s log where
  proved (roundId : Uint256) (l : Leaf) (h : l ∈ claims log roundId) :
    l.Provable keccak S (s.rounds roundId).merkleRoot roundId

theorem verify_root_ne_zero {keccak : Keccak} {root : Bytes32} {roundId index amount : Uint256}
    {recipient : Address} {proof : List Bytes32}
    (h : AllocationMerkle.verify keccak root roundId index recipient amount proof = true) : root ≠ 0 := by
  rintro rfl
  simp [AllocationMerkle.verify] at h

theorem Round.field_same {β : Type} (f : Round → β) {s s' : Storage} {roundId : ℕ} {r : Round}
    (hr : s'.rounds = Function.update s.rounds roundId r) (h : f r = f (s.rounds roundId)) (id : ℕ) :
    f (s'.rounds id) = f (s.rounds id) := by
  rw [hr]
  by_cases hid : id = roundId
  · rw [hid, Function.update_self, h]
  · rw [Function.update_of_ne hid]

def Call.isClaim : Call → Bool
  | .claim .. => true
  | _ => false

section

variable {D : Deployment} {msg : Msg} {balance : Address → ℕ} {s s' : Storage} {call : Call}
  {x : Option Interaction}

theorem Started.keeps_claims (h : Started D msg balance s call s' x) (hc : call.isClaim = false) :
    (∀ id, (s'.rounds id).totalClaimed = (s.rounds id).totalClaimed) ∧
      s'.claimedBitmap = s.claimedBitmap := by
  cases h with
  | claim => cases hc
  | createRound => exact ⟨Round.field_same Round.totalClaimed rfl (by rfl), rfl⟩
  | fundNative => exact ⟨Round.field_same Round.totalClaimed rfl (by rfl), rfl⟩
  | submitPolicy => exact ⟨Round.field_same Round.totalClaimed rfl (by rfl), rfl⟩
  | finalizeRound => exact ⟨Round.field_same Round.totalClaimed rfl (by rfl), rfl⟩
  | closeRound => exact ⟨Round.field_same Round.totalClaimed rfl (by rfl), rfl⟩
  | cancelRound => exact ⟨Round.field_same Round.totalClaimed rfl (by rfl), rfl⟩
  | _ => exact ⟨fun _ => rfl, rfl⟩

theorem Finished.keeps_claims {y : Interaction} {reply : Reply} (h : Finished msg s y reply call s') :
    (∀ id, (s'.rounds id).totalClaimed = (s.rounds id).totalClaimed) ∧
      s'.claimedBitmap = s.claimedBitmap := by
  cases h with
  | fund => exact ⟨Round.field_same Round.totalClaimed rfl (by rfl), rfl⟩
  | requestCompute => exact ⟨Round.field_same Round.totalClaimed rfl (by rfl), rfl⟩
  | _ => exact ⟨fun _ => rfl, rfl⟩

end

theorem claims_cons (e : Entry) (log : List Entry) (roundId : ℕ) :
    claims (e :: log) roundId = (e.claimed roundId).toList ++ claims log roundId := by
  simp only [claims, List.filterMap_cons]
  cases e.claimed roundId <;> rfl

theorem claims_cons_of_not_claim {e : Entry} (h : e.call.isClaim = false) (log : List Entry)
    (roundId : ℕ) : claims (e :: log) roundId = claims log roundId := by
  obtain ⟨msg, call, phase, post⟩ := e
  rw [claims_cons]
  cases call <;> first | rfl | cases h

theorem claims_of_large {roundId : ℕ} (h : ¬ roundId < 2 ^ 256) (log : List Entry) :
    claims log roundId = [] := by
  rw [claims, List.filterMap_eq_nil_iff]
  intro e _
  unfold Entry.claimed
  split
  · rw [if_neg]
    omega
  · rfl

section

variable {s s' : Storage} {log log' : List Entry}

theorem ClaimsCounted.keep (h : ClaimsCounted s log) (hlog : ∀ id, claims log' id = claims log id)
    (htotal : ∀ id, (s'.rounds id).totalClaimed = (s.rounds id).totalClaimed)
    (hbits : s'.claimedBitmap = s.claimedBitmap) : ClaimsCounted s' log' where
  total id := by rw [hlog, htotal, h.total]
  distinct id := by rw [hlog]; exact h.distinct id
  marked id index := by
    rw [hlog, ← h.marked]
    simp only [isClaimed, hbits]

theorem claims_claim (msg : Msg) (roundId index amount : Uint256) (proof : List Bytes32)
    (x : Option Interaction) (post : Storage) (log : List Entry) (id : ℕ) :
    claims (⟨msg, .claim roundId index amount proof, .started x, post⟩ :: log) id =
      (if (roundId : ℕ) = id then [⟨index, msg.sender, amount⟩] else []) ++ claims log id := by
  simp only [claims_cons, Entry.claimed]
  split_ifs <;> rfl

theorem ClaimsCounted.claim (h : ClaimsCounted s log) (msg : Msg) (roundId index amount : Uint256)
    (proof : List Bytes32) (x : Option Interaction) (guard : Bool) (post : Storage)
    (hb : isClaimed s roundId index = false) :
    ClaimsCounted { s.claimPaid roundId index amount with entered := guard }
      (⟨msg, .claim roundId index amount proof, .started x, post⟩ :: log) := by
  constructor
  · intro id
    rw [claims_claim]
    by_cases hid : (roundId : ℕ) = id
    · subst hid
      simp [amounts, Storage.claimPaid, ← h.total, Nat.add_comm]
    · have hid' : id ≠ roundId := Ne.symm hid
      simp [hid, hid', Storage.claimPaid, setClaimed, h.total]
  · intro id
    rw [claims_claim]
    by_cases hid : (roundId : ℕ) = id
    · subst hid
      have hnot : index ∉ (claims log roundId).map Leaf.index := by
        rw [← h.marked, hb]
        exact Bool.false_ne_true
      simpa using ⟨by simpa using hnot, h.distinct roundId⟩
    · simpa [hid] using h.distinct id
  · intro id i
    change isClaimed (setClaimed roundId index s) id i = true ↔ _
    rw [claims_claim, isClaimed_setClaimed, Bool.or_eq_true, decide_eq_true_eq, h.marked]
    by_cases hid : (roundId : ℕ) = id
    · simp [hid, Fin.val_inj]
    · have hid' : id ≠ roundId := Ne.symm hid
      simp [hid, hid']

end

section

variable {D : Deployment} {c d : ContractConfig} {a : Act} {initialOwner : Address}
  {balance : Address → ℕ} {now : ℕ} {ok : ContractConfig → Act → Prop}

theorem ClaimsCounted.started {s s' : Storage} {log : List Entry} {msg : Msg} {call : Call}
    {x : Option Interaction} {view : Address → ℕ} (h : ClaimsCounted s log)
    (hst : Started D msg view s call s' x) :
    ClaimsCounted s' (⟨msg, call, .started x, s'⟩ :: log) := by
  cases hcall : call.isClaim with
  | false =>
    obtain ⟨htotal, hbits⟩ := hst.keeps_claims hcall
    exact h.keep (claims_cons_of_not_claim hcall log) htotal hbits
  | true =>
    cases hst with
    | claim roundId index amount proof hg hs ht hb hp => exact h.claim msg _ _ _ _ _ _ _ hb
    | configure _ _ _ _ _ hconf => cases call <;> first | cases hcall; done | cases hconf
    | _ => cases hcall

theorem claims_cons_settled (msg : Msg) (call : Call) (y : Interaction) (post : Storage)
    (log : List Entry) (id : ℕ) :
    claims (⟨msg, call, .settled y, post⟩ :: log) id = claims log id := by
  rw [claims_cons]
  cases call <;> rfl

theorem claims_cons_finished (msg : Msg) (call : Call) (reply : Reply) (post : Storage)
    (log : List Entry) (id : ℕ) :
    claims (⟨msg, call, .finished reply, post⟩ :: log) id = claims log id := by
  rw [claims_cons]
  cases call <;> rfl

theorem ClaimsCounted.step (h : ClaimsCounted c.world.storage c.world.log) (hstep : Stepped D c a d) :
    ClaimsCounted d.world.storage d.world.log := by
  cases hstep with
  | done msg call ht hself hst => exact h.started hst
  | pending msg call ht hself hst => exact h.started hst
  | settled p => exact h.keep (claims_cons_settled _ _ _ _ _) (fun _ => rfl) rfl
  | replied p reply ha hf =>
    obtain ⟨htotal, hbits⟩ := hf.keeps_claims
    exact h.keep (claims_cons_finished _ _ _ _ _) htotal hbits
  | _ => exact h

theorem Reachable.claimsCounted (h : Reachable D initialOwner balance now ok c) :
    ClaimsCounted c.world.storage c.world.log := by
  refine Reachable.invariant (P := fun c => ClaimsCounted c.world.storage c.world.log) ?_
    (fun c a d _ hp _ hstep => hp.step hstep) h
  exact ⟨fun _ => rfl, fun _ => List.nodup_nil, fun _ _ => by
    simp [isClaimed, deployed, World.initial, Storage.deployed, claims]⟩

def ClaimsProved (keccak : Keccak) (S : Set Bytes) (s : Storage) (log : List Entry) : Prop :=
  ∀ roundId : Uint256, ∀ l ∈ claims log roundId,
    l.Provable keccak S (s.rounds roundId).merkleRoot roundId

theorem ClaimsProved.keep {keccak : Keccak} {S : Set Bytes} {s s' : Storage} {log log' : List Entry}
    (h : ClaimsProved keccak S s log) (hlog : ∀ id, claims log' id = claims log id)
    (hroot : ∀ id, (s.rounds id).merkleRoot ≠ 0 →
      (s'.rounds id).merkleRoot = (s.rounds id).merkleRoot) : ClaimsProved keccak S s' log' := by
  intro roundId l hl
  rw [hlog] at hl
  obtain ⟨proof, hp, hhashed⟩ := h roundId l hl
  rw [hroot roundId (verify_root_ne_zero hp)]
  exact ⟨proof, hp, hhashed⟩

theorem ClaimsProved.started {S : Set Bytes} {s s' : Storage} {log : List Entry} {msg : Msg} {call : Call}
    {x : Option Interaction} {view : Address → ℕ} (h : ClaimsProved D.keccak S s log) (hs : s.Shape)
    (hhashed : ∀ roundId, ClaimsHashedIn D S roundId c (.call msg call)) (hst : Started D msg view s call s' x) :
    ClaimsProved D.keccak S s' (⟨msg, call, .started x, s'⟩ :: log) := by
  have hroot (id : ℕ) := (hst.evolves hs id).merkleRoot
  cases hcall : call.isClaim with
  | false => exact h.keep (claims_cons_of_not_claim hcall log) hroot
  | true =>
    cases hst with
    | claim roundId index amount proof hg hs ht hb hp =>
      have hstrings := hhashed roundId msg index amount proof rfl
      intro id l hl
      rw [claims_claim, List.mem_append] at hl
      have hsame : ((s.claimPaid roundId index amount).rounds id).merkleRoot =
          (s.rounds id).merkleRoot := Round.field_same Round.merkleRoot rfl (by rfl) id
      change l.Provable D.keccak S ((s.claimPaid roundId index amount).rounds id).merkleRoot id
      rw [hsame]
      rcases hl with hl | hl
      · split at hl
        · next hid =>
          obtain rfl := List.mem_singleton.mp hl
          obtain rfl := Fin.ext hid
          exact ⟨proof, hp, hstrings⟩
        · cases hl
      · exact h id l hl
    | configure _ _ _ _ _ hconf => cases call <;> first | cases hcall; done | cases hconf
    | _ => cases hcall

theorem Reachable.claimsRecorded {S : Set Bytes}
    (hok : ∀ c a, ok c a → DispatchFresh c a ∧ ∀ roundId, ClaimsHashedIn D S roundId c a)
    (h : Reachable D initialOwner balance now ok c) :
    ClaimsRecorded D.keccak S c.world.storage c.world.log := by
  have hfresh := fun c a ha => (hok c a ha).1
  refine ⟨h.claimsCounted, ?_⟩
  refine Reachable.invariant (P := fun c => ClaimsProved D.keccak S c.world.storage c.world.log)
    (fun _ => nofun) ?_ h
  intro c a d hr hp ha hstep
  have hc := Reachable.coherent hfresh hr
  have hhashed := (hok c a ha).2
  cases hstep with
  | done msg call ht hself hst => exact hp.started hc.shape hhashed hst
  | pending msg call ht hself hst => exact hp.started hc.shape hhashed hst
  | settled p => exact hp.keep (claims_cons_settled _ _ _ _ _) (fun _ _ => rfl)
  | replied p reply _ hf =>
    have hd := hc.dispatchable (hfresh _ _ ha) hf
    exact hp.keep (claims_cons_finished _ _ _ _ _) (fun id => (hf.evolves hd id).merkleRoot)
  | _ => exact hp

end

end Fidensur
