import Fidensur.RoundLedger

set_option autoImplicit false

namespace Fidensur

open NestedCalls ByteWords

def Storage.unpaid (s : Storage) (token : Address) : ℕ :=
  ∑ id ∈ Finset.range s.nextRoundId with
    (s.rounds id).status.live = true ∧ (s.rounds id).token = token,
    ((s.rounds id).funded - (s.rounds id).totalClaimed)

/-- No round promises or pays more than it holds, and the shared counter of a token still covers
every round of it. -/
structure Solvent (c : ContractConfig) : Prop where
  claimed (roundId : ℕ) : (c.world.storage.rounds roundId).totalClaimed ≤
    (c.world.storage.rounds roundId).totalAllocated
  allocated (roundId : ℕ) : (c.world.storage.rounds roundId).totalAllocated ≤
    (c.world.storage.rounds roundId).funded
  paid (roundId : ℕ) : ordered c.world.log roundId ≤ (c.world.storage.rounds roundId).funded
  covered (token : Address) : c.world.storage.unpaid token ≤ c.world.storage.outstanding token

/-- A claim stays within what its round was reported to allocate. -/
def ClaimCovered (c : ContractConfig) (a : Act) : Prop :=
  ∀ msg roundId index amount proof, a = .call msg (.claim roundId index amount proof) →
    (c.world.storage.rounds roundId).totalClaimed + amount ≤
      (c.world.storage.rounds roundId).totalAllocated

/-- Leaves provable under a root, one for each index, never sum to more than `total`, as far as the strings
in `S` go. -/
def RootCovered (keccak : Keccak) (S : Set Bytes) (root : Bytes32) (roundId : Uint256) (total : ℕ) : Prop :=
  ∀ leaves : List Leaf, (leaves.map Leaf.index).Nodup →
    (∀ l ∈ leaves, l.Provable keccak S root roundId) → (amounts leaves).sum ≤ total

def ResultCovered (keccak : Keccak) (S : Set Bytes) (_ : ContractConfig) (a : Act) : Prop :=
  ∀ msg resultData actionId submissionTag status signature res,
    a = .call msg (.finalizeRound resultData actionId submissionTag status signature) →
    AllocationResult.decode resultData = some res →
    RootCovered keccak S res.merkleRoot res.roundId res.totalAllocated

/-- Hashing binds a leaf to its index, so leaves drawn from the rows in `S` add up to no more than the rows. -/
theorem rootCovered_of_rows {keccak : Keccak} {S : Set Bytes} {root : Bytes32} {roundId : Uint256}
    {rows : List Leaf}
    (hrows : ∀ l : Leaf, AllocationMerkle.leafPreimage roundId l.index l.recipient l.amount ∈ S → l ∈ rows) :
    RootCovered keccak S root roundId (amounts rows).sum := by
  intro leaves hn hproved
  have hsub : leaves ⊆ rows := by
    intro l hl
    obtain ⟨proof, -, hhashed⟩ := hproved l hl
    exact hrows l (hhashed _ List.mem_cons_self)
  obtain ⟨leaves', hperm, hsublist⟩ := List.subperm_of_subset hn.of_map hsub
  have hsum : (amounts leaves').sum = (amounts leaves).sum := (hperm.map _).sum_eq
  rw [← hsum]
  apply (hsublist.map _).sum_le_sum
  exact fun _ _ => Nat.zero_le _

variable {D : Deployment} {msg : Msg} {view : Address → ℕ} {s s' : Storage} {call : Call}
  {x : Option Interaction} {c : ContractConfig}

def Round.promise (r : Round) : Bytes32 × ℕ := (r.merkleRoot, r.totalAllocated)

theorem Started.promise (h : Started D msg view s call s' x) (id : ℕ) :
    (s'.rounds id).promise = (s.rounds id).promise ∨
      ∃ resultData actionId submissionTag status signature res,
        call = .finalizeRound resultData actionId submissionTag status signature ∧
        AllocationResult.decode resultData = some res ∧ id = res.roundId ∧
        (s.rounds id).status = .computing ∧
        (s'.rounds id).promise = (res.merkleRoot, (res.totalAllocated : ℕ)) := by
  cases h with
  | createRound => exact .inl (Round.field_same Round.promise rfl (by rfl) id)
  | fundNative => exact .inl (Round.field_same Round.promise rfl (by rfl) id)
  | submitPolicy => exact .inl (Round.field_same Round.promise rfl (by rfl) id)
  | finalizeRound resultData actionId submissionTag signature res ht hsig hd hself hst =>
    by_cases hid : id = res.roundId
    · subst hid
      exact .inr ⟨_, _, _, _, _, res, rfl, hd, rfl, hst, by simp [Round.promise]⟩
    · exact .inl (by simp [hid])
  | claim => exact .inl (Round.field_same Round.promise rfl (by rfl) id)
  | closeRound => exact .inl (Round.field_same Round.promise rfl (by rfl) id)
  | cancelRound => exact .inl (Round.field_same Round.promise rfl (by rfl) id)
  | _ => exact .inl rfl

theorem Finished.promise {y : Interaction} {reply : Reply} (h : Finished msg s y reply call s')
    (id : ℕ) : (s'.rounds id).promise = (s.rounds id).promise := by
  cases h with
  | fund => exact Round.field_same Round.promise rfl (by rfl) id
  | requestCompute => exact Round.field_same Round.promise rfl (by rfl) id
  | _ => rfl

theorem Solvent.of_claimed (hc : Coherent D c) (hl : Ledger c.world.storage c.world.log)
    (h : ∀ id, (c.world.storage.rounds id).totalClaimed ≤ (c.world.storage.rounds id).totalAllocated) :
    Solvent c := by
  have ha (id : ℕ) := (hc.shape.rounds id).allocated
  have hf (id : ℕ) := (h id).trans (ha id)
  refine ⟨h, ha, fun id => ?_, fun token => ?_⟩
  · rw [hl.ordered]
    unfold Round.released
    split <;> first | exact le_rfl | exact hf id
  · rw [← Nat.cast_le (α := ℤ), hl.exact token]
    apply le_of_eq
    simp only [Storage.unpaid, Storage.owed, Finset.sum_filter, Nat.cast_sum]
    apply Finset.sum_congr rfl
    intro id _
    simp only [Round.owed]
    split_ifs
    · exact Nat.cast_sub (hf id)
    · rfl

theorem claimed_le_started (hs : s.Shape) (hst : Started D msg view s call s' x)
    (hcovered : ∀ roundId index amount proof, call = .claim roundId index amount proof →
      (s.rounds roundId).totalClaimed + amount ≤ (s.rounds roundId).totalAllocated)
    (h : ∀ id, (s.rounds id).totalClaimed ≤ (s.rounds id).totalAllocated) (id : ℕ) :
    (s'.rounds id).totalClaimed ≤ (s'.rounds id).totalAllocated := by
  cases hcall : call.isClaim with
  | false =>
    rw [(hst.keeps_claims hcall).1 id]
    rcases hst.promise id with hp | ⟨_, _, _, _, _, _, -, -, -, hcomp, -⟩
    · exact (h id).trans_eq (congrArg Prod.snd hp).symm
    · rw [((hs.rounds id).unclaimed (by simp [hcomp]) (by simp [hcomp])).1]
      exact Nat.zero_le _
  | true =>
    cases hst with
    | claim roundId index amount proof =>
      have hle := hcovered roundId index amount proof rfl
      by_cases hid : id = roundId
      · simpa [Storage.claimPaid, hid] using hle
      · simpa [Storage.claimPaid, setClaimed, hid] using h id
    | configure _ _ _ _ _ hconf => cases call <;> first | cases hcall; done | cases hconf
    | _ => cases hcall

theorem claimed_le_step {d : ContractConfig} {a : Act} (hc : Coherent D c)
    (hcovered : ClaimCovered c a) (hstep : Stepped D c a d)
    (h : ∀ id, (c.world.storage.rounds id).totalClaimed ≤ (c.world.storage.rounds id).totalAllocated)
    (id : ℕ) :
    (d.world.storage.rounds id).totalClaimed ≤ (d.world.storage.rounds id).totalAllocated := by
  cases hstep with
  | done msg call ht hself hst =>
    refine claimed_le_started hc.shape hst ?_ h id
    rintro roundId index amount proof rfl
    exact hcovered msg roundId index amount proof rfl
  | pending msg call ht hself hst =>
    refine claimed_le_started hc.shape hst ?_ h id
    rintro roundId index amount proof rfl
    exact hcovered msg roundId index amount proof rfl
  | replied p reply ha hf =>
    exact (hf.keeps_claims.1 id).trans_le ((h id).trans_eq (congrArg Prod.snd (hf.promise id)).symm)
  | _ => exact h id

section

variable {initialOwner : Address} {balance : Address → ℕ} {now : ℕ}
  {ok : ContractConfig → Act → Prop}

theorem Reachable.solvent (hok : ∀ c a, ok c a → DispatchFresh c a ∧ ClaimCovered c a)
    (h : Reachable D initialOwner balance now ok c) : Solvent c := by
  have hfresh := fun c a ha => (hok c a ha).1
  refine .of_claimed (Reachable.coherent hfresh h) (Reachable.ledger hfresh h) ?_
  refine Reachable.invariant (P := fun c => ∀ id, (c.world.storage.rounds id).totalClaimed ≤
    (c.world.storage.rounds id).totalAllocated) (fun _ => le_rfl) ?_ h
  intro c a d hr hp ha hstep
  exact claimed_le_step (Reachable.coherent hfresh hr) (hok c a ha).2 hstep hp

def Promised (keccak : Keccak) (S : Set Bytes) (s : Storage) : Prop :=
  ∀ roundId : Uint256, (s.rounds roundId).merkleRoot ≠ 0 →
    RootCovered keccak S (s.rounds roundId).promise.1 roundId (s.rounds roundId).promise.2

theorem Promised.keep {keccak : Keccak} {S : Set Bytes} (h : Promised keccak S s)
    (hp : ∀ id, (s'.rounds id).promise = (s.rounds id).promise) : Promised keccak S s' := by
  intro roundId hroot
  rw [hp]
  have hm : (s'.rounds roundId).merkleRoot = (s.rounds roundId).merkleRoot :=
    congrArg Prod.fst (hp roundId)
  exact h roundId (hm ▸ hroot)

theorem Promised.started {keccak : Keccak} {S : Set Bytes} (h : Promised keccak S s)
    (hst : Started D msg view s call s' x) (hcov : ResultCovered keccak S c (.call msg call)) :
    Promised keccak S s' := by
  intro roundId hroot
  rcases hst.promise roundId with hp | ⟨_, _, _, _, _, res, rfl, hd, hid, -, hp⟩
  · rw [hp]
    have hm : (s'.rounds roundId).merkleRoot = (s.rounds roundId).merkleRoot := congrArg Prod.fst hp
    exact h roundId (hm ▸ hroot)
  · rw [hp, Fin.ext hid]
    exact hcov _ _ _ _ _ _ res rfl hd

theorem Reachable.promised {S : Set Bytes} (hok : ∀ c a, ok c a → ResultCovered D.keccak S c a)
    (h : Reachable D initialOwner balance now ok c) : Promised D.keccak S c.world.storage := by
  refine Reachable.invariant (P := fun c => Promised D.keccak S c.world.storage)
    (fun _ hz => absurd rfl hz) ?_ h
  intro c a d _ hp ha hstep
  have hcov := hok c a ha
  cases hstep with
  | done msg call ht hself hst => exact hp.started hst hcov
  | pending msg call ht hself hst => exact hp.started hst hcov
  | replied p reply ha hf => exact hp.keep hf.promise
  | _ => exact hp

/-- Claims have distinct indices and proofs, so covered roots keep every round solvent. -/
theorem Reachable.solvent_of_covered {S : Set Bytes}
    (hok : ∀ c a, ok c a → DispatchFresh c a ∧ (∀ roundId, ClaimsHashedIn D S roundId c a) ∧
      ResultCovered D.keccak S c a)
    (h : Reachable D initialOwner balance now ok c) : Solvent c := by
  have hfresh := fun c a ha => (hok c a ha).1
  have hclaims := Reachable.claimsRecorded (fun c a ha => ⟨(hok c a ha).1, (hok c a ha).2.1⟩) h
  have hp := Reachable.promised (fun c a ha => (hok c a ha).2.2) h
  refine .of_claimed (Reachable.coherent hfresh h) (Reachable.ledger hfresh h) (fun id => ?_)
  rw [← hclaims.total]
  by_cases hid : id < 2 ^ 256
  · cases hl : claims c.world.log id with
    | nil => exact Nat.zero_le _
    | cons l ls =>
      obtain ⟨proof, hproof, -⟩ := hclaims.proved ⟨id, hid⟩ l (by simp [hl])
      rw [← hl]
      exact hp ⟨id, hid⟩ (verify_root_ne_zero hproof) _ (hclaims.distinct id) (hclaims.proved ⟨id, hid⟩)
  · rw [claims_of_large hid _]
    exact Nat.zero_le _

end

theorem claimCovered_of_solvent {d : ContractConfig} {a : Act} (hn : (machine D).next a c = some d)
    (hd : Solvent d) : ClaimCovered c a := by
  rintro msg roundId index amount proof rfl
  have hle := hd.claimed roundId
  have hstarted {w : World} {view : Address → ℕ} {s : Storage} {x : Option Interaction}
      (hst : Started D msg view w.storage (.claim roundId index amount proof) s x)
      (hle : (s.rounds roundId).totalClaimed ≤ (s.rounds roundId).totalAllocated) :
      (w.storage.rounds roundId).totalClaimed + amount ≤ (w.storage.rounds roundId).totalAllocated := by
    cases hst with
    | configure _ _ _ _ _ hconf => cases hconf
    | claim => simpa [Storage.claimPaid] using hle
  generalize ha : Act.call msg (.claim roundId index amount proof) = a at hn
  subst ha
  cases Stepped.of_next hn with
  | done msg call ht hself hst => exact hstarted hst hle
  | pending msg call ht hself hst => exact hstarted hst hle

/-- Solvency of a whole run comes down to its claims; results whose total covers their root keep
every claim covered. -/
theorem solvent_iff_claims_covered (D : Deployment) (initialOwner : Address) (balance : Address → ℕ)
    (now : ℕ) (as : List Act)
    (hrun : ((machine D).run as (deployed initialOwner balance now)).isSome)
    (hfresh : StepsMeet (machine D) as (deployed initialOwner balance now) DispatchFresh) :
    (Always (machine D) as (deployed initialOwner balance now) Solvent ↔
      StepsMeet (machine D) as (deployed initialOwner balance now) ClaimCovered) ∧
    ∀ S : Set Bytes,
      StepsMeet (machine D) as (deployed initialOwner balance now)
        (fun c a => ∀ roundId, ClaimsHashedIn D S roundId c a) →
      StepsMeet (machine D) as (deployed initialOwner balance now) (ResultCovered D.keccak S) →
      Always (machine D) as (deployed initialOwner balance now) Solvent := by
  constructor
  · apply always_iff_stepsMeet hrun hfresh
    · exact fun c hc => Reachable.solvent (fun _ _ ha => ha) hc
    · exact fun c a d _ hn _ hd => claimCovered_of_solvent hn hd
  · intro S hhashed hcov
    exact (hfresh.and (hhashed.and hcov)).reaches.mono
      (fun c hc => Reachable.solvent_of_covered (fun _ _ ha => ha) hc)

section Overclaim

/-- A chain on which hashing keeps a string's value and one machine signs everything. -/
def sampleDeployment : Deployment where
  self := 1000
  chainId := 14
  keccak b := Fin.ofNat _ (ByteWords.value b % (2 ^ 256 - 1) + 1)
  ecrecover _ _ _ _ := 7

theorem injOn_hashed {keccak : Keccak} {hashed : List Bytes}
    (h : ∀ a ∈ hashed, ∀ b ∈ hashed, keccak a = keccak b → a = b) : Set.InjOn keccak {b | b ∈ hashed} := by
  intro a ha b hb
  exact h a ha b hb

def sampleRegistry : RegistryView := ⟨0x10001, fun _ => 1000, [7]⟩

def sampleMsg (sender : Address) (value : ℕ) : Msg := ⟨sender, value, 0, sampleRegistry⟩

def sampleRoot (roundId : Uint256) (recipient : Address) (amount : Uint256) : Bytes32 :=
  AllocationMerkle.leafHash sampleDeployment.keccak roundId 0 recipient amount

/-- A first native round gets a result with the given row and total, next to a second one that only
holds its funds. -/
def sampleRun (funded other total amount : Uint256) : List Act :=
  let owner : Address := 1
  let organization : Address := 2
  let recipient : Address := 3
  let ciphertext : Bytes := [42]
  let commitment : Bytes32 := sampleDeployment.keccak ciphertext
  let result : AllocationResult :=
    ⟨1000, 0, commitment, sampleRoot 0 recipient amount, total, 1, 5⟩
  [.call (sampleMsg owner 0) .setExtensionId,
    .call (sampleMsg owner 0) (.setTeeAddress 7),
    .call (sampleMsg organization 0) (.createRound 0 3600),
    .call (sampleMsg organization 0) (.createRound 0 3600),
    .call (sampleMsg organization funded) (.fund 0 funded),
    .call (sampleMsg organization other) (.fund 1 other),
    .call (sampleMsg organization 0) (.submitPolicy 0 commitment),
    .call (sampleMsg organization 0) (.requestCompute 0 ciphertext),
    .reply (.instruction 99),
    .call (sampleMsg recipient 0)
      (.finalizeRound result.encode 99 [] 1 (List.replicate 64 0 ++ [27])),
    .call (sampleMsg recipient 0) (.claim 0 0 amount []),
    .reply (.returned true [])]

def sampleStart : ContractConfig := deployed 1 (fun _ => 0) 0

def pendingDispatchable (c : ContractConfig) (_ : Act) : Bool :=
  c.stack.all fun f =>
    match f.info.call with
    | .requestCompute roundId _ => decide (c.world.storage.rounds roundId).status.dispatchable
    | _ => true

theorem dispatchFresh_of_pending {c : ContractConfig} {a : Act} (h : pendingDispatchable c a = true) :
    DispatchFresh c a := by
  rintro id f fs roundId ciphertext - hstack hcall
  have hf := List.all_eq_true.mp h f (by simp [hstack])
  simp only [hcall] at hf
  exact of_decide_eq_true hf

/-- One unit funded, one unit reported, and a root that commits to all the second round holds. -/
theorem overclaimed_run :
    ¬ ∀ as, StepsMeet (machine sampleDeployment) as sampleStart DispatchFresh →
      Always (machine sampleDeployment) as sampleStart Solvent := by
  intro hall
  have hfresh : StepsMeet (machine sampleDeployment) (sampleRun 1 100 1 100) sampleStart DispatchFresh :=
    .of_meets (fun _ _ => dispatchFresh_of_pending) (by decide +kernel)
  have htotals : ((machine sampleDeployment).run (sampleRun 1 100 1 100) sampleStart).map
      (fun c => ((c.world.storage.rounds 0).totalClaimed, (c.world.storage.rounds 0).totalAllocated)) =
      some (100, 1) := by
    decide +kernel
  obtain ⟨c, hc, ht⟩ := Option.map_eq_some_iff.mp htotals
  obtain ⟨hclaimed, hallocated⟩ := Prod.mk.inj ht
  have hle := (hall _ hfresh _ List.prefix_rfl c hc).claimed 0
  omega

def claimStrings (D : Deployment) (as : List Act) : List Bytes :=
  as.flatMap fun a =>
    match a with
    | .call msg (.claim roundId index amount proof) =>
        AllocationMerkle.preimages D.keccak roundId index msg.sender amount proof
    | _ => []

def claimsKnown (D : Deployment) (strings : List Bytes) (_ : ContractConfig) : Act → Bool
  | .call msg (.claim roundId index amount proof) =>
      (AllocationMerkle.preimages D.keccak roundId index msg.sender amount proof).all strings.contains
  | _ => true

theorem claimsKnown_ok {strings : List Bytes} {a : Act} (h : claimsKnown D strings c a = true) (roundId : Uint256) :
    ClaimsHashedIn D {b | b ∈ strings} roundId c a := by
  rintro msg index amount proof rfl b hb
  simp only [claimsKnown, List.all_eq_true, List.contains_iff_mem] at h
  exact h b hb

def resultsCovered (strings : List Bytes) (rows : List Leaf) (_ : ContractConfig) : Act → Bool
  | .call _ (.finalizeRound resultData _ _ _ _) =>
      match AllocationResult.decode resultData with
      | none => true
      | some res =>
          decide ((res.totalAllocated : ℕ) = (amounts rows).sum) && strings.all fun b =>
            decide (b.length ≠ 128) || rows.any fun l =>
              decide (b = AllocationMerkle.leafPreimage res.roundId l.index l.recipient l.amount)
  | _ => true

theorem resultsCovered_ok {keccak : Keccak} {strings : List Bytes} {rows : List Leaf} {a : Act}
    (h : resultsCovered strings rows c a = true) : ResultCovered keccak {b | b ∈ strings} c a := by
  rintro msg resultData actionId submissionTag status signature res rfl hd
  simp only [resultsCovered, hd, Bool.and_eq_true, decide_eq_true_eq, List.all_eq_true] at h
  obtain ⟨htotal, hstrings⟩ := h
  rw [htotal]
  apply rootCovered_of_rows
  intro l hl
  have hrow := hstrings _ hl
  simp only [AllocationMerkle.length_leafPreimage, ne_eq, not_true_eq_false, decide_false, Bool.false_or,
    List.any_eq_true, decide_eq_true_eq] at hrow
  obtain ⟨l', hl', heq⟩ := hrow
  obtain ⟨-, hindex, hrecipient, hamount⟩ := AllocationMerkle.leafPreimage_inj heq
  have hsame : l = l' := by
    cases l
    cases l'
    simp_all
  rw [hsame]
  exact hl'

def pairedRows : List Leaf := [⟨0, 3, 1⟩, ⟨1, 4, 2⟩]

/-- Two rows under one root, both claimed with the other as the proof. -/
def pairedRun : List Act :=
  let first := AllocationMerkle.leafHash sampleDeployment.keccak 0 0 3 1
  let second := AllocationMerkle.leafHash sampleDeployment.keccak 0 1 4 2
  let root := AllocationMerkle.hashPair sampleDeployment.keccak first second
  let result : AllocationResult := ⟨1000, 0, sampleDeployment.keccak [42], root, 3, 2, 5⟩
  (sampleRun 5 100 3 1).take 9 ++
    [.call (sampleMsg 3 0) (.finalizeRound result.encode 99 [] 1 (List.replicate 64 0 ++ [27])),
      .call (sampleMsg 3 0) (.claim 0 0 1 [second]),
      .reply (.returned true []),
      .call (sampleMsg 4 0) (.claim 0 1 2 [first]),
      .reply (.returned true [])]

theorem solvent_iff_claims_covered_sample :
    ((machine sampleDeployment).run pairedRun sampleStart).map
      (fun c => ((c.world.storage.rounds 0).totalClaimed, (c.world.storage.rounds 0).funded)) = some (3, 5) ∧
    Always (machine sampleDeployment) pairedRun sampleStart Solvent ∧
    StepsMeet (machine sampleDeployment) pairedRun sampleStart ClaimCovered := by
  let strings := claimStrings sampleDeployment pairedRun
  obtain ⟨hiff, hcovered⟩ := solvent_iff_claims_covered sampleDeployment 1 (fun _ => 0) 0 pairedRun
    (by decide +kernel) (.of_meets (fun _ _ => dispatchFresh_of_pending) (by decide +kernel))
  have hhashed : StepsMeet (machine sampleDeployment) pairedRun sampleStart
      (fun c a => ∀ roundId, ClaimsHashedIn sampleDeployment {b | b ∈ strings} roundId c a) :=
    .of_meets (fun _ _ => claimsKnown_ok) (by decide +kernel)
  have hmeets : (machine sampleDeployment).meets (resultsCovered strings pairedRows) pairedRun sampleStart = true := by
    decide +kernel
  have hresults : StepsMeet (machine sampleDeployment) pairedRun sampleStart
      (ResultCovered sampleDeployment.keccak {b | b ∈ strings}) :=
    .of_meets (fun _ _ => resultsCovered_ok) hmeets
  have hsolvent := hcovered _ hhashed hresults
  exact ⟨by decide +kernel, hsolvent, hiff.mp hsolvent⟩

end Overclaim

end Fidensur
