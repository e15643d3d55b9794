import Fidensur.Coherence

set_option autoImplicit false

/-! What holds of a round in every run, also of one whose dispatch was answered too late. -/

namespace Fidensur

open NestedCalls ByteWords

variable {D : Deployment} {msg : Msg} {view : Address → ℕ} {s s' : Storage} {call : Call}
  {x : Option Interaction} {c d : ContractConfig} {a : Act} {id : ℕ}

section Turns

/-- What a call that starts makes of a round that exists. -/
inductive Round.Turn (D : Deployment) (msg : Msg) (s : Storage) (id : ℕ) : Call → Round → Prop
  | keep (call : Call) : Turn D msg s id call (s.rounds id)
  | fund (call : Call) (amount : ℕ) (hs : (s.rounds id).status = .opened)
      (hf : (s.rounds id).funded + amount < 2 ^ 256) :
      Turn D msg s id call { s.rounds id with funded := (s.rounds id).funded + amount }
  | submitPolicy (call : Call) (policyCommitment : Bytes32) (hs : (s.rounds id).status = .opened) :
      Turn D msg s id call { s.rounds id with policyCommitment := policyCommitment, status := .committed }
  | finalizeRound (resultData : Bytes) (actionId : Bytes32) (submissionTag signature : Bytes)
      (res : AllocationResult) (deadline : ℕ)
      (hsig : TeeResultVerifier.recoverSigner D resultData actionId submissionTag
        TeeResultVerifier.statusSuccess signature = .ok s.teeAddress)
      (hd : AllocationResult.decode resultData = some res) (hself : res.contractAddr = D.self)
      (hround : (res.roundId : ℕ) = id) (hs : (s.rounds id).status = .computing)
      (hid : actionId = (s.rounds id).computeInstructionId)
      (hp : res.policyCommitment = (s.rounds id).policyCommitment)
      (hroot : res.merkleRoot ≠ 0) (hn : res.recipientCount ≠ 0)
      (htotal : (res.totalAllocated : ℕ) ≤ (s.rounds id).funded) :
      Turn D msg s id (.finalizeRound resultData actionId submissionTag TeeResultVerifier.statusSuccess signature)
        { s.rounds id with
          merkleRoot := res.merkleRoot
          totalAllocated := res.totalAllocated
          recipientCount := res.recipientCount
          engineVersion := res.engineVersion
          claimDeadline := deadline
          status := .finalized }
  | claim (call : Call) (amount : ℕ) (hs : (s.rounds id).status = .finalized) :
      Turn D msg s id call { s.rounds id with totalClaimed := (s.rounds id).totalClaimed + amount }
  | closeRound (call : Call) (hs : (s.rounds id).status = .finalized)
      (ht : (s.rounds id).claimDeadline < blockTimestamp48 msg) (hw : (s.rounds id).swept = false) :
      Turn D msg s id call { s.rounds id with swept := true, status := .closed }
  | cancelRound (call : Call)
      (hs : (s.rounds id).status = .opened ∨ (s.rounds id).status = .committed) :
      Turn D msg s id call { s.rounds id with swept := true, status := .cancelled }

theorem Started.turn (h : Started D msg view s call s' x) (hlt : id < s.nextRoundId) :
    Round.Turn D msg s id call (s'.rounds id) := by
  have hupdate {roundId : ℕ} {r : Round} (hr : s'.rounds = Function.update s.rounds roundId r)
      (hturn : roundId = id → Round.Turn D msg s id call r) : Round.Turn D msg s id call (s'.rounds id) := by
    rw [hr]
    by_cases hid : id = roundId
    · rw [hid, Function.update_self, ← hid]
      exact hturn hid.symm
    · rw [Function.update_of_ne hid]
      exact .keep call
  cases h with
  | createRound =>
    rw [Storage.setRound_rounds, Function.update_of_ne hlt.ne]
    exact .keep _
  | fundNative roundId amount hg hs ha ht hv hf =>
    apply hupdate rfl
    rintro rfl
    exact .fund _ amount hs hf
  | submitPolicy roundId policyCommitment hs =>
    apply hupdate rfl
    rintro rfl
    exact .submitPolicy _ policyCommitment hs
  | finalizeRound resultData actionId submissionTag signature res ht hsig hd hself hs hid hp hroot hn htotal =>
    apply hupdate rfl
    rintro rfl
    exact .finalizeRound resultData actionId submissionTag signature res _ hsig hd hself rfl hs hid hp hroot hn
      htotal
  | claim roundId index amount proof hg hs =>
    apply hupdate rfl
    rintro rfl
    exact .claim _ amount hs
  | closeRound roundId hg hs ht hw =>
    apply hupdate rfl
    rintro rfl
    exact .closeRound _ hs ht hw
  | cancelRound roundId hg hs =>
    apply hupdate rfl
    rintro rfl
    exact .cancelRound _ hs
  | _ => exact .keep _

/-- What the answer to a pending call makes of a round. -/
theorem Finished.turn {y : Interaction} {reply : Reply} (h : Finished msg s y reply call s') (id : ℕ) :
    s'.rounds id = s.rounds id ∨
      (∃ roundId amount, call = .fund roundId amount ∧ (roundId : ℕ) = id ∧
        (s.rounds id).funded + amount < 2 ^ 256 ∧ s'.rounds id = { s.rounds id with funded := (s.rounds id).funded + amount }) ∨
      ∃ roundId ciphertext instructionId requestedAt, call = .requestCompute roundId ciphertext ∧
        (roundId : ℕ) = id ∧ y.accept reply = .ok instructionId ∧
        s'.rounds id = { s.rounds id with
          computeInstructionId := instructionId
          computeRequestedAt := requestedAt
          status := .computing } := by
  cases h with
  | fund roundId amount hf =>
    by_cases hid : id = roundId
    · right
      left
      refine ⟨roundId, amount, rfl, hid.symm, hid ▸ hf, ?_⟩
      simp [Storage.credited, hid]
    · left
      simp [Storage.credited, hid]
  | requestCompute roundId ciphertext instructionId haccept =>
    by_cases hid : id = roundId
    · right
      right
      refine ⟨roundId, ciphertext, instructionId, blockTimestamp48 msg, rfl, hid.symm, haccept, ?_⟩
      simp [recordDispatch, hid]
    · left
      simp [recordDispatch, hid]
  | _ => exact .inl rfl

end Turns

section Charter

/-- What a round has from its creation on; before it is computed nothing was claimed or swept. -/
structure Round.Charter (contract : Address) (r : Round) : Prop where
  created : r.status ≠ .none
  organization : r.organization ≠ contract
  claimWindow : r.claimWindow ≤ maxClaimWindow
  funded : r.funded < 2 ^ 256
  untouched : r.status = .opened ∨ r.status = .committed → r.totalClaimed = 0 ∧ r.swept = false

structure Storage.Chartered (contract : Address) (s : Storage) : Prop where
  unused (id : ℕ) (h : s.nextRoundId ≤ id) : s.rounds id = .unset
  charter (id : ℕ) (h : id < s.nextRoundId) : (s.rounds id).Charter contract

theorem Storage.Chartered.lt_next {contract : Address} (h : s.Chartered contract)
    (hs : (s.rounds id).status ≠ .none) : id < s.nextRoundId := by
  by_contra hle
  rw [h.unused id (Nat.le_of_not_lt hle)] at hs
  exact hs rfl

theorem Storage.Chartered.of_created {contract : Address} (h : s.Chartered contract)
    (hs : (s.rounds id).status ≠ .none) : (s.rounds id).Charter contract :=
  h.charter id (h.lt_next hs)

theorem Round.Turn.charter {contract : Address} {r : Round} (h : Round.Turn D msg s id call r)
    (hr : (s.rounds id).Charter contract) : r.Charter contract := by
  obtain ⟨hcreated, horg, hwindow, hfunded, huntouched⟩ := hr
  cases h with
  | keep => exact ⟨hcreated, horg, hwindow, hfunded, huntouched⟩
  | fund call amount hs hf => exact ⟨hcreated, horg, hwindow, hf, huntouched⟩
  | submitPolicy call policyCommitment hs =>
    exact ⟨nofun, horg, hwindow, hfunded, fun _ => huntouched (.inl hs)⟩
  | finalizeRound => exact ⟨nofun, horg, hwindow, hfunded, by simp⟩
  | claim call amount hs => exact ⟨hcreated, horg, hwindow, hfunded, by simp [hs]⟩
  | closeRound => exact ⟨nofun, horg, hwindow, hfunded, by simp⟩
  | cancelRound => exact ⟨nofun, horg, hwindow, hfunded, by simp⟩

theorem Started.nextRoundId_le (h : Started D msg view s call s' x) :
    s.nextRoundId ≤ s'.nextRoundId := by
  cases h with
  | createRound => exact Nat.le_succ _
  | _ => exact le_rfl

theorem Started.unset (h : Started D msg view s call s' x) (hs : s.Chartered D.self)
    (hle : s'.nextRoundId ≤ id) : s'.rounds id = .unset := by
  have hid : s.nextRoundId ≤ id := h.nextRoundId_le.trans hle
  have hold {roundId : ℕ} (hst : (s.rounds roundId).status ≠ .none) : id ≠ roundId := by
    rintro rfl
    exact hst (by rw [hs.unused id hid]; rfl)
  have hupdate {roundId : ℕ} {r : Round} (hr : s'.rounds = Function.update s.rounds roundId r)
      (hst : (s.rounds roundId).status ≠ .none) : s'.rounds id = .unset := by
    rw [hr, Function.update_of_ne (hold hst)]
    exact hs.unused id hid
  cases h with
  | createRound =>
    simp only [Storage.setRound_nextRoundId] at hle
    rw [Storage.setRound_rounds, Function.update_of_ne (by omega)]
    exact hs.unused id hid
  | fundNative roundId amount hg hst => exact hupdate rfl (by simp [hst])
  | submitPolicy roundId policyCommitment hst => exact hupdate rfl (by simp [hst])
  | finalizeRound _ _ _ _ res _ _ _ _ hst => exact hupdate rfl (by simp [hst])
  | claim roundId index amount proof hg hst => exact hupdate rfl (by simp [hst])
  | closeRound roundId hg hst => exact hupdate rfl (by simp [hst])
  | cancelRound roundId hg hst => exact hupdate rfl (by rcases hst with hst | hst <;> simp [hst])
  | _ => exact hs.unused id hid

theorem Started.created (h : Started D msg view s call s' x) (hself : msg.sender ≠ D.self)
    (hs : s.Chartered D.self) (hle : s.nextRoundId ≤ id) (hlt : id < s'.nextRoundId) :
    (s'.rounds id).Charter D.self := by
  cases h with
  | createRound token claimWindow hid hw =>
    simp only [Storage.setRound_nextRoundId] at hlt
    obtain rfl : id = s.nextRoundId := by omega
    simp only [Storage.setRound_rounds, Function.update_self, hs.unused _ le_rfl]
    exact ⟨nofun, hself, hw.2, Nat.two_pow_pos 256, fun _ => ⟨rfl, rfl⟩⟩
  | _ => exact absurd hlt (Nat.not_lt.mpr hle)

theorem Started.chartered (h : Started D msg view s call s' x) (hself : msg.sender ≠ D.self)
    (hs : s.Chartered D.self) : s'.Chartered D.self := by
  constructor
  · intro id hle
    exact h.unset hs hle
  · intro id hlt
    rcases Nat.lt_or_ge id s.nextRoundId with hid | hid
    · exact (h.turn hid).charter (hs.charter id hid)
    · exact h.created hself hs hid hlt

theorem Finished.nextRoundId {y : Interaction} {reply : Reply} (h : Finished msg s y reply call s') :
    s'.nextRoundId = s.nextRoundId := by
  cases h <;> rfl

theorem Finished.chartered {y : Interaction} {reply : Reply} (h : Finished msg s y reply call s')
    (hs : s.Chartered D.self)
    (hfund : ∀ roundId amount, call = .fund roundId amount → (roundId : ℕ) < s.nextRoundId)
    (hdispatch : ∀ roundId ciphertext, call = .requestCompute roundId ciphertext →
      (roundId : ℕ) < s.nextRoundId) : s'.Chartered D.self := by
  constructor
  · intro id hle
    rw [h.nextRoundId] at hle
    rcases h.turn id with hkeep | ⟨roundId, amount, hcall, rfl, -⟩ | ⟨roundId, ciphertext, _, _, hcall, rfl, -⟩
    · rw [hkeep]
      exact hs.unused id hle
    · exact absurd (hfund roundId amount hcall) (Nat.not_lt.mpr hle)
    · exact absurd (hdispatch roundId ciphertext hcall) (Nat.not_lt.mpr hle)
  · intro id hlt
    rw [h.nextRoundId] at hlt
    obtain ⟨hcreated, horg, hwindow, hfunded, huntouched⟩ := hs.charter id hlt
    rcases h.turn id with hkeep | ⟨_, _, -, -, hf, hround⟩ | ⟨_, _, _, _, -, -, -, hround⟩
    · rw [hkeep]
      exact hs.charter id hlt
    · rw [hround]
      exact ⟨hcreated, horg, hwindow, hf, huntouched⟩
    · rw [hround]
      exact ⟨nofun, horg, hwindow, hfunded, by simp⟩

end Charter

section Anchored

structure Anchored (D : Deployment) (c : ContractConfig) : Prop where
  chartered : c.world.storage.Chartered D.self
  guard : GuardCounted c
  origin : Originated D c.stack
  funding : ∀ f ∈ c.stack, ∀ roundId amount, f.info.call = .fund roundId amount →
    (roundId : ℕ) < c.world.storage.nextRoundId ∧
      f.info.interaction = .transferFrom (c.world.storage.rounds roundId).token f.info.msg.sender amount
  dispatching : ∀ f ∈ c.stack, ∀ roundId ciphertext, f.info.call = .requestCompute roundId ciphertext →
    (roundId : ℕ) < c.world.storage.nextRoundId

theorem Round.Turn.token {r : Round} (h : Round.Turn D msg s id call r) : r.token = (s.rounds id).token := by
  cases h <;> rfl

theorem Finished.token {y : Interaction} {reply : Reply} (h : Finished msg s y reply call s') (id : ℕ) :
    (s'.rounds id).token = (s.rounds id).token := by
  rcases h.turn id with hkeep | ⟨_, _, -, -, -, hround⟩ | ⟨_, _, _, _, -, -, -, hround⟩
  · rw [hkeep]
  · rw [hround]
  · rw [hround]

theorem Started.funding {y : Interaction} (h : Started D msg view s call s' (some y)) {roundId amount : Uint256}
    (hcall : call = .fund roundId amount) (hs : s.Chartered D.self) : (roundId : ℕ) < s.nextRoundId ∧
      y = .transferFrom (s.rounds roundId).token msg.sender amount ∧ s'.rounds = s.rounds := by
  subst hcall
  generalize hx : some y = x at h
  cases h with
  | configure _ _ _ _ _ hconf => cases hconf
  | fundNative => cases hx
  | fundToken _ _ _ hst => exact ⟨hs.lt_next (by simp [hst]), Option.some.inj hx, rfl⟩

theorem Started.dispatching (h : Started D msg view s call s' x) {roundId : Uint256} {ciphertext : Bytes}
    (hcall : call = .requestCompute roundId ciphertext) (hs : s.Chartered D.self) :
    (roundId : ℕ) < s.nextRoundId ∧ (s.rounds roundId).status.dispatchable ∧
      ((s.rounds roundId).status = .computing →
        (s.rounds roundId).computeRequestedAt + computeRetryTimeout < 2 ^ 48) := by
  subst hcall
  cases h with
  | configure _ _ _ _ _ hconf => cases hconf
  | requestCompute _ _ _ hst =>
    rcases hst with hst | ⟨hst, hclock, -⟩
    · exact ⟨hs.lt_next (by simp [hst]), .inl hst, by simp [hst]⟩
    · exact ⟨hs.lt_next (by simp [hst]), .inr hst, fun _ => hclock⟩

/-- A call leaves the calls below it as they were. -/
theorem Anchored.below {w : World} {fs : List (Frame World PendingCall)} (h : Anchored D ⟨w, fs⟩)
    (hst : Started D msg view w.storage call s x) :
    (∀ f ∈ fs, ∀ roundId amount, f.info.call = .fund roundId amount → (roundId : ℕ) < s.nextRoundId ∧
        f.info.interaction = .transferFrom (s.rounds roundId).token f.info.msg.sender amount) ∧
      ∀ f ∈ fs, ∀ roundId ciphertext, f.info.call = .requestCompute roundId ciphertext →
        (roundId : ℕ) < s.nextRoundId := by
  constructor
  · intro f hf roundId amount hcall
    obtain ⟨hlt, hx⟩ := h.funding f hf roundId amount hcall
    refine ⟨hlt.trans_le hst.nextRoundId_le, ?_⟩
    rw [hx, (hst.turn hlt).token]
  · intro f hf roundId ciphertext hcall
    exact (h.dispatching f hf roundId ciphertext hcall).trans_le hst.nextRoundId_le

theorem Anchored.step (h : Anchored D c) (hstep : Stepped D c a d) : Anchored D d := by
  have hguard := h.guard.step hstep
  have horigin := h.origin.step hstep
  cases hstep with
  | done msg call ht hself hst =>
    obtain ⟨hfunding, hdispatching⟩ := h.below hst
    exact ⟨hst.chartered hself h.chartered, hguard, horigin, hfunding, hdispatching⟩
  | pending msg call ht hself hst =>
    obtain ⟨hfunding, hdispatching⟩ := h.below hst
    refine ⟨hst.chartered hself h.chartered, hguard, horigin, List.forall_mem_cons.mpr ⟨?_, hfunding⟩,
      List.forall_mem_cons.mpr ⟨?_, hdispatching⟩⟩
    · intro roundId amount hcall
      obtain ⟨hlt, hx, hrounds⟩ := hst.funding hcall h.chartered
      refine ⟨hlt.trans_le hst.nextRoundId_le, ?_⟩
      simp only [World.record, hrounds]
      exact hx
    · intro roundId ciphertext hcall
      exact (hst.dispatching hcall h.chartered).1.trans_le hst.nextRoundId_le
  | @settled w saved fs p balance hp hb =>
    refine ⟨h.chartered, hguard, horigin, ?_, ?_⟩
    · rintro f (_ | ⟨_, hf⟩)
      · exact h.funding ⟨saved, p⟩ List.mem_cons_self
      · exact h.funding f (List.mem_cons_of_mem _ hf)
    · rintro f (_ | ⟨_, hf⟩)
      · exact h.dispatching ⟨saved, p⟩ List.mem_cons_self
      · exact h.dispatching f (List.mem_cons_of_mem _ hf)
  | @replied w saved fs p reply s ha hf =>
    have hnext := hf.nextRoundId
    refine ⟨hf.chartered h.chartered ?_ ?_, hguard, horigin, ?_, ?_⟩
    · intro roundId amount hcall
      exact (h.funding _ List.mem_cons_self roundId amount hcall).1
    · exact h.dispatching _ List.mem_cons_self
    · intro f hmem roundId amount hcall
      obtain ⟨hlt, hx⟩ := h.funding f (List.mem_cons_of_mem _ hmem) roundId amount hcall
      refine ⟨hnext ▸ hlt, ?_⟩
      rw [hx]
      exact congrArg (Interaction.transferFrom · _ _) (hf.token roundId).symm
    · intro f hmem roundId ciphertext hcall
      exact hnext ▸ h.dispatching f (List.mem_cons_of_mem _ hmem) roundId ciphertext hcall
  | credit => exact ⟨h.chartered, hguard, horigin, h.funding, h.dispatching⟩
  | drift => exact ⟨h.chartered, hguard, horigin, h.funding, h.dispatching⟩
  | tick => exact ⟨h.chartered, hguard, horigin, h.funding, h.dispatching⟩

theorem Reachable.anchored {initialOwner : Address} {balance : Address → ℕ} {now : ℕ}
    {ok : ContractConfig → Act → Prop} (h : Reachable D initialOwner balance now ok c) : Anchored D c := by
  refine Reachable.invariant ?_ (fun c a d _ hc _ hstep => hc.step hstep) h
  refine ⟨⟨fun _ _ => rfl, ?_⟩, rfl, List.forall_mem_nil _, List.forall_mem_nil _, List.forall_mem_nil _⟩
  intro id hlt
  exact absurd hlt (Nat.not_lt_zero id)

end Anchored

end Fidensur
