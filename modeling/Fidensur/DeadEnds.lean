import Fidensur.Attestation
import Fidensur.ContractProgress

set_option autoImplicit false

namespace Fidensur

open NestedCalls ByteWords

variable {D : Deployment} {E : Enclave} {msg : Msg} {view : Address → ℕ} {s s' : Storage} {call : Call}
  {x : Option Interaction} {w : World} {c d : ContractConfig} {a : Act} {initialOwner : Address}
  {balance : Address → ℕ} {now : ℕ} {ok : ContractConfig → Act → Prop}

section Definitions

def Answers (E : Enclave) (ciphertext : Bytes) (action : Action) (status : UInt8) (data : Bytes) : Prop :=
  ∃ engine df time, df.originalMessage = ciphertext ∧
    (processCompute E engine action df time).2.status = status ∧
    (processCompute E engine action df time).2.data = data

def DispatchedAs (log : List Entry) (instructionId : Bytes32) (ciphertext : Bytes) : Prop :=
  ∃ e ∈ log, ∃ roundId, e.call = .requestCompute roundId ciphertext ∧
    e.phase = .finished (.instruction instructionId)

/-- Calls and time. What the registered machine signs under the id of a computation is the engine's
answer to a ciphertext dispatched under it, and the registry hands out no id that a round waits under. -/
structure Continues (D : Deployment) (E : Enclave) (c : ContractConfig) (a : Act) : Prop where
  credit (token : Address) (amount : ℕ) : a ≠ .credit token amount
  drift (token : Address) (amount : ℕ) : a ≠ .drift token amount
  honest : ∀ msg resultData actionId submissionTag status signature,
    a = .call msg (.finalizeRound resultData actionId submissionTag status signature) →
    TeeResultVerifier.recoverSigner D resultData actionId submissionTag status signature =
      .ok c.world.storage.teeAddress →
    (∃ ciphertext, DispatchedAs c.world.log actionId ciphertext) →
    ∃ ciphertext, DispatchedAs c.world.log actionId ciphertext ∧
      Answers E ciphertext ⟨actionId, submissionTag⟩ status resultData
  unique : ∀ instructionId, a = .reply (.instruction instructionId) → ∀ id,
    (c.world.storage.rounds id).status = .computing →
      (c.world.storage.rounds id).computeInstructionId ≠ instructionId

/-- The node has its key at the registered address and signs every answer of the engine. -/
def Signs (D : Deployment) (E : Enclave) (tee : Address) : Prop :=
  ∀ engine action df time, ∃ signature,
    TeeResultVerifier.recoverSigner D (processCompute E engine action df time).2.data action.id
      action.submissionTag (processCompute E engine action df time).2.status signature = .ok tee

/-- Some continuation winds the round up and pays out everything it was funded with. -/
def Recoverable (D : Deployment) (E : Enclave) (c : ContractConfig) (roundId : ℕ) : Prop :=
  ∃ d, Reaches (machine D) (Continues D E) c d ∧ d.stack = [] ∧
    ((d.world.storage.rounds roundId).status = .closed ∨
      (d.world.storage.rounds roundId).status = .cancelled) ∧
    paid d.world.log roundId = (d.world.storage.rounds roundId).funded

/-- The ciphertext is behind the commitment and holds a policy for this contract and round that the
engine accepts, with a table the round can pay for. -/
def Acceptable (D : Deployment) (E : Enclave) (roundId : ℕ) (r : Round) (ciphertext : Bytes) : Prop :=
  ∃ p table tree, E.keccak ciphertext = r.policyCommitment ∧ E.Opens ciphertext p ∧
    validate E.cfg p = .ok () ∧ evaluate p = .ok table ∧
    MerkleTree.buildMerkleTree E.keccak (leavesOf E.keccak (value p.roundId) table) = some tree ∧
    E.cfg.contractAddress = D.self ∧ (packUint256 (value p.roundId) : ℕ) = roundId ∧
    MerkleTree.root tree ≠ 0 ∧ table.length % 2 ^ 32 ≠ 0 ∧
    (packUint256 (sumAllocations table) : ℕ) ≤ r.funded

def Round.Retryable (r : Round) : Prop := r.computeRequestedAt + computeRetryTimeout < 2 ^ 48

def Answerable (D : Deployment) (E : Enclave) (w : World) (roundId : ℕ) : Prop :=
  ∃ ciphertext, Acceptable D E roundId (w.storage.rounds roundId) ciphertext ∧
    ((w.storage.rounds roundId).Retryable ∨
      DispatchedAs w.log (w.storage.rounds roundId).computeInstructionId ciphertext)

structure WayOut (D : Deployment) (E : Enclave) (w : World) (roundId : ℕ) : Prop where
  swept : (w.storage.rounds roundId).swept = false
  deadline : (w.storage.rounds roundId).status = .finalized →
    (w.storage.rounds roundId).claimDeadline + 1 < 2 ^ 48
  answer : (w.storage.rounds roundId).status = .computing → Answerable D E w roundId

end Definitions

section Stuck

variable {roundId : ℕ} {r : Round} {w : World}

structure Shut (roundId : ℕ) (ciphertext : Bytes) (c : ContractConfig) : Prop where
  late : ¬ (c.world.storage.rounds roundId).Retryable
  undispatched : ¬ DispatchedAs c.world.log (c.world.storage.rounds roundId).computeInstructionId ciphertext
  pending : ∀ f ∈ c.stack, ∀ id ciphertext, f.info.call = .requestCompute id ciphertext → (id : ℕ) ≠ roundId

structure Stuck (D : Deployment) (E : Enclave) (roundId : ℕ) (r : Round) (c : ContractConfig) : Prop where
  status : (c.world.storage.rounds roundId).status = .computing
  commitment : (c.world.storage.rounds roundId).policyCommitment = r.policyCommitment
  funded : (c.world.storage.rounds roundId).funded = r.funded
  funding : ∀ f ∈ c.stack, ∀ id amount, f.info.call = .fund id amount → (id : ℕ) ≠ roundId
  shut : ∀ ciphertext, Acceptable D E roundId r ciphertext → Shut roundId ciphertext c

theorem Answers.decoded {ciphertext resultData : Bytes} {action : Action} {res : AllocationResult}
    (ha : Answers E ciphertext action statusSuccess resultData)
    (hd : AllocationResult.decode resultData = some res) :
    ∃ p table tree time, E.Opens ciphertext p ∧ validate E.cfg p = .ok () ∧ evaluate p = .ok table ∧
      MerkleTree.buildMerkleTree E.keccak (leavesOf E.keccak (value p.roundId) table) = some tree ∧
      res = (ComputedRound.build (E.keccak ciphertext) p table tree time).result E := by
  obtain ⟨engine, df, time, rfl, hstatus, hdata⟩ := ha
  simp only [processCompute] at hstatus hdata
  cases hround : computeRound E df.originalMessage time with
  | error err =>
    rw [hround] at hstatus
    cases hstatus
  | ok round =>
    rw [hround] at hdata
    subst hdata
    have hencoded : AllocationResult.decode (encodeAllocationResult E round) = some (round.result E) :=
      AllocationResult.decode_encode _
    simp only [buildResult, hencoded, Option.some.injEq] at hd
    subst hd
    obtain ⟨p, table, tree, hopen, hvalid, htable, htree, rfl⟩ := computeRound_ok.mp hround
    exact ⟨p, table, tree, time, hopen, hvalid, htable, htree, rfl⟩

theorem acceptable_of_accepted {ciphertext resultData : Bytes} {action : Action} {res : AllocationResult}
    (ha : Answers E ciphertext action statusSuccess resultData)
    (hd : AllocationResult.decode resultData = some res) (hself : res.contractAddr = D.self)
    (hid : (res.roundId : ℕ) = roundId) (hp : res.policyCommitment = r.policyCommitment)
    (hroot : res.merkleRoot ≠ 0) (hn : res.recipientCount ≠ 0)
    (htotal : (res.totalAllocated : ℕ) ≤ r.funded) : Acceptable D E roundId r ciphertext := by
  obtain ⟨p, table, tree, time, hopen, hvalid, htable, htree, rfl⟩ := ha.decoded hd
  simp only [ComputedRound.result, ComputedRound.build] at hself hid hp hroot hn htotal
  refine ⟨p, table, tree, hp, hopen, hvalid, htable, htree, hself, hid, hroot, ?_, htotal⟩
  intro hzero
  apply hn
  rw [Fin.ext_iff, Fin.val_ofNat, hzero]
  rfl

/-- Only an accepted result takes a round out of its computation. -/
theorem Stuck.started (h : Stuck D E roundId r c) (hlt : roundId < c.world.storage.nextRoundId)
    (hawaited : Awaited c.world.storage c.world.log) (ha : Continues D E c (.call msg call))
    (hst : Started D msg view c.world.storage call s x) :
    s.rounds roundId = c.world.storage.rounds roundId := by
  have hstatus := h.status
  have hturn := hst.turn hlt
  generalize s.rounds roundId = r' at hturn
  cases hturn with
  | keep => rfl
  | fund call amount hs => simp [hs] at hstatus
  | submitPolicy call policyCommitment hs => simp [hs] at hstatus
  | claim call amount hs => simp [hs] at hstatus
  | closeRound call hs => simp [hs] at hstatus
  | cancelRound call hs => rcases hs with hs | hs <;> simp [hs] at hstatus
  | finalizeRound resultData actionId submissionTag signature res deadline hsig hd hself hround hs hid hp hroot hn
      htotal =>
    obtain ⟨e, he, id, ciphertext, hcall, hphase⟩ := hawaited roundId h.status
    rw [hid] at hsig ha
    obtain ⟨answered, hdispatched, hanswer⟩ := ha.honest _ _ _ _ _ _ rfl hsig
      ⟨ciphertext, e, he, id, hcall, hphase⟩
    have hacceptable := acceptable_of_accepted hanswer hd hself hround (hp.trans h.commitment) hroot hn
      (h.funded ▸ htotal)
    exact absurd hdispatched (h.shut answered hacceptable).undispatched

theorem Stuck.keep (h : Stuck D E roundId r c)
    (hround : d.world.storage.rounds roundId = c.world.storage.rounds roundId)
    (hfunding : ∀ f ∈ d.stack, ∀ id amount, f.info.call = .fund id amount → (id : ℕ) ≠ roundId)
    (hpending : ∀ ciphertext, Shut roundId ciphertext c →
      ∀ f ∈ d.stack, ∀ id ciphertext, f.info.call = .requestCompute id ciphertext → (id : ℕ) ≠ roundId)
    (hlog : ∀ ciphertext, DispatchedAs d.world.log (c.world.storage.rounds roundId).computeInstructionId ciphertext →
      DispatchedAs c.world.log (c.world.storage.rounds roundId).computeInstructionId ciphertext) :
    Stuck D E roundId r d := by
  constructor
  · rw [hround]
    exact h.status
  · rw [hround]
    exact h.commitment
  · rw [hround]
    exact h.funded
  · exact hfunding
  · intro ciphertext hacceptable
    have hshut := h.shut ciphertext hacceptable
    constructor
    · rw [hround]
      exact hshut.late
    · rw [hround]
      exact fun hdispatched => hshut.undispatched (hlog ciphertext hdispatched)
    · exact hpending ciphertext hshut

theorem dispatched_cons {log : List Entry} {e : Entry} {instructionId : Bytes32} {ciphertext : Bytes}
    (he : e.phase ≠ .finished (.instruction instructionId))
    (h : DispatchedAs (e :: log) instructionId ciphertext) : DispatchedAs log instructionId ciphertext := by
  obtain ⟨e', he', roundId, hcall, hphase⟩ := h
  rcases List.mem_cons.mp he' with rfl | he'
  · exact absurd hphase he
  · exact ⟨e', he', roundId, hcall, hphase⟩

theorem Stuck.replied {saved : World} {fs : List (Frame World PendingCall)} {p : PendingCall} {reply : Reply}
    (h : Stuck D E roundId r ⟨w, ⟨saved, p⟩ :: fs⟩) (ha : Continues D E ⟨w, ⟨saved, p⟩ :: fs⟩ (.reply reply))
    (hf : Finished p.msg w.storage p.interaction reply p.call s) :
    Stuck D E roundId r ⟨w.record p.msg p.call (.finished reply) s w.balance, fs⟩ := by
  obtain ⟨hfund, hfunding⟩ := List.forall_mem_cons.mp h.funding
  have hlog (ciphertext : Bytes) (hdispatched : DispatchedAs (⟨p.msg, p.call, .finished reply, s⟩ :: w.log)
      (w.storage.rounds roundId).computeInstructionId ciphertext) :
      DispatchedAs w.log (w.storage.rounds roundId).computeInstructionId ciphertext := by
    refine dispatched_cons ?_ hdispatched
    intro hphase
    obtain rfl := Phase.finished.inj hphase
    exact ha.unique _ rfl roundId h.status rfl
  rcases hf.turn roundId with hkeep | ⟨id, amount, hcall, hid, -⟩ |
    ⟨id, ciphertext, instructionId, requestedAt, hcall, hid, -, hround⟩
  · refine h.keep hkeep hfunding ?_ hlog
    intro ciphertext hshut
    exact (List.forall_mem_cons.mp hshut.pending).2
  · exact absurd hid (hfund id amount hcall)
  · constructor
    · rw [World.record, hround]
    · rw [World.record, hround]
      exact h.commitment
    · rw [World.record, hround]
      exact h.funded
    · exact hfunding
    · intro answered hacceptable
      exact absurd hid ((h.shut answered hacceptable).pending _ List.mem_cons_self id ciphertext hcall)

theorem Stuck.step (h : Stuck D E roundId r c) (hanchored : Anchored D c)
    (hawaited : Awaited c.world.storage c.world.log) (ha : Continues D E c a) (hstep : Stepped D c a d) :
    Stuck D E roundId r d := by
  have hlt : roundId < c.world.storage.nextRoundId := hanchored.chartered.lt_next (by simp [h.status])
  cases hstep with
  | done msg call ht hself hst =>
    refine h.keep (h.started hlt hawaited ha hst) h.funding (fun _ hshut => hshut.pending) ?_
    intro ciphertext
    exact dispatched_cons nofun
  | pending msg call ht hself hst =>
    refine h.keep (h.started hlt hawaited ha hst) (List.forall_mem_cons.mpr ⟨?_, h.funding⟩) ?_ ?_
    · rintro id amount rfl hid
      have hstatus := h.status
      cases hst with
      | fundToken _ _ hg hopen => simp [← hid, hopen] at hstatus
    · intro ciphertext hshut
      refine List.forall_mem_cons.mpr ⟨?_, hshut.pending⟩
      intro id ciphertext hcall hid
      obtain ⟨-, -, hretry⟩ := hst.dispatching hcall hanchored.chartered
      rw [hid] at hretry
      exact hshut.late (hretry h.status)
    · intro ciphertext
      exact dispatched_cons nofun
  | settled p =>
    obtain ⟨hfund, hfunding⟩ := List.forall_mem_cons.mp h.funding
    refine h.keep rfl (List.forall_mem_cons.mpr ⟨hfund, hfunding⟩) ?_ ?_
    · intro ciphertext hshut
      obtain ⟨hpending, hrest⟩ := List.forall_mem_cons.mp hshut.pending
      exact List.forall_mem_cons.mpr ⟨hpending, hrest⟩
    · intro ciphertext
      exact dispatched_cons nofun
  | replied p reply hacc hf => exact h.replied ha hf
  | credit token amount => exact absurd rfl (ha.credit token amount)
  | drift token amount => exact absurd rfl (ha.drift token amount)
  | tick => exact h.keep rfl h.funding (fun _ hshut => hshut.pending) (fun _ hdispatched => hdispatched)

end Stuck

section Barred

variable {roundId : ℕ}

structure Revived (roundId : ℕ) (c : ContractConfig) : Prop where
  status : (c.world.storage.rounds roundId).status = .computing ∨
    (c.world.storage.rounds roundId).status = .finalized
  swept : (c.world.storage.rounds roundId).swept = true

theorem Revived.started (h : Revived roundId c) (hlt : roundId < c.world.storage.nextRoundId)
    (hst : Started D msg view c.world.storage call s x) :
    ((s.rounds roundId).status = .computing ∨ (s.rounds roundId).status = .finalized) ∧
      (s.rounds roundId).swept = true := by
  obtain ⟨hstatus, hswept⟩ := h
  have hturn := hst.turn hlt
  generalize s.rounds roundId = r at hturn
  cases hturn with
  | keep => exact ⟨hstatus, hswept⟩
  | fund => exact ⟨hstatus, hswept⟩
  | submitPolicy call policyCommitment hs => simp [hs] at hstatus
  | finalizeRound => exact ⟨.inr rfl, hswept⟩
  | claim => exact ⟨hstatus, hswept⟩
  | closeRound call hs ht hw => simp [hswept] at hw
  | cancelRound call hs => rcases hs with hs | hs <;> simp [hs] at hstatus

theorem Revived.step (h : Revived roundId c) (hlt : roundId < c.world.storage.nextRoundId)
    (hstep : Stepped D c a d) : Revived roundId d := by
  cases hstep with
  | done msg call ht hself hst =>
    obtain ⟨hstatus, hswept⟩ := h.started hlt hst
    exact ⟨hstatus, hswept⟩
  | pending msg call ht hself hst =>
    obtain ⟨hstatus, hswept⟩ := h.started hlt hst
    exact ⟨hstatus, hswept⟩
  | replied p reply hacc hf =>
    rcases hf.turn roundId with hround | ⟨_, _, -, -, -, hround⟩ | ⟨_, _, _, _, -, -, -, hround⟩
    · exact ⟨by rw [World.record, hround]; exact h.status, by rw [World.record, hround]; exact h.swept⟩
    · exact ⟨by rw [World.record, hround]; exact h.status, by rw [World.record, hround]; exact h.swept⟩
    · exact ⟨by rw [World.record, hround]; exact .inl rfl, by rw [World.record, hround]; exact h.swept⟩
  | _ => exact ⟨h.status, h.swept⟩

structure Unending (roundId : ℕ) (c : ContractConfig) : Prop where
  status : (c.world.storage.rounds roundId).status = .finalized
  deadline : 2 ^ 48 ≤ (c.world.storage.rounds roundId).claimDeadline + 1
  pending : ∀ f ∈ c.stack, ∀ id ciphertext, f.info.call = .requestCompute id ciphertext → (id : ℕ) ≠ roundId

theorem Unending.started (h : Unending roundId c) (hlt : roundId < c.world.storage.nextRoundId)
    (hst : Started D msg view c.world.storage call s x) :
    (s.rounds roundId).status = .finalized ∧ 2 ^ 48 ≤ (s.rounds roundId).claimDeadline + 1 := by
  obtain ⟨hstatus, hdeadline, -⟩ := h
  have hturn := hst.turn hlt
  generalize s.rounds roundId = r at hturn
  cases hturn with
  | keep => exact ⟨hstatus, hdeadline⟩
  | fund => exact ⟨hstatus, hdeadline⟩
  | submitPolicy call policyCommitment hs => simp [hs] at hstatus
  | finalizeRound _ _ _ _ _ _ _ _ _ _ hs => simp [hs] at hstatus
  | claim => exact ⟨hstatus, hdeadline⟩
  | closeRound call hs ht =>
    have hclock : blockTimestamp48 msg < 2 ^ 48 := Nat.mod_lt _ (Nat.two_pow_pos 48)
    omega
  | cancelRound call hs => rcases hs with hs | hs <;> simp [hs] at hstatus

theorem Unending.step (h : Unending roundId c) (hanchored : Anchored D c) (hstep : Stepped D c a d) :
    Unending roundId d := by
  have hlt : roundId < c.world.storage.nextRoundId := hanchored.chartered.lt_next (by simp [h.status])
  cases hstep with
  | done msg call ht hself hst =>
    obtain ⟨hstatus, hdeadline⟩ := h.started hlt hst
    exact ⟨hstatus, hdeadline, h.pending⟩
  | pending msg call ht hself hst =>
    obtain ⟨hstatus, hdeadline⟩ := h.started hlt hst
    refine ⟨hstatus, hdeadline, List.forall_mem_cons.mpr ⟨?_, h.pending⟩⟩
    intro id ciphertext hcall hid
    obtain ⟨-, hdispatchable, -⟩ := hst.dispatching hcall hanchored.chartered
    rw [hid] at hdispatchable
    rcases hdispatchable with hold | hold
    · exact absurd (hold.symm.trans h.status) nofun
    · exact absurd (hold.symm.trans h.status) nofun
  | settled p =>
    obtain ⟨hpending, hrest⟩ := List.forall_mem_cons.mp h.pending
    exact ⟨h.status, h.deadline, List.forall_mem_cons.mpr ⟨hpending, hrest⟩⟩
  | replied p reply hacc hf =>
    obtain ⟨hpending, hrest⟩ := List.forall_mem_cons.mp h.pending
    rcases hf.turn roundId with hround | ⟨_, _, -, -, -, hround⟩ | ⟨id, ciphertext, _, _, hcall, hid, -, -⟩
    · exact ⟨by rw [World.record, hround]; exact h.status, by rw [World.record, hround]; exact h.deadline, hrest⟩
    · exact ⟨by rw [World.record, hround]; exact h.status, by rw [World.record, hround]; exact h.deadline, hrest⟩
    · exact absurd hid (hpending id ciphertext hcall)
  | _ => exact ⟨h.status, h.deadline, h.pending⟩

theorem wayOut_of_recoverable (h : Reachable D initialOwner balance now ok c) (hidle : c.stack = [])
    (hclosed : (c.world.storage.rounds roundId).status ≠ .closed)
    (hcancelled : (c.world.storage.rounds roundId).status ≠ .cancelled)
    (hcreated : (c.world.storage.rounds roundId).status ≠ .none)
    (hrec : Recoverable D E c roundId) : WayOut D E c.world roundId := by
  obtain ⟨d, hd, -, hend, -⟩ := hrec
  have hany {b : ContractConfig} (hb : Reaches (machine D) (Continues D E) c b) :
      Reachable D initialOwner balance now (fun _ _ => True) b :=
    (h.mono fun _ _ _ => trivial).trans (hb.mono fun _ _ _ => trivial)
  have hcharter := h.anchored.chartered.of_created hcreated
  constructor
  · by_contra hswept
    rw [Bool.not_eq_false] at hswept
    have hstatus : (c.world.storage.rounds roundId).status = .computing ∨
        (c.world.storage.rounds roundId).status = .finalized := by
      have huntouched := hcharter.untouched
      cases hst : (c.world.storage.rounds roundId).status with
      | none => exact absurd hst hcreated
      | opened => simp [huntouched (.inl hst)] at hswept
      | committed => simp [huntouched (.inr hst)] at hswept
      | computing => exact .inl rfl
      | finalized => exact .inr rfl
      | closed => exact absurd hst hclosed
      | cancelled => exact absurd hst hcancelled
    have hrevived : Revived roundId d := by
      refine Reaches.invariant hidle ⟨hstatus, hswept⟩ ?_ hd
      intro b a e b' hb hp ha he hne happly
      refine hp.step ((hany hb).anchored.chartered.lt_next ?_) (.of_machine he hne happly)
      rcases hp.status with hst | hst <;> simp [hst]
    rcases hend with hend | hend <;> simpa [hend] using hrevived.status
  · intro hfinalized
    by_contra hlate
    have hunending : Unending roundId d := by
      refine Reaches.invariant hidle ⟨hfinalized, Nat.not_lt.mp hlate, by simp [hidle]⟩ ?_ hd
      intro b a e b' hb hp ha he hne happly
      exact hp.step (hany hb).anchored (.of_machine he hne happly)
    rcases hend with hend | hend <;> simpa [hend] using hunending.status
  · intro hcomputing
    by_contra hanswer
    have hshut (ciphertext : Bytes)
        (hacceptable : Acceptable D E roundId (c.world.storage.rounds roundId) ciphertext) :
        Shut roundId ciphertext c := by
      refine ⟨?_, ?_, by simp [hidle]⟩
      · exact fun hretry => hanswer ⟨ciphertext, hacceptable, .inl hretry⟩
      · exact fun hdispatched => hanswer ⟨ciphertext, hacceptable, .inr hdispatched⟩
    have hstuck : Stuck D E roundId (c.world.storage.rounds roundId) d := by
      refine Reaches.invariant hidle ⟨hcomputing, rfl, rfl, by simp [hidle], hshut⟩ ?_ hd
      intro b a e b' hb hp ha he hne happly
      exact hp.step (hany hb).anchored (hany hb).awaited ha (.of_machine he hne happly)
    rcases hend with hend | hend <;> simpa [hend] using hstuck.status

end Barred

section Winding

/-- Dispatches are answered while their round waits for them, tokens hold what was moved to them, and
claims stay within their round's table. -/
def Regular (c : ContractConfig) (a : Act) : Prop :=
  DispatchFresh c a ∧ TokensExact c a ∧ ClaimCovered c a

def Resumes (D : Deployment) (E : Enclave) (c : ContractConfig) (a : Act) : Prop :=
  TokensExact c a ∧ Continues D E c a

def Call.isFinalization : Call → Bool
  | .finalizeRound .. => true
  | _ => false

theorem resumes_call (hhonest : call.isFinalization = false ∨ Continues D E c (.call msg call)) :
    Resumes D E c (.call msg call) := by
  refine ⟨tokensExact_call msg call, ?_⟩
  rcases hhonest with hf | hhonest
  · constructor
    · rintro _ _ ⟨⟩
    · rintro _ _ ⟨⟩
    · rintro _ _ _ _ _ _ ⟨⟩
      cases hf
    · rintro _ ⟨⟩
  · exact hhonest

theorem resumes_quiet (h : a = .settle ∨ ∃ seconds, a = .tick seconds) : Resumes D E c a := by
  refine ⟨tokensExact_quiet h, ?_, ?_, ?_, ?_⟩
  · rintro _ _ rfl
    simp at h
  · rintro _ _ rfl
    simp at h
  · rintro _ _ _ _ _ _ rfl
    simp at h
  · rintro _ rfl
    simp at h

theorem resumes_reply {f : Frame World PendingCall} {reply : Reply} (hstack : c.stack = [f])
    (hsettled : f.info.settled = true)
    (hunique : ∀ instructionId, reply = .instruction instructionId → ∀ id,
      (c.world.storage.rounds id).status = .computing →
        (c.world.storage.rounds id).computeInstructionId ≠ instructionId) :
    Resumes D E c (.reply reply) := by
  refine ⟨tokensExact_reply ?_, ?_, ?_, ?_, ?_⟩
  · rw [hstack]
    rintro _ ⟨⟩
    exact hsettled
  · rintro _ _ ⟨⟩
  · rintro _ _ ⟨⟩
  · rintro _ _ _ _ _ _ ⟨⟩
  · rintro instructionId ⟨⟩
    exact hunique instructionId rfl

theorem resumes_returned {f : Frame World PendingCall} (hstack : c.stack = [f]) (hsettled : f.info.settled = true) :
    Resumes D E c (.reply (.returned true [])) :=
  resumes_reply hstack hsettled nofun

theorem Reachable.idle (h : Reachable D initialOwner balance now ok ⟨w, []⟩) : w.storage.entered = false := by
  have hguard := h.anchored.guard
  cases hentered : w.storage.entered with
  | false => rfl
  | true => simp [GuardCounted, hentered] at hguard

/-- Where claims beyond a table have eaten into what is owed to others, a new round in the same token brings
the sum up again. -/
theorem Reachable.tops_up (h : Reachable D initialOwner balance now TokensExact ⟨w, []⟩)
    (hnext : w.storage.nextRoundId + 1 < 2 ^ 256) {sender : Address} (hsender : sender ≠ D.self)
    (token : Address) {amount : ℕ} (hamount : amount < 2 ^ 256) :
    ∃ w', Reaches (machine D) (Resumes D E) ⟨w, []⟩ ⟨w', []⟩ ∧ amount ≤ w'.storage.outstanding token ∧
      ∀ id < w.storage.nextRoundId, w'.storage.rounds id = w.storage.rounds id := by
  by_cases hle : amount ≤ w.storage.outstanding token
  · exact ⟨w, .refl, hle, fun _ _ => rfl⟩
  · obtain ⟨w₁, hcreated, hentered, houtstanding, hrounds⟩ := reaches_created (Resumes D E) w token
      (fun _ => resumes_call (.inl rfl)) hsender hnext
    let roundId : Uint256 := ⟨w.storage.nextRoundId, by omega⟩
    let deficit : Uint256 := ⟨amount - w.storage.outstanding token, by omega⟩
    have hunset := h.anchored.chartered.unused w.storage.nextRoundId le_rfl
    have hround : w₁.storage.rounds roundId =
        { Round.unset with organization := sender, status := .opened, token := token, claimWindow := (3600 : Uint48) } := by
      rw [hrounds, Function.update_self, hunset]
    have hdeficit : deficit ≠ 0 := by
      intro hzero
      have hval := congrArg Fin.val hzero
      simp only [deficit, Fin.val_zero] at hval
      omega
    have hfits : (w₁.storage.rounds roundId).funded + deficit < 2 ^ 256 := by
      rw [hround]
      exact (Nat.zero_add _).trans_lt deficit.isLt
    have howed : w₁.storage.outstanding (w₁.storage.rounds roundId).token + deficit < 2 ^ 256 := by
      rw [hround, houtstanding]
      simp only [deficit]
      omega
    obtain ⟨w', hfunded, hstorage⟩ := reaches_funded (Resumes D E) w₁ roundId deficit
      (fun _ => resumes_call (.inl rfl)) (fun _ => resumes_quiet (.inl rfl))
      (fun _ _ hstack hsettled => resumes_returned hstack hsettled) hsender (hentered.trans h.idle)
      (by rw [hround]) hdeficit hfits howed
    refine ⟨w', hcreated.trans hfunded, ?_, ?_⟩
    · rw [hstorage]
      simp only [Storage.credited, hround, Storage.setOutstanding_outstanding, Function.update_self, houtstanding,
        deficit]
      omega
    · intro id hid
      have hne : id ≠ roundId := hid.ne
      simp only [hstorage, Storage.credited, Storage.setOutstanding_rounds, Storage.setRound_rounds,
        Function.update_of_ne hne, hrounds, Function.update_of_ne hid.ne]

theorem Reachable.resumed (h : Reachable D initialOwner balance now TokensExact c)
    (hd : Reaches (machine D) (Resumes D E) c d) : Reachable D initialOwner balance now TokensExact d :=
  h.trans (hd.mono fun _ _ ha => ha.1)

theorem Recoverable.of_resumed {roundId : ℕ} (hd : Reaches (machine D) (Resumes D E) c d)
    (h : Recoverable D E d roundId) : Recoverable D E c roundId := by
  obtain ⟨e, he, hend⟩ := h
  exact ⟨e, (hd.mono fun _ _ ha => ha.2).trans he, hend⟩

theorem ordered_of_unstarted {later log : List Entry} (h : ∀ e ∈ later, ∀ y, e.phase ≠ .started y) (id : ℕ) :
    ordered (later ++ log) id = ordered log id := by
  induction later with
  | nil => rfl
  | cons e later ih =>
    obtain ⟨he, hrest⟩ := List.forall_mem_cons.mp h
    have hzero : e.ordered id = 0 := by
      unfold Entry.ordered
      split
      · next x hphase => exact absurd hphase (he _)
      · rfl
    rw [List.cons_append, ordered_cons, hzero, Nat.zero_add]
    exact ih hrest

theorem Reachable.pays_out (h : Reachable D initialOwner balance now TokensExact ⟨w, []⟩) {roundId amount : ℕ}
    {status : RoundStatus} {recipient : Address} {guard : Bool} (hend : status = .closed ∨ status = .cancelled)
    (hpays : call.paysOut = true) (hfor : call.paysFor roundId = true) (hfinal : call.isFinalization = false)
    (ht : msg.timestamp = w.now) (hself : msg.sender ≠ D.self)
    (hstart : start D msg (msg.received w.balance) w.storage call =
      .ok ({ w.storage.wound roundId status amount with entered := guard },
        SafeTransfer.payOut (w.storage.rounds roundId).token recipient amount))
    (ha : amount ≠ 0) (hout : amount ≤ w.storage.outstanding (w.storage.rounds roundId).token)
    (hswept : (w.storage.rounds roundId).swept = false)
    (htotal : (w.storage.rounds roundId).totalClaimed + amount = (w.storage.rounds roundId).funded) :
    Recoverable D E ⟨w, []⟩ roundId := by
  have hcovered := Reachable.covered (fun _ _ ha => ha) h (w.storage.rounds roundId).token
  have hreceived := received_ge msg w.balance (w.storage.rounds roundId).token
  have hbalance : amount ≤ msg.received w.balance (w.storage.rounds roundId).token := by
    simp only at hcovered
    omega
  obtain ⟨w', later, hreach, hstorage, -, hlog, hlater⟩ := reaches_payout (Resumes D E) hpays
    (resumes_call (.inl hfinal)) (fun _ => resumes_quiet (.inl rfl))
    (fun _ _ hstack _ hsettled => resumes_returned hstack hsettled) ht hself ha hbalance hstart
  have hround : w'.storage.rounds roundId = { w.storage.rounds roundId with swept := true, status := status } := by
    simp [hstorage, Storage.wound]
  have hpaid := Reachable.ordered_eq (fun _ _ ha => ha) (h.resumed hreach) roundId
  have hordered : ordered w'.log roundId = (w.storage.rounds roundId).funded := by
    rw [hlog, ordered_of_unstarted hlater, ordered_cons, ordered_of_payOut, if_pos hfor,
      h.ordered_unswept hswept, Nat.add_comm]
    exact htotal
  refine ⟨⟨w', []⟩, hreach.mono fun _ _ ha => ha.2, rfl, ?_, ?_⟩
  · rw [hround]
    exact hend
  · rw [hround]
    exact hpaid.symm.trans hordered

theorem Reachable.cancels (h : Reachable D initialOwner balance now TokensExact ⟨w, []⟩)
    (hnext : w.storage.nextRoundId + 1 < 2 ^ 256) {roundId : Uint256}
    (hst : (w.storage.rounds roundId).status = .opened ∨ (w.storage.rounds roundId).status = .committed)
    (hfunds : (w.storage.rounds roundId).funded ≠ 0) : Recoverable D E ⟨w, []⟩ roundId := by
  have hchartered := h.anchored.chartered
  have hlt : (roundId : ℕ) < w.storage.nextRoundId := by
    apply hchartered.lt_next
    rcases hst with hst | hst <;> simp [hst]
  obtain ⟨-, horg, -, hfunded, huntouched⟩ := hchartered.charter roundId hlt
  obtain ⟨hclaimed, hswept⟩ := huntouched hst
  obtain ⟨w₁, hreach, hout, hsame⟩ := h.tops_up (E := E) hnext horg (w.storage.rounds roundId).token hfunded
  apply Recoverable.of_resumed hreach
  have h₁ := h.resumed hreach
  rw [← hsame roundId hlt] at hst hfunds hclaimed hswept hout horg
  let msg : Msg := ⟨(w₁.storage.rounds roundId).organization, 0, w₁.now, ⟨0, fun _ => 0, []⟩⟩
  have hstart : start D msg (msg.received w₁.balance) w₁.storage (.cancelRound roundId) = _ :=
    cancelRound_ok h₁.idle hst rfl hout
  exact h₁.pays_out (.inr rfl) rfl (beq_self_eq_true _) rfl rfl horg hstart hfunds hout hswept
    (by rw [hclaimed, Nat.zero_add])

theorem Reachable.closes (h : Reachable D initialOwner balance now TokensExact ⟨w, []⟩)
    (hnext : w.storage.nextRoundId + 1 < 2 ^ 256) {roundId : Uint256}
    (hst : (w.storage.rounds roundId).status = .finalized)
    (hfunds : (w.storage.rounds roundId).totalClaimed < (w.storage.rounds roundId).funded)
    (hclock : (w.storage.rounds roundId).claimDeadline + 1 < 2 ^ 48)
    (hswept : (w.storage.rounds roundId).swept = false) : Recoverable D E ⟨w, []⟩ roundId := by
  have hchartered := h.anchored.chartered
  have hlt : (roundId : ℕ) < w.storage.nextRoundId := hchartered.lt_next (by simp [hst])
  obtain ⟨-, horg, -, hfunded, -⟩ := hchartered.charter roundId hlt
  obtain ⟨w₁, hreach, hout, hsame⟩ := h.tops_up (E := E) hnext horg (w.storage.rounds roundId).token
    ((Nat.sub_le _ (w.storage.rounds roundId).totalClaimed).trans_lt hfunded)
  rw [← hsame roundId hlt] at hst hfunds hclock hswept hout horg
  obtain ⟨seconds, htime⟩ := exists_tick _ hclock w₁.now
  let w₂ : World := { w₁ with now := w₁.now + seconds }
  have hreach₂ : Reaches (machine D) (Resumes D E) ⟨w, []⟩ ⟨w₂, []⟩ :=
    hreach.trans (reaches_tick seconds (resumes_quiet (.inr ⟨seconds, rfl⟩)))
  apply Recoverable.of_resumed hreach₂
  have h₂ := h.resumed hreach₂
  let msg : Msg := ⟨(w₁.storage.rounds roundId).organization, 0, w₂.now, ⟨0, fun _ => 0, []⟩⟩
  have hlate : (w₂.storage.rounds roundId).claimDeadline < blockTimestamp48 msg := by
    rw [blockTimestamp48, htime]
    exact Nat.lt_succ_self _
  have hstart : start D msg (msg.received w₂.balance) w₂.storage (.closeRound roundId) = _ :=
    closeRound_ok h₂.idle hst hlate hswept hfunds.le hout
  exact h₂.pays_out (.inl rfl) rfl (beq_self_eq_true _) rfl rfl horg hstart (Nat.sub_ne_zero_of_lt hfunds) hout
    hswept (Nat.add_sub_cancel' hfunds.le)

theorem reaches_listed (w : World) {sender : Address} (hsender : sender ≠ D.self) :
    ∃ w', Reaches (machine D) (Resumes D E) ⟨w, []⟩ ⟨w', []⟩ ∧ w'.storage.extensionId ≠ 0 ∧
      w'.storage.rounds = w.storage.rounds ∧ w'.storage.teeAddress = w.storage.teeAddress ∧
      w'.storage.nextRoundId = w.storage.nextRoundId := by
  by_cases hext : w.storage.extensionId = 0
  · let msg : Msg := ⟨sender, 0, w.now, ⟨firstPublicExtensionId + 1, fun _ => D.self, []⟩⟩
    have hstart : start D msg (msg.received w.balance) w.storage .setExtensionId =
        .ok ({ w.storage with extensionId := firstPublicExtensionId }, none) := by
      refine bind_ok.mpr ⟨(), require_ok.mpr (.inr rfl), ?_⟩
      rw [dispatch]
      exact setExtensionId_ok hext
    have hfirst : firstPublicExtensionId ≠ 0 := by decide
    exact ⟨_, reaches_done (resumes_call (.inl rfl)) rfl hsender hstart, hfirst, rfl, rfl, rfl⟩
  · exact ⟨w, .refl, hext, rfl, rfl, rfl⟩

theorem Acceptable.result {roundId : ℕ} {r : Round} {ciphertext : Bytes} (h : Acceptable D E roundId r ciphertext) :
    ciphertext ≠ [] ∧ ∃ res : AllocationResult,
      (∀ action df, df.originalMessage = ciphertext →
        (processCompute E emptyEngine action df 0).2 = buildResult action df res.encode statusSuccess "") ∧
      res.contractAddr = D.self ∧ (res.roundId : ℕ) = roundId ∧
      res.policyCommitment = r.policyCommitment ∧ res.merkleRoot ≠ 0 ∧ res.recipientCount ≠ 0 ∧
      (res.totalAllocated : ℕ) ≤ r.funded := by
  obtain ⟨p, table, tree, hcommitment, hopen, hvalid, htable, htree, hself, hid, hroot, hcount, htotal⟩ := h
  have hnonempty : ciphertext ≠ [] := by
    obtain ⟨plaintext, hplain, -⟩ := hopen
    obtain ⟨_, hne, -⟩ := bind_ok.mp hplain
    exact require_ok.mp hne
  refine ⟨hnonempty, (ComputedRound.build (E.keccak ciphertext) p table tree 0).result E, ?_, hself, hid,
    hcommitment, hroot, fun hn => hcount (congrArg Fin.val hn), htotal⟩
  rintro action df rfl
  have hround : computeRound E df.originalMessage 0 =
      .ok (.build (E.keccak df.originalMessage) p table tree 0) :=
    computeRound_ok.mpr ⟨p, table, tree, hopen, hvalid, htable, htree, rfl⟩
  simp only [processCompute, hround]
  rfl

/-- There are more instruction ids than rounds. -/
theorem Storage.Chartered.exists_unawaited (h : s.Chartered D.self) (hnext : s.nextRoundId < 2 ^ 256) :
    ∃ instructionId, ∀ id, (s.rounds id).status = .computing →
      (s.rounds id).computeInstructionId ≠ instructionId := by
  let awaited : Finset Bytes32 := (Finset.range s.nextRoundId).image fun id => (s.rounds id).computeInstructionId
  have hcard : awaited.card < (Finset.univ : Finset Bytes32).card := by
    rw [Finset.card_univ, Fintype.card_fin]
    exact (Finset.card_image_le.trans_eq (Finset.card_range _)).trans_lt hnext
  obtain ⟨instructionId, -, hnot⟩ := Finset.exists_mem_notMem_of_card_lt_card hcard
  refine ⟨instructionId, fun id hst heq => hnot ?_⟩
  rw [← heq]
  exact Finset.mem_image_of_mem _ (Finset.mem_range.mpr (h.lt_next (by simp [hst])))

theorem Reachable.retries (h : Reachable D initialOwner balance now TokensExact ⟨w, []⟩)
    (hnext : w.storage.nextRoundId < 2 ^ 256) {roundId : Uint256}
    (hst : (w.storage.rounds roundId).status = .computing) (hclock : (w.storage.rounds roundId).Retryable)
    {ciphertext : Bytes} (hne : ciphertext ≠ [])
    (hp : D.keccak ciphertext = (w.storage.rounds roundId).policyCommitment) :
    ∃ w' requestedAt instructionId, Reaches (machine D) (Resumes D E) ⟨w, []⟩ ⟨w', []⟩ ∧
      w'.storage.rounds roundId = { w.storage.rounds roundId with
        computeInstructionId := instructionId
        computeRequestedAt := requestedAt } ∧
      w'.storage.teeAddress = w.storage.teeAddress ∧ w'.storage.nextRoundId = w.storage.nextRoundId ∧
      DispatchedAs w'.log instructionId ciphertext := by
  have hchartered := h.anchored.chartered
  have hcreated : (w.storage.rounds roundId).status ≠ .none := by simp [hst]
  have horg := (hchartered.of_created hcreated).organization
  obtain ⟨instructionId, hunawaited⟩ := hchartered.exists_unawaited hnext
  obtain ⟨w₁, hreach₁, hext, hrounds, htee, hcount⟩ := reaches_listed (E := E) w horg
  -- The last second of the clock is late enough for a retry.
  obtain ⟨wait, hlast⟩ := exists_tick (2 ^ 48 - 1) (n := 2 ^ 48) (by norm_num) w₁.now
  let w₂ : World := { w₁ with now := w₁.now + wait }
  let msg : Msg := ⟨(w.storage.rounds roundId).organization, 0, w₂.now, ⟨0, fun _ => 0, [1]⟩⟩
  have hlate : (w₁.storage.rounds roundId).computeRequestedAt + computeRetryTimeout ≤ blockTimestamp48 msg := by
    rw [hrounds, blockTimestamp48, hlast]
    unfold Round.Retryable at hclock
    omega
  have hstart : start D msg (msg.received w₂.balance) w₂.storage (.requestCompute roundId ciphertext) =
      .ok (w₂.storage, some (send msg opCommandCompute ciphertext [1])) := by
    refine requestCompute_ok ?_ hne ?_ ?_ hlate ?_ hext nofun
    · exact congrArg Round.organization (congrFun hrounds roundId).symm
    · rw [hrounds, hst]
    · rw [hrounds]
      exact hclock
    · rw [hrounds]
      exact hp
  have hreply (c : ContractConfig) (f : Frame World PendingCall) (hstack : c.stack = [f])
      (hs : f.info.settled = true) (hc : c.world.storage = w₂.storage) :
      Resumes D E c (.reply (.instruction instructionId)) := by
    apply resumes_reply hstack hs
    rintro _ ⟨⟩ id
    rw [hc, hrounds]
    exact hunawaited id
  obtain ⟨w₃, hreach₃, hstorage, -, e, he, hcall, hphase⟩ := reaches_dispatch (w := w₂) (Resumes D E) instructionId
    (resumes_call (.inl rfl)) (fun c f hstack _ => hreply c f hstack) rfl horg hstart
  refine ⟨w₃, blockTimestamp48 msg, instructionId,
    (hreach₁.trans (reaches_tick wait (resumes_quiet (.inr ⟨wait, rfl⟩)))).trans hreach₃, ?_, ?_, ?_,
    e, he, roundId, hcall, hphase⟩
  · rw [hstorage, recordDispatch, Storage.setRound_rounds, Function.update_self, hrounds, ← hst]
  · rw [hstorage, recordDispatch, Storage.setRound_teeAddress, htee]
  · rw [hstorage, recordDispatch, Storage.setRound_nextRoundId, hcount]

theorem Reachable.relays (h : Reachable D initialOwner balance now TokensExact ⟨w, []⟩) {roundId : Uint256}
    (hst : (w.storage.rounds roundId).status = .computing) (hsigns : Signs D E w.storage.teeAddress)
    {ciphertext : Bytes} (hacceptable : Acceptable D E roundId (w.storage.rounds roundId) ciphertext)
    (hdispatched : DispatchedAs w.log (w.storage.rounds roundId).computeInstructionId ciphertext) :
    ∃ w', Reaches (machine D) (Resumes D E) ⟨w, []⟩ ⟨w', []⟩ ∧ w'.storage.nextRoundId = w.storage.nextRoundId ∧
      (w'.storage.rounds roundId).status = .finalized ∧
      (w'.storage.rounds roundId).totalClaimed = (w.storage.rounds roundId).totalClaimed ∧
      (w'.storage.rounds roundId).funded = (w.storage.rounds roundId).funded ∧
      (w'.storage.rounds roundId).swept = (w.storage.rounds roundId).swept ∧
      (w'.storage.rounds roundId).claimDeadline + 1 < 2 ^ 48 := by
  obtain ⟨-, res, hdata, hself, hid, hcommitment, hroot, hn, htotal⟩ := hacceptable.result
  have hcreated : (w.storage.rounds roundId).status ≠ .none := by simp [hst]
  obtain ⟨-, horg, hwindow, -, -⟩ := h.anchored.chartered.of_created hcreated
  have hround : roundId = res.roundId := Fin.ext hid.symm
  let action : Action := ⟨(w.storage.rounds roundId).computeInstructionId, []⟩
  let df : DataFixed := ⟨opTypeAlloc, opCommandCompute, ciphertext⟩
  have hresult := hdata action df rfl
  obtain ⟨signature, hsig⟩ := hsigns emptyEngine action df 0
  have hanswers : Answers E ciphertext action statusSuccess res.encode := by
    refine ⟨emptyEngine, df, 0, rfl, ?_, ?_⟩ <;> simp only [hresult, buildResult]
  simp only [hresult, buildResult] at hsig
  have hrelay (msg : Msg) (w' : World) (hlog : w'.log = w.log) : Resumes D E ⟨w', []⟩
      (.call msg (.finalizeRound res.encode action.id [] TeeResultVerifier.statusSuccess signature)) := by
    refine resumes_call (.inr ⟨?_, ?_, ?_, ?_⟩)
    · rintro _ _ ⟨⟩
    · rintro _ _ ⟨⟩
    · intro _ _ _ _ _ _ hact _ _
      simp only [Act.call.injEq, Call.finalizeRound.injEq] at hact
      obtain ⟨rfl, rfl, rfl, rfl, rfl, rfl⟩ := hact
      exact ⟨ciphertext, hlog ▸ hdispatched, hanswers⟩
    · rintro _ ⟨⟩
  rw [hround] at hst hcommitment htotal hwindow
  obtain ⟨w', hreach, hcount, hfinal⟩ := reaches_finalized (w := w) (Resumes D E)
    (fun msg w' _ hlog => hrelay msg w' hlog) (fun seconds => resumes_quiet (.inr ⟨seconds, rfl⟩)) horg
    ((TeeResultVerifier.recoverSigner_ok D).mp hsig).2 hsig (AllocationResult.decode_encode res) hself hst
    (by rw [← hround]) hcommitment hroot hn htotal (hwindow.trans_lt (by norm_num [maxClaimWindow]))
  rw [hround]
  refine ⟨w', hreach, hcount, by rw [hfinal], by rw [hfinal], by rw [hfinal], by rw [hfinal], ?_⟩
  rw [hfinal]
  exact (Nat.add_le_add_right hwindow 1).trans_lt (by norm_num [maxClaimWindow])

theorem Reachable.computes (hkeccak : E.keccak = D.keccak)
    (h : Reachable D initialOwner balance now TokensExact ⟨w, []⟩) (hnext : w.storage.nextRoundId + 1 < 2 ^ 256)
    {roundId : Uint256} (hst : (w.storage.rounds roundId).status = .computing)
    (hfunds : (w.storage.rounds roundId).totalClaimed < (w.storage.rounds roundId).funded)
    (hswept : (w.storage.rounds roundId).swept = false) (hsigns : Signs D E w.storage.teeAddress)
    (hanswer : Answerable D E w roundId) : Recoverable D E ⟨w, []⟩ roundId := by
  obtain ⟨ciphertext, hacceptable, hreach⟩ := hanswer
  have hcloses {w₁ : World} (hreach₁ : Reaches (machine D) (Resumes D E) ⟨w, []⟩ ⟨w₁, []⟩)
      (hsame : w₁.storage.nextRoundId = w.storage.nextRoundId)
      (hst₁ : (w₁.storage.rounds roundId).status = .computing)
      (hfunds₁ : (w₁.storage.rounds roundId).totalClaimed < (w₁.storage.rounds roundId).funded)
      (hswept₁ : (w₁.storage.rounds roundId).swept = false) (hsigns₁ : Signs D E w₁.storage.teeAddress)
      (hacceptable₁ : Acceptable D E roundId (w₁.storage.rounds roundId) ciphertext)
      (hdispatched : DispatchedAs w₁.log (w₁.storage.rounds roundId).computeInstructionId ciphertext) :
      Recoverable D E ⟨w, []⟩ roundId := by
    obtain ⟨w₂, hreach₂, hcount, hfinal, hclaimed, hfunded, hsweep, hdeadline⟩ :=
      (h.resumed hreach₁).relays hst₁ hsigns₁ hacceptable₁ hdispatched
    apply Recoverable.of_resumed (hreach₁.trans hreach₂)
    refine (h.resumed (hreach₁.trans hreach₂)).closes ?_ hfinal ?_ hdeadline (hsweep.trans hswept₁)
    · rw [hcount, hsame]
      exact hnext
    · rw [hclaimed, hfunded]
      exact hfunds₁
  rcases hreach with hclock | hdispatched
  · have hp : D.keccak ciphertext = (w.storage.rounds roundId).policyCommitment := by
      obtain ⟨_, _, _, hp, -⟩ := hacceptable
      rw [← hkeccak]
      exact hp
    obtain ⟨w₁, requestedAt, instructionId, hreach₁, hround, htee, hcount, hdispatched⟩ :=
      h.retries (E := E) (Nat.lt_of_succ_lt hnext) hst hclock hacceptable.result.1 hp
    refine hcloses hreach₁ hcount ?_ ?_ ?_ (htee ▸ hsigns) ?_ ?_
    · rw [hround]
      exact hst
    · rw [hround]
      exact hfunds
    · rw [hround]
      exact hswept
    · rw [hround]
      exact hacceptable
    · rw [hround]
      exact hdispatched
  · exact hcloses .refl rfl hst hfunds hswept hsigns hacceptable hdispatched

end Winding

/-- Between transactions a funded round that is not wound up yet can be wound up in full exactly when it
has a way out: its money did not go back already, its claim window ends within the clock, and while it is
computing the engine accepts what was committed to. -/
theorem recoverable_iff_answerable (D : Deployment) (E : Enclave) (hkeccak : E.keccak = D.keccak)
    (initialOwner : Address) (balance : Address → ℕ) (now : ℕ) (c : ContractConfig)
    (h : Reachable D initialOwner balance now TokensExact c) (hidle : c.stack = [])
    (hnext : c.world.storage.nextRoundId + 1 < 2 ^ 256) (roundId : Uint256)
    (hfunds : (c.world.storage.rounds roundId).totalClaimed < (c.world.storage.rounds roundId).funded)
    (hclosed : (c.world.storage.rounds roundId).status ≠ .closed)
    (hcancelled : (c.world.storage.rounds roundId).status ≠ .cancelled)
    (hsigns : Signs D E c.world.storage.teeAddress) :
    Recoverable D E c roundId ↔ WayOut D E c.world roundId := by
  obtain ⟨w, stack⟩ := c
  simp only at hidle
  subst hidle
  simp only at hnext hfunds hclosed hcancelled hsigns ⊢
  have hcreated : (w.storage.rounds roundId).status ≠ .none := by
    intro hst
    rcases Nat.lt_or_ge (roundId : ℕ) w.storage.nextRoundId with hlt | hle
    · exact (h.anchored.chartered.charter roundId hlt).created hst
    · rw [h.anchored.chartered.unused roundId hle] at hfunds
      exact absurd hfunds (Nat.lt_irrefl 0)
  constructor
  · exact wayOut_of_recoverable h rfl hclosed hcancelled hcreated
  · rintro ⟨hswept, hdeadline, hanswer⟩
    cases hst : (w.storage.rounds roundId).status with
    | none => exact absurd hst hcreated
    | opened => exact h.cancels hnext (.inl hst) (Nat.ne_zero_of_lt hfunds)
    | committed => exact h.cancels hnext (.inr hst) (Nat.ne_zero_of_lt hfunds)
    | computing => exact h.computes hkeccak hnext hst hfunds hswept hsigns (hanswer hst)
    | finalized => exact h.closes hnext hst hfunds (hdeadline hst) hswept
    | closed => exact absurd hst hclosed
    | cancelled => exact absurd hst hcancelled

section Sample

def waitingRun (ciphertext : Bytes) (funded : Uint256) : List Act :=
  [.call (sampleMsg 1 0) .setExtensionId,
    .call (sampleMsg 1 0) (.setTeeAddress 7),
    .call (sampleMsg 2 0) (.createRound 0 3600),
    .call (sampleMsg 2 funded) (.fund 0 funded),
    .call (sampleMsg 2 0) (.submitPolicy 0 (sampleDeployment.keccak ciphertext)),
    .call (sampleMsg 2 0) (.requestCompute 0 ciphertext),
    .reply (.instruction 99)]

def regularStep (c : ContractConfig) (a : Act) : Bool :=
  pendingDispatchable c a && quietAndExact c a &&
    match a with
    | .call _ call => !call.isClaim
    | _ => true

theorem regularStep_ok (h : regularStep c a = true) : Regular c a := by
  simp only [regularStep, Bool.and_eq_true] at h
  obtain ⟨⟨hpending, hexact⟩, hclaim⟩ := h
  refine ⟨dispatchFresh_of_pending hpending, (quietAndExact_ok hexact).2, ?_⟩
  rintro msg roundId index amount proof rfl
  cases hclaim

theorem signs_sample : Signs sampleDeployment sampleEnclave 7 :=
  fun _ _ _ _ => ⟨sampleSignature, rfl⟩

structure Waiting where
  status : RoundStatus
  swept : Bool
  totalClaimed : ℕ
  funded : ℕ
  commitment : Bytes32
  tee : Address
  requestedAt : ℕ
  nextRoundId : ℕ
  deriving DecidableEq

def World.waiting (w : World) : Waiting :=
  let r := w.storage.rounds 0
  ⟨r.status, r.swept, r.totalClaimed, r.funded, r.policyCommitment, w.storage.teeAddress,
    r.computeRequestedAt, w.storage.nextRoundId⟩

theorem recoverable_iff_answerable_sample : ∃ c,
    (machine sampleDeployment).run (waitingRun [42] 18) sampleStart = some c ∧
    (c.world.storage.rounds 0).status = .computing ∧ Recoverable sampleDeployment sampleEnclave c 0 := by
  have hrun : ((machine sampleDeployment).run (waitingRun [42] 18) sampleStart).map
      (fun c => (c.stack.length, c.world.waiting)) =
      some (0, ⟨.computing, false, 0, 18, sampleDeployment.keccak [42], 7, 0, 1⟩) := by
    decide
  have hsteps : StepsMeet (machine sampleDeployment) (waitingRun [42] 18) sampleStart TokensExact :=
    .of_meets (fun _ _ hc => (regularStep_ok hc).2.1) (by decide)
  obtain ⟨c, hc, hend⟩ := Option.map_eq_some_iff.mp hrun
  simp only [World.waiting, Prod.mk.injEq, Waiting.mk.injEq, List.length_eq_zero_iff] at hend
  obtain ⟨hidle, hst, hswept, hclaimed, hfunded, hcommitment, htee, hrequested, hnext⟩ := hend
  have hacceptable : Acceptable sampleDeployment sampleEnclave 0 (c.world.storage.rounds 0) [42] := by
    refine ⟨samplePolicy, sampleTable, sampleTree, ?_, ⟨[42], rfl, rfl⟩, by decide,
      by decide +kernel, by decide +kernel, rfl, by decide +kernel, by decide +kernel, by decide +kernel, ?_⟩
    · rw [hcommitment]
      rfl
    · rw [hfunded]
      decide
  have hretry : (c.world.storage.rounds 0).Retryable := by
    rw [Round.Retryable, hrequested]
    decide
  refine ⟨c, hc, hst, ?_⟩
  refine (recoverable_iff_answerable sampleDeployment sampleEnclave rfl 1 (fun _ => 0) 0 c
    (hsteps.reaches _ List.prefix_rfl c hc) hidle ?_ 0 ?_ ?_ ?_ ?_).mpr ⟨hswept, ?_, ?_⟩
  · rw [hnext]
    decide
  · rw [Fin.val_zero, hclaimed, hfunded]
    decide
  · rw [Fin.val_zero, hst]
    decide
  · rw [Fin.val_zero, hst]
    decide
  · rw [htee]
    exact signs_sample
  · rw [Fin.val_zero, hst]
    rintro ⟨⟩
  · exact fun _ => ⟨[42], hacceptable, .inl hretry⟩

/-- A policy for 18 in a round that holds 10: nothing gets the 10 out any more. -/
theorem overcommitted_round_stranded : ∃ c,
    (machine sampleDeployment).run (waitingRun [42] 10) sampleStart = some c ∧
    Reachable sampleDeployment 1 (fun _ => 0) 0 Regular c ∧ c.stack = [] ∧
    (c.world.storage.rounds 0).status = .computing ∧
    (c.world.storage.rounds 0).totalClaimed < (c.world.storage.rounds 0).funded ∧
    Signs sampleDeployment sampleEnclave c.world.storage.teeAddress ∧
    ¬ Recoverable sampleDeployment sampleEnclave c 0 := by
  have hrun : ((machine sampleDeployment).run (waitingRun [42] 10) sampleStart).map
      (fun c => (c.stack.length, c.world.waiting)) =
      some (0, ⟨.computing, false, 0, 10, sampleDeployment.keccak [42], 7, 0, 1⟩) := by
    decide
  have hsteps : StepsMeet (machine sampleDeployment) (waitingRun [42] 10) sampleStart Regular :=
    .of_meets (fun _ _ => regularStep_ok) (by decide)
  obtain ⟨c, hc, hend⟩ := Option.map_eq_some_iff.mp hrun
  simp only [World.waiting, Prod.mk.injEq, Waiting.mk.injEq, List.length_eq_zero_iff] at hend
  obtain ⟨hidle, hst, -, hclaimed, hfunded, -, htee, -⟩ := hend
  have hr := hsteps.reaches _ List.prefix_rfl c hc
  refine ⟨c, hc, hr, hidle, hst, by rw [hclaimed, hfunded]; decide, htee ▸ signs_sample, ?_⟩
  intro hrec
  have hway := wayOut_of_recoverable hr hidle (by rw [hst]; decide) (by rw [hst]; decide) (by rw [hst]; decide) hrec
  obtain ⟨ciphertext, ⟨p, table, tree, -, ⟨plaintext, hplain, hp⟩, -, htable, -, -, -, -, -, htotal⟩, -⟩ :=
    hway.answer hst
  have hpolicy : p = samplePolicy := by
    simp only [sampleEnclave] at hp
    split at hp
    · exact (Except.ok.inj hp).symm
    · cases hp
  subst hpolicy
  have hsample : evaluate samplePolicy = .ok sampleTable := by decide
  obtain rfl : table = sampleTable := Except.ok.inj (htable.symm.trans hsample)
  rw [hfunded] at htotal
  exact absurd htotal (by decide)

end Sample

end Fidensur
