import Fidensur.BalanceCoverage

set_option autoImplicit false

namespace Fidensur

open NestedCalls ByteWords

structure Dispatch where
  sender : Address
  ciphertext : Bytes
  instructionId : Bytes32
  time : ℕ

structure Finalization where
  resultData : Bytes
  actionId : Bytes32
  submissionTag : Bytes
  status : UInt8
  signature : Bytes
  teeAddress : Address

inductive RoundEvent
  | committed (sender : Address) (policyCommitment : Bytes32)
  | dispatched (d : Dispatch)
  | finalized (f : Finalization)

def Entry.event (roundId : ℕ) (e : Entry) : Option RoundEvent :=
  match e.call, e.phase with
  | .submitPolicy id policyCommitment, .started _ =>
      if (id : ℕ) = roundId then some (.committed e.msg.sender policyCommitment) else none
  | .requestCompute id ciphertext, .finished (.instruction instructionId) =>
      if (id : ℕ) = roundId then
        some (.dispatched ⟨e.msg.sender, ciphertext, instructionId, e.msg.timestamp⟩)
      else none
  | .finalizeRound resultData actionId submissionTag status signature, .started _ =>
      if (AllocationResult.decode resultData).any (fun res => (res.roundId : ℕ) == roundId) then
        some (.finalized ⟨resultData, actionId, submissionTag, status, signature, e.post.teeAddress⟩)
      else none
  | _, _ => none

def events (log : List Entry) (roundId : ℕ) : List RoundEvent := log.filterMap (Entry.event roundId)

/-- Dispatches of the committed bytes by the organization, a retry only after the timeout. -/
structure Dispatches (keccak : Keccak) (r : Round) (ds : List Dispatch) : Prop where
  sender : ∀ d ∈ ds, d.sender = r.organization
  committed : ∀ d ∈ ds, keccak d.ciphertext = r.policyCommitment
  spaced : ds.IsChain (fun newer older => older.time + computeRetryTimeout ≤ newer.time)

/-- A signed success for the last dispatch of the round, with the values the round now holds. -/
structure Accepted (D : Deployment) (roundId : ℕ) (r : Round) (f : Finalization) (d : Dispatch) :
    Prop where
  status : f.status = TeeResultVerifier.statusSuccess
  signed : TeeResultVerifier.SignedBy D
    (TeeResultVerifier.digest D f.resultData f.actionId f.submissionTag f.status) f.signature f.teeAddress
  registered : f.teeAddress ≠ 0
  answered : f.actionId = d.instructionId
  encoded : ∃ res, AllocationResult.decode f.resultData = some res ∧
    res.contractAddr = D.self ∧ (res.roundId : ℕ) = roundId ∧
    res.policyCommitment = r.policyCommitment ∧ res.merkleRoot = r.merkleRoot ∧
    (res.totalAllocated : ℕ) = r.totalAllocated ∧ (res.recipientCount : ℕ) = r.recipientCount ∧
    res.engineVersion = r.engineVersion

def Authentic (D : Deployment) (roundId : ℕ) (r : Round) (evs : List RoundEvent) : Prop :=
  match r.status with
  | .none | .opened => evs = []
  | .committed => evs = [.committed r.organization r.policyCommitment]
  | .computing => ∃ d ds,
      evs = (d :: ds).map .dispatched ++ [.committed r.organization r.policyCommitment] ∧
      Dispatches D.keccak r (d :: ds) ∧ d.instructionId = r.computeInstructionId ∧
      d.time = r.computeRequestedAt
  | .finalized | .closed => ∃ f d ds,
      evs = .finalized f :: (d :: ds).map .dispatched ++
        [.committed r.organization r.policyCommitment] ∧
      Dispatches D.keccak r (d :: ds) ∧ Accepted D roundId r f d
  | .cancelled => True

def Sequential (c : ContractConfig) (a : Act) : Prop :=
  ∀ msg call, a = .call msg call → c.stack = []

def ClockFits (_ : ContractConfig) (a : Act) : Prop :=
  ∀ msg call, a = .call msg call → msg.timestamp < 2 ^ 48

def FreshIds (c : ContractConfig) (a : Act) : Prop :=
  ∀ id, a = .reply (.instruction id) → ∀ e ∈ c.world.log, e.phase ≠ .finished (.instruction id)

def HashedIn (D : Deployment) (S : Set Bytes) (_ : ContractConfig) (a : Act) : Prop :=
  ∀ msg call, a = .call msg call → ∀ b ∈ call.hashed D msg, b ∈ S

variable {D : Deployment} {msg : Msg} {view : Address → ℕ} {s s' : Storage} {call : Call}
  {x : Option Interaction} {c d : ContractConfig} {a : Act} {initialOwner : Address}
  {balance : Address → ℕ} {now : ℕ} {ok : ContractConfig → Act → Prop} {log : List Entry}

structure AtMostOne (D : Deployment) (c : ContractConfig) : Prop where
  tail : c.stack.tail = []
  started : ∀ f ∈ c.stack, ∃ view s,
    Started D f.info.msg view s f.info.call c.world.storage (some f.info.interaction)

theorem AtMostOne.step (h : AtMostOne D c) (hseq : Sequential c a) (hstep : Stepped D c a d) :
    AtMostOne D d := by
  have hempty {w : World} : AtMostOne D ⟨w, []⟩ := ⟨rfl, List.forall_mem_nil _⟩
  cases hstep with
  | @done w fs msg call s =>
    obtain rfl : fs = [] := hseq msg call rfl
    exact hempty
  | @pending w fs msg call s x b ht hself hst =>
    obtain rfl : fs = [] := hseq msg call rfl
    refine ⟨rfl, ?_⟩
    rintro f (_ | ⟨_, hf⟩)
    · exact ⟨_, _, hst⟩
    · cases hf
  | @settled w saved fs p b hp hb =>
    refine ⟨h.tail, ?_⟩
    rintro f (_ | ⟨_, hf⟩)
    · exact h.started ⟨saved, p⟩ List.mem_cons_self
    · exact h.started f (List.mem_cons_of_mem _ hf)
  | @replied w saved fs p reply s =>
    obtain rfl : fs = [] := h.tail
    exact hempty
  | credit => exact ⟨h.tail, h.started⟩
  | drift => exact ⟨h.tail, h.started⟩
  | tick => exact ⟨h.tail, h.started⟩

theorem Reachable.atMostOne (hok : ∀ c a, ok c a → Sequential c a)
    (h : Reachable D initialOwner balance now ok c) : AtMostOne D c :=
  Reachable.invariant ⟨rfl, List.forall_mem_nil _⟩ (fun c a _ _ hp ha hstep => hp.step (hok c a ha) hstep) h

theorem AtMostOne.dispatching (h : AtMostOne D c) {f : Frame World PendingCall} (hf : f ∈ c.stack)
    {roundId : Uint256} {ciphertext : Bytes} (hc : f.info.call = .requestCompute roundId ciphertext) :
    let r := c.world.storage.rounds roundId
    f.info.msg.sender = r.organization ∧ D.keccak ciphertext = r.policyCommitment ∧
      (r.status = .committed ∨ r.status = .computing ∧
        r.computeRequestedAt + computeRetryTimeout < 2 ^ 48 ∧
        r.computeRequestedAt + computeRetryTimeout ≤ blockTimestamp48 f.info.msg) := by
  obtain ⟨view, s, hst⟩ := h.started f hf
  rw [hc] at hst
  generalize hx : some f.info.interaction = x at hst
  generalize ht : c.world.storage = t at hst ⊢
  cases hst with
  | configure _ _ _ _ _ hconf => cases hconf
  | requestCompute _ _ ho hs hp => exact ⟨ho, hp, hs⟩

theorem AtMostOne.fresh (h : AtMostOne D c) : DispatchFresh c a := by
  rintro _ f fs roundId ciphertext - hstack hcall
  obtain ⟨-, -, hst⟩ := h.dispatching (by simp [hstack]) hcall
  rcases hst with hst | ⟨hst, -⟩
  · exact .inl hst
  · exact .inr hst

section Congruence

def Round.record (r : Round) :=
  (r.status, r.organization, r.policyCommitment, r.computeInstructionId, r.computeRequestedAt,
    r.merkleRoot, r.totalAllocated, r.recipientCount, r.engineVersion)

theorem Dispatches.congr {keccak : Keccak} {r r' : Round} {ds : List Dispatch}
    (h : Dispatches keccak r ds) (ho : r'.organization = r.organization)
    (hp : r'.policyCommitment = r.policyCommitment) : Dispatches keccak r' ds where
  sender d hd := ho ▸ h.sender d hd
  committed d hd := hp ▸ h.committed d hd
  spaced := h.spaced

theorem Authentic.congr {roundId : ℕ} {r r' : Round} {evs : List RoundEvent}
    (h : Authentic D roundId r evs) (hr : r'.record = r.record) : Authentic D roundId r' evs := by
  simp only [Round.record, Prod.mk.injEq] at hr
  obtain ⟨hst, ho, hp, hid, htime, hroot, htotal, hcount, hversion⟩ := hr
  unfold Authentic at h ⊢
  rw [hst]
  cases hs : r.status with
  | none => simpa only [hs] using h
  | opened => simpa only [hs] using h
  | committed => simpa only [hs, ho, hp] using h
  | computing =>
    simp only [hs] at h ⊢
    obtain ⟨d, ds, hevs, hd, hdid, hdtime⟩ := h
    exact ⟨d, ds, by rw [ho, hp, hevs], hd.congr ho hp, by rw [hid, hdid], by rw [htime, hdtime]⟩
  | finalized =>
    simp only [hs] at h ⊢
    obtain ⟨f, d, ds, hevs, hd, hf⟩ := h
    refine ⟨f, d, ds, by rw [ho, hp, hevs], hd.congr ho hp, ?_⟩
    exact ⟨hf.status, hf.signed, hf.registered, hf.answered, by
      rw [hp, hroot, htotal, hcount, hversion]; exact hf.encoded⟩
  | closed =>
    simp only [hs] at h ⊢
    obtain ⟨f, d, ds, hevs, hd, hf⟩ := h
    refine ⟨f, d, ds, by rw [ho, hp, hevs], hd.congr ho hp, ?_⟩
    exact ⟨hf.status, hf.signed, hf.registered, hf.answered, by
      rw [hp, hroot, htotal, hcount, hversion]; exact hf.encoded⟩
  | cancelled => trivial

end Congruence

theorem Reachable.sequential (hok : ∀ c a, ok c a → Sequential c a)
    (h : Reachable D initialOwner balance now ok c) :
    Reachable D initialOwner balance now (fun c a => ok c a ∧ DispatchFresh c a) c :=
  Reaches.and (fun _ _ hr _ => (Reachable.atMostOne hok hr).fresh) h

section Steps

theorem events_cons (e : Entry) (log : List Entry) (roundId : ℕ) :
    events (e :: log) roundId = (e.event roundId).toList ++ events log roundId := by
  simp only [events, List.filterMap_cons]
  cases e.event roundId <;> rfl

def Call.eventful : Call → Bool
  | .submitPolicy .. | .finalizeRound .. => true
  | _ => false

theorem event_started (msg : Msg) (call : Call) (x : Option Interaction) (post : Storage)
    (h : call.eventful = false) (roundId : ℕ) :
    (⟨msg, call, .started x, post⟩ : Entry).event roundId = none := by
  cases call <;> first | rfl | cases h

theorem event_finalizeRound (msg : Msg) {resultData : Bytes} (actionId : Bytes32)
    (submissionTag : Bytes) (status : UInt8) (signature : Bytes) (post : Storage)
    {res : AllocationResult} (hd : AllocationResult.decode resultData = some res) (id : ℕ) :
    (⟨msg, .finalizeRound resultData actionId submissionTag status signature, .started none,
        post⟩ : Entry).event id =
      if (res.roundId : ℕ) = id then
        some (.finalized ⟨resultData, actionId, submissionTag, status, signature, post.teeAddress⟩)
      else none := by
  simp only [Entry.event, hd, Option.any_some, beq_iff_eq]

theorem Started.authentic (h : Started D msg view s call s' x) (hs : s.Shape)
    (ha : ∀ id, Authentic D id (s.rounds id) (events log id)) (id : ℕ) :
    Authentic D id (s'.rounds id) (events (⟨msg, call, .started x, s'⟩ :: log) id) := by
  have hquiet (hcall : call.eventful = false) :
      events (⟨msg, call, .started x, s'⟩ :: log) id = events log id := by
    rw [events_cons, event_started msg call x s' hcall]
    rfl
  have hkeep (hcall : call.eventful = false) (hr : (s'.rounds id).record = (s.rounds id).record) :
      Authentic D id (s'.rounds id) (events (⟨msg, call, .started x, s'⟩ :: log) id) := by
    rw [hquiet hcall]
    exact (ha id).congr hr
  cases h with
  | configure call _ _ _ _ hconf =>
    refine hkeep ?_ rfl
    cases call <;> first | rfl | cases hconf
  | createRound =>
    by_cases hid : id = s.nextRoundId
    · rw [hquiet rfl]
      have hold := ha id
      have hst : (s.rounds id).status = .none := hs.unused id hid.ge
      simp only [Authentic, hst] at hold
      subst hid
      simpa [Authentic] using hold
    · exact hkeep rfl (by simp [hid])
  | fundNative => exact hkeep rfl (Round.field_same Round.record rfl (by rfl) id)
  | submitPolicy roundId policyCommitment hst ho hp hf =>
    by_cases hid : id = roundId
    · subst hid
      have hold := ha roundId
      simp only [Authentic, hst] at hold
      simp [events_cons, Entry.event, hold, Authentic, ho]
    · have hid' : (roundId : ℕ) ≠ id := Ne.symm hid
      simpa [events_cons, Entry.event, hid, hid'] using ha id
  | finalizeRound resultData actionId submissionTag signature res ht hsig hd hself hst hact hp =>
    by_cases hid : id = res.roundId
    · subst hid
      have hold := ha res.roundId
      simp only [Authentic, hst] at hold
      obtain ⟨d, ds, hevs, hds, hdid, -⟩ := hold
      obtain ⟨hsigned, -⟩ := (TeeResultVerifier.recoverSigner_ok D).mp hsig
      rw [events_cons, event_finalizeRound _ _ _ _ _ _ hd, if_pos rfl, hevs]
      simp only [Authentic, Storage.setRound_rounds, Function.update_self]
      exact ⟨_, d, ds, rfl, hds.congr rfl rfl, rfl, hsigned, ht, hact.trans hdid.symm,
        res, hd, hself, rfl, hp, rfl, rfl, rfl, rfl⟩
    · rw [events_cons, event_finalizeRound _ _ _ _ _ _ hd, if_neg (Ne.symm hid)]
      simpa [hid] using ha id
  | claim => exact hkeep rfl (Round.field_same Round.record rfl (by rfl) id)
  | closeRound roundId hg hst =>
    rw [hquiet rfl]
    by_cases hid : id = roundId
    · subst hid
      have hold := ha roundId
      simp only [Authentic, hst] at hold
      obtain ⟨f, d, ds, hevs, hds, hf⟩ := hold
      simp only [Storage.wound, Storage.setOutstanding_rounds, Storage.setRound_rounds,
        Function.update_self, Authentic]
      exact ⟨f, d, ds, hevs, hds.congr rfl rfl, hf.status, hf.signed, hf.registered, hf.answered,
        hf.encoded⟩
    · simpa [Storage.wound, hid] using ha id
  | cancelRound roundId =>
    rw [hquiet rfl]
    by_cases hid : id = roundId
    · simp [Storage.wound, hid, Authentic]
    · simpa [Storage.wound, hid] using ha id
  | _ => exact hkeep rfl rfl

theorem event_finished (msg : Msg) (call : Call) (reply : Reply) (post : Storage)
    (h : ∀ roundId ciphertext, call ≠ .requestCompute roundId ciphertext) (id : ℕ) :
    (⟨msg, call, .finished reply, post⟩ : Entry).event id = none := by
  cases call <;> first | rfl | exact absurd rfl (h _ _)

theorem Finished.authentic {y : Interaction} {reply : Reply} (h : Finished msg s y reply call s')
    (hreply : ∀ roundId ciphertext, call = .requestCompute roundId ciphertext →
      ∀ id, y.accept reply = .ok id → reply = .instruction id)
    (hdispatch : ∀ roundId : Uint256, ∀ ciphertext, call = .requestCompute roundId ciphertext →
      msg.sender = (s.rounds roundId).organization ∧
      D.keccak ciphertext = (s.rounds roundId).policyCommitment ∧
      ((s.rounds roundId).status = .committed ∨ (s.rounds roundId).status = .computing ∧
        (s.rounds roundId).computeRequestedAt + computeRetryTimeout < 2 ^ 48 ∧
        (s.rounds roundId).computeRequestedAt + computeRetryTimeout ≤ blockTimestamp48 msg))
    (hclock : msg.timestamp < 2 ^ 48)
    (ha : ∀ id, Authentic D id (s.rounds id) (events log id)) (id : ℕ) :
    Authentic D id (s'.rounds id) (events (⟨msg, call, .finished reply, s'⟩ :: log) id) := by
  have hkeep (hcall : ∀ roundId ciphertext, call ≠ .requestCompute roundId ciphertext)
      (hr : (s'.rounds id).record = (s.rounds id).record) :
      Authentic D id (s'.rounds id) (events (⟨msg, call, .finished reply, s'⟩ :: log) id) := by
    rw [events_cons, event_finished msg call reply s' hcall]
    exact (ha id).congr hr
  cases h with
  | fund => exact hkeep nofun (Round.field_same Round.record rfl (by rfl) id)
  | release _ hc =>
    refine hkeep ?_ rfl
    rintro roundId ciphertext rfl
    cases hc
  | keep _ _ _ hr => exact hkeep hr rfl
  | requestCompute roundId ciphertext instructionId haccept =>
    obtain rfl := hreply roundId ciphertext rfl instructionId haccept
    obtain ⟨hsender, hcommitted, hst⟩ := hdispatch roundId ciphertext rfl
    have htime : blockTimestamp48 msg = msg.timestamp := Nat.mod_eq_of_lt hclock
    by_cases hid : id = roundId
    · subst hid
      have hold := ha roundId
      have hevent : (⟨msg, .requestCompute roundId ciphertext, .finished (.instruction instructionId),
          recordDispatch msg roundId instructionId s⟩ : Entry).event roundId =
          some (.dispatched ⟨msg.sender, ciphertext, instructionId, msg.timestamp⟩) := if_pos rfl
      rw [events_cons, hevent]
      simp only [recordDispatch, Storage.setRound_rounds, Function.update_self, Authentic]
      rcases hst with hst | ⟨hst, -, hlater⟩
      · simp only [Authentic, hst] at hold
        rw [hold]
        refine ⟨_, [], rfl, ⟨?_, ?_, ?_⟩, rfl, htime.symm⟩
        · simpa using hsender
        · simpa using hcommitted
        · exact List.isChain_singleton _
      · simp only [Authentic, hst] at hold
        obtain ⟨d, ds, hevs, hds, -, hdtime⟩ := hold
        rw [hevs]
        refine ⟨_, d :: ds, rfl, ⟨?_, ?_, ?_⟩, rfl, htime.symm⟩
        · simpa using ⟨hsender, hds.sender d (by simp), fun e he => hds.sender e (by simp [he])⟩
        · simpa using ⟨hcommitted, hds.committed d (by simp), fun e he => hds.committed e (by simp [he])⟩
        · refine List.isChain_cons_cons.mpr ⟨?_, hds.spaced⟩
          simp only
          omega
    · have hevent : (⟨msg, .requestCompute roundId ciphertext, .finished (.instruction instructionId),
          recordDispatch msg roundId instructionId s⟩ : Entry).event id = none := if_neg (Ne.symm hid)
      rw [events_cons, hevent]
      simpa [recordDispatch, hid] using ha id

end Steps

section Runs

theorem Reachable.calls {Q : Msg → Call → Prop}
    (hok : ∀ c a, ok c a → ∀ msg call, a = .call msg call → Q msg call)
    (h : Reachable D initialOwner balance now ok c) :
    (∀ e ∈ c.world.log, Q e.msg e.call) ∧ ∀ f ∈ c.stack, Q f.info.msg f.info.call := by
  refine Reachable.invariant (P := fun c => (∀ e ∈ c.world.log, Q e.msg e.call) ∧
    ∀ f ∈ c.stack, Q f.info.msg f.info.call)
    ⟨List.forall_mem_nil _, List.forall_mem_nil _⟩ ?_ h
  rintro c a d - ⟨hlog, hstack⟩ ha hstep
  cases hstep with
  | done msg call =>
    exact ⟨List.forall_mem_cons.mpr ⟨hok _ _ ha msg call rfl, hlog⟩, hstack⟩
  | pending msg call =>
    have hq := hok _ _ ha msg call rfl
    exact ⟨List.forall_mem_cons.mpr ⟨hq, hlog⟩, List.forall_mem_cons.mpr ⟨hq, hstack⟩⟩
  | settled p =>
    obtain ⟨hp, hrest⟩ := List.forall_mem_cons.mp hstack
    exact ⟨List.forall_mem_cons.mpr ⟨hp, hlog⟩, List.forall_mem_cons.mpr ⟨hp, hrest⟩⟩
  | replied p =>
    obtain ⟨hp, hrest⟩ := List.forall_mem_cons.mp hstack
    exact ⟨List.forall_mem_cons.mpr ⟨hp, hlog⟩, hrest⟩
  | _ => exact ⟨hlog, hstack⟩

theorem Reachable.authentic (hok : ∀ c a, ok c a → Sequential c a ∧ ClockFits c a)
    (h : Reachable D initialOwner balance now ok c) (id : ℕ) :
    Authentic D id (c.world.storage.rounds id) (events c.world.log id) := by
  have hseq := fun c a ha => (hok c a ha).1
  refine Reachable.invariant (P := fun c => ∀ id,
    Authentic D id (c.world.storage.rounds id) (events c.world.log id)) (fun _ => rfl) ?_ h id
  intro c a d hr hp ha hstep
  have hone := Reachable.atMostOne hseq hr
  have hshape := (Reachable.coherent (fun _ _ ha => ha.2) (Reachable.sequential hseq hr)).shape
  cases hstep with
  | done msg call ht hself hst => exact hst.authentic hshape hp
  | pending msg call ht hself hst => exact hst.authentic hshape hp
  | settled p =>
    obtain ⟨pmsg, pcall, y, settled⟩ := p
    intro id
    cases pcall <;> exact hp id
  | @replied w saved fs p reply s haccept hf =>
    have horigin := hr.originated
    have hclock := (Reachable.calls (Q := fun msg _ => msg.timestamp < 2 ^ 48)
      (fun c a ha => (hok c a ha).2) hr).2 _ List.mem_cons_self
    exact hf.authentic (fun _ _ hc _ hid => horigin.answered hc hid)
      (fun _ _ hc => hone.dispatching List.mem_cons_self hc) hclock hp
  | _ => exact hp

theorem Reachable.answeredOnce (hok : ∀ c a, ok c a → FreshIds c a)
    (h : Reachable D initialOwner balance now ok c) :
    c.world.log.Pairwise (fun e e' => ∀ id, e.phase = .finished (.instruction id) →
      e'.phase ≠ .finished (.instruction id)) := by
  refine Reachable.invariant (P := fun c => c.world.log.Pairwise (fun e e' =>
    ∀ id, e.phase = .finished (.instruction id) → e'.phase ≠ .finished (.instruction id))) .nil ?_ h
  intro c a d _ hp ha hstep
  have hfresh := hok c a ha
  cases hstep with
  | done msg call => exact hp.cons (fun _ _ _ hid => Phase.noConfusion hid)
  | pending msg call => exact hp.cons (fun _ _ _ hid => Phase.noConfusion hid)
  | settled p => exact hp.cons (fun _ _ _ hid => Phase.noConfusion hid)
  | replied p reply =>
    refine hp.cons fun e he id hid => ?_
    simp only [Phase.finished.injEq] at hid
    exact hfresh id (by rw [hid]) e he
  | _ => exact hp

theorem Reachable.answered_unique (hok : ∀ c a, ok c a → FreshIds c a)
    (h : Reachable D initialOwner balance now ok c) {e e' : Entry} (he : e ∈ c.world.log)
    (he' : e' ∈ c.world.log) {id : Bytes32} (hid : e.phase = .finished (.instruction id))
    (hid' : e'.phase = .finished (.instruction id)) : e = e' := by
  by_contra hne
  have : Std.Symm (fun e e' : Entry => ∀ id, e.phase = .finished (.instruction id) →
      e'.phase ≠ .finished (.instruction id)) := ⟨fun _ _ h id hid' hid => h id hid hid'⟩
  exact (Reachable.answeredOnce hok h).forall he he' hne id hid hid'

theorem event_dispatched {e : Entry} {roundId : ℕ} {d : Dispatch}
    (h : e.event roundId = some (.dispatched d)) :
    (∃ id : Uint256, e.call = .requestCompute id d.ciphertext) ∧
      e.phase = .finished (.instruction d.instructionId) := by
  obtain ⟨msg, call, phase, post⟩ := e
  unfold Entry.event at h
  split at h
  · split_ifs at h
    cases h
  · rename_i id ciphertext instructionId hcall hphase
    simp only at hcall hphase
    split_ifs at h
    cases h
    exact ⟨⟨id, hcall⟩, hphase⟩
  · split_ifs at h
    cases h
  · cases h

theorem event_finalized {e : Entry} {roundId : ℕ} {f : Finalization}
    (h : e.event roundId = some (.finalized f)) :
    e.call = .finalizeRound f.resultData f.actionId f.submissionTag f.status f.signature := by
  obtain ⟨msg, call, phase, post⟩ := e
  unfold Entry.event at h
  split at h
  · split_ifs at h
    cases h
  · split_ifs at h
    cases h
  · rename_i hcall hphase
    split_ifs at h
    cases h
    exact hcall
  · cases h

/-- The whole history behind a finalized round, in a sequential run whose hashes do not collide. -/
theorem finalization_authentic (D : Deployment) (initialOwner : Address) (balance : Address → ℕ)
    (now : ℕ) (S : Set Bytes) (hk : Set.InjOn D.keccak S) (c : ContractConfig)
    (h : Reachable D initialOwner balance now (fun c a =>
      Sequential c a ∧ ClockFits c a ∧ FreshIds c a ∧ HashedIn D S c a) c) (roundId : ℕ)
    (hst : (c.world.storage.rounds roundId).status = .finalized ∨
      (c.world.storage.rounds roundId).status = .closed) :
    let r := c.world.storage.rounds roundId
    ∃ f d ds,
      events c.world.log roundId = .finalized f :: (d :: ds).map .dispatched ++
        [.committed r.organization r.policyCommitment] ∧
      Dispatches D.keccak r (d :: ds) ∧ Accepted D roundId r f d ∧
      (∀ d' ∈ ds, d'.ciphertext = d.ciphertext) ∧
      (∀ e ∈ c.world.log, e.phase = .finished (.instruction f.actionId) →
        e.event roundId = some (.dispatched d)) ∧
      ∀ (chainId : Uint256) (resultData : Bytes) (actionId : Bytes32) (submissionTag : Bytes)
        (status : UInt8),
        (∀ b ∈ TeeResultVerifier.preimages { D with chainId := chainId } resultData actionId
          submissionTag status, b ∈ S) →
        TeeResultVerifier.digest D f.resultData f.actionId f.submissionTag f.status =
          TeeResultVerifier.digest { D with chainId := chainId } resultData actionId submissionTag
            status →
        f.resultData = resultData ∧ f.actionId = actionId ∧ f.submissionTag = submissionTag ∧
          f.status = status ∧ D.chainId = chainId := by
  intro r
  have hauthentic := Reachable.authentic (fun _ _ ha => ⟨ha.1, ha.2.1⟩) h roundId
  have hhashed := (Reachable.calls (Q := fun msg call => ∀ b ∈ call.hashed D msg, b ∈ S)
    (fun c a ha => ha.2.2.2) h).1
  obtain ⟨f, d, ds, hevs, hds, hf⟩ : ∃ f d ds,
      events c.world.log roundId = .finalized f :: (d :: ds).map .dispatched ++
        [.committed r.organization r.policyCommitment] ∧
      Dispatches D.keccak r (d :: ds) ∧ Accepted D roundId r f d := by
    rcases hst with hst | hst <;> simpa only [Authentic, hst] using hauthentic
  have hmem (d' : Dispatch) (hd' : d' ∈ d :: ds) : ∃ e ∈ c.world.log,
      e.event roundId = some (.dispatched d') := by
    have hin : RoundEvent.dispatched d' ∈ events c.world.log roundId := by
      rw [hevs]
      simpa using hd'
    exact List.mem_filterMap.mp hin
  have hbytes (d' : Dispatch) (hd' : d' ∈ d :: ds) : d'.ciphertext ∈ S := by
    obtain ⟨e, he, hevent⟩ := hmem d' hd'
    obtain ⟨⟨id, hcall⟩, -⟩ := event_dispatched hevent
    exact hhashed e he _ (by simp [hcall, Call.hashed])
  obtain ⟨e₀, he₀, hevent₀⟩ := hmem d List.mem_cons_self
  refine ⟨f, d, ds, hevs, hds, hf, fun d' hd' => ?_, fun e he hid => ?_, ?_⟩
  · have hd'' := List.mem_cons_of_mem d hd'
    exact hk (hbytes d' hd'') (hbytes d List.mem_cons_self)
      ((hds.committed d' hd'').trans (hds.committed d List.mem_cons_self).symm)
  · have hid₀ := (event_dispatched hevent₀).2
    rw [hf.answered] at hid
    rw [Reachable.answered_unique (fun _ _ ha => ha.2.2.1) h he he₀ hid hid₀]
    exact hevent₀
  · intro chainId resultData actionId submissionTag status hS hdigest
    have hin : RoundEvent.finalized f ∈ events c.world.log roundId := by simp [hevs]
    obtain ⟨e, he, hevent⟩ := List.mem_filterMap.mp hin
    have hpre := hhashed e he
    rw [event_finalized hevent] at hpre
    exact TeeResultVerifier.digest_injective D hk hpre hS hdigest

end Runs

section Sample

def sampleHashed : List Bytes :=
  (sampleRun 2 100 2 1).flatMap fun a =>
    match a with
    | .call msg call => call.hashed sampleDeployment msg
    | _ => []

def orderly (D : Deployment) (strings : List Bytes) (c : ContractConfig) : Act → Bool
  | .call msg call =>
      c.stack.isEmpty && decide (msg.timestamp < 2 ^ 48) &&
        (call.hashed D msg).all (fun b => decide (b ∈ strings))
  | .reply (.instruction id) => c.world.log.all fun e =>
      match e.phase with
      | .finished (.instruction id') => decide (id' ≠ id)
      | _ => true
  | _ => true

theorem orderly_ok {strings : List Bytes} (h : orderly D strings c a = true) :
    Sequential c a ∧ ClockFits c a ∧ FreshIds c a ∧ HashedIn D {b | b ∈ strings} c a := by
  cases a with
  | call msg call =>
    simp only [orderly, Bool.and_eq_true, List.isEmpty_iff, decide_eq_true_eq, List.all_eq_true] at h
    obtain ⟨⟨hstack, htime⟩, hhashed⟩ := h
    refine ⟨fun _ _ _ => hstack, ?_, nofun, ?_⟩
    · rintro _ _ ⟨⟩
      exact htime
    · rintro _ _ ⟨⟩
      exact hhashed
  | reply reply =>
    refine ⟨nofun, nofun, ?_, nofun⟩
    rintro id ⟨⟩ e he hid
    have hcheck := List.all_eq_true.mp h e he
    simp [hid] at hcheck
  | _ => exact ⟨nofun, nofun, nofun, nofun⟩

theorem sampleHashed_injOn : Set.InjOn sampleDeployment.keccak {b | b ∈ sampleHashed} := by
  apply injOn_hashed
  decide +kernel

theorem finalization_authentic_sample : ∃ c,
    (machine sampleDeployment).run (sampleRun 2 100 2 1) sampleStart = some c ∧
    let r := c.world.storage.rounds 0
    ∃ f d ds,
      events c.world.log 0 = .finalized f :: (d :: ds).map .dispatched ++
        [.committed r.organization r.policyCommitment] ∧
      Dispatches sampleDeployment.keccak r (d :: ds) ∧ Accepted sampleDeployment 0 r f d := by
  have hrun : ((machine sampleDeployment).run (sampleRun 2 100 2 1) sampleStart).map
      (fun c => (c.world.storage.rounds 0).status) = some .finalized := by
    decide +kernel
  have hsteps : StepsMeet (machine sampleDeployment) (sampleRun 2 100 2 1) sampleStart (fun c a =>
      Sequential c a ∧ ClockFits c a ∧ FreshIds c a ∧
        HashedIn sampleDeployment {b | b ∈ sampleHashed} c a) :=
    .of_meets (fun _ _ => orderly_ok) (by decide +kernel)
  obtain ⟨c, hc, hst⟩ := Option.map_eq_some_iff.mp hrun
  obtain ⟨f, d, ds, hevs, hds, hf, -⟩ := finalization_authentic sampleDeployment 1 (fun _ => 0) 0
    {b | b ∈ sampleHashed} sampleHashed_injOn c (hsteps.reaches _ List.prefix_rfl c hc) 0 (.inl hst)
  exact ⟨c, hc, f, d, ds, hevs, hds, hf⟩

end Sample

end Fidensur
