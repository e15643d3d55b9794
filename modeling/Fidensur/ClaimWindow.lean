import Fidensur.Authenticity

set_option autoImplicit false

/-! The claim window of a round, from the moment its result is accepted. -/

namespace Fidensur

open NestedCalls ByteWords

def Entry.closes (roundId : ℕ) (e : Entry) : Bool :=
  match e.call, e.phase with
  | .closeRound id, .started _ => (id : ℕ) == roundId
  | _, _ => false

def Entry.creates (roundId : ℕ) (r : Round) (e : Entry) : Prop :=
  ∃ token claimWindow, e.call = .createRound token claimWindow ∧ e.msg.sender = r.organization ∧
    (claimWindow : ℕ) = r.claimWindow ∧ e.post.nextRoundId = roundId + 1

/-- The finalization, the claims and the closing of a round, and nothing else, read the clock
against its window. -/
structure Entry.Untimed (roundId : ℕ) (e : Entry) : Prop where
  finalizes : e.finalizes roundId = false
  claimed : e.claimed roundId = none
  closes : e.closes roundId = false

structure Timely (roundId deadline : ℕ) (f e : Entry) : Prop where
  finalizes : e.finalizes roundId = true → e.msg.timestamp = f.msg.timestamp
  claimed : (e.claimed roundId).isSome = true →
    f.msg.timestamp ≤ e.msg.timestamp ∧ e.msg.timestamp ≤ deadline
  closes : e.closes roundId = true → deadline < e.msg.timestamp

theorem Entry.Untimed.timely {roundId : ℕ} {e : Entry} (h : e.Untimed roundId) (deadline : ℕ) (f : Entry) :
    Timely roundId deadline f e where
  finalizes he := absurd he (by simp [h.finalizes])
  claimed he := absurd he (by simp [h.claimed])
  closes he := absurd he (by simp [h.closes])

def RoundStatus.settled : RoundStatus → Bool
  | .finalized | .closed => true
  | .none | .opened | .committed | .computing | .cancelled => false

def Round.Chosen (roundId : ℕ) (r : Round) (log : List Entry) : Prop :=
  (minClaimWindow ≤ r.claimWindow ∧ r.claimWindow ≤ maxClaimWindow) ∧ ∃ e ∈ log, e.creates roundId r

structure Timed (roundId : ℕ) (r : Round) (log : List Entry) (now : ℕ) : Prop where
  chosen : r.status ≠ .none → r.Chosen roundId log
  early : r.status.settled = false → ∀ e ∈ log, e.Untimed roundId
  late : r.status.settled = true → ∃ f ∈ log, f.finalizes roundId = true ∧ f.msg.timestamp ≤ now ∧
    r.claimDeadline = f.msg.timestamp + r.claimWindow ∧ ∀ e ∈ log, Timely roundId r.claimDeadline f e
  closed : r.status = .closed → r.claimDeadline < now

def Round.window (r : Round) : Address × ℕ × ℕ := (r.organization, r.claimWindow, r.claimDeadline)

variable {D : Deployment} {msg : Msg} {view : Address → ℕ} {s s' : Storage} {call : Call}
  {x : Option Interaction} {c d : ContractConfig} {a : Act} {initialOwner : Address}
  {balance : Address → ℕ} {now roundId : ℕ} {ok : ContractConfig → Act → Prop} {log : List Entry}
  {r r' : Round} {e : Entry}

section Rounds

theorem Timed.wait (h : Timed roundId r log now) {now' : ℕ} (hle : now ≤ now') : Timed roundId r log now' where
  chosen := h.chosen
  early := h.early
  late hs := by
    obtain ⟨f, hf, hfin, htime, hrest⟩ := h.late hs
    exact ⟨f, hf, hfin, htime.trans hle, hrest⟩
  closed hs := (h.closed hs).trans_le hle

theorem Round.Chosen.cons (h : r.Chosen roundId log) (e : Entry) (ho : r'.organization = r.organization)
    (hw : r'.claimWindow = r.claimWindow) : r'.Chosen roundId (e :: log) := by
  obtain ⟨hbounds, g, hg, token, claimWindow, hcall, hsender, hchosen, hnext⟩ := h
  unfold Round.Chosen
  rw [hw]
  refine ⟨hbounds, g, List.mem_cons_of_mem _ hg, token, claimWindow, hcall, ?_, ?_, hnext⟩
  · rw [ho, hsender]
  · rw [hw, hchosen]

theorem Timed.keep (h : Timed roundId r log now) (he : e.Untimed roundId) (hw : r'.window = r.window)
    (hs : r'.status = r.status ∨
      r.status ≠ .none ∧ r.status.settled = false ∧ r'.status.settled = false) :
    Timed roundId r' (e :: log) now := by
  simp only [Round.window, Prod.mk.injEq] at hw
  obtain ⟨horganization, hlength, hdeadline⟩ := hw
  have hsettled : r'.status.settled = r.status.settled := by
    rcases hs with hs | ⟨-, hs, hs'⟩
    · rw [hs]
    · rw [hs, hs']
  constructor
  · intro hne
    apply (h.chosen ?_).cons e horganization hlength
    rcases hs with hs | ⟨hs, -⟩
    · rwa [hs] at hne
    · exact hs
  · intro hearly
    rw [hsettled] at hearly
    exact List.forall_mem_cons.mpr ⟨he, h.early hearly⟩
  · intro hlate
    rw [hsettled] at hlate
    obtain ⟨f, hf, hfin, htime, hlast, hall⟩ := h.late hlate
    rw [hdeadline, hlength]
    exact ⟨f, List.mem_cons_of_mem _ hf, hfin, htime, hlast,
      List.forall_mem_cons.mpr ⟨he.timely _ _, hall⟩⟩
  · intro hclosed
    rw [hdeadline]
    rcases hs with hs | ⟨-, -, hs⟩
    · exact h.closed (hs ▸ hclosed)
    · simp [hclosed, RoundStatus.settled] at hs

theorem Timed.record (h : Timed roundId r log now) (hs : r.status.settled = true) (hw : r'.window = r.window)
    (hs' : r'.status.settled = true) (hclosed : r'.status = .closed → r.claimDeadline < now)
    (he : ∀ f : Entry, f.msg.timestamp ≤ now → Timely roundId r.claimDeadline f e) :
    Timed roundId r' (e :: log) now := by
  simp only [Round.window, Prod.mk.injEq] at hw
  obtain ⟨horganization, hlength, hdeadline⟩ := hw
  constructor
  · intro _
    apply (h.chosen ?_).cons e horganization hlength
    intro hnone
    simp [hnone, RoundStatus.settled] at hs
  · intro hearly
    simp [hs'] at hearly
  · intro _
    obtain ⟨f, hf, hfin, htime, hlast, hall⟩ := h.late hs
    rw [hdeadline, hlength]
    exact ⟨f, List.mem_cons_of_mem _ hf, hfin, htime, hlast, List.forall_mem_cons.mpr ⟨he f htime, hall⟩⟩
  · rw [hdeadline]
    exact hclosed

theorem Timed.created (h : Timed roundId r log now) (hnone : r.status = .none) (hopened : r'.status = .opened)
    (hbounds : minClaimWindow ≤ r'.claimWindow ∧ r'.claimWindow ≤ maxClaimWindow)
    (he : e.Untimed roundId) (hcreates : e.creates roundId r') : Timed roundId r' (e :: log) now := by
  have hearly := h.early (by rw [hnone]; rfl)
  constructor
  · exact fun _ => ⟨hbounds, e, List.mem_cons_self, hcreates⟩
  · exact fun _ => List.forall_mem_cons.mpr ⟨he, hearly⟩
  · intro hlate
    simp [hopened, RoundStatus.settled] at hlate
  · intro hclosed
    cases hopened.symm.trans hclosed

/-- The window opens with the finalization: no entry before it reads the clock. -/
theorem Timed.finalized (h : Timed roundId r log now) (hst : r.status = .computing)
    (hst' : r'.status = .finalized) (ho : r'.organization = r.organization)
    (hw : r'.claimWindow = r.claimWindow) (hdeadline : r'.claimDeadline = now + r'.claimWindow)
    (hnow : e.msg.timestamp = now) (hfin : e.finalizes roundId = true) (hclaimed : e.claimed roundId = none)
    (hcloses : e.closes roundId = false) : Timed roundId r' (e :: log) now := by
  have hearly := h.early (by rw [hst]; rfl)
  have hchosen := h.chosen (by rw [hst]; exact fun h => by cases h)
  have hself : Timely roundId r'.claimDeadline e e := by
    constructor
    · exact fun _ => rfl
    · intro hsome
      simp [hclaimed] at hsome
    · intro hclosing
      cases hcloses.symm.trans hclosing
  constructor
  · exact fun _ => hchosen.cons e ho hw
  · intro hopen
    simp [hst', RoundStatus.settled] at hopen
  · intro _
    refine ⟨e, List.mem_cons_self, hfin, hnow.le, by rw [hdeadline, hnow], ?_⟩
    exact List.forall_mem_cons.mpr ⟨hself, fun f hf => (hearly f hf).timely _ _⟩
  · intro hclosed
    cases hst'.symm.trans hclosed

end Rounds

section Steps

def Call.timed : Call → Bool
  | .finalizeRound .. | .claim .. | .closeRound .. => true
  | _ => false

theorem untimed_of_call (h : e.call.timed = false) (roundId : ℕ) : e.Untimed roundId := by
  obtain ⟨msg, call, phase, post⟩ := e
  cases call <;> first | exact ⟨rfl, rfl, rfl⟩ | cases h

theorem untimed_of_phase (msg : Msg) (call : Call) (phase : Phase) (post : Storage)
    (h : ∀ x, phase ≠ .started x) (roundId : ℕ) : (⟨msg, call, phase, post⟩ : Entry).Untimed roundId := by
  cases phase with
  | started x => exact absurd rfl (h x)
  | settled => cases call <;> exact ⟨rfl, rfl, rfl⟩
  | finished => cases call <;> exact ⟨rfl, rfl, rfl⟩

theorem untimed_of_ne (msg : Msg) (resultData : Bytes) (actionId : Bytes32) (submissionTag : Bytes)
    (status : UInt8) (signature : Bytes) (x : Option Interaction) (post : Storage) {res : AllocationResult}
    (hd : AllocationResult.decode resultData = some res) (hid : (res.roundId : ℕ) ≠ roundId) :
    (⟨msg, .finalizeRound resultData actionId submissionTag status signature, .started x, post⟩ : Entry).Untimed
      roundId := by
  refine ⟨?_, rfl, rfl⟩
  simp [Entry.finalizes, hd, hid]

theorem Timed.update (ht : Timed roundId (s.rounds roundId) log now) (id : ℕ)
    (hr : s'.rounds = Function.update s.rounds id r) (helse : id ≠ roundId → e.Untimed roundId)
    (hown : id = roundId → Timed roundId r (e :: log) now) : Timed roundId (s'.rounds roundId) (e :: log) now := by
  rw [hr]
  by_cases hid : id = roundId
  · subst hid
    rw [Function.update_self]
    exact hown rfl
  · rw [Function.update_of_ne (Ne.symm hid)]
    exact ht.keep (helse hid) rfl (.inl rfl)

theorem Timed.updateUntimed (ht : Timed roundId (s.rounds roundId) log now) (he : e.Untimed roundId) (id : ℕ)
    (hr : s'.rounds = Function.update s.rounds id r) (hw : r.window = (s.rounds id).window)
    (hst : r.status = (s.rounds id).status ∨ (s.rounds id).status ≠ .none ∧
      (s.rounds id).status.settled = false ∧ r.status.settled = false) :
    Timed roundId (s'.rounds roundId) (e :: log) now := by
  apply ht.update id hr (fun _ => he)
  rintro rfl
  exact ht.keep he hw hst

theorem timely_of_claim {index amount : Uint256} {proof : List Bytes32} {id : Uint256} {f : Entry} {deadline : ℕ}
    (htime : f.msg.timestamp ≤ msg.timestamp) (hopen : msg.timestamp ≤ deadline) :
    Timely roundId deadline f ⟨msg, .claim id index amount proof, .started x, s'⟩ := by
  constructor
  · rintro ⟨⟩
  · exact fun _ => ⟨htime, hopen⟩
  · rintro ⟨⟩

theorem timely_of_close {id : Uint256} {f : Entry} {deadline : ℕ} (hlate : deadline < msg.timestamp) :
    Timely roundId deadline f ⟨msg, .closeRound id, .started x, s'⟩ := by
  constructor
  · rintro ⟨⟩
  · rintro ⟨⟩
  · exact fun _ => hlate

theorem Started.timed (h : Started D msg view s call s' x) (hs : s.Shape) (hnow : msg.timestamp = now)
    (hclock : msg.timestamp < 2 ^ 48) (ht : Timed roundId (s.rounds roundId) log now) :
    Timed roundId (s'.rounds roundId) (⟨msg, call, .started x, s'⟩ :: log) now := by
  have hblock : blockTimestamp48 msg = msg.timestamp := Nat.mod_eq_of_lt hclock
  cases h with
  | configure call _ _ _ _ hconf =>
    refine ht.keep (untimed_of_call ?_ roundId) rfl (.inl rfl)
    cases call <;> first | rfl | cases hconf
  | createRound token claimWindow hid hlength =>
    apply ht.update s.nextRoundId rfl (fun _ => untimed_of_call rfl _)
    rintro rfl
    apply ht.created (hs.unused s.nextRoundId le_rfl) rfl hlength (untimed_of_call rfl _)
    exact ⟨token, claimWindow, rfl, rfl, rfl, rfl⟩
  | fundNative id => exact ht.updateUntimed (untimed_of_call rfl roundId) id rfl rfl (.inl rfl)
  | submitPolicy id _ hst =>
    refine ht.updateUntimed (untimed_of_call rfl roundId) id rfl rfl (.inr ?_)
    simp [hst, RoundStatus.settled]
  | finalizeRound resultData actionId submissionTag signature res htee hsig hd hself hst =>
    apply ht.update res.roundId rfl (fun hne => untimed_of_ne _ _ _ _ _ _ _ _ hd hne)
    rintro rfl
    refine ht.finalized hst rfl rfl rfl ?_ hnow ?_ rfl rfl
    · simp only [hblock, hnow]
    · simp [Entry.finalizes, hd]
  | claim id index amount proof hg hst hopen =>
    refine ht.update id rfl (fun hne => ⟨rfl, if_neg hne, rfl⟩) ?_
    rintro rfl
    have hsettled : (s.rounds id).status.settled = true := by rw [hst]; rfl
    refine ht.record hsettled rfl hsettled (fun hclosed => by cases hst.symm.trans hclosed) ?_
    intro f htime
    exact timely_of_claim (htime.trans hnow.ge) (hblock ▸ hopen)
  | closeRound id hg hst hlate =>
    refine ht.update id rfl (fun hne => ⟨rfl, rfl, beq_eq_false_iff_ne.mpr hne⟩) ?_
    rintro rfl
    rw [hblock] at hlate
    have hsettled : (s.rounds id).status.settled = true := by rw [hst]; rfl
    refine ht.record hsettled rfl rfl (fun _ => hlate.trans_le hnow.le) ?_
    exact fun f _ => timely_of_close hlate
  | cancelRound id hg hst =>
    refine ht.updateUntimed (untimed_of_call rfl roundId) id rfl rfl (.inr ?_)
    rcases hst with hst | hst <;> simp [hst, RoundStatus.settled]
  | _ => exact ht.keep (untimed_of_call rfl roundId) rfl (.inl rfl)

theorem Finished.timed {y : Interaction} {reply : Reply} (h : Finished msg s y reply call s')
    (hdispatch : ∀ id ciphertext, call = .requestCompute id ciphertext → (s.rounds id).status.dispatchable)
    (ht : Timed roundId (s.rounds roundId) log now) :
    Timed roundId (s'.rounds roundId) (⟨msg, call, .finished reply, s'⟩ :: log) now := by
  have he := untimed_of_phase msg call (.finished reply) s' nofun roundId
  cases h with
  | fund id => exact ht.updateUntimed he id rfl rfl (.inl rfl)
  | requestCompute id ciphertext =>
    refine ht.updateUntimed he id rfl rfl (.inr ?_)
    rcases hdispatch id ciphertext rfl with hst | hst <;> simp [hst, RoundStatus.settled]
  | _ => exact ht.keep he rfl (.inl rfl)

theorem Timed.step (h : Timed roundId (c.world.storage.rounds roundId) c.world.log c.world.now)
    (hc : Coherent D c) (hfresh : DispatchFresh c a) (hclock : ClockFits c a) (hstep : Stepped D c a d) :
    Timed roundId (d.world.storage.rounds roundId) d.world.log d.world.now := by
  cases hstep with
  | done msg call ht hself hst => exact hst.timed hc.shape ht (hclock msg call rfl) h
  | pending msg call ht hself hst => exact hst.timed hc.shape ht (hclock msg call rfl) h
  | settled p =>
    have hphase : ∀ x, Phase.settled p.interaction ≠ .started x := nofun
    exact h.keep (untimed_of_phase _ _ _ _ hphase roundId) rfl (.inl rfl)
  | replied p reply ha hf => exact hf.timed (hc.dispatchable hfresh hf) h
  | credit => exact h
  | drift => exact h
  | tick seconds => exact h.wait (Nat.le_add_right _ _)

end Steps

structure WindowKept (c : ContractConfig) (roundId : ℕ) (f : Entry) : Prop where
  chosen : (c.world.storage.rounds roundId).Chosen roundId c.world.log
  deadline : (c.world.storage.rounds roundId).claimDeadline =
    f.msg.timestamp + (c.world.storage.rounds roundId).claimWindow
  timely : ∀ e ∈ c.world.log, Timely roundId (c.world.storage.rounds roundId).claimDeadline f e
  opened : c.world.now ≤ (c.world.storage.rounds roundId).claimDeadline →
    (c.world.storage.rounds roundId).status = .finalized

/-- Claims are paid only within the window that the organization chose at the creation of the round,
which is never shortened: until it has passed the round stays open to its recipients, and only
then is it closed. Tokens may re-enter. -/
theorem claim_window_kept (D : Deployment) (initialOwner : Address) (balance : Address → ℕ) (now : ℕ)
    (c : ContractConfig)
    (h : Reachable D initialOwner balance now (fun c a => RegistryQuiet c a ∧ ClockFits c a) c) (roundId : ℕ)
    (e : Entry) (he : e ∈ c.world.log) (htimed : ¬ e.Untimed roundId) :
    ∃ f ∈ c.world.log, f.finalizes roundId = true ∧ WindowKept c roundId f := by
  have hfresh := Reachable.fresh (fun _ _ ha => ha.1) h
  have htimes : Timed roundId (c.world.storage.rounds roundId) c.world.log c.world.now := by
    refine Reachable.invariant (P := fun c =>
      Timed roundId (c.world.storage.rounds roundId) c.world.log c.world.now) ?_ ?_ hfresh
    · exact ⟨fun hs => absurd rfl hs, fun _ => List.forall_mem_nil _, nofun, nofun⟩
    · intro c a d hr hp ha hstep
      exact hp.step (Reachable.coherent (fun _ _ ha => ha.2) hr) ha.2 ha.1.2 hstep
  cases hsettled : (c.world.storage.rounds roundId).status.settled with
  | false => exact absurd (htimes.early hsettled e he) htimed
  | true =>
    obtain ⟨f, hf, hfin, -, hdeadline, hall⟩ := htimes.late hsettled
    refine ⟨f, hf, hfin, htimes.chosen ?_, hdeadline, hall, ?_⟩
    · intro hnone
      simp [hnone, RoundStatus.settled] at hsettled
    · intro hopen
      have hnot : (c.world.storage.rounds roundId).status ≠ .closed := fun hclosed =>
        absurd (htimes.closed hclosed) (not_lt.mpr hopen)
      generalize (c.world.storage.rounds roundId).status = status at hsettled hnot
      cases status with
      | finalized => rfl
      | closed => exact absurd rfl hnot
      | _ => cases hsettled

def quietAndTimed (c : ContractConfig) (a : Act) : Bool :=
  quietAndExact c a &&
    match a with
    | .call msg _ => decide (msg.timestamp < 2 ^ 48)
    | _ => true

theorem quietAndTimed_ok (h : quietAndTimed c a = true) : RegistryQuiet c a ∧ ClockFits c a := by
  simp only [quietAndTimed, Bool.and_eq_true] at h
  obtain ⟨hquiet, hclock⟩ := h
  refine ⟨(quietAndExact_ok hquiet).1, ?_⟩
  rintro msg call rfl
  exact of_decide_eq_true hclock

theorem claim_window_kept_sample : ∃ c, (machine sampleDeployment).run tokenRun sampleStart = some c ∧
    ∃ f ∈ c.world.log, f.finalizes 0 = true ∧ WindowKept c 0 f := by
  have hrun : ((machine sampleDeployment).run tokenRun sampleStart).map
      (fun c => c.world.log.any (Entry.closes 0)) = some true := by
    decide +kernel
  have hsteps : StepsMeet (machine sampleDeployment) tokenRun sampleStart
      (fun c a => RegistryQuiet c a ∧ ClockFits c a) :=
    .of_meets (fun _ _ => quietAndTimed_ok) (by decide +kernel)
  obtain ⟨c, hc, hany⟩ := Option.map_eq_some_iff.mp hrun
  obtain ⟨e, he, hcloses⟩ := List.any_eq_true.mp hany
  refine ⟨c, hc, claim_window_kept sampleDeployment 1 (fun _ => 0) 0 c
    (hsteps.reaches _ List.prefix_rfl c hc) 0 e he ?_⟩
  intro h
  rw [h.closes] at hcloses
  cases hcloses

end Fidensur
