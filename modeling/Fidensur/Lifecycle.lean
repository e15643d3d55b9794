import Fidensur.Solvency

set_option autoImplicit false

namespace Fidensur

open NestedCalls ByteWords

def latest (start : Storage) : List Entry → Storage
  | [] => start
  | e :: _ => e.post

def MovesForward (start : Storage) : List Entry → Prop
  | [] => True
  | e :: log =>
      (∀ id, (((latest start log).rounds id).status.Moves (e.post.rounds id).status) ∧
        (((latest start log).rounds id).merkleRoot ≠ 0 →
          (e.post.rounds id).merkleRoot = ((latest start log).rounds id).merkleRoot)) ∧
      MovesForward start log

def Entry.finalizes (roundId : ℕ) (e : Entry) : Bool :=
  match e.call, e.phase with
  | .finalizeRound resultData _ _ _ _, .started _ =>
      (AllocationResult.decode resultData).any (fun res => (res.roundId : ℕ) == roundId)
  | _, _ => false

def Entry.refunds (roundId : ℕ) (e : Entry) : Bool :=
  match e.call, e.phase with
  | .cancelRound id, .started _ => (id : ℕ) == roundId
  | _, _ => false

/-- A whole history keeps to the life cycle: statuses move forward, a root is written at most once,
and a round that was refunded stays cancelled. -/
structure KeepsLifecycle (start : Storage) (c : ContractConfig) : Prop where
  forward : MovesForward start c.world.log
  written (roundId : ℕ) : c.world.log.countP (Entry.finalizes roundId) ≤ 1
  refunded (roundId : ℕ) : c.world.log.any (Entry.refunds roundId) = true →
    (c.world.storage.rounds roundId).status = .cancelled

variable {D : Deployment} {msg : Msg} {view : Address → ℕ} {s s' : Storage} {call : Call}
  {x : Option Interaction} {c d : ContractConfig} {a : Act} {initialOwner : Address}
  {balance : Address → ℕ} {now : ℕ} {ok : ContractConfig → Act → Prop}

theorem Reachable.latest (h : Reachable D initialOwner balance now ok c) :
    latest (.deployed initialOwner) c.world.log = c.world.storage := by
  refine Reachable.invariant
    (P := fun c => Fidensur.latest (.deployed initialOwner) c.world.log = c.world.storage) rfl ?_ h
  intro c a d _ hp _ hstep
  cases hstep <;> first | exact hp | rfl

structure LifecycleRecorded (s : Storage) (log : List Entry) : Prop where
  written (roundId : ℕ) : log.countP (Entry.finalizes roundId) =
    if (s.rounds roundId).merkleRoot = 0 then 0 else 1
  refunded (roundId : ℕ) : log.any (Entry.refunds roundId) = true →
    (s.rounds roundId).status = .cancelled

theorem RoundStatus.Moves.of_cancelled {status : RoundStatus} (h : RoundStatus.Moves .cancelled status) :
    status = .cancelled := by
  cases h
  rfl

theorem LifecycleRecorded.keep {log : List Entry} {e : Entry} (h : LifecycleRecorded s log)
    (hroot : ∀ id, (s'.rounds id).merkleRoot = (s.rounds id).merkleRoot)
    (hstatus : ∀ id, (s.rounds id).status.Moves (s'.rounds id).status)
    (hfin : ∀ id, e.finalizes id = false)
    (hcancel : ∀ id, e.refunds id = true → (s'.rounds id).status = .cancelled) :
    LifecycleRecorded s' (e :: log) where
  written id := by simp [hfin, hroot, h.written]
  refunded id ha := by
    rcases Bool.or_eq_true_iff.mp ha with he | hlog
    · exact hcancel id he
    · have hm := hstatus id
      rw [h.refunded id hlog] at hm
      exact hm.of_cancelled

theorem LifecycleRecorded.finalized {log : List Entry} {e : Entry} (h : LifecycleRecorded s log)
    (hs : s.Shape) {roundId : ℕ} {r : Round} (hst : (s.rounds roundId).status = .computing)
    (hroot : r.merkleRoot ≠ 0) (hr : s'.rounds = Function.update s.rounds roundId r)
    (hfin : ∀ id, e.finalizes id = (roundId == id)) (hcancel : ∀ id, e.refunds id = false) :
    LifecycleRecorded s' (e :: log) where
  written id := by
    have hw := h.written id
    rw [List.countP_cons, hfin, hr]
    by_cases hid : id = roundId
    · subst hid
      rw [((hs.rounds id).unclaimed (by simp [hst]) (by simp [hst])).2.2] at hw
      simp [hw, hroot]
    · simp [hid, Ne.symm hid, hw]
  refunded id ha := by
    rw [List.any_cons, hcancel, Bool.false_or] at ha
    have hcancelled := h.refunded id ha
    have hne : id ≠ roundId := by
      rintro rfl
      simp [hst] at hcancelled
    simpa [hr, hne] using hcancelled

theorem LifecycleRecorded.started {log : List Entry} (h : LifecycleRecorded s log) (hs : s.Shape)
    (hst : Started D msg view s call s' x) :
    LifecycleRecorded s' (⟨msg, call, .started x, s'⟩ :: log) := by
  have hmoves (id : ℕ) := (hst.evolves hs id).status
  have hkeep (hcall : ∀ id, (⟨msg, call, .started x, s'⟩ : Entry).refunds id = false)
      (hfin : ∀ id, (⟨msg, call, .started x, s'⟩ : Entry).finalizes id = false)
      (hroot : ∀ id, (s'.rounds id).merkleRoot = (s.rounds id).merkleRoot) :=
    h.keep hroot hmoves hfin (fun id hc => absurd hc (by simp [hcall]))
  cases hst with
  | configure call _ _ _ _ hconf =>
    apply hkeep _ _ (fun _ => rfl) <;> cases call <;> first | exact fun _ => rfl | cases hconf
  | createRound =>
    exact hkeep (fun _ => rfl) (fun _ => rfl) (Round.field_same Round.merkleRoot rfl (by rfl))
  | fundNative =>
    exact hkeep (fun _ => rfl) (fun _ => rfl) (Round.field_same Round.merkleRoot rfl (by rfl))
  | submitPolicy =>
    exact hkeep (fun _ => rfl) (fun _ => rfl) (Round.field_same Round.merkleRoot rfl (by rfl))
  | finalizeRound _ _ _ _ res _ _ hd _ hst _ _ hroot =>
    refine h.finalized hs hst ?_ rfl (fun id => ?_) (fun _ => rfl)
    · exact hroot
    · simp [Entry.finalizes, hd]
  | claim =>
    exact hkeep (fun _ => rfl) (fun _ => rfl) (Round.field_same Round.merkleRoot rfl (by rfl))
  | closeRound =>
    exact hkeep (fun _ => rfl) (fun _ => rfl) (Round.field_same Round.merkleRoot rfl (by rfl))
  | cancelRound roundId =>
    refine h.keep (Round.field_same Round.merkleRoot rfl (by rfl)) hmoves (fun _ => rfl) ?_
    intro id hc
    have hid : (roundId : ℕ) = id := beq_iff_eq.mp hc
    simp [Storage.wound, hid]
  | _ => exact hkeep (fun _ => rfl) (fun _ => rfl) (fun _ => rfl)

theorem not_recorded_of_phase (msg : Msg) (call : Call) (phase : Phase) (post : Storage)
    (h : ∀ x, phase ≠ .started x) (id : ℕ) :
    (⟨msg, call, phase, post⟩ : Entry).finalizes id = false ∧
      (⟨msg, call, phase, post⟩ : Entry).refunds id = false := by
  cases phase with
  | started x => exact absurd rfl (h x)
  | settled => cases call <;> exact ⟨rfl, rfl⟩
  | finished => cases call <;> exact ⟨rfl, rfl⟩

theorem LifecycleRecorded.step (h : LifecycleRecorded c.world.storage c.world.log) (hc : Coherent D c)
    (hfresh : DispatchFresh c a) (hstep : Stepped D c a d) :
    LifecycleRecorded d.world.storage d.world.log := by
  cases hstep with
  | done msg call ht hself hst => exact h.started hc.shape hst
  | pending msg call ht hself hst => exact h.started hc.shape hst
  | @settled w saved fs p =>
    have hnot := not_recorded_of_phase p.msg p.call (.settled p.interaction) w.storage nofun
    exact h.keep (fun _ => rfl) (fun _ => .stay _) (fun id => (hnot id).1)
      (fun id he => absurd he (by simp [(hnot id).2]))
  | @replied w saved fs p reply s ha hf =>
    have hd := hc.dispatchable hfresh hf
    have hnot := not_recorded_of_phase p.msg p.call (.finished reply) s nofun
    exact h.keep (fun id => congrArg Prod.fst (hf.promise id)) (fun id => (hf.evolves hd id).status)
      (fun id => (hnot id).1) (fun id he => absurd he (by simp [(hnot id).2]))
  | credit => exact ⟨h.written, h.refunded⟩
  | drift => exact ⟨h.written, h.refunded⟩
  | tick => exact ⟨h.written, h.refunded⟩

theorem MovesForward.step {start : Storage} (h : MovesForward start c.world.log)
    (hlatest : Fidensur.latest start c.world.log = c.world.storage) (hc : Coherent D c)
    (hfresh : DispatchFresh c a) (hstep : Stepped D c a d) : MovesForward start d.world.log := by
  have hcons {e : Entry} (he : ∀ id, (c.world.storage.rounds id).Evolves (e.post.rounds id)) :
      MovesForward start (e :: c.world.log) :=
    ⟨fun id => hlatest ▸ ⟨(he id).status, (he id).merkleRoot⟩, h⟩
  cases hstep with
  | done msg call ht hself hst => exact hcons (hst.evolves hc.shape)
  | pending msg call ht hself hst => exact hcons (hst.evolves hc.shape)
  | settled p => exact hcons (fun _ => .refl _)
  | replied p reply ha hf => exact hcons (hf.evolves (hc.dispatchable hfresh hf))
  | _ => exact h

theorem Reachable.keepsLifecycle (hok : ∀ c a, ok c a → DispatchFresh c a)
    (h : Reachable D initialOwner balance now ok c) : KeepsLifecycle (.deployed initialOwner) c := by
  have hforward : MovesForward (.deployed initialOwner) c.world.log := by
    refine Reachable.invariant (P := fun c => MovesForward (.deployed initialOwner) c.world.log)
      trivial ?_ h
    intro c a d hr hp ha hstep
    exact hp.step hr.latest (Reachable.coherent hok hr) (hok c a ha) hstep
  have hrecorded : LifecycleRecorded c.world.storage c.world.log := by
    refine Reachable.invariant (P := fun c => LifecycleRecorded c.world.storage c.world.log) ?_ ?_ h
    · exact ⟨fun _ => rfl, nofun⟩
    · intro c a d hr hp ha hstep
      exact hp.step (Reachable.coherent hok hr) (hok c a ha) hstep
  refine ⟨hforward, fun roundId => ?_, hrecorded.refunded⟩
  rw [hrecorded.written]
  split_ifs <;> decide

theorem dispatchFresh_of_keepsLifecycle (hr : Reachable D initialOwner balance now ok c)
    (hn : (machine D).next a c = some d) (hd : KeepsLifecycle (.deployed initialOwner) d) :
    DispatchFresh c a := by
  rintro instructionId ⟨saved, p⟩ fs roundId ciphertext rfl hstack hcall
  have hlatest := hr.latest
  have horigin := hr.originated
  obtain ⟨w, stack⟩ := c
  simp only at hstack hcall hlatest horigin
  subst hstack
  obtain ⟨teeIds, params, value, hx⟩ := horigin.dispatch ⟨saved, p⟩ List.mem_cons_self hcall
  have hfinish : finish p.msg w.storage p.interaction (.instruction instructionId) p.call =
      .ok (recordDispatch p.msg roundId instructionId w.storage) := by
    simp only at hx
    rw [hx, hcall]
    rfl
  simp only [System.next, machine, hfinish, Option.bind_some, Effect.apply, Option.some.injEq] at hn
  subst hn
  have hmove := (hd.forward.1 roundId).1
  rw [hlatest] at hmove
  simp only [recordDispatch, Storage.setRound_rounds, Function.update_self] at hmove
  change (w.storage.rounds roundId).status.dispatchable
  generalize (w.storage.rounds roundId).status = status at hmove ⊢
  cases hmove with
  | stay => exact .inr rfl
  | dispatch => exact .inl rfl

/-- A run keeps to the life cycle exactly when no round left dispatch behind while its instruction
was being sent. -/
theorem keepsLifecycle_iff_dispatchFresh (D : Deployment) (initialOwner : Address)
    (balance : Address → ℕ) (now : ℕ) (as : List Act)
    (hrun : ((machine D).run as (deployed initialOwner balance now)).isSome) :
    Always (machine D) as (deployed initialOwner balance now)
        (KeepsLifecycle (.deployed initialOwner)) ↔
      StepsMeet (machine D) as (deployed initialOwner balance now) DispatchFresh := by
  have hbase : StepsMeet (machine D) as (deployed initialOwner balance now) (fun _ _ => True) :=
    fun _ _ _ _ _ => trivial
  apply always_iff_stepsMeet hrun hbase
  · exact fun c hc => Reachable.keepsLifecycle (fun _ _ ha => ha.2) hc
  · exact fun c a d hr hn _ hd => dispatchFresh_of_keepsLifecycle hr hn hd

section Callback

/-- The organization cancels from the fee refund that the registry sends during the dispatch. -/
def refundCallbackRun (callback : List Act) : List Act :=
  let organization : Address := 2
  [.call (sampleMsg 1 0) .setExtensionId,
    .call (sampleMsg organization 0) (.createRound 0 3600),
    .call (sampleMsg organization 10) (.fund 0 10),
    .call (sampleMsg organization 0) (.submitPolicy 0 (sampleDeployment.keccak [42])),
    .call (sampleMsg organization 1) (.requestCompute 0 [42])] ++ callback ++
  [.reply (.instruction 99)]

/-- The refund is paid, and then the round is computing again. -/
theorem cancelled_round_revived :
    ¬ ∀ as, Always (machine sampleDeployment) as sampleStart (KeepsLifecycle (.deployed 1)) := by
  intro hall
  have hstatus : ((machine sampleDeployment).run (refundCallbackRun
      [.call (sampleMsg 2 0) (.cancelRound 0), .reply (.returned true [])]) sampleStart).map
      (fun c => (c.world.log.any (Entry.refunds 0), (c.world.storage.rounds 0).status)) =
      some (true, .computing) := by
    decide
  obtain ⟨c, hc, hs⟩ := Option.map_eq_some_iff.mp hstatus
  obtain ⟨hrefunded, hcomputing⟩ := Prod.mk.inj hs
  have hcancelled := (hall _ _ List.prefix_rfl c hc).refunded 0 hrefunded
  rw [hcomputing] at hcancelled
  cases hcancelled

/-- The callback opens a round and dispatches the pending one a second time; the first dispatch still
finds it dispatchable. -/
def harmlessCallback : List Act :=
  [.call (sampleMsg 2 0) (.createRound 0 7200),
    .call (sampleMsg 2 1) (.requestCompute 0 [42]),
    .reply (.instruction 98)]

theorem keepsLifecycle_iff_dispatchFresh_sample :
    Always (machine sampleDeployment) (refundCallbackRun harmlessCallback) sampleStart
      (KeepsLifecycle (.deployed 1)) := by
  have hrun : ((machine sampleDeployment).run (refundCallbackRun harmlessCallback) sampleStart).isSome := by
    decide
  have hfresh : StepsMeet (machine sampleDeployment) (refundCallbackRun harmlessCallback) sampleStart
      DispatchFresh :=
    .of_meets (fun _ _ => dispatchFresh_of_pending) (by decide)
  exact (keepsLifecycle_iff_dispatchFresh sampleDeployment 1 (fun _ => 0) 0 _ hrun).mpr hfresh

end Callback

end Fidensur
