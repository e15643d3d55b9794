import Fidensur.Solvency

set_option autoImplicit false

/-! The ledger while a guarded function waits for the answer to its interaction. -/

namespace Fidensur

open NestedCalls

/-- What the guarded functions move: credits, claims, sweeps and the sums owed for them. -/
structure Books where
  funded : ℕ → ℕ
  totalClaimed : ℕ → ℕ
  swept : ℕ → Bool
  claimedBitmap : ℕ → ℕ → BitVec 256
  outstanding : Address → ℕ

def Storage.books (s : Storage) : Books where
  funded id := (s.rounds id).funded
  totalClaimed id := (s.rounds id).totalClaimed
  swept id := (s.rounds id).swept
  claimedBitmap := s.claimedBitmap
  outstanding := s.outstanding

def Round.sums (r : Round) : ℕ × ℕ × Bool := (r.funded, r.totalClaimed, r.swept)

variable {D : Deployment} {msg : Msg} {view : Address → ℕ} {s s' : Storage} {call : Call}
  {x : Option Interaction} {c d : ContractConfig} {a : Act}

theorem books_eq (hr : ∀ id, (s'.rounds id).sums = (s.rounds id).sums)
    (hb : s'.claimedBitmap = s.claimedBitmap) (ho : s'.outstanding = s.outstanding) :
    s'.books = s.books := by
  simp only [Round.sums, Prod.mk.injEq] at hr
  have hfunded : (fun id => (s'.rounds id).funded) = fun id => (s.rounds id).funded :=
    funext fun id => (hr id).1
  have htotal : (fun id => (s'.rounds id).totalClaimed) = fun id => (s.rounds id).totalClaimed :=
    funext fun id => (hr id).2.1
  have hswept : (fun id => (s'.rounds id).swept) = fun id => (s.rounds id).swept :=
    funext fun id => (hr id).2.2
  unfold Storage.books
  rw [hfunded, htotal, hswept, hb, ho]

theorem Started.books (h : Started D msg view s call s' x) (hc : call.guarded = false) :
    s'.books = s.books := by
  cases h with
  | createRound => exact books_eq (Round.field_same Round.sums rfl (by rfl)) rfl rfl
  | submitPolicy => exact books_eq (Round.field_same Round.sums rfl (by rfl)) rfl rfl
  | finalizeRound => exact books_eq (Round.field_same Round.sums rfl (by rfl)) rfl rfl
  | fundNative => cases hc
  | fundToken => cases hc
  | claim => cases hc
  | closeRound => cases hc
  | cancelRound => cases hc
  | _ => rfl

theorem Finished.books {y : Interaction} {reply : Reply} (h : Finished msg s y reply call s')
    (hc : call.guarded = false) : s'.books = s.books := by
  cases h with
  | fund => cases hc
  | requestCompute => exact books_eq (Round.field_same Round.sums rfl (by rfl)) rfl rfl
  | _ => rfl

/-- The storage in which the pending call left the contract, and what has become of its ledger. -/
def LedgerFrozen (c : ContractConfig) (f : Frame World PendingCall) : Prop :=
  ∃ e ∈ c.world.log, e.msg = f.info.msg ∧ e.call = f.info.call ∧
    e.phase = .started (some f.info.interaction) ∧ e.post.books = c.world.storage.books

theorem LedgerFrozen.record {w w' : World} {fs fs' : List (Frame World PendingCall)}
    {f f' : Frame World PendingCall} (h : LedgerFrozen ⟨w, fs⟩ f) {e : Entry} (hlog : w'.log = e :: w.log)
    (hbooks : w'.storage.books = w.storage.books) (hmsg : f'.info.msg = f.info.msg)
    (hcall : f'.info.call = f.info.call) (hinteraction : f'.info.interaction = f.info.interaction) :
    LedgerFrozen ⟨w', fs'⟩ f' := by
  obtain ⟨g, hg, hgmsg, hgcall, hgphase, hgpost⟩ := h
  unfold LedgerFrozen
  rw [hlog, hbooks, hmsg, hcall, hinteraction]
  exact ⟨g, List.mem_cons_of_mem _ hg, hgmsg, hgcall, hgphase, hgpost⟩

structure Frozen (c : ContractConfig) : Prop where
  counted : GuardCounted c
  frozen : ∀ f ∈ c.stack, f.info.call.guarded = true → LedgerFrozen c f

theorem Started.unguarded (h : Started D msg view s call s' x) (hentered : s.entered = true) :
    call.guarded = false := by
  have hguard := h.guard
  cases hc : call.guarded with
  | false => rfl
  | true => simp [hc, hentered] at hguard

theorem Frozen.step (h : Frozen c) (hstep : Stepped D c a d) : Frozen d := by
  refine ⟨h.counted.step hstep, ?_⟩
  have hcounted := h.counted
  have hfrozen := h.frozen
  cases hstep with
  | done msg call ht hself hst =>
    intro f hf hc
    have hfree := hst.unguarded (hcounted.entered hf hc)
    exact (hfrozen f hf hc).record rfl (hst.books hfree) rfl rfl rfl
  | @pending w fs msg call s x b ht hself hst =>
    intro f hf hc
    rcases List.mem_cons.mp hf with rfl | hf
    · exact ⟨_, List.mem_cons_self, rfl, rfl, rfl, rfl⟩
    · have hfree := hst.unguarded (hcounted.entered hf hc)
      exact (hfrozen f hf hc).record rfl (hst.books hfree) rfl rfl rfl
  | settled p =>
    intro f hf hc
    rcases List.mem_cons.mp hf with rfl | hf
    · exact (hfrozen _ List.mem_cons_self hc).record rfl rfl rfl rfl rfl
    · exact (hfrozen f (List.mem_cons_of_mem _ hf) hc).record rfl rfl rfl rfl rfl
  | @replied w saved fs p reply s ha hf =>
    intro f hfs hc
    have hfree : p.call.guarded = false := by
      cases hp : p.call.guarded with
      | false => rfl
      | true =>
        have hpos : 0 < fs.countP (fun f => f.info.call.guarded) := List.countP_pos_iff.mpr ⟨f, hfs, hc⟩
        have hle : w.storage.entered.toNat ≤ 1 := Bool.toNat_le _
        unfold GuardCounted at hcounted
        simp only [List.countP_cons, hp, ↓reduceIte] at hcounted
        omega
    exact (hfrozen f (List.mem_cons_of_mem _ hfs) hc).record rfl (hf.books hfree) rfl rfl rfl
  | credit => exact hfrozen
  | drift => exact hfrozen
  | tick => exact hfrozen

/-- At most one guarded function waits at any depth of calls, and until it is answered the ledger is
the one it left behind, whatever is called meanwhile. -/
theorem ledger_frozen (D : Deployment) (initialOwner : Address) (balance : Address → ℕ) (now : ℕ)
    (c : ContractConfig) (h : Reachable D initialOwner balance now (fun _ _ => True) c) :
    c.stack.countP (fun f => f.info.call.guarded) ≤ 1 ∧
      ∀ f ∈ c.stack, f.info.call.guarded = true → LedgerFrozen c f := by
  have hfrozen : Frozen c := by
    refine Reachable.invariant (P := Frozen) ⟨rfl, List.forall_mem_nil _⟩ ?_ h
    intro c a d _ hp _ hstep
    exact hp.step hstep
  refine ⟨?_, hfrozen.frozen⟩
  rw [hfrozen.counted]
  exact Bool.toNat_le _

/-- A recipient opens rounds of its own from the transfer of its claim. -/
def reentrantRun : List Act :=
  (sampleRun 2 100 2 1).dropLast ++ [.call (sampleMsg 3 0) (.createRound 5 7200),
    .call (sampleMsg 3 0) (.createRound 0 7200)]

theorem ledger_frozen_sample : ∃ c, (machine sampleDeployment).run reentrantRun sampleStart = some c ∧
    ∃ f ∈ c.stack, f.info.call.guarded = true ∧ LedgerFrozen c f := by
  have hrun : ((machine sampleDeployment).run reentrantRun sampleStart).map
      (fun c => c.stack.any (fun f => f.info.call.guarded)) = some true := by
    decide +kernel
  have hsteps : StepsMeet (machine sampleDeployment) reentrantRun sampleStart (fun _ _ => True) :=
    fun _ _ _ _ _ => trivial
  obtain ⟨c, hc, hany⟩ := Option.map_eq_some_iff.mp hrun
  obtain ⟨f, hf, hguarded⟩ := List.any_eq_true.mp hany
  exact ⟨c, hc, f, hf, hguarded, (ledger_frozen sampleDeployment 1 (fun _ => 0) 0 c
    (hsteps.reaches _ List.prefix_rfl c hc)).2 f hf hguarded⟩

end Fidensur
