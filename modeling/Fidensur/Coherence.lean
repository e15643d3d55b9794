import Fidensur.RoundInvariants

set_option autoImplicit false

namespace Fidensur

open NestedCalls ByteWords

/-- The registry answers a dispatch only while the round is still committed or computing. -/
def DispatchFresh (c : ContractConfig) (a : Act) : Prop :=
  ∀ id f fs roundId ciphertext, a = .reply (.instruction id) → c.stack = f :: fs →
    f.info.call = .requestCompute roundId ciphertext →
      (c.world.storage.rounds roundId).status.dispatchable

def Originated (D : Deployment) (stack : List (Frame World PendingCall)) : Prop :=
  ∀ f ∈ stack, ∃ balance s s', Started D f.info.msg balance s f.info.call s' (some f.info.interaction)

def GuardCounted (c : ContractConfig) : Prop :=
  c.stack.countP (fun f => f.info.call.guarded) = c.world.storage.entered.toNat

structure Coherent (D : Deployment) (c : ContractConfig) : Prop where
  shape : c.world.storage.Shape
  guard : GuardCounted c
  origin : Originated D c.stack
  funding : ∀ f ∈ c.stack, ∀ roundId amount, f.info.call = .fund roundId amount →
    (c.world.storage.rounds roundId).status.live = true ∧
      f.info.interaction = .transferFrom (c.world.storage.rounds roundId).token f.info.msg.sender amount

variable {D : Deployment} {w saved : World} {fs : List (Frame World PendingCall)} {p : PendingCall}
  {s : Storage} {reply : Reply}

theorem RoundStatus.ne_none_of_live {status : RoundStatus} (h : status.live = true) : status ≠ .none := by
  rintro rfl
  cases h

theorem RoundStatus.dispatchable.live {status : RoundStatus} (h : status.dispatchable) :
    status.live = true := by
  rcases h with rfl | rfl <;> rfl

theorem GuardCounted.entered (h : GuardCounted ⟨w, fs⟩) {f : Frame World PendingCall} (hf : f ∈ fs)
    (hc : f.info.call.guarded = true) : w.storage.entered = true := by
  have hpos : 0 < fs.countP (fun f => f.info.call.guarded) := List.countP_pos_iff.mpr ⟨f, hf, hc⟩
  have hcount : fs.countP (fun f => f.info.call.guarded) = w.storage.entered.toNat := h
  cases hentered : w.storage.entered with
  | true => rfl
  | false =>
    rw [hentered] at hcount
    simp only [Bool.toNat_false] at hcount
    omega

theorem GuardCounted.step {c d : ContractConfig} {a : Act} (h : GuardCounted c) (hstep : Stepped D c a d) :
    GuardCounted d := by
  unfold GuardCounted at h ⊢
  cases hstep with
  | @done w fs msg call s ht hself hst =>
    have hg := hst.guard
    simp only [World.record] at h ⊢
    split_ifs at hg
    · simpa [hg] using h
    · rw [hg, h]
  | @pending w fs msg call s x b ht hself hst =>
    have hg := hst.guard
    simp only [World.record, List.countP_cons] at h ⊢
    split_ifs at hg ⊢ with hc
    · simpa [hg] using h
    · rw [hg, h]
      rfl
  | settled => exact h
  | @replied w saved fs p reply s ha hf =>
    have hg := hf.guard
    simp only [World.record, List.countP_cons] at h ⊢
    rw [hg]
    cases hc : p.call.guarded with
    | false => simpa [hc] using h
    | true =>
      have hle : w.storage.entered.toNat ≤ 1 := Bool.toNat_le _
      simp only [hc, ↓reduceIte] at h
      simp only [Bool.not_true, Bool.false_and, Bool.toNat_false]
      omega
  | _ => exact h

theorem Coherent.entered_of_mem (h : Coherent D ⟨w, fs⟩) {f : Frame World PendingCall} (hf : f ∈ fs)
    (hc : f.info.call.guarded = true) : w.storage.entered = true :=
  GuardCounted.entered h.guard hf hc

theorem Originated.dispatch (h : Originated D fs) (f : Frame World PendingCall) (hf : f ∈ fs)
    {roundId : Uint256} {ciphertext : Bytes} (hc : f.info.call = .requestCompute roundId ciphertext) :
    ∃ teeIds params value, f.info.interaction = .sendInstructions teeIds params value := by
  obtain ⟨balance, t, t', hst⟩ := h f hf
  rw [hc] at hst
  generalize hx : some f.info.interaction = x at hst
  cases hst with
  | configure call _ _ _ _ hconf => simp [Call.configures] at hconf
  | requestCompute => exact ⟨_, _, _, Option.some.inj hx⟩

theorem Originated.answered (h : Originated D (⟨saved, p⟩ :: fs)) {roundId : Uint256}
    {ciphertext : Bytes} (hc : p.call = .requestCompute roundId ciphertext) {instructionId : Bytes32}
    (hid : p.interaction.accept reply = .ok instructionId) : reply = .instruction instructionId := by
  obtain ⟨teeIds, params, value, hx⟩ := h.dispatch ⟨saved, p⟩ (by simp) hc
  rw [hx] at hid
  exact accept_sendInstructions.mp hid

theorem Coherent.dispatchable (h : Coherent D ⟨w, ⟨saved, p⟩ :: fs⟩)
    (hfresh : DispatchFresh ⟨w, ⟨saved, p⟩ :: fs⟩ (.reply reply))
    (hf : Finished p.msg w.storage p.interaction reply p.call s) (roundId : Uint256)
    (ciphertext : Bytes) (hc : p.call = .requestCompute roundId ciphertext) :
    (w.storage.rounds roundId).status.dispatchable := by
  generalize hcall : p.call = call at hf hc
  subst hc
  cases hf with
  | release _ hp => cases hp
  | keep _ _ _ hr => exact absurd rfl (hr roundId ciphertext)
  | requestCompute _ _ instructionId hid =>
    exact hfresh instructionId _ fs roundId ciphertext (by rw [h.origin.answered hcall hid]) rfl hcall

theorem Coherent.deployed (initialOwner : Address) (balance : Address → ℕ) (now : ℕ) :
    Coherent D (deployed initialOwner balance now) where
  shape := Storage.deployed_shape initialOwner
  guard := rfl
  origin := List.forall_mem_nil _
  funding := List.forall_mem_nil _

theorem Coherent.funding_of_started (h : Coherent D ⟨w, fs⟩) {msg : Msg} {balance : Address → ℕ}
    {call : Call} {x : Option Interaction} (hst : Started D msg balance w.storage call s x) :
    ∀ f ∈ fs, ∀ roundId amount, f.info.call = .fund roundId amount →
      (s.rounds roundId).status.live = true ∧
        f.info.interaction = .transferFrom (s.rounds roundId).token f.info.msg.sender amount := by
  intro f hf roundId amount hc
  obtain ⟨hl, hx⟩ := h.funding f hf roundId amount hc
  have hg := h.entered_of_mem hf (by rw [hc]; rfl)
  have htoken := (hst.evolves h.shape roundId).token (RoundStatus.ne_none_of_live hl)
  exact ⟨hst.live_of_entered hg hl, htoken ▸ hx⟩

theorem Coherent.funding_of_finished (h : Coherent D ⟨w, ⟨saved, p⟩ :: fs⟩)
    (hfresh : DispatchFresh ⟨w, ⟨saved, p⟩ :: fs⟩ (.reply reply))
    (hf : Finished p.msg w.storage p.interaction reply p.call s) :
    ∀ f ∈ fs, ∀ roundId amount, f.info.call = .fund roundId amount →
      (s.rounds roundId).status.live = true ∧
        f.info.interaction = .transferFrom (s.rounds roundId).token f.info.msg.sender amount := by
  intro f hmem roundId amount hc
  obtain ⟨hl, hx⟩ := h.funding f (List.mem_cons_of_mem _ hmem) roundId amount hc
  have hd := h.dispatchable hfresh hf
  have htoken := (hf.evolves hd roundId).token (RoundStatus.ne_none_of_live hl)
  refine ⟨?_, htoken ▸ hx⟩
  generalize p.call = call at hf hd
  cases hf with
  | fund id =>
    by_cases hid : (roundId : ℕ) = id <;> simpa [Storage.credited, hid, Function.update_apply] using hl
  | release => exact hl
  | requestCompute id =>
    by_cases hid : (roundId : ℕ) = id
    · simp [recordDispatch, hid, RoundStatus.live]
    · simpa [recordDispatch, hid] using hl
  | keep => exact hl

theorem Originated.step {c d : ContractConfig} {a : Act} (h : Originated D c.stack)
    (hstep : Stepped D c a d) : Originated D d.stack := by
  cases hstep with
  | pending msg call ht hself hst =>
    rintro f (_ | ⟨_, hf⟩)
    · exact ⟨_, _, _, hst⟩
    · exact h f hf
  | settled p =>
    rintro f (_ | ⟨_, hf⟩)
    · exact h ⟨_, p⟩ List.mem_cons_self
    · exact h f (List.mem_cons_of_mem _ hf)
  | replied => exact fun f hf => h f (List.mem_cons_of_mem _ hf)
  | _ => exact h

theorem Coherent.step {c d : ContractConfig} {a : Act} (h : Coherent D c) (hfresh : DispatchFresh c a)
    (hstep : Stepped D c a d) : Coherent D d := by
  have horigin := h.origin.step hstep
  have hguard := h.guard.step hstep
  cases hstep with
  | done msg call ht hself hst =>
    exact ⟨hst.shape h.shape, hguard, horigin, h.funding_of_started hst⟩
  | @pending w fs msg call s x balance ht hself hst =>
    refine ⟨hst.shape h.shape, hguard, horigin, ?_⟩
    rintro f (_ | ⟨_, hf⟩) roundId amount hc
    · simp only at hc
      subst hc
      generalize hx : some x = y at hst
      cases hst with
      | configure call _ _ _ _ hconf => simp [Call.configures] at hconf
      | fundNative => cases hx
      | fundToken _ _ _ hs =>
        cases hx
        exact ⟨by simp [World.record, hs, RoundStatus.live], rfl⟩
    · exact h.funding_of_started hst f hf roundId amount hc
  | @settled w saved fs p =>
    refine ⟨h.shape, hguard, horigin, ?_⟩
    rintro f (_ | ⟨_, hf⟩)
    · exact h.funding ⟨saved, p⟩ (by simp)
    · exact h.funding f (List.mem_cons_of_mem _ hf)
  | @replied w saved fs p reply s ha hf =>
    have hd := h.dispatchable hfresh hf
    refine ⟨hf.shape h.shape ?_ hd, hguard, horigin, h.funding_of_finished hfresh hf⟩
    intro roundId amount hc
    have hlive := (h.funding ⟨saved, p⟩ (by simp) roundId amount hc).1
    exact RoundStatus.ne_none_of_live hlive
  | credit => exact ⟨h.shape, hguard, horigin, h.funding⟩
  | drift => exact ⟨h.shape, hguard, horigin, h.funding⟩
  | tick => exact ⟨h.shape, hguard, horigin, h.funding⟩

theorem Reachable.originated {initialOwner : Address} {balance : Address → ℕ} {now : ℕ}
    {ok : ContractConfig → Act → Prop} {c : ContractConfig}
    (h : Reachable D initialOwner balance now ok c) : Originated D c.stack :=
  Reachable.invariant (P := fun c => Originated D c.stack) (List.forall_mem_nil _)
    (fun _ _ _ _ hc _ hstep => hc.step hstep) h

theorem Reachable.coherent {initialOwner : Address} {balance : Address → ℕ} {now : ℕ}
    {ok : ContractConfig → Act → Prop} (hok : ∀ c a, ok c a → DispatchFresh c a) {c : ContractConfig}
    (h : Reachable D initialOwner balance now ok c) : Coherent D c :=
  Reachable.invariant (.deployed initialOwner balance now)
    (fun c a _ _ hc ha hstep => hc.step (hok c a ha) hstep) h

end Fidensur
