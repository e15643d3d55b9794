import Fidensur.GuardedLedger
import Fidensur.Governance

set_option autoImplicit false

/-! The events that the contract's functions end with, and the storage that a reader of them rebuilds. -/

namespace Fidensur

open NestedCalls ByteWords

inductive Event
  | ownershipTransferStarted (previousOwner newOwner : Address)
  | ownershipTransferred (previousOwner newOwner : Address)
  | extensionIdSet (extensionId : ℕ)
  | teeAddressSet (previousTee newTee : Address)
  | roundCreated (roundId : ℕ) (organization token : Address) (claimWindow : ℕ)
  | roundFunded (roundId : ℕ) (funder : Address) (amount totalFunded : ℕ)
  | policyCommitted (roundId : ℕ) (policyCommitment : Bytes32)
  | computeRequested (roundId : ℕ) (instructionId : Bytes32) (teeIds : List Address) (fee : ℕ)
  | disclosureRequested (roundId : ℕ) (requester : Address) (instructionId : Bytes32)
  | attestationRequested (roundId : ℕ) (instructionId : Bytes32)
  | roundFinalized (roundId : ℕ) (merkleRoot : Bytes32) (totalAllocated recipientCount : ℕ)
      (engineVersion actionId : Bytes32)
  | allocationClaimed (roundId index : ℕ) (recipient : Address) (amount : ℕ)
  | roundClosed (roundId sweptAmount : ℕ)
  | roundCancelled (roundId refundedAmount : ℕ)
  | rescued (token recipient : Address) (amount : ℕ)

structure Emitted where
  timestamp : ℕ
  event : Event

section Emission

variable (msg : Msg)

/-- What a payment function had computed before it paid: nothing at all is not sent. -/
def paidAmount (x : Option Interaction) : ℕ := x.elim 0 Interaction.amount

def Reply.instructionId : Reply → Bytes32
  | .instruction id => id
  | _ => 0

/-- The event a call ends with, from the storage before its last piece and after it. -/
def Call.emits (x : Option Interaction) (reply : Reply) (s s' : Storage) : Call → List Event
  | .transferOwnership newOwner => [.ownershipTransferStarted s.owner newOwner]
  | .acceptOwnership => [.ownershipTransferred s.owner s'.owner]
  | .setExtensionId => [.extensionIdSet s'.extensionId]
  | .setTeeAddress tee => [.teeAddressSet s.teeAddress tee]
  | .createRound token claimWindow => [.roundCreated s.nextRoundId msg.sender token claimWindow]
  | .fund roundId amount => [.roundFunded roundId msg.sender amount (s'.rounds roundId).funded]
  | .submitPolicy roundId policyCommitment => [.policyCommitted roundId policyCommitment]
  | .requestCompute roundId _ =>
      [.computeRequested roundId reply.instructionId msg.registry.randomTeeIds msg.value]
  | .finalizeRound resultData actionId _ _ _ =>
      match AllocationResult.decode resultData with
      | some res => [.roundFinalized res.roundId res.merkleRoot res.totalAllocated res.recipientCount
          res.engineVersion actionId]
      | none => []
  | .requestDisclosure roundId _ => [.disclosureRequested roundId msg.sender reply.instructionId]
  | .claim roundId index amount _ => [.allocationClaimed roundId index msg.sender amount]
  | .closeRound roundId => [.roundClosed roundId (paidAmount x)]
  | .cancelRound roundId => [.roundCancelled roundId (paidAmount x)]
  | .rescue token recipient => [.rescued token recipient (paidAmount x)]
  | .requestAttestation roundId => [.attestationRequested roundId reply.instructionId]

/-- The contract with the events it has emitted, newest first. -/
structure Chronicle where
  contract : World
  emitted : List Emitted

abbrev ChronicleConfig := Config Chronicle PendingCall

def emission (act : Act) (c : ContractConfig) : Effect World PendingCall → List Emitted
  | .alter w =>
      match act with
      | .call msg call =>
          (call.emits msg none .reverted c.world.storage w.storage).map (Emitted.mk msg.timestamp)
      | _ => []
  | .leave w =>
      match act, c.stack with
      | .reply reply, f :: _ =>
          (f.info.call.emits f.info.msg (some f.info.interaction) reply c.world.storage w.storage).map
            (Emitted.mk f.info.msg.timestamp)
      | _, _ => []
  | _ => []

/-- The machine of the contract with its events; an abort takes back those of the aborted call. -/
def chronicle (D : Deployment) : System Chronicle PendingCall Act := fun act c =>
  (machine D act (c.map Chronicle.contract)).map fun e =>
    e.map fun w => ⟨w, emission act (c.map Chronicle.contract) e ++ c.world.emitted⟩

def chronicled (initialOwner : Address) (balance : Address → ℕ) (now : ℕ) : ChronicleConfig :=
  ⟨⟨.initial initialOwner balance now, [⟨now, .ownershipTransferred 0 initialOwner⟩]⟩, []⟩

end Emission

section Reading

def Storage.modify (s : Storage) (id : ℕ) (f : Round → Round) : Storage := s.setRound id (f (s.rounds id))

def Storage.read (s : Storage) (l : Emitted) : Storage :=
  match l.event with
  | .ownershipTransferStarted _ newOwner => { s with pendingOwner := newOwner }
  | .ownershipTransferred _ newOwner => { s with owner := newOwner, pendingOwner := 0 }
  | .extensionIdSet extensionId => { s with extensionId := extensionId }
  | .teeAddressSet _ tee => { s with teeAddress := tee }
  | .roundCreated id organization token claimWindow =>
      let s := s.modify id fun r =>
        { r with organization := organization, status := .opened, token := token, claimWindow := claimWindow }
      { s with nextRoundId := id + 1 }
  | .roundFunded id _ amount totalFunded =>
      let token := (s.rounds id).token
      (s.modify id fun r => { r with funded := totalFunded }).setOutstanding token (s.outstanding token + amount)
  | .policyCommitted id policyCommitment =>
      s.modify id fun r => { r with policyCommitment := policyCommitment, status := .committed }
  | .computeRequested id instructionId _ _ =>
      s.modify id fun r =>
        { r with
          computeInstructionId := instructionId
          computeRequestedAt := l.timestamp % 2 ^ 48
          status := .computing }
  | .disclosureRequested .. => s
  | .attestationRequested .. => s
  | .roundFinalized id merkleRoot totalAllocated recipientCount engineVersion _ =>
      s.modify id fun r =>
        { r with
          merkleRoot := merkleRoot
          totalAllocated := totalAllocated
          recipientCount := recipientCount
          engineVersion := engineVersion
          claimDeadline := l.timestamp % 2 ^ 48 + r.claimWindow
          status := .finalized }
  | .allocationClaimed id index _ amount => s.claimPaid id index amount
  | .roundClosed id sweptAmount => s.wound id .closed sweptAmount
  | .roundCancelled id refundedAmount => s.wound id .cancelled refundedAmount
  | .rescued .. => s

/-- The storage as the events alone tell it, the constructor's included. -/
def rebuild : List Emitted → Storage
  | [] => .deployed 0
  | l :: ls => (rebuild ls).read l

def Storage.readAll (s : Storage) (ls : List Emitted) : Storage := ls.foldr (fun l s => s.read l) s

theorem rebuild_append (ls rest : List Emitted) : rebuild (ls ++ rest) = (rebuild rest).readAll ls := by
  induction ls with
  | nil => rfl
  | cons l ls ih =>
    rw [List.cons_append, rebuild, ih]
    rfl

/-- The storage without the guard, of which no event tells. -/
def Storage.unlocked (s : Storage) : Storage := { s with entered := false }

def PendingCall.ahead (p : PendingCall) (s : Storage) : Storage :=
  match p.call with
  | .claim roundId index amount _ => s.claimPaid roundId index amount
  | .closeRound roundId => s.wound roundId .closed p.interaction.amount
  | .cancelRound roundId => s.wound roundId .cancelled p.interaction.amount
  | _ => s

def settled (fs : List (Frame World PendingCall)) (s : Storage) : Storage :=
  fs.foldr (fun f s => f.info.ahead s) s

end Reading

section Order

variable {D : Deployment} {initialOwner : Address} {balance : Address → ℕ} {now : ℕ}
  {ok : ContractConfig → Act → Prop} {msg : Msg} {view : Address → ℕ} {s s' : Storage} {call : Call}
  {x : Option Interaction} {c d : ContractConfig} {a : Act} {id roundId : ℕ} {r : Round}

def RoundStatus.ended : RoundStatus → Bool
  | .finalized | .closed | .cancelled => true
  | .none | .opened | .committed | .computing => false

def Storage.Unused (s : Storage) : Prop := ∀ id, s.nextRoundId ≤ id → (s.rounds id).status = .none

theorem Storage.Unused.lt (h : s.Unused) (hs : (s.rounds id).status ≠ .none) : id < s.nextRoundId := by
  by_contra hle
  exact hs (h id (Nat.le_of_not_lt hle))

theorem Storage.Unused.update (h : s.Unused) (hr : s'.rounds = Function.update s.rounds roundId r)
    (hn : s'.nextRoundId = s.nextRoundId) (hlt : roundId < s.nextRoundId) : s'.Unused := by
  intro id hid
  have hne : id ≠ roundId := by omega
  rw [hr, Function.update_of_ne hne]
  exact h id (by omega)

theorem Storage.Unused.congr (h : s.Unused) (hr : ∀ id, (s'.rounds id).status = (s.rounds id).status)
    (hn : s'.nextRoundId = s.nextRoundId) : s'.Unused := by
  intro id hid
  rw [hr]
  exact h id (by omega)

theorem Started.unused (h : Started D msg view s call s' x) (hu : s.Unused) :
    s'.Unused ∧ s.nextRoundId ≤ s'.nextRoundId := by
  have hlt {id : ℕ} (hs : (s.rounds id).status ≠ .none) : id < s.nextRoundId := hu.lt hs
  cases h with
  | createRound token claimWindow =>
    refine ⟨?_, Nat.le_succ _⟩
    intro id hid
    simp only [Storage.setRound_nextRoundId] at hid
    have hne : id ≠ s.nextRoundId := by omega
    simp only [Storage.setRound_rounds, Function.update_of_ne hne]
    exact hu id (by omega)
  | fundNative roundId amount hg hs => exact ⟨hu.update rfl rfl (hlt (by simp [hs])), le_rfl⟩
  | submitPolicy roundId policyCommitment hs => exact ⟨hu.update rfl rfl (hlt (by simp [hs])), le_rfl⟩
  | finalizeRound _ _ _ _ res _ _ _ _ hs => exact ⟨hu.update rfl rfl (hlt (by simp [hs])), le_rfl⟩
  | claim roundId index amount proof hg hs => exact ⟨hu.update rfl rfl (hlt (by simp [hs])), le_rfl⟩
  | closeRound roundId hg hs => exact ⟨hu.update rfl rfl (hlt (by simp [hs])), le_rfl⟩
  | cancelRound roundId hg hs =>
    have hne : (s.rounds roundId).status ≠ .none := by rcases hs with hs | hs <;> simp [hs]
    exact ⟨hu.update rfl rfl (hlt hne), le_rfl⟩
  | _ => exact ⟨hu.congr (fun _ => rfl) rfl, le_rfl⟩

theorem Started.ended (h : Started D msg view s call s' x) (hu : s.Unused) (hc : call.guarded = false)
    (he : (s.rounds id).status.ended = true) : (s'.rounds id).status = (s.rounds id).status := by
  have hother {roundId : ℕ} {r : Round} {t : Storage} (hr : t.rounds = Function.update s.rounds roundId r)
      (hne : (s.rounds roundId).status.ended = false) : (t.rounds id).status = (s.rounds id).status := by
    have hid : id ≠ roundId := by
      rintro rfl
      rw [he] at hne
      cases hne
    rw [hr, Function.update_of_ne hid]
  cases h with
  | createRound => exact hother rfl (by rw [hu _ le_rfl]; rfl)
  | submitPolicy roundId policyCommitment hs => exact hother rfl (by rw [hs]; rfl)
  | finalizeRound _ _ _ _ res _ _ _ _ hs => exact hother rfl (by rw [hs]; rfl)
  | fundNative => cases hc
  | fundToken => cases hc
  | claim => cases hc
  | closeRound => cases hc
  | cancelRound => cases hc
  | _ => rfl

theorem Started.pays (h : Started D msg view s call s' x) (hp : call.paysFor id = true) :
    (s'.rounds id).status.ended = true := by
  cases h with
  | configure call _ _ _ _ hc => cases call <;> first | cases hp | cases hc
  | claim roundId index amount proof hg hs =>
    obtain rfl := of_decide_eq_true hp
    simp [Storage.claimPaid, setClaimed, hs, RoundStatus.ended]
  | closeRound roundId =>
    obtain rfl := of_decide_eq_true hp
    simp [Storage.wound, RoundStatus.ended]
  | cancelRound roundId =>
    obtain rfl := of_decide_eq_true hp
    simp [Storage.wound, RoundStatus.ended]
  | _ => cases hp

theorem paysFor_guarded (h : call.paysFor id = true) : call.guarded = true := by
  cases call <;> first | rfl | cases h

/-- Where a payment waits its round has ended, so no dispatch of that round waits above it. -/
structure Orderly (c : ContractConfig) : Prop where
  counted : GuardCounted c
  unused : c.world.storage.Unused
  known : ∀ f ∈ c.stack, ∀ roundId ciphertext, f.info.call = .requestCompute roundId ciphertext →
    (roundId : ℕ) < c.world.storage.nextRoundId
  ended : ∀ f ∈ c.stack, ∀ id, f.info.call.paysFor id = true → (c.world.storage.rounds id).status.ended = true
  ordered : c.stack.Pairwise fun f g => ∀ roundId ciphertext, f.info.call = .requestCompute roundId ciphertext →
    g.info.call.paysFor roundId = false

theorem Orderly.started {w : World} {fs : List (Frame World PendingCall)} (h : Orderly ⟨w, fs⟩)
    (hst : Started D msg view w.storage call s' x) :
    s'.Unused ∧
    (∀ f ∈ fs, ∀ roundId ciphertext, f.info.call = .requestCompute roundId ciphertext →
      (roundId : ℕ) < s'.nextRoundId) ∧
    ∀ f ∈ fs, ∀ id, f.info.call.paysFor id = true → (s'.rounds id).status.ended = true := by
  obtain ⟨hunused, hle⟩ := hst.unused h.unused
  refine ⟨hunused, ?_, ?_⟩
  · intro f hf roundId ciphertext hcall
    exact (h.known f hf roundId ciphertext hcall).trans_le hle
  · intro f hf id hp
    have hended := h.ended f hf id hp
    have hfree := hst.unguarded (h.counted.entered hf (paysFor_guarded hp))
    rw [hst.ended h.unused hfree hended]
    exact hended

theorem Orderly.step (h : Orderly c) (hstep : Stepped D c a d) : Orderly d := by
  have hcounted := h.counted.step hstep
  cases hstep with
  | @done w fs msg call s ht hself hst =>
    obtain ⟨hunused, hknown, hended⟩ := h.started hst
    exact ⟨hcounted, hunused, hknown, hended, h.ordered⟩
  | @pending w fs msg call s x b ht hself hst =>
    obtain ⟨hunused, hknown, hended⟩ := h.started hst
    refine ⟨hcounted, hunused, ?_, ?_, ?_⟩
    · apply List.forall_mem_cons.mpr ⟨?_, hknown⟩
      rintro roundId ciphertext rfl
      cases hst with
      | requestCompute _ _ ho hs =>
        apply h.unused.lt
        rcases hs with hs | ⟨hs, -⟩ <;> simp [hs]
    · apply List.forall_mem_cons.mpr ⟨?_, hended⟩
      exact fun id hp => hst.pays hp
    · apply List.pairwise_cons.mpr ⟨?_, h.ordered⟩
      rintro g hg roundId ciphertext rfl
      cases hp : g.info.call.paysFor roundId with
      | false => rfl
      | true =>
        have hg := h.ended g hg roundId hp
        cases hst with
        | requestCompute _ _ ho hs => rcases hs with hs | ⟨hs, -⟩ <;> simp [hs, RoundStatus.ended] at hg
  | @settled w saved fs p =>
    refine ⟨hcounted, h.unused, ?_, ?_, ?_⟩
    · exact List.forall_mem_cons.mpr (List.forall_mem_cons.mp h.known)
    · exact List.forall_mem_cons.mpr (List.forall_mem_cons.mp h.ended)
    · exact List.pairwise_cons.mpr (List.pairwise_cons.mp h.ordered)
  | @replied w saved fs p reply s ha hf =>
    obtain ⟨habove, hordered⟩ := List.pairwise_cons.mp h.ordered
    obtain ⟨htop, hknown⟩ := List.forall_mem_cons.mp h.known
    have hended := (List.forall_mem_cons.mp h.ended).2
    have hunused := h.unused
    obtain ⟨pmsg, pcall, y, settled⟩ := p
    cases hf with
    | fund roundId amount =>
      have hstatus (id : ℕ) : ({ w.storage.credited roundId amount with entered := false }.rounds id).status =
          (w.storage.rounds id).status := Round.field_same Round.status rfl (by rfl) id
      refine ⟨hcounted, hunused.congr hstatus rfl, hknown, ?_, hordered⟩
      intro f hf id hp
      rw [World.record, hstatus]
      exact hended f hf id hp
    | release => exact ⟨hcounted, hunused.congr (fun _ => rfl) rfl, hknown, hended, hordered⟩
    | requestCompute roundId ciphertext instructionId =>
      refine ⟨hcounted, hunused.update rfl rfl (htop _ _ rfl), hknown, ?_, hordered⟩
      intro f hf id hp
      have hne : id ≠ roundId := by
        rintro rfl
        rw [habove f hf roundId ciphertext rfl] at hp
        cases hp
      simp only [World.record, recordDispatch, Storage.setRound_rounds, Function.update_of_ne hne]
      exact hended f hf id hp
    | keep => exact ⟨hcounted, hunused, hknown, hended, hordered⟩
  | _ => exact ⟨hcounted, h.unused, h.known, h.ended, h.ordered⟩

end Order

section Calls

variable {D : Deployment} {msg : Msg} {view : Address → ℕ} {s s' : Storage} {call : Call}
  {x : Option Interaction} {y : Interaction} {reply : Reply}

def Storage.after (s : Storage) (t : ℕ) (evs : List Event) : Storage := s.unlocked.readAll (evs.map (Emitted.mk t))

theorem start_emits (h : start D msg view s call = .ok (s', none)) :
    s'.unlocked = s.after msg.timestamp (call.emits msg none .reverted s s') := by
  have hstarted := Started.of_start h
  obtain ⟨_, -, h⟩ := bind_ok.mp h
  generalize hx : (none : Option Interaction) = x at hstarted
  cases hstarted with
  | configure _ _ _ _ _ hc =>
    cases call with
    | transferOwnership newOwner =>
      simp only [dispatch, transferOwnership, onlyOwner, bind_ok, require_ok, exists_const, pure, Except.pure,
        Except.ok.injEq, Prod.mk.injEq] at h
      obtain ⟨-, -, hs, -⟩ := h
      rw [← hs]
      rfl
    | acceptOwnership =>
      simp only [dispatch, acceptOwnership, bind_ok, require_ok, exists_const, pure, Except.pure,
        Except.ok.injEq, Prod.mk.injEq] at h
      obtain ⟨-, hs, -⟩ := h
      rw [← hs]
      rfl
    | setExtensionId =>
      have hset : setExtensionId D msg s = .ok (_, none) := h
      obtain ⟨-, -, hs⟩ := setExtensionId_governed hset
      exact congrArg Storage.unlocked hs
    | setTeeAddress tee =>
      simp only [dispatch, setTeeAddress, onlyOwner, bind_ok, require_ok, exists_const, pure, Except.pure,
        Except.ok.injEq, Prod.mk.injEq] at h
      obtain ⟨-, -, hs, -⟩ := h
      rw [← hs]
      rfl
    | _ => cases hc
  | createRound => rfl
  | fundNative roundId amount =>
    simp only [Storage.after, Call.emits, Storage.credited, Storage.setOutstanding_rounds, Storage.setRound_rounds,
      Function.update_self]
    rfl
  | submitPolicy => rfl
  | finalizeRound resultData actionId submissionTag signature res ht hsig hd =>
    simp only [Storage.after, Call.emits, hd]
    rfl
  | claim => rfl
  | closeRound roundId =>
    simp only [Storage.after, Call.emits, paidAmount, payOut_amount]
    rfl
  | cancelRound roundId =>
    simp only [Storage.after, Call.emits, paidAmount, payOut_amount]
    rfl
  | rescue => rfl
  | _ => cases hx

theorem Started.ahead (h : Started D msg view s call s' x) (hx : x = some y) (b : Bool) :
    s'.unlocked = PendingCall.ahead ⟨msg, call, y, b⟩ s.unlocked := by
  have hamount {token recipient : Address} {amount : ℕ} (hpay : SafeTransfer.payOut token recipient amount = some y) :
      y.amount = amount := by
    have h := payOut_amount token recipient amount
    rw [hpay] at h
    exact h
  cases h with
  | configure => cases hx
  | createRound => cases hx
  | fundNative => cases hx
  | submitPolicy => cases hx
  | finalizeRound => cases hx
  | closeRound roundId =>
    rw [← hamount hx]
    rfl
  | cancelRound roundId =>
    rw [← hamount hx]
    rfl
  | _ => rfl

theorem Started.answered (h : Started D msg view s call s' x) {roundId : Uint256} {ciphertext : Bytes} {id : Bytes32}
    (hcall : call = .requestCompute roundId ciphertext) (hx : x = some y) (hid : y.accept reply = .ok id) :
    reply = .instruction id := by
  subst hcall
  cases h with
  | configure _ _ _ _ _ hc => cases hc
  | requestCompute =>
    cases hx
    exact accept_sendInstructions.mp hid

theorem Finished.emits {t t' : Storage} (h : Finished msg s y reply call s')
    (ho : Started D msg view t call t' x) (hx : x = some y) :
    s'.unlocked = if call.paysOut then s.unlocked
      else s.after msg.timestamp (call.emits msg (some y) reply s s') := by
  cases h with
  | fund roundId amount =>
    simp only [Call.paysOut, Storage.after, Call.emits, Storage.credited, Storage.setOutstanding_rounds,
      Storage.setRound_rounds, Function.update_self]
    rfl
  | release call hc =>
    rw [if_pos hc]
    rfl
  | requestCompute roundId ciphertext id hid =>
    obtain rfl := ho.answered rfl hx hid
    rfl
  | keep call hp hf hr =>
    rw [hp]
    cases ho with
    | requestDisclosure => rfl
    | requestAttestation => rfl
    | fundToken roundId amount => exact absurd rfl (hf roundId amount)
    | requestCompute roundId ciphertext => exact absurd rfl (hr roundId ciphertext)
    | claim => cases hp
    | closeRound => cases hp
    | cancelRound => cases hp
    | rescue => cases hp
    | _ => cases hx

theorem ahead_emits (p : PendingCall) (hp : p.call.paysOut = true) (t : ℕ) (a b r : Storage) :
    p.ahead r = r.readAll ((p.call.emits p.msg (some p.interaction) reply a b).map (Emitted.mk t)) := by
  obtain ⟨msg, call, y, settled⟩ := p
  cases call with
  | claim => rfl
  | closeRound => rfl
  | cancelRound => rfl
  | rescue => rfl
  | _ => cases hp

theorem ahead_of_free (p : PendingCall) (hp : p.call.paysOut = false) (s : Storage) : p.ahead s = s := by
  obtain ⟨msg, call, y, settled⟩ := p
  cases call with
  | claim => cases hp
  | closeRound => cases hp
  | cancelRound => cases hp
  | _ => rfl

end Calls

section Commutation

variable {s : Storage} {id i : ℕ} {l : Emitted} {fs : List (Frame World PendingCall)}

def Event.spares (id : ℕ) : Event → Prop
  | .roundCreated i .. | .policyCommitted i _ | .computeRequested i .. | .roundFinalized i .. => i ≠ id
  | .roundFunded .. | .allocationClaimed .. | .roundClosed .. | .roundCancelled .. => False
  | _ => True

theorem claimPaid_modify (hne : i ≠ id) (index amount : ℕ) (f : Round → Round) :
    (s.modify i f).claimPaid id index amount = (s.claimPaid id index amount).modify i f := by
  simp only [Storage.modify, Storage.claimPaid, setClaimed, Storage.setRound, Storage.setOutstanding,
    Function.update_of_ne hne, Function.update_of_ne hne.symm, Function.update_comm hne.symm]

theorem wound_modify (hne : i ≠ id) (status : RoundStatus) (amount : ℕ) (f : Round → Round) :
    (s.modify i f).wound id status amount = (s.wound id status amount).modify i f := by
  simp only [Storage.modify, Storage.wound, Storage.setRound, Storage.setOutstanding,
    Function.update_of_ne hne, Function.update_of_ne hne.symm, Function.update_comm hne.symm]

variable {p : PendingCall}

theorem ahead_cases (p : PendingCall) : (∀ s, p.ahead s = s) ∨ ∃ id, p.call.paysFor id = true := by
  obtain ⟨msg, call, y, settled⟩ := p
  cases call with
  | claim roundId => exact .inr ⟨roundId, beq_self_eq_true _⟩
  | closeRound roundId => exact .inr ⟨roundId, beq_self_eq_true _⟩
  | cancelRound roundId => exact .inr ⟨roundId, beq_self_eq_true _⟩
  | _ => exact .inl fun _ => rfl

theorem ahead_modify (hp : p.call.paysFor id = true) (hne : i ≠ id) (f : Round → Round) :
    p.ahead (s.modify i f) = (p.ahead s).modify i f := by
  obtain ⟨msg, call, y, settled⟩ := p
  cases call with
  | claim roundId index amount proof =>
    obtain rfl := of_decide_eq_true hp
    exact claimPaid_modify hne index amount f
  | closeRound roundId =>
    obtain rfl := of_decide_eq_true hp
    exact wound_modify hne .closed _ f
  | cancelRound roundId =>
    obtain rfl := of_decide_eq_true hp
    exact wound_modify hne .cancelled _ f
  | _ => cases hp

/-- A pending payment and an event that spares its round may be told in either order. -/
theorem ahead_read (hs : ∀ id, p.call.paysFor id = true → l.event.spares id) :
    p.ahead (s.read l) = (p.ahead s).read l := by
  rcases ahead_cases p with hfree | ⟨id, hp⟩
  · rw [hfree, hfree]
  · have hspares := hs id hp
    obtain ⟨t, ev⟩ := l
    cases ev with
    | roundCreated i organization token claimWindow =>
      have hround := ahead_modify (s := s) hp hspares fun r =>
        { r with organization := organization, status := .opened, token := token, claimWindow := claimWindow }
      have hnext (s : Storage) : p.ahead { s with nextRoundId := i + 1 } =
          { p.ahead s with nextRoundId := i + 1 } := by
        obtain ⟨msg, call, y, settled⟩ := p
        cases call <;> rfl
      exact (hnext _).trans (congrArg (fun s : Storage => { s with nextRoundId := i + 1 }) hround)
    | policyCommitted => exact ahead_modify hp hspares _
    | computeRequested => exact ahead_modify hp hspares _
    | roundFinalized => exact ahead_modify hp hspares _
    | roundFunded => cases hspares
    | allocationClaimed => cases hspares
    | roundClosed => cases hspares
    | roundCancelled => cases hspares
    | disclosureRequested => rfl
    | attestationRequested => rfl
    | rescued => rfl
    | _ =>
      obtain ⟨msg, call, y, settled⟩ := p
      cases call <;> rfl

theorem settled_read (hs : ∀ f ∈ fs, ∀ id, f.info.call.paysFor id = true → l.event.spares id) :
    settled fs (s.read l) = (settled fs s).read l := by
  induction fs with
  | nil => rfl
  | cons f fs ih =>
    obtain ⟨hf, hfs⟩ := List.forall_mem_cons.mp hs
    change f.info.ahead (settled fs (s.read l)) = (f.info.ahead (settled fs s)).read l
    rw [ih hfs, ahead_read hf]

theorem settled_readAll {ls : List Emitted}
    (hs : ∀ l ∈ ls, ∀ f ∈ fs, ∀ id, f.info.call.paysFor id = true → l.event.spares id) :
    settled fs (s.readAll ls) = (settled fs s).readAll ls := by
  induction ls with
  | nil => rfl
  | cons l ls ih =>
    obtain ⟨hl, hls⟩ := List.forall_mem_cons.mp hs
    change settled fs ((s.readAll ls).read l) = ((settled fs s).readAll ls).read l
    rw [settled_read hl, ih hls]

theorem settled_of_unguarded (h : ∀ f ∈ fs, f.info.call.guarded = false) : settled fs s = s := by
  induction fs with
  | nil => rfl
  | cons f fs ih =>
    obtain ⟨hf, hfs⟩ := List.forall_mem_cons.mp h
    change f.info.ahead (settled fs s) = s
    rw [ih hfs]
    rcases ahead_cases f.info with hfree | ⟨id, hp⟩
    · exact hfree s
    · rw [paysFor_guarded hp] at hf
      cases hf

end Commutation

section Rebuilding

variable {D : Deployment} {initialOwner : Address} {balance : Address → ℕ} {now : ℕ} {msg : Msg} {call : Call}
  {act : Act} {w saved : World} {s : Storage} {fs : List (Frame World PendingCall)} {p : PendingCall}
  {e : Effect World PendingCall} {c d : ChronicleConfig} {reply : Reply}

def Rebuilt (c : ContractConfig) (emitted : List Emitted) : Prop :=
  c.world.storage.unlocked = settled c.stack (rebuild emitted)

theorem Orderly.unguarded (h : Orderly ⟨w, fs⟩) (hentered : w.storage.entered = false) :
    ∀ f ∈ fs, f.info.call.guarded = false := by
  intro f hf
  cases hg : f.info.call.guarded with
  | false => rfl
  | true =>
    rw [h.counted.entered hf hg] at hentered
    cases hentered

theorem Orderly.below_unguarded (h : Orderly ⟨w, ⟨saved, p⟩ :: fs⟩) (hp : p.call.guarded = true) :
    ∀ f ∈ fs, f.info.call.guarded = false := by
  intro f hf
  cases hg : f.info.call.guarded with
  | false => rfl
  | true =>
    have hpos : 0 < fs.countP (fun f => f.info.call.guarded) := List.countP_pos_iff.mpr ⟨f, hf, hg⟩
    have hcount := h.counted
    have hle : w.storage.entered.toNat ≤ 1 := Bool.toNat_le _
    unfold GuardCounted at hcount
    simp only [List.countP_cons, hp, ↓reduceIte] at hcount
    omega

theorem Started.spares {view : Address → ℕ} {s' : Storage} {x : Option Interaction} {id : ℕ} {ev : Event}
    (h : Started D msg view s call s' x) (hx : x = none) (hc : call.guarded = false) (hu : s.Unused)
    (hended : (s.rounds id).status.ended = true) (hev : ev ∈ call.emits msg x reply s s') : ev.spares id := by
  have hother {i : ℕ} (hs : (s.rounds i).status.ended = false) : i ≠ id := by
    rintro rfl
    rw [hended] at hs
    cases hs
  cases h with
  | configure _ _ _ _ _ hconf =>
    cases call with
    | transferOwnership => obtain rfl := List.mem_singleton.mp hev; trivial
    | acceptOwnership => obtain rfl := List.mem_singleton.mp hev; trivial
    | setExtensionId => obtain rfl := List.mem_singleton.mp hev; trivial
    | setTeeAddress => obtain rfl := List.mem_singleton.mp hev; trivial
    | _ => cases hconf
  | createRound =>
    obtain rfl := List.mem_singleton.mp hev
    exact hother (by rw [hu _ le_rfl]; rfl)
  | submitPolicy roundId policyCommitment hs =>
    obtain rfl := List.mem_singleton.mp hev
    exact hother (by rw [hs]; rfl)
  | finalizeRound resultData actionId submissionTag signature res ht hsig hd hself hs =>
    simp only [Call.emits, hd] at hev
    obtain rfl := List.mem_singleton.mp hev
    exact hother (by rw [hs]; rfl)
  | fundNative => cases hc
  | claim => cases hc
  | closeRound => cases hc
  | cancelRound => cases hc
  | rescue => cases hc
  | _ => cases hx

theorem Started.spares_later {view : Address → ℕ} {s' a b : Storage} {x : Option Interaction} {y : Interaction}
    {id : ℕ} {ev : Event} (h : Started D msg view s call s' x) (hx : x = some y) (hc : call.guarded = false)
    (hdispatch : ∀ roundId ciphertext, call = .requestCompute roundId ciphertext → (roundId : ℕ) ≠ id)
    (hev : ev ∈ call.emits msg (some y) reply a b) : ev.spares id := by
  cases h with
  | requestCompute roundId ciphertext =>
    obtain rfl := List.mem_singleton.mp hev
    exact hdispatch _ _ rfl
  | requestDisclosure =>
    obtain rfl := List.mem_singleton.mp hev
    trivial
  | requestAttestation =>
    obtain rfl := List.mem_singleton.mp hev
    trivial
  | fundToken => cases hc
  | claim => cases hc
  | closeRound => cases hc
  | cancelRound => cases hc
  | rescue => cases hc
  | _ => cases hx

theorem mem_told {evs : List Event} {t : ℕ} {l : Emitted} (h : l ∈ evs.map (Emitted.mk t)) : l.event ∈ evs := by
  obtain ⟨ev, hev, rfl⟩ := List.mem_map.mp h
  exact hev

theorem Rebuilt.returned {emitted : List Emitted} (h : Rebuilt ⟨w, fs⟩ emitted) (ho : Orderly ⟨w, fs⟩)
    {view balance : Address → ℕ} (hstart : start D msg view w.storage call = .ok (s, none)) :
    Rebuilt ⟨w.record msg call (.started none) s balance, fs⟩
      ((call.emits msg none .reverted w.storage s).map (Emitted.mk msg.timestamp) ++ emitted) := by
  have hst := Started.of_start hstart
  have hwrote := start_emits hstart
  unfold Rebuilt at h ⊢
  simp only [World.record] at h ⊢
  rw [rebuild_append, settled_readAll, ← h, hwrote, Storage.after]
  intro l hl f hf id hp
  have hentered : w.storage.entered = true := ho.counted.entered hf (paysFor_guarded hp)
  exact hst.spares rfl (hst.unguarded hentered) ho.unused (ho.ended f hf id hp) (mem_told hl)

theorem Rebuilt.replied {emitted : List Emitted} (h : Rebuilt ⟨w, ⟨saved, p⟩ :: fs⟩ emitted)
    (ho : Orderly ⟨w, ⟨saved, p⟩ :: fs⟩) (horigin : Originated D (⟨saved, p⟩ :: fs))
    (hf : Finished p.msg w.storage p.interaction reply p.call s) :
    Rebuilt ⟨w.record p.msg p.call (.finished reply) s w.balance, fs⟩
      ((p.call.emits p.msg (some p.interaction) reply w.storage s).map (Emitted.mk p.msg.timestamp) ++
        emitted) := by
  obtain ⟨view, t, t', hst⟩ := horigin ⟨saved, p⟩ List.mem_cons_self
  have hwrote := hf.emits hst rfl
  have hpending : w.storage.unlocked = p.ahead (settled fs (rebuild emitted)) := h
  unfold Rebuilt
  simp only [World.record]
  rw [rebuild_append, hwrote]
  cases hp : p.call.paysOut with
  | true =>
    have hguarded : p.call.guarded = true := by
      cases hcall : p.call <;> first | rfl | (rw [hcall] at hp; cases hp)
    have hfree := ho.below_unguarded hguarded
    rw [settled_of_unguarded hfree] at hpending
    rw [settled_of_unguarded hfree, if_pos rfl, hpending]
    exact ahead_emits p hp _ _ _ _
  | false =>
    rw [ahead_of_free p hp] at hpending
    rw [settled_readAll, ← hpending, if_neg Bool.false_ne_true, Storage.after]
    intro l hl f hf id hpays
    have hguarded : p.call.guarded = false := by
      cases hg : p.call.guarded with
      | false => rfl
      | true =>
        have hfree := ho.below_unguarded hg f hf
        rw [paysFor_guarded hpays] at hfree
        cases hfree
    have hdispatch : ∀ roundId ciphertext, p.call = .requestCompute roundId ciphertext → (roundId : ℕ) ≠ id := by
      rintro roundId ciphertext hcall rfl
      have hother := (List.pairwise_cons.mp ho.ordered).1 f hf roundId ciphertext hcall
      rw [hpays] at hother
      cases hother
    exact hst.spares_later rfl hguarded hdispatch (mem_told hl)

theorem machine_call_effect (he : machine D (.call msg call) ⟨w, fs⟩ = some e) : ∃ s b,
    (start D msg (msg.received w.balance) w.storage call = .ok (s, none) ∧
      e = .alter (w.record msg call (.started none) s b)) ∨
    ∃ y, start D msg (msg.received w.balance) w.storage call = .ok (s, some y) ∧
      e = .enter ⟨msg, call, y, y.movesAtOnce⟩ (w.record msg call (.started (some y)) s b) := by
  simp only [machine] at he
  split_ifs at he
  cases hs : start D msg (msg.received w.balance) w.storage call with
  | error err =>
    rw [hs] at he
    cases he
  | ok out =>
    obtain ⟨s, x⟩ := out
    rw [hs] at he
    cases x with
    | none =>
      cases he
      exact ⟨s, _, .inl ⟨rfl, rfl⟩⟩
    | some y =>
      simp only at he
      split at he
      · cases he
      · cases he
        exact ⟨s, _, .inr ⟨y, rfl, rfl⟩⟩

theorem machine_reply_effect (he : machine D (.reply reply) ⟨w, ⟨saved, p⟩ :: fs⟩ = some e) (hne : e ≠ .abort) :
    ∃ s, Finished p.msg w.storage p.interaction reply p.call s ∧
      e = .leave (w.record p.msg p.call (.finished reply) s w.balance) := by
  simp only [machine] at he
  cases hf : finish p.msg w.storage p.interaction reply p.call with
  | error err =>
    rw [hf] at he
    cases he
    exact absurd rfl hne
  | ok s =>
    rw [hf] at he
    cases he
    exact ⟨s, .of_finish hf, rfl⟩

theorem emitted_of_apply {emitted : List Emitted} (hne : e ≠ .abort)
    (hd : (e.map fun w => (⟨w, emitted⟩ : Chronicle)).apply c = some d) : d.world.emitted = emitted := by
  obtain ⟨w, fs⟩ := c
  cases e with
  | enter => cases hd; rfl
  | alter => cases hd; rfl
  | update => cases fs <;> cases hd; rfl
  | leave => cases fs <;> cases hd; rfl
  | abort => exact absurd rfl hne

structure Told (D : Deployment) (c : ChronicleConfig) : Prop where
  orderly : Orderly (c.map Chronicle.contract)
  originated : Originated D (c.map Chronicle.contract).stack
  rebuilt : Rebuilt (c.map Chronicle.contract) c.world.emitted

theorem Told.deployed (initialOwner : Address) (balance : Address → ℕ) (now : ℕ) :
    Told D (chronicled initialOwner balance now) where
  orderly := ⟨rfl, fun _ _ => rfl, List.forall_mem_nil _, List.forall_mem_nil _, .nil⟩
  originated := List.forall_mem_nil _
  rebuilt := rfl

theorem Rebuilt.stepped {c' d' : ContractConfig} (ho : Orderly c') (horigin : Originated D c'.stack)
    {emitted : List Emitted} (h : Rebuilt c' emitted) (he : machine D act c' = some e) (hne : e ≠ .abort)
    (hd : e.apply c' = some d') : Rebuilt d' (emission act c' e ++ emitted) := by
  obtain ⟨w, fs⟩ := c'
  cases act with
  | call msg call =>
    obtain ⟨s, b, ⟨hstart, rfl⟩ | ⟨y, hstart, rfl⟩⟩ := machine_call_effect he
    · cases hd
      exact h.returned ho hstart
    · cases hd
      have hwrote := (Started.of_start hstart).ahead rfl y.movesAtOnce
      unfold Rebuilt at h ⊢
      simp only at h
      rw [h] at hwrote
      exact hwrote
  | settle =>
    cases fs with
    | nil => cases he
    | cons f fs =>
      simp only [machine] at he
      split_ifs at he
      split at he
      · cases he
      · cases he
        cases hd
        exact h
  | reply reply =>
    cases fs with
    | nil => cases he
    | cons f fs =>
      obtain ⟨saved, p⟩ := f
      obtain ⟨s, hf, rfl⟩ := machine_reply_effect he hne
      cases hd
      exact h.replied ho horigin hf
  | credit token amount =>
    cases he
    cases hd
    exact h
  | drift token amount =>
    simp only [machine] at he
    split_ifs at he
    cases he
    cases hd
    exact h
  | tick seconds =>
    cases fs with
    | nil =>
      cases he
      cases hd
      exact h
    | cons f fs => cases he

theorem Told.step {e : Effect Chronicle PendingCall} (h : Told D c) (he : chronicle D act c = some e)
    (hne : e ≠ .abort) (hd : e.apply c = some d) : Told D d := by
  obtain ⟨e, hmachine, rfl⟩ := Option.map_eq_some_iff.mp he
  have hne' : e ≠ .abort := by
    rintro rfl
    exact hne rfl
  have happly := Effect.apply_map (g := Chronicle.contract)
    (h := fun w => ⟨w, emission act (c.map Chronicle.contract) e ++ c.world.emitted⟩) (fun _ => rfl) e c
  rw [hd] at happly
  have hstep := Stepped.of_machine hmachine hne' happly.symm
  have hemitted := emitted_of_apply hne' hd
  refine ⟨h.orderly.step hstep, h.originated.step hstep, ?_⟩
  rw [hemitted]
  exact Rebuilt.stepped h.orderly h.originated h.rebuilt hmachine hne' happly.symm

theorem chronicle_next (D : Deployment) (act : Act) (c : ChronicleConfig) :
    ((chronicle D).next act c).map (Config.map Chronicle.contract) =
      (machine D).next act (c.map Chronicle.contract) := by
  simp only [System.next, chronicle, Option.map_bind, Option.bind_map]
  apply Option.bind_congr
  intro e _
  exact Effect.apply_map (fun _ => rfl) e c

/-- Whoever calls what, at any depth, and whichever calls abort: with no call pending the events alone
rebuild the storage, and during calls they lack what the pending payments have written ahead. -/
theorem events_rebuild_storage (D : Deployment) (initialOwner : Address) (balance : Address → ℕ) (now : ℕ)
    (acts : List Act) (c : ContractConfig)
    (h : (machine D).run acts (deployed initialOwner balance now) = some c) :
    ∃ c', (chronicle D).run acts (chronicled initialOwner balance now) = some c' ∧
      c'.map Chronicle.contract = c ∧ Rebuilt c c'.world.emitted ∧
      (c.stack = [] → rebuild c'.world.emitted = c.world.storage) := by
  have hmap := System.run_map (chronicle_next D) acts (chronicled initialOwner balance now)
  have hstart : (chronicled initialOwner balance now).map Chronicle.contract =
      deployed initialOwner balance now := rfl
  rw [hstart, h] at hmap
  obtain ⟨c', hrun, rfl⟩ := Option.map_eq_some_iff.mp hmap
  have hsteps : StepsMeet (chronicle D) acts (chronicled initialOwner balance now) (fun _ _ => True) :=
    fun _ _ _ _ _ => trivial
  have hreached := hsteps.reaches _ List.prefix_rfl c' hrun
  have htold : Told D c' := by
    refine Reaches.invariant (P := Told D) rfl (Told.deployed initialOwner balance now) ?_ hreached
    intro c act e d _ hp _ he hne hd
    exact hp.step he hne hd
  refine ⟨c', hrun, rfl, htold.rebuilt, ?_⟩
  intro hidle
  have hcounted := htold.orderly.counted
  have hrebuilt := htold.rebuilt
  unfold GuardCounted at hcounted
  unfold Rebuilt at hrebuilt
  rw [hidle] at hcounted hrebuilt
  have hentered : (c'.map Chronicle.contract).world.storage.entered = false := by
    simpa using hcounted.symm
  rw [Storage.unlocked, ← hentered] at hrebuilt
  exact hrebuilt.symm

theorem events_rebuild_storage_sample : ∃ c c', (machine sampleDeployment).run handoverRun sampleStart = some c ∧
    (chronicle sampleDeployment).run handoverRun (chronicled 1 (fun _ => 0) 0) = some c' ∧
    rebuild c'.world.emitted = c.world.storage := by
  have hidle : ((machine sampleDeployment).run handoverRun sampleStart).map (fun c => c.stack.isEmpty) =
      some true := by
    decide +kernel
  obtain ⟨c, hc, hstack⟩ := Option.map_eq_some_iff.mp hidle
  obtain ⟨c', hrun, -, -, hrebuilt⟩ :=
    events_rebuild_storage sampleDeployment 1 (fun _ => 0) 0 handoverRun c hc
  exact ⟨c, c', hc, hrun, hrebuilt (List.isEmpty_iff.mp hstack)⟩

end Rebuilding

end Fidensur
