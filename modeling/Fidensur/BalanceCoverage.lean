import Fidensur.Lifecycle
import Fidensur.RoundCharter

set_option autoImplicit false

namespace Fidensur

open NestedCalls ByteWords

/-- While the registry is being called nothing happens but its answer and fee refunds. -/
def RegistryQuiet (c : ContractConfig) (a : Act) : Prop :=
  ∀ f fs teeIds params value, c.stack = f :: fs →
    f.info.interaction = .sendInstructions teeIds params value →
    (∃ reply, a = .reply reply) ∨ ∃ token amount, a = .credit token amount

/-- Tokens hold what was moved to them, and report success only when they moved it. -/
def TokensExact (c : ContractConfig) (a : Act) : Prop :=
  (∀ token amount, a ≠ .drift token amount) ∧
  ∀ reply f fs id, a = .reply reply → c.stack = f :: fs →
    f.info.interaction.accept reply = .ok id → f.info.settled = true

def Entry.paid (roundId : ℕ) (e : Entry) : ℕ :=
  match e.phase with
  | .started (some (.sendNative _ amount)) | .settled (.transfer _ _ amount) =>
      if e.call.paysFor roundId then amount else 0
  | _ => 0

def paid (log : List Entry) (roundId : ℕ) : ℕ := (log.map (Entry.paid roundId)).sum

def PendingCall.inFlight (roundId : ℕ) (p : PendingCall) : ℕ :=
  match p.interaction, p.settled with
  | .transfer _ _ amount, false => if p.call.paysFor roundId then amount else 0
  | _, _ => 0

def inFlight (stack : List (Frame World PendingCall)) (roundId : ℕ) : ℕ :=
  (stack.map (fun f => f.info.inFlight roundId)).sum

def Entry.windsUp (roundId : ℕ) (e : Entry) : Bool :=
  match e.call, e.phase with
  | .closeRound id, .started _ | .cancelRound id, .started _ => (id : ℕ) == roundId
  | _, _ => false

section Outflow

def Interaction.outflow (token : Address) : Interaction → ℕ
  | .sendNative _ amount | .sendInstructions _ _ amount => if token = 0 then amount else 0
  | .transfer t _ amount => if token = t then amount else 0
  | .transferFrom .. => 0

/-- Balance that is spoken for besides the ledger: payouts still to be moved, and funds received
and not credited yet. -/
def PendingCall.reserved (token : Address) (p : PendingCall) : ℕ :=
  match p.interaction, p.settled with
  | .transfer t _ amount, false | .transferFrom t _ amount, true => if token = t then amount else 0
  | _, _ => 0

def reserved (stack : List (Frame World PendingCall)) (token : Address) : ℕ :=
  (stack.map (fun f => f.info.reserved token)).sum

theorem reserved_cons (f : Frame World PendingCall) (fs : List (Frame World PendingCall))
    (token : Address) : reserved (f :: fs) token = f.info.reserved token + reserved fs token := rfl

variable {self : Address} {b b' : Address → ℕ} {x : Interaction}

theorem depart_outflow (h : x.depart self b = some b') (token : Address) :
    b token ≤ b' token + if x.movesAtOnce then x.outflow token else 0 := by
  cases x with
  | sendNative recipient amount =>
    simp only [Interaction.depart] at h
    split_ifs at h with hle hself
    · cases h
      exact Nat.le_add_right _ _
    · cases h
      by_cases ht : token = 0
      · subst ht
        simp only [Function.update_self, Interaction.movesAtOnce, Interaction.outflow, ↓reduceIte]
        omega
      · simp [ht]
  | sendInstructions teeIds params value =>
    simp only [Interaction.depart] at h
    split_ifs at h with hle
    cases h
    by_cases ht : token = 0
    · subst ht
      simp only [Function.update_self, Interaction.movesAtOnce, Interaction.outflow, ↓reduceIte]
      omega
    · simp [ht]
  | transfer => cases h; exact Nat.le_add_right _ _
  | transferFrom => cases h; exact Nat.le_add_right _ _

theorem settle_outflow (msg : Msg) (call : Call) (h : x.settle self b = some b') (token : Address) :
    b token + (⟨msg, call, x, true⟩ : PendingCall).reserved token ≤
      b' token + (⟨msg, call, x, false⟩ : PendingCall).reserved token := by
  cases x with
  | transfer t recipient amount =>
    simp only [Interaction.settle] at h
    split_ifs at h with hle hself
    · cases h
      exact Nat.le_add_right _ _
    · cases h
      by_cases ht : token = t
      · subst ht
        simp only [PendingCall.reserved, Function.update_self, ↓reduceIte]
        omega
      · simp [PendingCall.reserved, ht]
  | transferFrom t sender amount =>
    cases h
    by_cases ht : token = t
    · subst ht
      simp [PendingCall.reserved]
    · simp [PendingCall.reserved, ht]
  | sendNative => cases h
  | sendInstructions => cases h

end Outflow

variable {D : Deployment} {msg : Msg} {view : Address → ℕ} {s s' : Storage} {call : Call}
  {x : Option Interaction} {c d : ContractConfig} {a : Act} {initialOwner : Address}
  {balance : Address → ℕ} {now : ℕ} {ok : ContractConfig → Act → Prop}

theorem payOut_outflow (token recipient : Address) (amount : ℕ) (t : Address) :
    (SafeTransfer.payOut token recipient amount).elim 0 (Interaction.outflow t) =
      if t = token then amount else 0 := by
  unfold SafeTransfer.payOut
  split_ifs <;> simp_all [Interaction.outflow]

/-- Only `rescue` takes out more than the ledger gives up and the caller sends along, and it
leaves what is owed. -/
theorem Started.outflow (h : Started D msg view s call s' x) (token : Address) :
    s'.outstanding token + x.elim 0 (Interaction.outflow token) ≤
        s.outstanding token + (if token = 0 then msg.value else 0) ∨
      s.entered = false ∧
        s'.outstanding token + x.elim 0 (Interaction.outflow token) ≤
          max (s.outstanding token) (view token) := by
  have hmove {t recipient : Address} {amount : ℕ} {out : Address → ℕ}
      (hle : amount ≤ s.outstanding t)
      (hout : out = Function.update s.outstanding t (s.outstanding t - amount)) :
      out token + (SafeTransfer.payOut t recipient amount).elim 0 (Interaction.outflow token) ≤
        s.outstanding token + (if token = 0 then msg.value else 0) := by
    rw [payOut_outflow, hout]
    by_cases ht : token = t
    · subst ht
      simp only [Function.update_self, ↓reduceIte]
      omega
    · simp [ht]
  cases h with
  | fundNative roundId amount hg hs ha ht hv =>
    left
    by_cases h0 : token = 0
    · subst h0
      simp [Storage.credited, ht, hv]
    · simp [Storage.credited, ht, h0]
  | requestCompute => exact .inl le_rfl
  | requestDisclosure => exact .inl le_rfl
  | requestAttestation => exact .inl le_rfl
  | claim _ _ _ _ _ _ _ _ _ _ ho => exact .inl (hmove ho rfl)
  | closeRound _ _ _ _ _ _ ho => exact .inl (hmove ho rfl)
  | cancelRound _ _ _ _ ho => exact .inl (hmove ho rfl)
  | rescue t recipient hg ho =>
    refine .inr ⟨hg, ?_⟩
    rw [payOut_outflow]
    by_cases ht : token = t
    · subst ht
      simp only [↓reduceIte]
      omega
    · simp [ht]
  | _ => exact .inl (Nat.le_add_right _ _)

theorem Started.guarded_of_reserved {y : Interaction} (h : Started D msg view s call s' (some y))
    {settled : Bool} {token : Address} (hr : (⟨msg, call, y, settled⟩ : PendingCall).reserved token ≠ 0) :
    call.guarded = true := by
  generalize hx : some y = x at h
  cases h with
  | fundToken => rfl
  | claim => rfl
  | closeRound => rfl
  | cancelRound => rfl
  | rescue => rfl
  | requestCompute => cases hx; exact absurd rfl hr
  | requestDisclosure => cases hx; exact absurd rfl hr
  | requestAttestation => cases hx; exact absurd rfl hr
  | _ => cases hx

theorem Anchored.reserved_eq_zero (hc : Anchored D c) (hg : c.world.storage.entered = false)
    (token : Address) : reserved c.stack token = 0 := by
  have hcount := hc.guard
  rw [GuardCounted, hg, Bool.toNat_false, List.countP_eq_zero] at hcount
  apply List.sum_eq_zero
  intro n hn
  obtain ⟨f, hf, rfl⟩ := List.mem_map.mp hn
  by_contra hr
  obtain ⟨_, _, _, hst⟩ := hc.origin f hf
  exact hcount f hf (hst.guarded_of_reserved hr)

def Covered (c : ContractConfig) : Prop :=
  ∀ token, c.world.storage.outstanding token + reserved c.stack token ≤ c.world.balance token

theorem received_ge (msg : Msg) (balance : Address → ℕ) (token : Address) :
    balance token + (if token = 0 then msg.value else 0) = msg.received balance token := by
  by_cases ht : token = 0
  · simp [Msg.received, ht]
  · simp [Msg.received, ht]

theorem Covered.started {w : World} {fs : List (Frame World PendingCall)} (h : Covered ⟨w, fs⟩)
    (hc : Anchored D ⟨w, fs⟩) (hst : Started D msg (msg.received w.balance) w.storage call s x)
    (token : Address) :
    s.outstanding token + x.elim 0 (Interaction.outflow token) + reserved fs token ≤
      msg.received w.balance token := by
  have hcover := h token
  have hreceived := received_ge msg w.balance token
  simp only at hcover
  rcases hst.outflow token with hout | ⟨hg, hout⟩
  · omega
  · have hzero := hc.reserved_eq_zero hg token
    simp only at hzero
    omega

theorem Covered.step (h : Covered c) (hc : Anchored D c) (hexact : TokensExact c a)
    (hstep : Stepped D c a d) : Covered d := by
  cases hstep with
  | done msg call ht hself hst => exact h.started hc hst
  | @pending w fs msg call s x b ht hself hst hv hb =>
    intro token
    have hstart := h.started hc hst token
    have hdepart := depart_outflow hb token
    have hframe : (⟨msg, call, x, x.movesAtOnce⟩ : PendingCall).reserved token +
        (if x.movesAtOnce then x.outflow token else 0) = x.outflow token := by
      cases x <;> simp [PendingCall.reserved, Interaction.movesAtOnce, Interaction.outflow]
    simp only [World.record, reserved_cons, Option.elim] at hstart ⊢
    omega
  | @settled w saved fs p b hp hb =>
    intro token
    have hcover := h token
    have hsettle := settle_outflow p.msg p.call hb token
    have hp' : p = ⟨p.msg, p.call, p.interaction, false⟩ := by rw [← hp]
    rw [hp'] at hcover
    simp only [World.record, reserved_cons] at hcover ⊢
    omega
  | @replied w saved fs p reply s ha hf =>
    intro token
    have hcover := h token
    simp only [World.record, reserved_cons] at hcover ⊢
    have hkept (hs : s.outstanding = w.storage.outstanding) :
        s.outstanding token + reserved fs token ≤ w.balance token := by
      rw [hs]
      omega
    obtain ⟨id, hid⟩ := ha
    have hsettled := hexact.2 reply _ fs id rfl rfl hid
    have hfunding := hc.funding ⟨saved, p⟩ List.mem_cons_self
    obtain ⟨pmsg, pcall, y, settled⟩ := p
    simp only at hf hsettled hfunding hcover
    subst hsettled
    cases hf with
    | fund roundId amount =>
      obtain ⟨-, rfl⟩ := hfunding roundId amount rfl
      by_cases ht : token = (w.storage.rounds roundId).token
      · subst ht
        simp only [PendingCall.reserved, ↓reduceIte] at hcover
        simp only [Storage.credited, Storage.setOutstanding_outstanding, Function.update_self]
        omega
      · simp only [Storage.credited, Storage.setOutstanding_outstanding, Function.update_of_ne ht,
          Storage.setRound_outstanding]
        omega
    | release => exact hkept rfl
    | requestCompute => exact hkept rfl
    | keep => exact hkept rfl
  | @credit w fs t amount =>
    intro token
    have hcover := h token
    by_cases ht : token = t
    · subst ht
      simp only [Function.update_self] at hcover ⊢
      omega
    · simpa [ht] using hcover
  | drift t amount => exact absurd rfl (hexact.1 t amount)
  | tick => exact h

theorem Reachable.covered (hok : ∀ c a, ok c a → TokensExact c a)
    (h : Reachable D initialOwner balance now ok c) : Covered c := by
  refine Reachable.invariant (fun token => Nat.zero_le _) ?_ h
  intro c a d hr hp ha hstep
  exact hp.step hr.anchored (hok c a ha) hstep

section Registry

structure DispatchesLast (c : ContractConfig) : Prop where
  below : ∀ f ∈ c.stack.tail, ∀ teeIds params value,
    f.info.interaction ≠ .sendInstructions teeIds params value
  top : ∀ f fs roundId ciphertext, c.stack = f :: fs → f.info.call = .requestCompute roundId ciphertext →
    (c.world.storage.rounds roundId).status.dispatchable

theorem DispatchesLast.step (h : DispatchesLast c) (horigin : Originated D c.stack)
    (hquiet : RegistryQuiet c a) (hstep : Stepped D c a d) : DispatchesLast d := by
  have hcalled {w : World} {fs : List (Frame World PendingCall)} {msg : Msg} {call : Call}
      (hquiet : RegistryQuiet ⟨w, fs⟩ (.call msg call)) (hbelow : ∀ f ∈ fs.tail,
        ∀ teeIds params value, f.info.interaction ≠ .sendInstructions teeIds params value) :
      ∀ f ∈ fs, ∀ teeIds params value, f.info.interaction ≠ .sendInstructions teeIds params value := by
    cases fs with
    | nil => exact List.forall_mem_nil _
    | cons f fs =>
      rintro g (_ | ⟨_, hg⟩) teeIds params value hx
      · rcases hquiet f fs teeIds params value rfl hx with ⟨_, ha⟩ | ⟨_, _, ha⟩ <;> cases ha
      · exact hbelow g hg teeIds params value hx
  have hnot {fs : List (Frame World PendingCall)} {world : World} (horigin : Originated D fs)
      (hfs : ∀ f ∈ fs, ∀ teeIds params value,
        f.info.interaction ≠ .sendInstructions teeIds params value) :
      DispatchesLast ⟨world, fs⟩ := by
    refine ⟨fun f hf => hfs f (List.mem_of_mem_tail hf), fun f rest roundId ciphertext hstack hcall => ?_⟩
    have hmem : f ∈ fs := by simp only at hstack; simp [hstack]
    obtain ⟨teeIds, params, value, hx⟩ := horigin.dispatch f hmem hcall
    exact absurd hx (hfs f hmem teeIds params value)
  cases hstep with
  | done msg call => exact hnot horigin (hcalled hquiet h.below)
  | @pending w fs msg call s x b ht hself hst =>
    refine ⟨hcalled hquiet h.below, fun f rest roundId ciphertext hstack hcall => ?_⟩
    cases hstack
    simp only at hcall
    subst hcall
    generalize hx : some x = y at hst
    cases hst with
    | configure => cases hx
    | requestCompute _ _ _ hs =>
      rcases hs with hs | ⟨hs, -⟩
      · exact .inl hs
      · exact .inr hs
  | @settled w saved fs p b hp hb =>
    refine ⟨h.below, fun f rest roundId ciphertext hstack hcall => ?_⟩
    cases hstack
    exact h.top _ fs roundId ciphertext rfl hcall
  | replied => exact hnot (fun f hf => horigin f (List.mem_cons_of_mem _ hf)) h.below
  | credit => exact ⟨h.below, h.top⟩
  | drift => exact ⟨h.below, h.top⟩
  | tick => exact ⟨h.below, h.top⟩

theorem DispatchesLast.fresh (h : DispatchesLast c) : DispatchFresh c a :=
  fun _ f fs roundId ciphertext _ hstack hcall => h.top f fs roundId ciphertext hstack hcall

/-- Without callbacks from the registry every dispatch is answered in time. -/
theorem Reachable.dispatchesLast (hok : ∀ c a, ok c a → RegistryQuiet c a)
    (h : Reachable D initialOwner balance now ok c) : DispatchesLast c := by
  have hinitial : DispatchesLast (deployed initialOwner balance now) := by
    constructor
    · exact List.forall_mem_nil _
    · intro _ _ _ _ hstack
      cases hstack
  refine Reachable.invariant hinitial ?_ h
  intro c a d hr hp ha hstep
  exact hp.step hr.originated (hok c a ha) hstep

theorem Reachable.fresh (hok : ∀ c a, ok c a → RegistryQuiet c a)
    (h : Reachable D initialOwner balance now ok c) :
    Reachable D initialOwner balance now (fun c a => ok c a ∧ DispatchFresh c a) c :=
  Reaches.and (fun _ _ hr _ => (Reachable.dispatchesLast hok hr).fresh) h

end Registry

section Payouts

theorem payOut_paid (msg : Msg) (call : Call) (x : Option Interaction) (s : Storage) (roundId : ℕ) :
    (⟨msg, call, .started x, s⟩ : Entry).ordered roundId =
      (⟨msg, call, .started x, s⟩ : Entry).paid roundId +
        x.elim 0 (fun y => (⟨msg, call, y, y.movesAtOnce⟩ : PendingCall).inFlight roundId) := by
  cases x with
  | none => rfl
  | some y => cases y <;> simp [Entry.ordered, Entry.paid, PendingCall.inFlight, Interaction.amount,
      Interaction.movesAtOnce]

theorem settle_paid {self : Address} {b b' : Address → ℕ} {y : Interaction} (msg : Msg) (call : Call)
    (s : Storage) (h : y.settle self b = some b') (roundId : ℕ) :
    (⟨msg, call, .settled y, s⟩ : Entry).paid roundId =
        (⟨msg, call, y, false⟩ : PendingCall).inFlight roundId ∧
      (⟨msg, call, y, true⟩ : PendingCall).inFlight roundId = 0 := by
  cases y with
  | transfer => exact ⟨rfl, rfl⟩
  | transferFrom => exact ⟨rfl, rfl⟩
  | sendNative => cases h
  | sendInstructions => cases h

theorem paid_cons (e : Entry) (log : List Entry) (roundId : ℕ) :
    paid (e :: log) roundId = e.paid roundId + paid log roundId := rfl

theorem inFlight_cons (f : Frame World PendingCall) (fs : List (Frame World PendingCall))
    (roundId : ℕ) : inFlight (f :: fs) roundId = f.info.inFlight roundId + inFlight fs roundId := rfl

theorem Reachable.ordered_eq (hok : ∀ c a, ok c a → TokensExact c a)
    (h : Reachable D initialOwner balance now ok c) (roundId : ℕ) :
    ordered c.world.log roundId = paid c.world.log roundId + inFlight c.stack roundId := by
  refine Reachable.invariant (P := fun c => ordered c.world.log roundId =
    paid c.world.log roundId + inFlight c.stack roundId) rfl ?_ h
  intro c a d _ hp ha hstep
  cases hstep with
  | @done w fs msg call s =>
    have he := payOut_paid msg call none s roundId
    simp only [World.record, ordered_cons, paid_cons, Option.elim] at hp he ⊢
    omega
  | @pending w fs msg call s x =>
    have he := payOut_paid msg call (some x) s roundId
    simp only [World.record, ordered_cons, paid_cons, inFlight_cons, Option.elim] at hp he ⊢
    omega
  | @settled w saved fs p b hs hb =>
    obtain ⟨pmsg, pcall, y, settled⟩ := p
    simp only at hs
    subst hs
    change y.settle D.self w.balance = some b at hb
    obtain ⟨hpaid, hzero⟩ := settle_paid pmsg pcall w.storage hb roundId
    have hordered : (⟨pmsg, pcall, .settled y, w.storage⟩ : Entry).ordered roundId = 0 := rfl
    simp only [World.record, ordered_cons, paid_cons, inFlight_cons] at hp ⊢
    omega
  | @replied w saved fs p reply s hacc hf =>
    obtain ⟨id, hid⟩ := hacc
    have hsettled := (hok _ _ ha).2 reply _ fs id rfl rfl hid
    have hzero : p.inFlight roundId = 0 := by
      simp only at hsettled
      cases hx : p.interaction <;> simp [PendingCall.inFlight, hx, hsettled]
    have hordered : (⟨p.msg, p.call, .finished reply, s⟩ : Entry).ordered roundId = 0 := rfl
    have hpaid : (⟨p.msg, p.call, .finished reply, s⟩ : Entry).paid roundId = 0 := rfl
    simp only [World.record, ordered_cons, paid_cons, inFlight_cons] at hp ⊢
    omega
  | _ => exact hp

theorem Finished.swept {y : Interaction} {reply : Reply} (h : Finished msg s y reply call s') (id : ℕ) :
    (s'.rounds id).swept = (s.rounds id).swept := by
  cases h with
  | fund => exact Round.field_same Round.swept rfl (by rfl) id
  | requestCompute => exact Round.field_same Round.swept rfl (by rfl) id
  | _ => rfl

theorem Started.ordered_unswept {log : List Entry} (h : Started D msg view s call s' x)
    (hs : ∀ id, (s.rounds id).swept = false → Fidensur.ordered log id = (s.rounds id).totalClaimed) (id : ℕ)
    (hswept : (s'.rounds id).swept = false) :
    Fidensur.ordered (⟨msg, call, .started x, s'⟩ :: log) id = (s'.rounds id).totalClaimed := by
  have hkeep (hc : call.paysFor id = false) (hold : (s.rounds id).swept = false)
      (hclaimed : (s'.rounds id).totalClaimed = (s.rounds id).totalClaimed) :
      Fidensur.ordered (⟨msg, call, .started x, s'⟩ :: log) id = (s'.rounds id).totalClaimed := by
    rw [ordered_cons, ordered_of_not_paysFor hc, hclaimed, hs id hold, Nat.zero_add]
  have hsame {roundId : ℕ} {r : Round} (hr : s'.rounds = Function.update s.rounds roundId r)
      (hc : call.paysFor id = false) (hsw : r.swept = (s.rounds roundId).swept)
      (hclaimed : r.totalClaimed = (s.rounds roundId).totalClaimed) :
      Fidensur.ordered (⟨msg, call, .started x, s'⟩ :: log) id = (s'.rounds id).totalClaimed := by
    refine hkeep hc ?_ (Round.field_same Round.totalClaimed hr hclaimed id)
    rw [← Round.field_same Round.swept hr hsw id]
    exact hswept
  have hwound {roundId : ℕ} {r : Round} (hr : s'.rounds = Function.update s.rounds roundId r)
      (hc : call.paysFor id = (roundId == id)) (hsw : r.swept = true) :
      Fidensur.ordered (⟨msg, call, .started x, s'⟩ :: log) id = (s'.rounds id).totalClaimed := by
    have hid : id ≠ roundId := by
      rintro rfl
      rw [hr, Function.update_self, hsw] at hswept
      cases hswept
    have hround : s'.rounds id = s.rounds id := by rw [hr, Function.update_of_ne hid]
    refine hkeep ?_ (hround ▸ hswept) (by rw [hround])
    rw [hc]
    simpa using hid.symm
  cases h with
  | configure call _ _ _ _ hconf =>
    refine hkeep ?_ hswept rfl
    cases call <;> first | rfl | cases hconf
  | createRound => exact hsame rfl rfl rfl rfl
  | fundNative => exact hsame rfl rfl rfl rfl
  | submitPolicy => exact hsame rfl rfl rfl rfl
  | finalizeRound => exact hsame rfl rfl rfl rfl
  | claim roundId index amount proof =>
    have hold : (s.rounds id).swept = false := (Round.field_same Round.swept rfl (by rfl) id).symm.trans hswept
    rw [ordered_cons, ordered_of_payOut, hs id hold]
    change _ = (Function.update s.rounds roundId
      { s.rounds roundId with totalClaimed := (s.rounds roundId).totalClaimed + amount } id).totalClaimed
    by_cases hid : id = roundId
    · simp [hid, Call.paysFor, Nat.add_comm]
    · simp [hid, Call.paysFor, Ne.symm hid]
  | closeRound => exact hwound rfl rfl rfl
  | cancelRound => exact hwound rfl rfl rfl
  | rescue => exact hkeep rfl hswept rfl
  | _ => exact hkeep rfl hswept rfl

/-- Until a round is swept it has paid out what was claimed from it. -/
theorem Reachable.ordered_unswept (h : Reachable D initialOwner balance now ok c) {id : ℕ}
    (hswept : (c.world.storage.rounds id).swept = false) :
    ordered c.world.log id = (c.world.storage.rounds id).totalClaimed := by
  refine Reachable.invariant (P := fun c => ∀ id, (c.world.storage.rounds id).swept = false →
    ordered c.world.log id = (c.world.storage.rounds id).totalClaimed) (fun _ _ => rfl) ?_ h id hswept
  intro c a d _ hp _ hstep
  cases hstep with
  | done msg call ht hself hst => exact hst.ordered_unswept hp
  | pending msg call ht hself hst => exact hst.ordered_unswept hp
  | settled p => exact fun id hsw => (Nat.zero_add _).trans (hp id hsw)
  | replied p reply hacc hf =>
    intro id hsw
    rw [World.record, hf.swept id] at hsw
    exact (Nat.zero_add _).trans ((hp id hsw).trans (hf.keeps_claims.1 id).symm)
  | _ => exact hp

theorem Started.windsUp {log : List Entry} (h : Started D msg view s call s' x) (hs : s.Shape)
    (hl : ∀ id, log.countP (Entry.windsUp id) = (s.rounds id).swept.toNat) (id : ℕ) :
    (⟨msg, call, .started x, s'⟩ :: log : List Entry).countP (Entry.windsUp id) =
      (s'.rounds id).swept.toNat := by
  have hkeep (he : (⟨msg, call, .started x, s'⟩ : Entry).windsUp id = false)
      (hsw : (s'.rounds id).swept = (s.rounds id).swept) :
      (⟨msg, call, .started x, s'⟩ :: log : List Entry).countP (Entry.windsUp id) =
        (s'.rounds id).swept.toNat := by
    rw [List.countP_cons, he, hsw, hl]
    rfl
  have hwound {roundId : ℕ} {r : Round}
      (he : (⟨msg, call, .started x, s'⟩ : Entry).windsUp id = (roundId == id))
      (hr : s'.rounds = Function.update s.rounds roundId r) (hsw : r.swept = true)
      (hold : (s.rounds roundId).swept = false) :
      (⟨msg, call, .started x, s'⟩ :: log : List Entry).countP (Entry.windsUp id) =
        (s'.rounds id).swept.toNat := by
    rw [List.countP_cons, he, hl, hr]
    by_cases hid : roundId = id
    · subst hid
      simp [hsw, hold]
    · simp [hid, Ne.symm hid]
  cases h with
  | configure call _ _ _ _ hconf =>
    refine hkeep ?_ rfl
    cases call <;> first | rfl | cases hconf
  | createRound => exact hkeep rfl (Round.field_same Round.swept rfl (by rfl) id)
  | fundNative => exact hkeep rfl (Round.field_same Round.swept rfl (by rfl) id)
  | submitPolicy => exact hkeep rfl (Round.field_same Round.swept rfl (by rfl) id)
  | finalizeRound => exact hkeep rfl (Round.field_same Round.swept rfl (by rfl) id)
  | claim => exact hkeep rfl (Round.field_same Round.swept rfl (by rfl) id)
  | closeRound roundId hg hst ht hw => exact hwound rfl rfl (by rfl) hw
  | cancelRound roundId hg hst =>
    refine hwound rfl rfl (by rfl) (Bool.eq_false_iff.mpr fun hsw => ?_)
    rcases (hs.rounds roundId).swept.mp hsw with hsw | hsw <;> rcases hst with hst | hst <;>
      simp [hst] at hsw
  | _ => exact hkeep rfl rfl

theorem Reachable.windsUp (hok : ∀ c a, ok c a → DispatchFresh c a)
    (h : Reachable D initialOwner balance now ok c) (id : ℕ) :
    c.world.log.countP (Entry.windsUp id) = (c.world.storage.rounds id).swept.toNat := by
  refine Reachable.invariant (P := fun c => ∀ id, c.world.log.countP (Entry.windsUp id) =
    (c.world.storage.rounds id).swept.toNat) (fun _ => rfl) ?_ h id
  intro c a d hr hp ha hstep
  have hc := Reachable.coherent hok hr
  cases hstep with
  | done msg call ht hself hst => exact hst.windsUp hc.shape hp
  | pending msg call ht hself hst => exact hst.windsUp hc.shape hp
  | settled p =>
    obtain ⟨pmsg, pcall, y, settled⟩ := p
    intro id
    cases pcall <;> exact hp id
  | replied p reply hacc hf =>
    intro id
    have hcount := (hp id).trans (congrArg Bool.toNat (hf.swept id)).symm
    obtain ⟨pmsg, pcall, y, settled⟩ := p
    cases pcall <;> exact hcount
  | _ => exact hp

end Payouts

/-- Exact ledger, covered balance and full settlement, in every configuration of a run with a quiet
registry and exact tokens. -/
theorem ledger_exact_and_covered (D : Deployment) (initialOwner : Address) (balance : Address → ℕ)
    (now : ℕ) (c : ContractConfig)
    (h : Reachable D initialOwner balance now (fun c a => RegistryQuiet c a ∧ TokensExact c a) c) :
    (∀ token, (c.world.storage.outstanding token : ℤ) =
      ∑ id ∈ Finset.range c.world.storage.nextRoundId with
        (c.world.storage.rounds id).status.live = true ∧ (c.world.storage.rounds id).token = token,
        ((c.world.storage.rounds id).funded - (c.world.storage.rounds id).totalClaimed : ℤ)) ∧
    (∀ token, c.world.storage.outstanding token ≤ c.world.balance token) ∧
    ∀ id, (c.world.storage.rounds id).status = .closed ∨ (c.world.storage.rounds id).status = .cancelled →
      paid c.world.log id + inFlight c.stack id = (c.world.storage.rounds id).funded ∧
        c.world.log.countP (Entry.windsUp id) = 1 := by
  have hr := Reachable.fresh (fun _ _ ha => ha.1) h
  have hledger := Reachable.ledger (fun _ _ ha => ha.2) hr
  have hcoherent := Reachable.coherent (fun _ _ ha => ha.2) hr
  refine ⟨fun token => ?_, fun token => ?_, fun id hst => ⟨?_, ?_⟩⟩
  · rw [hledger.exact token, Finset.sum_filter]
    rfl
  · have hcover := Reachable.covered (fun _ _ ha => ha.1.2) hr token
    omega
  · rw [← Reachable.ordered_eq (fun _ _ ha => ha.1.2) hr, hledger.ordered]
    rcases hst with hst | hst <;> simp [Round.released, hst]
  · rw [Reachable.windsUp (fun _ _ ha => ha.2) hr, ((hcoherent.shape.rounds id).swept).mpr hst]
    rfl

section Steps

theorem tokensExact_call (msg : Msg) (call : Call) : TokensExact c (.call msg call) := by
  constructor
  · rintro _ _ ⟨⟩
  · rintro _ _ _ _ ⟨⟩

theorem tokensExact_quiet (h : a = .settle ∨ ∃ seconds, a = .tick seconds) : TokensExact c a := by
  constructor
  · rintro _ _ rfl
    simp at h
  · rintro _ _ _ _ rfl
    simp at h

def awaitsRegistry (c : ContractConfig) : Bool :=
  c.stack.head?.any fun f =>
    match f.info.interaction with
    | .sendInstructions .. => true
    | _ => false

theorem registryQuiet_of_head (h : (!awaitsRegistry c) = true) : RegistryQuiet c a := by
  intro f fs _ _ _ hstack hinteraction
  simp [awaitsRegistry, hstack, hinteraction] at h

theorem tokensExact_reply {reply : Reply} (h : ∀ f ∈ c.stack.head?, f.info.settled = true) :
    TokensExact c (.reply reply) := by
  constructor
  · rintro _ _ ⟨⟩
  · intro _ f fs _ _ hstack _
    apply h
    rw [hstack]
    rfl

/-- Anyone may call while a token is being moved, and its answer comes after the movement. -/
def quietAndExact (c : ContractConfig) : Act → Bool
  | .call .. | .settle | .tick _ => !awaitsRegistry c
  | .reply _ => c.stack.head?.all fun f => f.info.settled
  | .credit .. | .drift .. => false

theorem quietAndExact_ok (h : quietAndExact c a = true) : RegistryQuiet c a ∧ TokensExact c a := by
  cases a with
  | call msg call => exact ⟨registryQuiet_of_head h, tokensExact_call msg call⟩
  | settle => exact ⟨registryQuiet_of_head h, tokensExact_quiet (.inl rfl)⟩
  | tick seconds => exact ⟨registryQuiet_of_head h, tokensExact_quiet (.inr ⟨seconds, rfl⟩)⟩
  | reply reply =>
    constructor
    · exact fun _ _ _ _ _ _ _ => .inl ⟨reply, rfl⟩
    · exact tokensExact_reply ((Option.all_eq_true _ _).mp h)
  | credit token amount => cases h
  | drift token amount => cases h

end Steps

section Sample

/-- Rounds in one token, opened while the first is being funded and while it pays its recipient. The
run stops inside the sweep of the first. -/
def tokenRun : List Act :=
  let token : Address := 5
  let organization : Address := 2
  let other : Address := 8
  let recipient : Address := 3
  let commitment : Bytes32 := sampleDeployment.keccak [42]
  let result : AllocationResult := ⟨1000, 0, commitment, sampleRoot 0 recipient 1, 2, 1, 5⟩
  let moved : List Act := [.settle, .reply (.returned true [])]
  [.call (sampleMsg 1 0) .setExtensionId,
    .call (sampleMsg 1 0) (.setTeeAddress 7),
    .call (sampleMsg organization 0) (.createRound token 3600),
    .call (sampleMsg organization 0) (.fund 0 2),
    .call (sampleMsg other 0) (.createRound token 3600)] ++ moved ++
  [.call (sampleMsg other 0) (.fund 1 3)] ++ moved ++
  [.call (sampleMsg organization 0) (.submitPolicy 0 commitment),
    .call (sampleMsg organization 0) (.requestCompute 0 [42]),
    .reply (.instruction 99),
    .call (sampleMsg recipient 0)
      (.finalizeRound result.encode 99 [] 1 (List.replicate 64 0 ++ [27])),
    .call (sampleMsg recipient 0) (.claim 0 0 1 []),
    .call (sampleMsg recipient 0) (.createRound token 3600)] ++ moved ++
  [.tick 3601,
    .call { sampleMsg 9 0 with timestamp := 3601 } (.closeRound 0)]

theorem ledger_exact_and_covered_sample : ∃ c,
    (machine sampleDeployment).run tokenRun sampleStart = some c ∧
    (c.world.storage.outstanding 5 : ℤ) =
      ∑ id ∈ Finset.range c.world.storage.nextRoundId with
        (c.world.storage.rounds id).status.live = true ∧ (c.world.storage.rounds id).token = 5,
        ((c.world.storage.rounds id).funded - (c.world.storage.rounds id).totalClaimed : ℤ) ∧
    c.world.storage.outstanding 5 ≤ c.world.balance 5 ∧
    paid c.world.log 0 + inFlight c.stack 0 = 2 ∧ c.world.log.countP (Entry.windsUp 0) = 1 := by
  have hrun : ((machine sampleDeployment).run tokenRun sampleStart).map (fun c =>
      ((c.world.storage.rounds 0).status, (c.world.storage.rounds 0).funded)) =
      some (.closed, 2) := by
    decide +kernel
  have hsteps : StepsMeet (machine sampleDeployment) tokenRun sampleStart
      (fun c a => RegistryQuiet c a ∧ TokensExact c a) :=
    .of_meets (fun _ _ => quietAndExact_ok) (by decide +kernel)
  obtain ⟨c, hc, hread⟩ := Option.map_eq_some_iff.mp hrun
  obtain ⟨hclosed, hfunded⟩ := Prod.mk.inj hread
  obtain ⟨hledger, hcovered, hended⟩ := ledger_exact_and_covered sampleDeployment 1 (fun _ => 0) 0 c
    (hsteps.reaches _ List.prefix_rfl c hc)
  obtain ⟨hpaid, honce⟩ := hended 0 (.inl hclosed)
  exact ⟨c, hc, hledger 5, hcovered 5, hpaid.trans hfunded, honce⟩

end Sample

end Fidensur
