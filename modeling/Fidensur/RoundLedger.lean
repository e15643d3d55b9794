import Fidensur.ClaimHistory

set_option autoImplicit false

namespace Fidensur

open NestedCalls

/-- What the contract owes a round in a token, a deficit being negative. -/
def Round.owed (r : Round) (token : Address) : ℤ :=
  if r.status.live = true ∧ r.token = token then (r.funded : ℤ) - r.totalClaimed else 0

def Storage.owed (s : Storage) (token : Address) : ℤ :=
  ∑ id ∈ Finset.range s.nextRoundId, (s.rounds id).owed token

def Storage.Exact (s : Storage) : Prop :=
  ∀ token, (s.outstanding token : ℤ) = s.owed token

def Round.released (r : Round) : ℕ :=
  match r.status with
  | .closed | .cancelled => r.funded
  | _ => r.totalClaimed

def Interaction.amount : Interaction → ℕ
  | .sendNative _ amount | .transfer _ _ amount => amount
  | .transferFrom .. | .sendInstructions .. => 0

def Call.paysFor (roundId : ℕ) : Call → Bool
  | .claim id _ _ _ | .closeRound id | .cancelRound id => (id : ℕ) == roundId
  | _ => false

def Entry.ordered (roundId : ℕ) (e : Entry) : ℕ :=
  match e.phase with
  | .started (some x) => if e.call.paysFor roundId then x.amount else 0
  | _ => 0

def ordered (log : List Entry) (roundId : ℕ) : ℕ := (log.map (Entry.ordered roundId)).sum

structure Ledger (s : Storage) (log : List Entry) : Prop where
  exact : s.Exact
  ordered (roundId : ℕ) : ordered log roundId = (s.rounds roundId).released

section Sums

variable {s s' : Storage} {roundId : ℕ} {r : Round}

theorem owed_update (hlt : roundId < s.nextRoundId)
    (hr : s'.rounds = Function.update s.rounds roundId r) (hn : s'.nextRoundId = s.nextRoundId)
    (token : Address) :
    s'.owed token = s.owed token + (r.owed token - (s.rounds roundId).owed token) := by
  have hmem : roundId ∈ Finset.range s.nextRoundId := Finset.mem_range.mpr hlt
  simp only [Storage.owed, hr, hn]
  rw [← Finset.add_sum_erase _ _ hmem, ← Finset.add_sum_erase _ (fun id => (s.rounds id).owed token) hmem]
  have hrest : ∑ id ∈ (Finset.range s.nextRoundId).erase roundId,
      (Function.update s.rounds roundId r id).owed token =
      ∑ id ∈ (Finset.range s.nextRoundId).erase roundId, (s.rounds id).owed token := by
    apply Finset.sum_congr rfl
    intro id hid
    rw [Function.update_of_ne (Finset.ne_of_mem_erase hid)]
  rw [hrest, Function.update_self]
  ring

theorem owed_append (hr : s'.rounds = Function.update s.rounds s.nextRoundId r)
    (hn : s'.nextRoundId = s.nextRoundId + 1) (token : Address) :
    s'.owed token = s.owed token + r.owed token := by
  have hrest : ∑ id ∈ Finset.range s.nextRoundId, (s'.rounds id).owed token = s.owed token := by
    apply Finset.sum_congr rfl
    intro id hid
    rw [hr, Function.update_of_ne (Finset.mem_range.mp hid).ne]
  rw [Storage.owed, hn, Finset.sum_range_succ, hrest, hr, Function.update_self]

theorem Storage.Exact.same (h : s.Exact) (hs : s.Shape) (hst : (s.rounds roundId).status ≠ .none)
    (hr : s'.rounds = Function.update s.rounds roundId r) (hn : s'.nextRoundId = s.nextRoundId)
    (ho : s'.outstanding = s.outstanding)
    (howed : ∀ token, r.owed token = (s.rounds roundId).owed token) : s'.Exact := by
  intro token
  rw [owed_update (hs.lt_next hst) hr hn, ho, howed, h token]
  ring

theorem Storage.Exact.move (h : s.Exact) (hs : s.Shape) (hst : (s.rounds roundId).status ≠ .none)
    {amount : ℕ} (hr : s'.rounds = Function.update s.rounds roundId r)
    (hn : s'.nextRoundId = s.nextRoundId)
    (ho : s'.outstanding = Function.update s.outstanding (s.rounds roundId).token amount)
    (htoken : r.token = (s.rounds roundId).token)
    (hamount : (amount : ℤ) = s.outstanding (s.rounds roundId).token +
      (r.owed (s.rounds roundId).token - (s.rounds roundId).owed (s.rounds roundId).token)) :
    s'.Exact := by
  intro token
  rw [owed_update (hs.lt_next hst) hr hn, ho]
  by_cases ht : token = (s.rounds roundId).token
  · rw [ht, Function.update_self, hamount, h]
  · rw [Function.update_of_ne ht, h]
    simp [Round.owed, htoken, Ne.symm ht]

end Sums

section Steps

variable {D : Deployment} {msg : Msg} {balance : Address → ℕ} {s s' : Storage} {call : Call}
  {x : Option Interaction}

theorem Storage.Exact.credited (h : s.Exact) (hs : s.Shape) {roundId : ℕ}
    (hl : (s.rounds roundId).status.live = true) (amount : ℕ) (guard : Bool) :
    { s.credited roundId amount with entered := guard }.Exact := by
  refine h.move hs (RoundStatus.ne_none_of_live hl) rfl rfl rfl rfl ?_
  simp only [Round.owed, hl, and_self, ↓reduceIte]
  push_cast
  ring

theorem Storage.Exact.wound (h : s.Exact) (hs : s.Shape) {roundId amount : ℕ} {status : RoundStatus}
    (hl : (s.rounds roundId).status.live = true) (hst : status.live = false)
    (ho : amount ≤ s.outstanding (s.rounds roundId).token)
    (ha : (amount : ℤ) = (s.rounds roundId).funded - (s.rounds roundId).totalClaimed) (guard : Bool) :
    { s.wound roundId status amount with entered := guard }.Exact := by
  refine h.move hs (RoundStatus.ne_none_of_live hl) rfl rfl rfl rfl ?_
  simp only [Round.owed, hl, hst, and_self, ↓reduceIte, Bool.false_eq_true, false_and]
  push_cast [ho]
  linarith

theorem Started.exact (h : Started D msg balance s call s' x) (hs : s.Shape) (he : s.Exact) :
    s'.Exact := by
  cases h with
  | configure => exact he
  | createRound token claimWindow =>
    have hunset : s.rounds s.nextRoundId = .unset := (hs.rounds _).unset (hs.unused _ le_rfl)
    intro t
    rw [owed_append rfl rfl t]
    simp [he t, hunset, Round.owed, Round.unset]
  | fundNative roundId amount hg hst => exact he.credited hs (by rw [hst]; rfl) amount _
  | fundToken => exact he
  | submitPolicy roundId policyCommitment hst =>
    exact he.same hs (by simp [hst]) rfl rfl rfl (by simp [Round.owed, hst, RoundStatus.live])
  | requestCompute => exact he
  | finalizeRound _ _ _ _ res _ _ _ _ hst =>
    exact he.same hs (by simp [hst]) rfl rfl rfl (by simp [Round.owed, hst, RoundStatus.live])
  | requestDisclosure => exact he
  | requestAttestation => exact he
  | claim roundId index amount proof hg hst ht hb hp hc ho =>
    refine he.move hs (by simp [hst]) rfl rfl rfl rfl ?_
    simp only [Round.owed, hst, RoundStatus.live, and_self, ↓reduceIte]
    push_cast [ho]
    ring
  | closeRound roundId hg hst ht hw hf ho =>
    exact he.wound hs (by rw [hst]; rfl) rfl ho (by push_cast [hf]; rfl) _
  | cancelRound roundId hg hst hsender ho =>
    have hu : (s.rounds roundId).totalClaimed = 0 := by
      refine ((hs.rounds roundId).unclaimed ?_ ?_).1 <;> rcases hst with hst | hst <;> simp [hst]
    have hl : (s.rounds roundId).status.live = true := by rcases hst with hst | hst <;> rw [hst] <;> rfl
    exact he.wound hs hl rfl ho (by simp [hu]) _
  | rescue => exact he

theorem Finished.exact {y : Interaction} {reply : Reply} (h : Finished msg s y reply call s')
    (hs : s.Shape) (he : s.Exact)
    (hfund : ∀ roundId amount, call = .fund roundId amount → (s.rounds roundId).status.live = true)
    (hdispatch : ∀ roundId ciphertext, call = .requestCompute roundId ciphertext →
      (s.rounds roundId).status.dispatchable) : s'.Exact := by
  cases h with
  | fund roundId amount => exact he.credited hs (hfund roundId amount rfl) amount _
  | release => exact he
  | requestCompute roundId ciphertext =>
    have hst := hdispatch roundId ciphertext rfl
    refine he.same hs (RoundStatus.ne_none_of_live hst.live) rfl rfl rfl (fun token => ?_)
    have hl : RoundStatus.computing.live = true := rfl
    simp only [Round.owed, hst.live, hl]
  | keep => exact he

theorem payOut_amount (token recipient : Address) (amount : ℕ) :
    (SafeTransfer.payOut token recipient amount).elim 0 Interaction.amount = amount := by
  unfold SafeTransfer.payOut
  split_ifs with ha <;> simp [Interaction.amount, ha]

theorem ordered_cons (e : Entry) (log : List Entry) (roundId : ℕ) :
    ordered (e :: log) roundId = e.ordered roundId + ordered log roundId := rfl

theorem ordered_of_payOut (msg : Msg) (call : Call) (token recipient : Address) (amount : ℕ)
    (post : Storage) (roundId : ℕ) :
    (⟨msg, call, .started (SafeTransfer.payOut token recipient amount), post⟩ : Entry).ordered roundId =
      if call.paysFor roundId then amount else 0 := by
  have h := payOut_amount token recipient amount
  cases hx : SafeTransfer.payOut token recipient amount with
  | none =>
    rw [hx] at h
    simp [Entry.ordered, ← h]
  | some x =>
    rw [hx] at h
    simp [Entry.ordered, ← h]

theorem ordered_of_not_paysFor {e : Entry} {roundId : ℕ} (h : e.call.paysFor roundId = false) :
    e.ordered roundId = 0 := by
  unfold Entry.ordered
  rw [h]
  split <;> rfl

variable {log : List Entry}

theorem ordered_payout {id roundId amount : ℕ} {token recipient : Address} {post : Storage}
    (rounds : ℕ → Round) {r : Round} (h : ordered log id = (rounds id).released)
    (hcall : call.paysFor id = ((roundId : ℕ) == id))
    (hr : r.released = (rounds roundId).released + amount) :
    ordered (⟨msg, call, .started (SafeTransfer.payOut token recipient amount), post⟩ :: log) id =
      (Function.update rounds roundId r id).released := by
  rw [ordered_cons, ordered_of_payOut, hcall, h]
  by_cases hid : roundId = id
  · subst hid
    simp [hr, Nat.add_comm]
  · have hid' : id ≠ roundId := Ne.symm hid
    simp [hid, hid']

theorem Started.ordered (h : Started D msg balance s call s' x) (hs : s.Shape)
    (ho : ∀ id, ordered log id = (s.rounds id).released) (id : ℕ) :
    ordered (⟨msg, call, .started x, s'⟩ :: log) id = (s'.rounds id).released := by
  have hkeep (hc : call.paysFor id = false) (hr : (s'.rounds id).released = (s.rounds id).released) :
      Fidensur.ordered (⟨msg, call, .started x, s'⟩ :: log) id = (s'.rounds id).released := by
    rw [ordered_cons, ordered_of_not_paysFor hc, hr, ho, Nat.zero_add]
  cases h with
  | configure call _ _ _ _ hconf =>
    refine hkeep ?_ rfl
    cases call <;> first | rfl | cases hconf
  | createRound =>
    have hst : (s.rounds s.nextRoundId).status = .none := hs.unused _ le_rfl
    exact hkeep rfl (Round.field_same Round.released rfl (by simp [Round.released, hst]) id)
  | fundNative roundId amount hg hst =>
    exact hkeep rfl (Round.field_same Round.released rfl (by simp [Round.released, hst]) id)
  | fundToken => exact hkeep rfl rfl
  | submitPolicy roundId policyCommitment hst =>
    exact hkeep rfl (Round.field_same Round.released rfl (by simp [Round.released, hst]) id)
  | requestCompute => exact hkeep rfl rfl
  | finalizeRound _ _ _ _ res _ _ _ _ hst =>
    exact hkeep rfl (Round.field_same Round.released rfl (by simp [Round.released, hst]) id)
  | requestDisclosure => exact hkeep rfl rfl
  | requestAttestation => exact hkeep rfl rfl
  | claim roundId index amount proof hg hst =>
    exact ordered_payout s.rounds (ho id) rfl (by simp [Round.released, hst])
  | closeRound roundId hg hst ht hw hf =>
    refine ordered_payout s.rounds (ho id) rfl ?_
    simp only [Round.released, hst]
    omega
  | cancelRound roundId hg hst =>
    have hu : (s.rounds roundId).totalClaimed = 0 := by
      refine ((hs.rounds roundId).unclaimed ?_ ?_).1 <;> rcases hst with hst | hst <;> simp [hst]
    refine ordered_payout s.rounds (ho id) rfl ?_
    rcases hst with hst | hst <;> simp [Round.released, hst, hu]
  | rescue => exact hkeep rfl rfl

theorem Finished.released {y : Interaction} {reply : Reply} (h : Finished msg s y reply call s')
    (hfund : ∀ roundId amount, call = .fund roundId amount → (s.rounds roundId).status.live = true)
    (hdispatch : ∀ roundId ciphertext, call = .requestCompute roundId ciphertext →
      (s.rounds roundId).status.dispatchable) (id : ℕ) :
    (s'.rounds id).released = (s.rounds id).released := by
  cases h with
  | fund roundId amount =>
    have hl := hfund roundId amount rfl
    refine Round.field_same Round.released rfl ?_ id
    cases hst : (s.rounds roundId).status <;> simp_all [Round.released, RoundStatus.live]
  | release => rfl
  | requestCompute roundId ciphertext =>
    refine Round.field_same Round.released rfl ?_ id
    rcases hdispatch roundId ciphertext rfl with hst | hst <;> simp [Round.released, hst]
  | keep => rfl

end Steps

section

variable {D : Deployment} {c d : ContractConfig} {a : Act}

theorem Ledger.step (h : Ledger c.world.storage c.world.log) (hc : Coherent D c)
    (hfresh : DispatchFresh c a) (hstep : Stepped D c a d) : Ledger d.world.storage d.world.log := by
  cases hstep with
  | done msg call ht hself hst => exact ⟨hst.exact hc.shape h.exact, hst.ordered hc.shape h.ordered⟩
  | pending msg call ht hself hst => exact ⟨hst.exact hc.shape h.exact, hst.ordered hc.shape h.ordered⟩
  | settled p => exact ⟨h.exact, fun id => (Nat.zero_add _).trans (h.ordered id)⟩
  | @replied w saved fs p reply s ha hf =>
    have hd := hc.dispatchable hfresh hf
    have hfund (roundId amount : Uint256) (hcall : p.call = .fund roundId amount) :
        (w.storage.rounds roundId).status.live = true :=
      (hc.funding ⟨saved, p⟩ (by simp) roundId amount hcall).1
    refine ⟨hf.exact hc.shape h.exact hfund hd, fun id => ?_⟩
    have ho := h.ordered id
    have hr := hf.released hfund hd id
    simp only [World.record, ordered_cons, Entry.ordered, Nat.zero_add] at ho ⊢
    rw [ho, hr]
  | credit => exact ⟨h.exact, h.ordered⟩
  | drift => exact ⟨h.exact, h.ordered⟩
  | tick => exact ⟨h.exact, h.ordered⟩

theorem Reachable.ledger {initialOwner : Address} {balance : Address → ℕ} {now : ℕ}
    {ok : ContractConfig → Act → Prop} (hok : ∀ c a, ok c a → DispatchFresh c a)
    (h : Reachable D initialOwner balance now ok c) : Ledger c.world.storage c.world.log := by
  refine Reachable.invariant (P := fun c => Ledger c.world.storage c.world.log) ?_ ?_ h
  · exact ⟨fun _ => rfl, fun _ => rfl⟩
  · intro c a d hr hp ha hstep
    exact hp.step (Reachable.coherent hok hr) (hok c a ha) hstep

end

end Fidensur
