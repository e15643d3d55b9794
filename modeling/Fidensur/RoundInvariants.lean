import Fidensur.ContractMachine

set_option autoImplicit false

namespace Fidensur

open NestedCalls

def RoundStatus.live : RoundStatus → Bool
  | .opened | .committed | .computing | .finalized => true
  | .none | .closed | .cancelled => false

def RoundStatus.dispatchable (status : RoundStatus) : Prop :=
  status = .committed ∨ status = .computing

instance (status : RoundStatus) : Decidable status.dispatchable :=
  inferInstanceAs (Decidable (_ ∨ _))

/-- What the status of a round says about its other fields. -/
structure Round.Shape (r : Round) : Prop where
  unset : r.status = .none → r = .unset
  unclaimed : r.status ≠ .finalized → r.status ≠ .closed →
    r.totalClaimed = 0 ∧ r.totalAllocated = 0 ∧ r.merkleRoot = 0
  swept : r.swept = true ↔ r.status = .closed ∨ r.status = .cancelled
  rooted : r.status = .finalized ∨ r.status = .closed → r.merkleRoot ≠ 0
  allocated : r.totalAllocated ≤ r.funded

structure Storage.Shape (s : Storage) : Prop where
  rounds (roundId : ℕ) : (s.rounds roundId).Shape
  unused (roundId : ℕ) (h : s.nextRoundId ≤ roundId) : (s.rounds roundId).status = .none

theorem Storage.Shape.lt_next {s : Storage} (h : s.Shape) {roundId : ℕ}
    (hs : (s.rounds roundId).status ≠ .none) : roundId < s.nextRoundId := by
  by_contra hge
  exact hs (h.unused roundId (Nat.le_of_not_lt hge))

theorem Round.unset_shape : Round.unset.Shape where
  unset _ := rfl
  unclaimed _ _ := ⟨rfl, rfl, rfl⟩
  swept := by simp [Round.unset]
  rooted := by simp [Round.unset]
  allocated := le_rfl

theorem Storage.deployed_shape (initialOwner : Address) : (Storage.deployed initialOwner).Shape where
  rounds _ := Round.unset_shape
  unused _ _ := rfl

theorem Storage.Shape.update {s s' : Storage} (h : s.Shape) {roundId : ℕ} {r : Round}
    (hrounds : s'.rounds = Function.update s.rounds roundId r) (hnext : s'.nextRoundId = s.nextRoundId)
    (hs : (s.rounds roundId).status ≠ .none) (hr : r.Shape) : s'.Shape where
  rounds id := by
    by_cases hid : id = roundId
    · simpa [hrounds, hid] using hr
    · simpa [hrounds, hid] using h.rounds id
  unused id hid := by
    have hne : id ≠ roundId := by
      have := h.lt_next hs
      omega
    simpa [hrounds, hne] using h.unused id (by omega)

theorem Storage.Shape.congr {s s' : Storage} (h : s.Shape) (hr : s'.rounds = s.rounds)
    (hn : s'.nextRoundId = s.nextRoundId) : s'.Shape where
  rounds id := hr ▸ h.rounds id
  unused id hid := hr ▸ h.unused id (hn ▸ hid)

variable {D : Deployment} {msg : Msg} {balance : Address → ℕ} {s s' : Storage} {call : Call}
  {x : Option Interaction}

theorem Round.Shape.credited {r : Round} (h : r.Shape) (hs : r.status ≠ .none) (amount : ℕ) :
    { r with funded := r.funded + amount }.Shape where
  unset hn := absurd hn hs
  unclaimed := h.unclaimed
  swept := h.swept
  rooted := h.rooted
  allocated := h.allocated.trans (Nat.le_add_right _ _)

theorem Round.Shape.closed {r : Round} (h : r.Shape) (hs : r.status = .finalized) :
    { r with swept := true, status := .closed }.Shape :=
  ⟨nofun, by simp, by simp, fun _ => h.rooted (.inl hs), h.allocated⟩

theorem Round.Shape.cancelled {r : Round} (h : r.Shape) (hs : r.status = .opened ∨ r.status = .committed) :
    { r with swept := true, status := .cancelled }.Shape := by
  have hne : r.status ≠ .finalized ∧ r.status ≠ .closed := by rcases hs with hs | hs <;> simp [hs]
  exact ⟨nofun, fun _ _ => h.unclaimed hne.1 hne.2, by simp, by simp, h.allocated⟩

theorem Round.Shape.advanced {r r' : Round} (h : r.Shape)
    (hs : r.status = .opened ∨ r.status.dispatchable) (hs' : r'.status.dispatchable)
    (hc : r'.totalClaimed = r.totalClaimed) (ha : r'.totalAllocated = r.totalAllocated)
    (hm : r'.merkleRoot = r.merkleRoot) (hw : r'.swept = r.swept) : r'.Shape := by
  have hu : r.totalClaimed = 0 ∧ r.totalAllocated = 0 ∧ r.merkleRoot = 0 := by
    apply h.unclaimed <;> rcases hs with hs | hs | hs <;> simp [hs]
  have hsw : r.swept = false := by
    have := h.swept
    rcases hs with hs | hs | hs <;> simpa [hs] using this
  constructor
  · intro hn
    rcases hs' with hs' | hs' <;> simp [hs'] at hn
  · intro _ _
    rw [hc, ha, hm]
    exact hu
  · rcases hs' with hs' | hs' <;> simp [hs', hw, hsw]
  · rcases hs' with hs' | hs' <;> simp [hs']
  · rw [ha, hu.2.1]
    exact Nat.zero_le _

theorem Started.shape (h : Started D msg balance s call s' x) (hs : s.Shape) : s'.Shape := by
  cases h with
  | configure => exact hs.congr rfl rfl
  | createRound token claimWindow hid hw =>
    have hunset : s.rounds s.nextRoundId = .unset := (hs.rounds _).unset (hs.unused _ le_rfl)
    constructor
    · intro id
      by_cases hid : id = s.nextRoundId
      · subst hid
        simp only [Storage.setRound_rounds, Function.update_self, hunset]
        exact ⟨nofun, fun _ _ => ⟨rfl, rfl, rfl⟩, by simp [Round.unset], by simp, le_rfl⟩
      · simpa [hid] using hs.rounds id
    · intro id hid
      simp only [Storage.setRound_nextRoundId] at hid
      have hne : id ≠ s.nextRoundId := by omega
      simpa [hne] using hs.unused id (by omega)
  | fundNative roundId amount hg hst =>
    exact hs.update rfl rfl (by simp [hst]) ((hs.rounds roundId).credited (by simp [hst]) amount)
  | fundToken => exact hs.congr rfl rfl
  | submitPolicy roundId policyCommitment hst =>
    exact hs.update rfl rfl (by simp [hst])
      ((hs.rounds roundId).advanced (.inl hst) (.inl rfl) rfl rfl rfl rfl)
  | requestCompute => exact hs
  | finalizeRound _ _ _ _ res _ _ _ _ hst _ _ hroot _ htotal =>
    have hr := hs.rounds res.roundId
    exact hs.update rfl rfl (by simp [hst])
      ⟨nofun, by simp, by simpa [hst] using hr.swept, fun _ => hroot, htotal⟩
  | requestDisclosure => exact hs
  | requestAttestation => exact hs
  | claim roundId index amount proof hg hst =>
    have hr := hs.rounds roundId
    exact hs.update rfl rfl (by simp [hst])
      ⟨by simp [hst], by simp [hst], hr.swept, hr.rooted, hr.allocated⟩
  | closeRound roundId hg hst =>
    exact hs.update rfl rfl (by simp [hst]) ((hs.rounds roundId).closed hst)
  | cancelRound roundId hg hst =>
    have hne : (s.rounds roundId).status ≠ .none := by rcases hst with hst | hst <;> simp [hst]
    exact hs.update rfl rfl hne ((hs.rounds roundId).cancelled hst)
  | rescue => exact hs.congr rfl rfl

theorem Finished.shape {y : Interaction} {reply : Reply} (h : Finished msg s y reply call s')
    (hs : s.Shape) (hfund : ∀ roundId amount, call = .fund roundId amount →
      (s.rounds roundId).status ≠ .none)
    (hdispatch : ∀ roundId ciphertext, call = .requestCompute roundId ciphertext →
      (s.rounds roundId).status.dispatchable) : s'.Shape := by
  cases h with
  | fund roundId amount =>
    have hst := hfund roundId amount rfl
    exact hs.update rfl rfl hst ((hs.rounds roundId).credited hst amount)
  | release => exact hs.congr rfl rfl
  | requestCompute roundId ciphertext =>
    have hst := hdispatch roundId ciphertext rfl
    have hne : (s.rounds roundId).status ≠ .none := by rcases hst with hst | hst <;> simp [hst]
    exact hs.update rfl rfl hne
      ((hs.rounds roundId).advanced (.inr hst) (.inr rfl) rfl rfl rfl rfl)
  | keep => exact hs

/-- The moves of the state diagram; a retried dispatch stays where it is. -/
inductive RoundStatus.Moves : RoundStatus → RoundStatus → Prop
  | stay (status : RoundStatus) : Moves status status
  | create : Moves .none .opened
  | commit : Moves .opened .committed
  | dispatch : Moves .committed .computing
  | finalize : Moves .computing .finalized
  | close : Moves .finalized .closed
  | cancelOpened : Moves .opened .cancelled
  | cancelCommitted : Moves .committed .cancelled

structure Round.Evolves (r r' : Round) : Prop where
  status : r.status.Moves r'.status
  token : r.status ≠ .none → r'.token = r.token
  organization : r.status ≠ .none → r'.organization = r.organization
  merkleRoot : r.merkleRoot ≠ 0 → r'.merkleRoot = r.merkleRoot
  funded : r.funded ≤ r'.funded

theorem Round.Evolves.refl (r : Round) : r.Evolves r :=
  ⟨.stay _, fun _ => rfl, fun _ => rfl, fun _ => rfl, le_rfl⟩

theorem Round.Evolves.update {roundId : ℕ} {r : Round}
    (hrounds : s'.rounds = Function.update s.rounds roundId r) (h : (s.rounds roundId).Evolves r)
    (id : ℕ) : (s.rounds id).Evolves (s'.rounds id) := by
  rw [hrounds]
  exact (Function.forall_update_iff s.rounds (p := fun id r => (s.rounds id).Evolves r)).mpr
    ⟨h, fun _ _ => .refl _⟩ id

theorem Started.evolves (h : Started D msg balance s call s' x) (hs : s.Shape) (id : ℕ) :
    (s.rounds id).Evolves (s'.rounds id) := by
  cases h with
  | configure => exact .refl _
  | createRound token claimWindow =>
    have hst : (s.rounds s.nextRoundId).status = .none := hs.unused _ le_rfl
    refine Round.Evolves.update rfl ?_ id
    refine ⟨?_, fun hn => absurd hst hn, fun hn => absurd hst hn, fun _ => rfl, le_rfl⟩
    rw [hst]
    exact .create
  | fundNative roundId amount =>
    refine Round.Evolves.update rfl ?_ id
    exact ⟨.stay _, fun _ => rfl, fun _ => rfl, fun _ => rfl, Nat.le_add_right _ _⟩
  | fundToken => exact .refl _
  | submitPolicy roundId policyCommitment hst =>
    refine Round.Evolves.update rfl ?_ id
    refine ⟨?_, fun _ => rfl, fun _ => rfl, fun _ => rfl, le_rfl⟩
    rw [hst]
    exact .commit
  | requestCompute => exact .refl _
  | finalizeRound _ _ _ _ res _ _ _ _ hst =>
    have hroot := ((hs.rounds res.roundId).unclaimed (by simp [hst]) (by simp [hst])).2.2
    refine Round.Evolves.update rfl ?_ id
    refine ⟨?_, fun _ => rfl, fun _ => rfl, fun hn => absurd hroot hn, le_rfl⟩
    rw [hst]
    exact .finalize
  | requestDisclosure => exact .refl _
  | requestAttestation => exact .refl _
  | claim roundId index amount =>
    refine Round.Evolves.update rfl ?_ id
    exact ⟨.stay _, fun _ => rfl, fun _ => rfl, fun _ => rfl, le_rfl⟩
  | closeRound roundId hg hst =>
    refine Round.Evolves.update rfl ?_ id
    refine ⟨?_, fun _ => rfl, fun _ => rfl, fun _ => rfl, le_rfl⟩
    rw [hst]
    exact .close
  | cancelRound roundId hg hst =>
    refine Round.Evolves.update rfl ?_ id
    refine ⟨?_, fun _ => rfl, fun _ => rfl, fun _ => rfl, le_rfl⟩
    rcases hst with hst | hst <;> rw [hst]
    · exact .cancelOpened
    · exact .cancelCommitted
  | rescue => exact .refl _

theorem Finished.evolves {y : Interaction} {reply : Reply} (h : Finished msg s y reply call s')
    (hdispatch : ∀ roundId ciphertext, call = .requestCompute roundId ciphertext →
      (s.rounds roundId).status.dispatchable) (id : ℕ) :
    (s.rounds id).Evolves (s'.rounds id) := by
  cases h with
  | fund roundId amount =>
    refine Round.Evolves.update rfl ?_ id
    exact ⟨.stay _, fun _ => rfl, fun _ => rfl, fun _ => rfl, Nat.le_add_right _ _⟩
  | release => exact .refl _
  | requestCompute roundId ciphertext =>
    refine Round.Evolves.update rfl ?_ id
    refine ⟨?_, fun _ => rfl, fun _ => rfl, fun _ => rfl, le_rfl⟩
    rcases hdispatch roundId ciphertext rfl with hst | hst <;> rw [hst]
    · exact .dispatch
    · exact .stay _
  | keep => exact .refl _

def Call.guarded : Call → Bool
  | .fund .. | .claim .. | .closeRound .. | .cancelRound .. | .rescue .. => true
  | _ => false

theorem Started.guard (h : Started D msg balance s call s' x) :
    if call.guarded then s.entered = false ∧ s'.entered = x.isSome else s'.entered = s.entered := by
  cases h with
  | configure call _ _ _ _ hc => cases call <;> simp_all [Call.guarded, Call.configures]
  | fundNative _ _ hg => exact ⟨hg, rfl⟩
  | fundToken _ _ hg => exact ⟨hg, rfl⟩
  | claim _ _ _ _ hg => exact ⟨hg, rfl⟩
  | closeRound _ hg => exact ⟨hg, rfl⟩
  | cancelRound _ hg => exact ⟨hg, rfl⟩
  | rescue _ _ hg => exact ⟨hg, rfl⟩
  | _ => rfl

theorem Finished.guard {y : Interaction} {reply : Reply} (h : Finished msg s y reply call s') :
    s'.entered = (!call.guarded && s.entered) := by
  cases h with
  | fund => rfl
  | release call hc => cases call <;> simp_all [Call.guarded, Call.paysOut]
  | requestCompute => rfl
  | keep call hp hf hr => cases call <;> simp_all [Call.guarded, Call.paysOut]

/-- Closing and cancelling need the guard, so a live round stays live while it is held. -/
theorem Started.live_of_entered (h : Started D msg balance s call s' x)
    (hg : s.entered = true) {id : ℕ} (hl : (s.rounds id).status.live = true) :
    (s'.rounds id).status.live = true := by
  have hguard := h.guard
  have hfree : call.guarded = false := by
    cases hc : call.guarded with
    | false => rfl
    | true => simp [hc, hg] at hguard
  have hupdate {roundId : ℕ} {r : Round} {t : Storage}
      (hrounds : t.rounds = Function.update s.rounds roundId r) (hr : r.status.live = true) :
      (t.rounds id).status.live = true := by
    rw [hrounds]
    by_cases hid : id = roundId
    · simpa [hid] using hr
    · simpa [hid] using hl
  cases h with
  | createRound => exact hupdate rfl rfl
  | submitPolicy => exact hupdate rfl rfl
  | finalizeRound => exact hupdate rfl rfl
  | fundNative => cases hfree
  | fundToken => cases hfree
  | claim => cases hfree
  | closeRound => cases hfree
  | cancelRound => cases hfree
  | _ => exact hl

end Fidensur
