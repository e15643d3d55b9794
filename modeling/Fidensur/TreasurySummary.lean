import Fidensur.BalanceCoverage

set_option autoImplicit false

namespace Fidensur

open NestedCalls

section Folds

variable {α β : Type} {M : Type} [AddCommMonoid M]

theorem foldl_reading (step : β → α → β) (reading : β → M) (weight : α → M)
    (h : ∀ b a, reading (step b a) = reading b + weight a) (xs : List α) (b : β) :
    reading (xs.foldl step b) = reading b + (xs.map weight).sum := by
  induction xs generalizing b with
  | nil => simp
  | cons x xs ih =>
    rw [List.foldl_cons, ih, h, List.map_cons, List.sum_cons, add_assoc]

theorem sum_map_filter (p : α → Bool) (f : α → M) (xs : List α) :
    ((xs.filter p).map f).sum = (xs.map (fun x => if p x then f x else 0)).sum := by
  induction xs with
  | nil => rfl
  | cons x xs ih => by_cases hx : p x = true <;> simp [hx, ih]

theorem sum_map_range (f : ℕ → M) (n : ℕ) :
    ((List.range n).map f).sum = ∑ i ∈ Finset.range n, f i := rfl

end Folds

def RoundStatus.number : RoundStatus → ℕ
  | .none => 0
  | .opened => 1
  | .committed => 2
  | .computing => 3
  | .finalized => 4
  | .closed => 5
  | .cancelled => 6

structure RoundListing where
  id : ℕ
  round : Round

/-- The rounds a dashboard reads, newest first. -/
def useRounds (limit : ℕ) (s : Storage) : List RoundListing :=
  ((List.range s.nextRoundId).reverse.take limit).map (fun id => ⟨id, s.rounds id⟩)

structure TreasurySummary where
  heldByContract : ℤ
  totalFunded : ℤ
  unclaimed : ℤ
  activeRound : Option RoundListing
  awaitingFinalization : ℕ
  finalizedCount : ℕ
  recipientsAllocated : ℕ
  unsweptCount : ℕ

def TreasurySummary.zero : TreasurySummary := ⟨0, 0, 0, none, 0, 0, 0, 0⟩

def RoundStatus.inFlight (status : RoundStatus) : Prop :=
  status = .opened ∨ status = .committed ∨ status = .computing

instance (status : RoundStatus) : Decidable status.inFlight :=
  inferInstanceAs (Decidable (_ ∨ _ ∨ _))

/-- One pass of the loop of `summarizeRounds`. -/
def TreasurySummary.add (t : TreasurySummary) (listing : RoundListing) : TreasurySummary :=
  let round := listing.round
  let t := { t with totalFunded := t.totalFunded + round.funded }
  let t := if round.swept = false ∧ round.status ≠ .cancelled then
      { t with
        heldByContract := t.heldByContract + (round.funded - round.totalClaimed)
        unsweptCount := t.unsweptCount + 1 }
    else t
  let t := if round.status.number ≥ RoundStatus.finalized.number ∧ round.status ≠ .cancelled then
      { t with
        finalizedCount := t.finalizedCount + 1
        recipientsAllocated := t.recipientsAllocated + round.recipientCount
        unclaimed := t.unclaimed + (round.totalAllocated - round.totalClaimed) }
    else t
  let t := if round.status = .computing then
      { t with awaitingFinalization := t.awaitingFinalization + 1 }
    else t
  if round.status.inFlight ∧ t.activeRound.isNone then { t with activeRound := some listing } else t

def summarizeRounds (listings : List RoundListing) : TreasurySummary :=
  listings.foldl TreasurySummary.add .zero

section Totals

def Round.heldPart (r : Round) : ℤ :=
  if r.swept = false ∧ r.status ≠ .cancelled then (r.funded : ℤ) - r.totalClaimed else 0

def Round.unclaimedPart (r : Round) : ℤ :=
  if r.status.number ≥ RoundStatus.finalized.number ∧ r.status ≠ .cancelled then
    (r.totalAllocated : ℤ) - r.totalClaimed
  else 0

theorem summarizeRounds_held (listings : List RoundListing) :
    (summarizeRounds listings).heldByContract = (listings.map (·.round.heldPart)).sum := by
  have hadd (t : TreasurySummary) (listing : RoundListing) :
      (t.add listing).heldByContract = t.heldByContract + listing.round.heldPart := by
    simp only [TreasurySummary.add, Round.heldPart]
    split_ifs <;> simp
  have h := foldl_reading _ TreasurySummary.heldByContract _ hadd listings .zero
  simpa [summarizeRounds, TreasurySummary.zero] using h

theorem summarizeRounds_unclaimed (listings : List RoundListing) :
    (summarizeRounds listings).unclaimed = (listings.map (·.round.unclaimedPart)).sum := by
  have hadd (t : TreasurySummary) (listing : RoundListing) :
      (t.add listing).unclaimed = t.unclaimed + listing.round.unclaimedPart := by
    simp only [TreasurySummary.add, Round.unclaimedPart]
    split_ifs <;> simp
  have h := foldl_reading _ TreasurySummary.unclaimed _ hadd listings .zero
  simpa [summarizeRounds, TreasurySummary.zero] using h

end Totals

def listingsOf (token : Address) (s : Storage) : List RoundListing :=
  (useRounds s.nextRoundId s).filter (fun listing => listing.round.token = token)

theorem mem_listingsOf {token : Address} {s : Storage} {listing : RoundListing} :
    listing ∈ listingsOf token s ↔ listing.id < s.nextRoundId ∧
      listing.round = s.rounds listing.id ∧ listing.round.token = token := by
  obtain ⟨id, round⟩ := listing
  have htake : (List.range s.nextRoundId).reverse.take s.nextRoundId =
      (List.range s.nextRoundId).reverse := List.take_of_length_le (by simp)
  simp only [listingsOf, useRounds, htake, List.mem_filter, List.mem_map, List.mem_reverse,
    List.mem_range, RoundListing.mk.injEq, decide_eq_true_eq]
  constructor
  · rintro ⟨⟨_, hid, rfl, rfl⟩, ht⟩
    exact ⟨hid, rfl, ht⟩
  · rintro ⟨hid, rfl, ht⟩
    exact ⟨⟨id, hid, rfl, rfl⟩, ht⟩

theorem sum_listingsOf (token : Address) (s : Storage) (part : Round → ℤ) :
    ((listingsOf token s).map (fun listing => part listing.round)).sum =
      ∑ id ∈ Finset.range s.nextRoundId with (s.rounds id).token = token, part (s.rounds id) := by
  have htake : (List.range s.nextRoundId).reverse.take s.nextRoundId =
      (List.range s.nextRoundId).reverse := List.take_of_length_le (by simp)
  rw [listingsOf, useRounds, htake, sum_map_filter, List.map_map, List.map_reverse, List.sum_reverse,
    sum_map_range, Finset.sum_filter]
  simp

section Ledger

variable {s : Storage}

theorem Round.Shape.heldPart {r : Round} (h : r.Shape) (token : Address) :
    (if r.token = token then r.heldPart else 0) = r.owed token := by
  have hsw := h.swept
  unfold Round.heldPart Round.owed
  cases hst : r.status with
  | none => simp [h.unset hst, Round.unset, RoundStatus.live]
  | _ => simp_all [RoundStatus.live]

def Round.due (r : Round) : ℤ := (r.totalAllocated : ℤ) - r.totalClaimed

/-- A round that never finalized owes recipients nothing, so the total is of finalized rounds and of
those that were closed since. -/
theorem Round.Shape.unclaimedPart {r : Round} (h : r.Shape) :
    r.unclaimedPart =
      (if r.status.live = true then r.due else 0) + if r.status = .closed then r.due else 0 := by
  have hzero := h.unclaimed
  unfold Round.unclaimedPart Round.due
  cases hst : r.status with
  | finalized => simp [RoundStatus.number, RoundStatus.live]
  | closed => simp [RoundStatus.number, RoundStatus.live]
  | _ => simp [RoundStatus.number, RoundStatus.live, hst] at hzero ⊢ <;> omega

/-- What the contract still holds for the recipients of a token. -/
def Storage.allocatedUnclaimed (s : Storage) (token : Address) : ℤ :=
  ∑ id ∈ Finset.range s.nextRoundId with
    (s.rounds id).token = token ∧ (s.rounds id).status.live = true, (s.rounds id).due

/-- What recipients of a token's closed rounds were due when those were swept. -/
def Storage.forfeited (s : Storage) (token : Address) : ℤ :=
  ∑ id ∈ Finset.range s.nextRoundId with
    (s.rounds id).token = token ∧ (s.rounds id).status = .closed, (s.rounds id).due

theorem Storage.Shape.held_listingsOf (h : s.Shape) (token : Address) :
    ((listingsOf token s).map (·.round.heldPart)).sum = s.owed token := by
  rw [sum_listingsOf, Finset.sum_filter]
  exact Finset.sum_congr rfl (fun id _ => (h.rounds id).heldPart token)

theorem Storage.Shape.unclaimed_listingsOf (h : s.Shape) (token : Address) :
    ((listingsOf token s).map (·.round.unclaimedPart)).sum =
      s.allocatedUnclaimed token + s.forfeited token := by
  rw [sum_listingsOf, Storage.allocatedUnclaimed, Storage.forfeited, ← Finset.filter_filter,
    ← Finset.filter_filter, Finset.sum_filter (fun id => (s.rounds id).status.live = true),
    Finset.sum_filter (fun id => (s.rounds id).status = .closed), ← Finset.sum_add_distrib]
  exact Finset.sum_congr rfl (fun id _ => (h.rounds id).unclaimedPart)

theorem Storage.Shape.allocatedUnclaimed_le (h : s.Shape) (token : Address) :
    s.allocatedUnclaimed token ≤ s.owed token := by
  rw [Storage.allocatedUnclaimed, Storage.owed, Finset.sum_filter]
  apply Finset.sum_le_sum
  intro id _
  have hle := (h.rounds id).allocated
  unfold Round.due Round.owed
  split_ifs with h₁ h₂ h₂
  · omega
  · exact absurd h₁.symm h₂
  · exact absurd h₂.symm h₁
  · exact le_rfl

theorem forfeited_eq_zero_iff
    (hclaimed : ∀ id, (s.rounds id).totalClaimed ≤ (s.rounds id).totalAllocated) (token : Address) :
    s.forfeited token = 0 ↔ ∀ listing ∈ listingsOf token s, listing.round.status = .closed →
      listing.round.totalClaimed = listing.round.totalAllocated := by
  have hdue (id : ℕ) : 0 ≤ (s.rounds id).due := by
    have := hclaimed id
    unfold Round.due
    omega
  rw [Storage.forfeited, Finset.sum_eq_zero_iff_of_nonneg (fun id _ => hdue id)]
  constructor
  · intro h listing hl hst
    obtain ⟨hid, hround, ht⟩ := mem_listingsOf.mp hl
    rw [hround] at hst ht ⊢
    have hz := h listing.id (Finset.mem_filter.mpr ⟨Finset.mem_range.mpr hid, ht, hst⟩)
    unfold Round.due at hz
    omega
  · intro h id hid
    obtain ⟨hlt, ht, hst⟩ := Finset.mem_filter.mp hid
    have he := h ⟨id, s.rounds id⟩ (mem_listingsOf.mpr ⟨Finset.mem_range.mp hlt, rfl, ht⟩) hst
    simp only at he
    unfold Round.due
    omega

end Ledger

structure SummaryMatches (s : Storage) (token : Address) (summary : TreasurySummary) : Prop where
  held : summary.heldByContract = s.outstanding token
  unclaimed : summary.unclaimed = s.allocatedUnclaimed token
  nonneg : 0 ≤ summary.unclaimed
  covered : summary.unclaimed ≤ summary.heldByContract

/-- `heldByContract` is the counter of the token; `unclaimed` is right unless a listed round was
closed before everyone had claimed. -/
theorem summary_matches_iff (D : Deployment) (initialOwner : Address) (balance : Address → ℕ)
    (now : ℕ) (c : ContractConfig)
    (h : Reachable D initialOwner balance now (fun c a => RegistryQuiet c a ∧ TokensExact c a) c)
    (hclaimed : ∀ id, (c.world.storage.rounds id).totalClaimed ≤
      (c.world.storage.rounds id).totalAllocated)
    (token : Address) (listings : List RoundListing)
    (hl : listings.Perm (listingsOf token c.world.storage)) :
    (summarizeRounds listings).heldByContract = c.world.storage.outstanding token ∧
    (SummaryMatches c.world.storage token (summarizeRounds listings) ↔
      ∀ listing ∈ listings, listing.round.status = .closed →
        listing.round.totalClaimed = listing.round.totalAllocated) := by
  have hr := Reachable.fresh (fun _ _ ha => ha.1) h
  have hledger := Reachable.ledger (fun _ _ ha => ha.2) hr
  have hshape := (Reachable.coherent (fun _ _ ha => ha.2) hr).shape
  have hheld : (summarizeRounds listings).heldByContract = c.world.storage.outstanding token := by
    rw [summarizeRounds_held, (hl.map _).sum_eq, hshape.held_listingsOf, hledger.exact]
  have hunclaimed : (summarizeRounds listings).unclaimed =
      c.world.storage.allocatedUnclaimed token + c.world.storage.forfeited token := by
    rw [summarizeRounds_unclaimed, (hl.map _).sum_eq, hshape.unclaimed_listingsOf]
  have hclosed : (∀ listing ∈ listings, listing.round.status = .closed →
      listing.round.totalClaimed = listing.round.totalAllocated) ↔
      c.world.storage.forfeited token = 0 := by
    rw [forfeited_eq_zero_iff hclaimed]
    exact forall_congr' fun listing => by rw [hl.mem_iff]
  rw [hclosed]
  refine ⟨hheld, fun hm => ?_, fun hz => ?_⟩
  · have := hm.unclaimed
    omega
  · have hle := hshape.allocatedUnclaimed_le token
    have hexact := hledger.exact token
    have hpos : 0 ≤ c.world.storage.allocatedUnclaimed token := by
      apply Finset.sum_nonneg
      intro id _
      have := hclaimed id
      unfold Round.due
      omega
    exact ⟨hheld, by omega, by omega, by omega⟩

section Closing

/-- A round that allocates five units, with one row of `amount`, closed after the window next to one
that holds one unit. -/
def closedRun (funded amount : Uint256) : List Act :=
  sampleRun funded 1 5 amount ++
    [.tick 10000,
      .call ⟨2, 0, 10000, sampleRegistry⟩ (.closeRound 0),
      .reply (.returned true [])]

def firstTotals (c : ContractConfig) : ℕ × (ℕ × ℕ) × ℕ × ℕ :=
  (c.world.storage.nextRoundId,
    ((c.world.storage.rounds 0).totalClaimed, (c.world.storage.rounds 0).totalAllocated),
    (c.world.storage.rounds 1).totalClaimed, (c.world.storage.rounds 1).totalAllocated)

theorem claimed_le_of_firstTotals {c : ContractConfig} {a b m n : ℕ} (hs : c.world.storage.Shape)
    (h : firstTotals c = (2, (a, b), m, n)) (hab : a ≤ b) (hmn : m ≤ n) (id : ℕ) :
    (c.world.storage.rounds id).totalClaimed ≤ (c.world.storage.rounds id).totalAllocated := by
  simp only [firstTotals, Prod.mk.injEq] at h
  obtain ⟨hnext, ⟨rfl, rfl⟩, rfl, rfl⟩ := h
  match id with
  | 0 => exact hab
  | 1 => exact hmn
  | id + 2 =>
    rw [(hs.rounds _).unset (hs.unused _ (by omega))]
    exact le_rfl

theorem timed_run_shape {as : List Act} {c : ContractConfig}
    (hsteps : StepsMeet (machine sampleDeployment) as sampleStart
      (fun c a => RegistryQuiet c a ∧ TokensExact c a))
    (hc : (machine sampleDeployment).run as sampleStart = some c) : c.world.storage.Shape := by
  have hr := Reachable.fresh (fun _ _ ha => ha.1) (hsteps.reaches _ List.prefix_rfl c hc)
  exact (Reachable.coherent (fun _ _ ha => ha.2) hr).shape

/-- Four of five units went back to the organization and are still shown as unclaimed, more than the
contract holds of the token. -/
theorem swept_round_still_counted :
    ¬ ∀ (as : List Act) (c : ContractConfig) (token : Address),
      StepsMeet (machine sampleDeployment) as sampleStart
        (fun c a => RegistryQuiet c a ∧ TokensExact c a) →
      (machine sampleDeployment).run as sampleStart = some c →
      (∀ id, (c.world.storage.rounds id).totalClaimed ≤ (c.world.storage.rounds id).totalAllocated) →
      SummaryMatches c.world.storage token (summarizeRounds (listingsOf token c.world.storage)) := by
  intro hall
  have hsteps : StepsMeet (machine sampleDeployment) (closedRun 5 1) sampleStart
      (fun c a => RegistryQuiet c a ∧ TokensExact c a) :=
    .of_meets (fun _ _ => quietAndExact_ok) (by decide +kernel)
  have hread : ((machine sampleDeployment).run (closedRun 5 1) sampleStart).map
      (fun c => (firstTotals c, (summarizeRounds (listingsOf 0 c.world.storage)).heldByContract,
        (summarizeRounds (listingsOf 0 c.world.storage)).unclaimed)) =
      some ((2, (1, 5), 0, 0), 1, 4) := by
    decide +kernel
  obtain ⟨c, hc, hread⟩ := Option.map_eq_some_iff.mp hread
  simp only [Prod.mk.injEq] at hread
  obtain ⟨htotals, hheld, hunclaimed⟩ := hread
  have hle := (hall _ c 0 hsteps hc (claimed_le_of_firstTotals (timed_run_shape hsteps hc) htotals
    (by omega) le_rfl)).covered
  omega

theorem summary_matches_iff_sample : ∃ c,
    (machine sampleDeployment).run (closedRun 6 5) sampleStart = some c ∧
    (summarizeRounds (listingsOf 0 c.world.storage)).heldByContract = c.world.storage.outstanding 0 ∧
    (SummaryMatches c.world.storage 0 (summarizeRounds (listingsOf 0 c.world.storage)) ↔
      ∀ listing ∈ listingsOf 0 c.world.storage, listing.round.status = .closed →
        listing.round.totalClaimed = listing.round.totalAllocated) := by
  have hsteps : StepsMeet (machine sampleDeployment) (closedRun 6 5) sampleStart
      (fun c a => RegistryQuiet c a ∧ TokensExact c a) :=
    .of_meets (fun _ _ => quietAndExact_ok) (by decide +kernel)
  have hread : ((machine sampleDeployment).run (closedRun 6 5) sampleStart).map firstTotals =
      some (2, (5, 5), 0, 0) := by
    decide +kernel
  obtain ⟨c, hc, htotals⟩ := Option.map_eq_some_iff.mp hread
  exact ⟨c, hc, summary_matches_iff sampleDeployment 1 (fun _ => 0) 0 c
    (hsteps.reaches _ List.prefix_rfl c hc)
    (claimed_le_of_firstTotals (timed_run_shape hsteps hc) htotals le_rfl le_rfl) 0 _ (.refl _)⟩

end Closing

end Fidensur
