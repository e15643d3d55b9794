import Fidensur.WaterFilling

set_option autoImplicit false

/-! Two weighted policies that differ in their budget only. -/

namespace Fidensur

variable {cfg : EngineConfig} {p p' : Policy} {level level' : ℤ}

structure Share.NotLowered (s s' : Share) : Prop where
  recipient : s.recipient = s'.recipient
  weight : s.weight = s'.weight
  amount : s.amount ≤ s'.amount
  isCapped (h : s.isCapped = true) : s'.isCapped = true

structure Policy.Grows (p p' : Policy) : Prop where
  same : p' = { p with totalBudget := p'.totalBudget }
  budget : value p.totalBudget ≤ value p'.totalBudget

namespace Policy.Grows

theorem entries_eq (h : p.Grows p') : p'.entries = p.entries :=
  (congrArg Policy.entries h.same).trans rfl

theorem maxAlloc_eq (h : p.Grows p') : p'.maxAlloc = p.maxAlloc :=
  (congrArg Policy.maxAlloc h.same).trans rfl

theorem split_eq (h : p.Grows p') (hc : capped p.maxAlloc = true) :
    p'.split = p.split.withBudget (value p'.totalBudget) := by
  simp only [Policy.split, CappedSplit.withBudget, h.entries_eq, h.maxAlloc_eq, hc, if_true]

theorem notLowered_of_capped (h : p.Grows p') (hp : p.Valid cfg) (hc : capped p.maxAlloc = true)
    (hlevel : p.EndsAt level) (hlevel' : p'.EndsAt level') {e : PolicyEntry} (he : e ∈ p.entries) :
    (p.shareAt level e).NotLowered (p'.shareAt level' e) := by
  have hsplit := h.split_eq hc
  have hbudget : p.split.budget ≤ value p'.totalBudget := h.budget
  have hlvl : (p.split.withBudget (value p'.totalBudget)).IsLevel level' := hsplit ▸ hlevel'.isLevel
  have hsat : (p.split.withBudget (value p'.totalBudget)).Saturated level' := hsplit ▸ hlevel'.saturated
  have hcap : p'.split.cap = p.split.cap := (congrArg CappedSplit.cap hsplit).trans rfl
  have hheld : level < value e.weight → level' < value e.weight :=
    hlevel.isLevel.held_withBudget hlvl.fits hbudget hp.weights he
  unfold Policy.shareAt
  by_cases hl : level < value e.weight
  · rw [if_pos hl, if_pos (hheld hl), hcap]
    exact ⟨rfl, rfl, le_rfl, fun _ => rfl⟩
  · rw [if_neg hl]
    by_cases hl' : level' < value e.weight
    · rw [if_pos hl', hcap]
      exact ⟨rfl, rfl, hlevel.isLevel.fits e he (not_lt.mp hl), nofun⟩
    · rw [if_neg hl', hsplit]
      exact ⟨rfl, rfl, hlevel.isLevel.part_le_withBudget hlvl hsat hbudget hp.weights he (not_lt.mp hl)
        (not_lt.mp hl'), nofun⟩

theorem notLowered_of_uncapped (h : p.Grows p') (hp : p.Valid cfg) (hp' : p'.Valid cfg)
    (hc : ¬ capped p.maxAlloc = true) (hlevel : p.EndsAt level) (hlevel' : p'.EndsAt level')
    {e : PolicyEntry} (he : e ∈ p.entries) : (p.shareAt level e).NotLowered (p'.shareAt level' e) := by
  have hc' : ¬ capped p'.maxAlloc = true := h.maxAlloc_eq ▸ hc
  have hle : ∀ x ∈ p.entries, value x.weight ≤ level := fun x hx => hlevel.le_of_uncapped hp hc hx
  have hle' : ∀ x ∈ p.entries, value x.weight ≤ level' := fun x hx =>
    hlevel'.le_of_uncapped hp' hc' (h.entries_eq.symm ▸ hx)
  have hfree : p'.split.freeWeight level' = p.split.freeWeight level := by
    change (p'.entries.map _).sum = (p.entries.map _).sum
    rw [h.entries_eq]
    apply congrArg List.sum
    apply List.map_congr_left
    intro x hx
    exact (if_neg (not_lt.mpr (hle' x hx))).trans (if_neg (not_lt.mpr (hle x hx))).symm
  have hrest : p.split.rest level ≤ p'.split.rest level' := by
    rw [CappedSplit.rest, CappedSplit.rest, hlevel.held_of_uncapped hp hc, hlevel'.held_of_uncapped hp' hc',
      mul_zero, mul_zero, sub_zero, sub_zero]
    exact h.budget
  have hpart : p.split.part level e ≤ p'.split.part level' e := by
    change p.split.rest level * value e.weight / p.split.freeWeight level ≤
      p'.split.rest level' * value e.weight / p'.split.freeWeight level'
    have hnonneg : 0 ≤ p.split.freeWeight level := CappedSplit.freeWeight_nonneg hp.weights
    rw [hfree]
    rcases hnonneg.eq_or_lt with hzero | hpos
    · rw [← hzero, Int.ediv_zero, Int.ediv_zero]
    · exact Int.ediv_le_ediv hpos (mul_le_mul_of_nonneg_right hrest (hp.weights e he))
  rw [Policy.shareAt, Policy.shareAt, if_neg (not_lt.mpr (hle e he)), if_neg (not_lt.mpr (hle' e he))]
  exact ⟨rfl, rfl, hpart, fun h => by cases h⟩

end Policy.Grows

/-- A larger budget lowers no row's share before the dust is handed out, and frees no capped row. -/
theorem more_budget_lowers_no_share (hv : validate cfg p = .ok ()) (hv' : validate cfg p' = .ok ())
    (h : p.Grows p') : ∃ shares shares', weightedShares p = .ok shares ∧ weightedShares p' = .ok shares' ∧
      List.Forall₂ Share.NotLowered shares shares' := by
  have hp := Policy.Valid.of_validate hv
  have hp' := Policy.Valid.of_validate hv'
  obtain ⟨level, passes, hlevel, hpasses, hends⟩ := exists_loopEnds hp
  obtain ⟨level', passes', hlevel', hpasses', hends'⟩ := exists_loopEnds hp'
  refine ⟨_, _, weightedShares_of_loopEnds hpasses hends, weightedShares_of_loopEnds hpasses' hends', ?_⟩
  rw [Policy.sharesAt, Policy.sharesAt, h.entries_eq, List.forall₂_map_left_iff, List.forall₂_map_right_iff,
    List.forall₂_same]
  intro e he
  by_cases hc : capped p.maxAlloc = true
  · exact h.notLowered_of_capped hp hc hlevel hlevel' he
  · exact h.notLowered_of_uncapped hp hp' hc hlevel hlevel' he

section Sample

def smallBudget : Policy where
  contractAddr := 7
  roundId := some 1
  organization := 5
  mode := modeWeighted
  totalBudget := some 10
  minAlloc := none
  maxAlloc := some 6
  bands := []
  salt := 0
  entries := [⟨1, some 4, some 0⟩, ⟨2, some 1, some 0⟩]

theorem more_budget_lowers_no_share_sample : ∃ shares shares', weightedShares smallBudget = .ok shares ∧
    weightedShares { smallBudget with totalBudget := some 20 } = .ok shares' ∧
      List.Forall₂ Share.NotLowered shares shares' :=
  more_budget_lowers_no_share (by decide : validate surplusConfig smallBudget = .ok ())
    (by decide) ⟨rfl, by decide⟩

end Sample

end Fidensur
