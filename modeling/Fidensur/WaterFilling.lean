import Fidensur.WeightedLevel

set_option autoImplicit false

/-!
The weighted split in closed form: what the capping loop computes, and where the truncation
remainder goes.
-/

namespace Fidensur

variable {cfg : EngineConfig} {p : Policy} {level : ℤ}

def heldRows (shares : List Share) : List Share := shares.filter Share.isCapped

def freeRows (shares : List Share) : List Share :=
  shares.filter (fun s => !s.isCapped && decide (0 < s.weight))

def Policy.leftover (p : Policy) (shares : List Share) : ℤ :=
  value p.totalBudget - (heldRows shares).length * value p.maxAlloc

def Policy.fairPart (p : Policy) (shares : List Share) (s : Share) : ℤ :=
  p.leftover shares * s.weight / freeWeight shares

structure Policy.WaterFilled (p : Policy) (shares : List Share) : Prop where
  rows : shares.map (fun s => (s.recipient, s.weight)) =
    p.entries.map (fun e => (e.recipient, value e.weight))
  leftover_nonneg : 0 ≤ p.leftover shares
  amounts (h : 0 < freeWeight shares) : ∀ s ∈ shares, s.amount =
    if capped p.maxAlloc = true then min (value p.maxAlloc) (p.fairPart shares s) else p.fairPart shares s
  exceeds (h : 0 < freeWeight shares) : ∀ s ∈ heldRows shares,
    capped p.maxAlloc = true ∧ value p.maxAlloc < p.fairPart shares s
  monotone (h : 0 < freeWeight shares) : ∀ s ∈ shares, ∀ t ∈ shares, s.weight ≤ t.weight →
    s.amount ≤ t.amount
  dust (h : 0 < freeWeight shares) : dustOf p shares < (freeRows shares).length

/-- The remainder goes to one row if any can take it, and no row is pushed over the cap. -/
structure Policy.DustPlaced (p : Policy) (shares : List Share) : Prop where
  cap (h : capped p.maxAlloc = true) : ∀ s ∈ distributeDust p shares, s.amount ≤ value p.maxAlloc
  total : ((distributeDust p shares).map Share.amount).sum = value p.totalBudget ∨
    (∀ s ∈ shares, 0 < s.weight → s.isCapped = true) ∨
    ∀ s ∈ freeRows shares, capped p.maxAlloc = true ∧ value p.maxAlloc < s.amount + dustOf p shares

section Level

theorem forall_mem_sharesAt {P : Share → Prop} :
    (∀ s ∈ p.sharesAt level, P s) ↔ ∀ e ∈ p.entries, P (p.shareAt level e) :=
  List.forall_mem_map

theorem stageAt_shareAt (level : ℤ) : p.StageAt level (p.shareAt level) where
  recipient e _ := by
    unfold Policy.shareAt
    split <;> rfl
  weight e _ := by
    unfold Policy.shareAt
    split <;> rfl
  isCapped e _ := by
    unfold Policy.shareAt
    split
    · next h => exact (decide_eq_true h).symm
    · next h => exact (decide_eq_false h).symm
  held e _ hl := by rw [Policy.shareAt, if_pos hl]
  weightless e _ hzero hl := by
    rw [Policy.shareAt, if_neg (not_lt.mpr hl)]
    simp only [CappedSplit.part, Policy.split, hzero, mul_zero, Int.zero_ediv]

theorem freeWeight_sharesAt : freeWeight (p.sharesAt level) = p.split.freeWeight level :=
  (stageAt_shareAt level).freeWeight_eq

theorem length_filter_eq_sum {α : Type} (q : α → Bool) (l : List α) :
    ((l.filter q).length : ℤ) = (l.map (fun x => if q x = true then (1 : ℤ) else 0)).sum := by
  induction l with
  | nil => rfl
  | cons a l ih =>
    by_cases hq : q a = true
    · rw [List.filter_cons_of_pos hq, List.length_cons, List.map_cons, List.sum_cons, if_pos hq, ← ih]
      push_cast
      ring
    · rw [List.filter_cons_of_neg hq, List.map_cons, List.sum_cons, if_neg hq, ← ih, zero_add]

theorem length_heldRows : ((heldRows (p.sharesAt level)).length : ℤ) = p.split.held level := by
  rw [heldRows, length_filter_eq_sum, Policy.sharesAt, List.map_map]
  apply congrArg List.sum
  apply List.map_congr_left
  intro e he
  simp only [Function.comp_apply, (stageAt_shareAt level).isCapped e he, decide_eq_true_eq]
  rfl

theorem length_freeRows (hp : p.Valid cfg) :
    ((freeRows (p.sharesAt level)).length : ℤ) = p.split.freeCount level := by
  rw [freeRows, length_filter_eq_sum, Policy.sharesAt, List.map_map]
  apply congrArg List.sum
  apply List.map_congr_left
  intro e he
  have hw := hp.weights e he
  have hsplit : p.split.weight e = value e.weight := rfl
  simp only [Function.comp_apply, (stageAt_shareAt level).isCapped e he, (stageAt_shareAt level).weight e he,
    Bool.and_eq_true, Bool.not_eq_true', decide_eq_false_iff_not, decide_eq_true_eq, hsplit]
  split_ifs <;> omega

theorem Policy.EndsAt.le_of_uncapped (h : p.EndsAt level) (hp : p.Valid cfg) (hc : ¬ capped p.maxAlloc = true)
    {e : PolicyEntry} (he : e ∈ p.entries) : value e.weight ≤ level := by
  by_contra hlt
  have htop : ∀ x ∈ p.entries, value x.weight ≤ (p.entries.map (fun x => value x.weight)).sum := fun x hx =>
    List.single_le_sum (List.forall_mem_map.mpr hp.weights) _ (List.mem_map_of_mem hx)
  have hheld : p.split.held (p.entries.map (fun x => value x.weight)).sum = 0 := by
    apply List.sum_eq_zero
    intro n hn
    obtain ⟨x, hx, rfl⟩ := List.mem_map.mp hn
    exact if_neg (not_lt.mpr (htop x hx))
  have hrest : 0 ≤ p.split.rest (p.entries.map (fun x => value x.weight)).sum := by
    rw [CappedSplit.rest, hheld, mul_zero, sub_zero]
    exact hp.budget.le
  have hfits : p.split.Fits (p.entries.map (fun x => value x.weight)).sum := by
    intro x hx hle
    have hexceeds := (exceeds_iff hp hrest hx hle).not.mp fun hover => hc hover.1
    exact not_lt.mp hexceeds
  exact not_lt.mpr (htop e he) (h.isLevel.least _ hfits e he (not_le.mp hlt))

theorem Policy.EndsAt.held_of_uncapped (h : p.EndsAt level) (hp : p.Valid cfg)
    (hc : ¬ capped p.maxAlloc = true) : p.split.held level = 0 := by
  apply List.sum_eq_zero
  intro n hn
  obtain ⟨e, he, rfl⟩ := List.mem_map.mp hn
  exact if_neg (not_lt.mpr (h.le_of_uncapped hp hc he))

theorem Policy.EndsAt.leftover_eq (h : p.EndsAt level) (hp : p.Valid cfg) :
    p.leftover (p.sharesAt level) = p.split.rest level := by
  rw [Policy.leftover, length_heldRows, CappedSplit.rest]
  by_cases hc : capped p.maxAlloc = true
  · have hcap : p.split.cap = value p.maxAlloc := if_pos hc
    rw [hcap, mul_comm]
    rfl
  · rw [h.held_of_uncapped hp hc, zero_mul, mul_zero]
    rfl

theorem Policy.EndsAt.fairPart_eq (h : p.EndsAt level) (hp : p.Valid cfg) {e : PolicyEntry}
    (he : e ∈ p.entries) : p.fairPart (p.sharesAt level) (p.shareAt level e) = p.split.part level e := by
  rw [Policy.fairPart, h.leftover_eq hp, freeWeight_sharesAt, (stageAt_shareAt level).weight e he]
  rfl

theorem sum_amounts_sharesAt : ((p.sharesAt level).map Share.amount).sum = p.split.cap * p.split.held level +
    (p.entries.map (fun e => if level < p.split.weight e then 0 else p.split.part level e)).sum := by
  have hrow (e : PolicyEntry) : (p.shareAt level e).amount =
      p.split.cap * (if level < p.split.weight e then 1 else 0) +
        (if level < p.split.weight e then 0 else p.split.part level e) := by
    change (if level < value e.weight then _ else _ : Share).amount = p.split.cap *
      (if level < value e.weight then 1 else 0) + (if level < value e.weight then 0 else _)
    split_ifs
    · exact (by ring)
    · exact (by ring)
  rw [Policy.sharesAt, List.map_map, CappedSplit.held, ← List.sum_map_mul_left]
  change (p.entries.map _).sum = (p.entries.map _).sum + _
  rw [← List.sum_map_add]
  exact congrArg List.sum (List.map_congr_left fun e _ => hrow e)

theorem dustOf_sharesAt : dustOf p (p.sharesAt level) = p.split.rest level -
    (p.entries.map (fun e => if level < p.split.weight e then 0 else p.split.part level e)).sum := by
  rw [dustOf, sum_amounts_sharesAt, CappedSplit.rest]
  change value p.totalBudget - _ = value p.totalBudget - _ - _
  ring

theorem part_mono (hp : p.Valid cfg) (hrest : 0 ≤ p.split.rest level) {e e' : PolicyEntry}
    (h : value e.weight ≤ value e'.weight) : p.split.part level e ≤ p.split.part level e' := by
  have hfree : 0 ≤ p.split.freeWeight level := CappedSplit.freeWeight_nonneg hp.weights
  rcases hfree.eq_or_lt with hzero | hpos
  · rw [CappedSplit.part, CappedSplit.part, ← hzero, Int.ediv_zero, Int.ediv_zero]
  · exact Int.ediv_le_ediv hpos (mul_le_mul_of_nonneg_left h hrest)

theorem Policy.EndsAt.waterFilled (h : p.EndsAt level) (hp : p.Valid cfg) :
    p.WaterFilled (p.sharesAt level) := by
  have hstage := stageAt_shareAt (p := p) level
  have hfreeRow {e : PolicyEntry} (hle : ¬ level < value e.weight) :
      (p.shareAt level e).amount = p.split.part level e := by
    rw [Policy.shareAt, if_neg hle]
  have hcapped {e : PolicyEntry} (he : e ∈ p.entries) (hl : level < value e.weight) :
      capped p.maxAlloc = true := by
    by_contra hc
    exact not_lt.mpr (h.le_of_uncapped hp hc he) hl
  have hcap (hc : capped p.maxAlloc = true) : p.split.cap = value p.maxAlloc := if_pos hc
  have hover (hpos : 0 < freeWeight (p.sharesAt level)) {e : PolicyEntry} (he : e ∈ p.entries)
      (hl : level < value e.weight) : p.split.cap < p.split.part level e :=
    h.saturated.lt_part (freeWeight_sharesAt ▸ hpos) he hl
  refine ⟨?_, ?_, fun hpos => ?_, fun hpos => ?_, fun hpos => ?_, fun hpos => ?_⟩
  · rw [Policy.sharesAt, List.map_map]
    exact List.map_congr_left fun e he => Prod.ext (hstage.recipient e he) (hstage.weight e he)
  · rw [h.leftover_eq hp]
    exact h.rest_nonneg
  · rw [forall_mem_sharesAt]
    intro e he
    rw [h.fairPart_eq hp he]
    by_cases hl : level < value e.weight
    · have hc := hcapped he hl
      rw [if_pos hc, hstage.held e he hl, ← hcap hc, min_eq_left (hover hpos he hl).le]
    · rw [hfreeRow hl]
      split_ifs with hc
      · rw [← hcap hc, min_eq_right (h.isLevel.fits e he (not_lt.mp hl))]
      · rfl
  · intro s hs
    obtain ⟨hs, hheld⟩ := List.mem_filter.mp hs
    obtain ⟨e, he, rfl⟩ := List.mem_map.mp hs
    rw [hstage.isCapped e he, decide_eq_true_eq] at hheld
    have hc := hcapped he hheld
    rw [h.fairPart_eq hp he, ← hcap hc]
    exact ⟨hc, hover hpos he hheld⟩
  · rw [forall_mem_sharesAt]
    intro e he
    rw [forall_mem_sharesAt]
    intro e' he' hle
    rw [hstage.weight e he, hstage.weight e' he'] at hle
    have hparts := part_mono hp h.rest_nonneg hle
    by_cases hl : level < value e.weight
    · rw [hstage.held e he hl, hstage.held e' he' (hl.trans_le hle)]
    · rw [hfreeRow hl]
      by_cases hl' : level < value e'.weight
      · rw [hstage.held e' he' hl']
        exact h.isLevel.fits e he (not_lt.mp hl)
      · rw [hfreeRow hl']
        exact hparts
  · rw [dustOf_sharesAt, length_freeRows hp]
    exact CappedSplit.rest_sub_sum_part_lt hp.weights (freeWeight_sharesAt ▸ hpos)

end Level

section Dust

variable {maxAlloc : Option ℤ} {dust : ℤ} {shares : List Share}

theorem giveDust_le (hc : capped maxAlloc = true) (h : ∀ s ∈ shares, s.amount ≤ value maxAlloc) :
    ∀ s ∈ giveDust maxAlloc dust shares, s.amount ≤ value maxAlloc := by
  induction shares with
  | nil => exact h
  | cons s rest ih =>
    obtain ⟨hs, hrest⟩ := List.forall_mem_cons.mp h
    unfold giveDust
    split
    · next habsorbs =>
      refine List.forall_mem_cons.mpr ⟨?_, hrest⟩
      simp only [Share.absorbs, hc, Bool.true_and, Bool.and_eq_true, Bool.not_eq_true',
        decide_eq_false_iff_not, not_lt] at habsorbs
      exact habsorbs.2
    · exact List.forall_mem_cons.mpr ⟨hs, ih hrest⟩

theorem sum_giveDust (h : ∃ s ∈ shares, s.absorbs maxAlloc dust = true) :
    ((giveDust maxAlloc dust shares).map Share.amount).sum = (shares.map Share.amount).sum + dust := by
  induction shares with
  | nil => simp at h
  | cons s rest ih =>
    unfold giveDust
    split
    · simp only [List.map_cons, List.sum_cons]
      ring
    · next habsorbs =>
      obtain ⟨t, ht, htake⟩ := h
      have htail : t ∈ rest := by
        rcases List.mem_cons.mp ht with rfl | ht
        · exact absurd htake habsorbs
        · exact ht
      simp only [List.map_cons, List.sum_cons, ih ⟨t, htail, htake⟩]
      ring

theorem dustPlaced (hcap : capped p.maxAlloc = true → ∀ s ∈ shares, s.amount ≤ value p.maxAlloc)
    (hspent : (shares.map Share.amount).sum ≤ value p.totalBudget) : p.DustPlaced shares := by
  constructor
  · intro hc
    unfold distributeDust
    split
    · exact hcap hc
    · exact giveDust_le hc (hcap hc)
  · unfold distributeDust
    split
    · next hdust =>
      left
      unfold dustOf at hdust
      omega
    · by_cases htake : ∃ s ∈ shares, s.absorbs p.maxAlloc (dustOf p shares) = true
      · left
        rw [sum_giveDust htake, dustOf]
        ring
      · refine .inr (.inr fun s hs => ?_)
        obtain ⟨hs, hfree⟩ := List.mem_filter.mp hs
        simp only [Bool.and_eq_true, Bool.not_eq_true', decide_eq_true_eq] at hfree
        have hrefuse := fun habsorbs => htake ⟨s, hs, habsorbs⟩
        simpa [Share.absorbs, hfree.1, hfree.2.ne'] using hrefuse

end Dust

theorem Policy.EndsAt.sharesAt_le (h : p.EndsAt level) (hc : capped p.maxAlloc = true) :
    ∀ s ∈ p.sharesAt level, s.amount ≤ value p.maxAlloc := by
  have hcap : p.split.cap = value p.maxAlloc := if_pos hc
  rw [forall_mem_sharesAt]
  intro e he
  rw [Policy.shareAt, ← hcap]
  split_ifs with hl
  · exact le_rfl
  · exact h.isLevel.fits e he (not_lt.mp hl)

/-- The weighted split is the division of the budget that holds the heaviest rows at the cap. -/
theorem weighted_water_filling (hv : validate cfg p = .ok ()) (hm : p.mode = modeWeighted) :
    ∃ shares passes, p.LoopEnds passes (value p.totalBudget) (p.entries.map Share.ofEntry) shares ∧
      passes ≤ (p.entries.filter (fun e => decide (0 < value e.weight))).length + 1 ∧
      weightedShares p = .ok shares ∧
      computeAmounts p = .ok ((distributeDust p shares).map Share.allocation) ∧
      p.WaterFilled shares ∧ p.DustPlaced shares := by
  have hp := Policy.Valid.of_validate hv
  obtain ⟨level, passes, hlevel, hpasses, hends⟩ := exists_loopEnds hp
  have hshares := weightedShares_of_loopEnds hpasses hends
  obtain ⟨shares', hshares', -, hspent, -⟩ := weightedShares_ok hp
  cases hshares.symm.trans hshares'
  refine ⟨_, passes, hends, hpasses, hshares, ?_, hlevel.waterFilled hp,
    dustPlaced (fun hc => hlevel.sharesAt_le hc) hspent⟩
  have h10 : modeWeighted ≠ modeExplicit := by decide
  rw [computeAmounts, if_neg (hm ▸ h10), if_pos hm, weightedAmounts, hshares]
  rfl

section Sample

def surplusPolicy : Policy where
  contractAddr := 7
  roundId := some 1
  organization := 5
  mode := modeWeighted
  totalBudget := some 2
  minAlloc := none
  maxAlloc := some 1
  bands := []
  salt := 0
  entries := [⟨1, some 1, some 0⟩]

def surplusConfig : EngineConfig := ⟨7, true, 0⟩

/-- The heavy row is held at the cap, the others share what it leaves, and one unit of dust is left over. -/
def unevenPolicy : Policy :=
  { surplusPolicy with
    totalBudget := some 11
    maxAlloc := some 6
    entries := [⟨3, some 4, some 0⟩, ⟨1, some 1, some 0⟩, ⟨2, some 1, some 0⟩] }

def unevenShares : List Share := [⟨3, 4, 6, true⟩, ⟨1, 1, 2, false⟩, ⟨2, 1, 2, false⟩]

theorem weighted_water_filling_sample : validate surplusConfig unevenPolicy = .ok () ∧
    weightedShares unevenPolicy = .ok unevenShares ∧ dustOf unevenPolicy unevenShares = 1 ∧
    distributeDust unevenPolicy unevenShares = [⟨3, 4, 6, true⟩, ⟨1, 1, 3, false⟩, ⟨2, 1, 2, false⟩] ∧
    unevenPolicy.WaterFilled unevenShares ∧ unevenPolicy.DustPlaced unevenShares ∧
    ∃ passes, passes ≤ 4 ∧ unevenPolicy.LoopEnds passes 11 (unevenPolicy.entries.map Share.ofEntry) unevenShares := by
  have hv : validate surplusConfig unevenPolicy = .ok () := by decide
  have hshares : weightedShares unevenPolicy = .ok unevenShares := by decide
  obtain ⟨shares, passes, hends, hpasses, hshares', -, hfilled, hplaced⟩ := weighted_water_filling hv rfl
  obtain rfl := Except.ok.inj (hshares'.symm.trans hshares)
  exact ⟨hv, hshares, by decide, by decide, hfilled, hplaced, passes, hpasses, hends⟩

/-- Where every row of positive weight is held, the remainder is a true surplus. -/
theorem surplus_not_below_freeRows : validate surplusConfig surplusPolicy = .ok () ∧
    surplusPolicy.mode = modeWeighted ∧ ∃ shares, weightedShares surplusPolicy = .ok shares ∧
      ¬ dustOf surplusPolicy shares < (freeRows shares).length :=
  ⟨by decide, rfl, [⟨1, 1, 1, true⟩], by decide, by decide⟩

end Sample

end Fidensur
