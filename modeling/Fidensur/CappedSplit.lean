import Mathlib

set_option autoImplicit false

/-! A budget divided among rows in proportion to their weights, where no row gets more than a cap:
the rows heavier than a bound are held at the cap and the others share the rest. -/

structure CappedSplit (ι : Type) where
  budget : ℤ
  cap : ℤ
  rows : List ι
  weight : ι → ℤ

namespace CappedSplit

variable {ι : Type} (S : CappedSplit ι) (bound : ℤ)

def held : ℤ := (S.rows.map (fun x => if bound < S.weight x then 1 else 0)).sum

def freeWeight : ℤ := (S.rows.map (fun x => if bound < S.weight x then 0 else S.weight x)).sum

def rest : ℤ := S.budget - S.cap * S.held bound

/-- The proportional part of a row in what the held rows leave, rounded down. -/
def part (x : ι) : ℤ := S.rest bound * S.weight x / S.freeWeight bound

def Fits : Prop := ∀ x ∈ S.rows, S.weight x ≤ bound → S.part bound x ≤ S.cap

/-- No row is held that some fitting bound leaves free. -/
structure IsLevel : Prop where
  fits : S.Fits bound
  least : ∀ bound', S.Fits bound' → ∀ x ∈ S.rows, bound < S.weight x → bound' < S.weight x

def lower : ℤ :=
  if S.rest bound ≤ 0 then bound
  else min bound (((S.cap + 1) * S.freeWeight bound - 1) / S.rest bound)

variable {S bound}

theorem lt_part_iff (hfree : 0 < S.freeWeight bound) {x : ι} :
    S.cap < S.part bound x ↔ (S.cap + 1) * S.freeWeight bound ≤ S.rest bound * S.weight x := by
  rw [part, ← Int.add_one_le_iff, Int.le_ediv_iff_mul_le hfree]

theorem lower_le : S.lower bound ≤ bound := by
  unfold lower
  split
  · exact le_rfl
  · exact min_le_left _ _

theorem lower_lt_iff (hcap : 0 ≤ S.cap) (hrest : 0 ≤ S.rest bound) (hfree : 0 < S.freeWeight bound)
    {x : ι} (hx : S.weight x ≤ bound) : S.lower bound < S.weight x ↔ S.cap < S.part bound x := by
  rw [lt_part_iff hfree]
  unfold lower
  split
  · next hzero =>
    have hrest : S.rest bound = 0 := le_antisymm hzero hrest
    have hpos : 0 < (S.cap + 1) * S.freeWeight bound := mul_pos (by omega) hfree
    rw [hrest, zero_mul]
    omega
  · next hpos =>
    rw [min_lt_iff, or_iff_right (not_lt.mpr hx), ← not_le, Int.le_ediv_iff_mul_le (not_le.mp hpos),
      mul_comm (S.weight x)]
    omega

theorem freeWeight_nonneg (hw : ∀ x ∈ S.rows, 0 ≤ S.weight x) : 0 ≤ S.freeWeight bound := by
  apply List.sum_nonneg
  rw [List.forall_mem_map]
  intro x hx
  split
  · exact le_rfl
  · exact hw x hx

theorem weight_le_freeWeight (hw : ∀ x ∈ S.rows, 0 ≤ S.weight x) {x : ι} (hx : x ∈ S.rows)
    (hfree : S.weight x ≤ bound) : S.weight x ≤ S.freeWeight bound := by
  have hnonneg : ∀ n ∈ S.rows.map (fun x => if bound < S.weight x then 0 else S.weight x), 0 ≤ n := by
    rw [List.forall_mem_map]
    intro y hy
    split
    · exact le_rfl
    · exact hw y hy
  have hmem := List.mem_map_of_mem (f := fun x => if bound < S.weight x then 0 else S.weight x) hx
  rw [if_neg (not_lt.mpr hfree)] at hmem
  exact List.single_le_sum hnonneg _ hmem

/-- Holding further rows, none lighter than a given one, costs no more than it frees. -/
theorem free_and_held_le {bound' : ℤ} (hcap : 0 ≤ S.cap) {x : ι} (hx : S.weight x ≤ bound')
    (hpos : 0 ≤ S.weight x) (hsub : ∀ y ∈ S.rows, bound < S.weight y → bound' < S.weight y) :
    (S.cap + 1) * S.freeWeight bound' + S.cap * S.weight x * S.held bound' ≤
      (S.cap + 1) * S.freeWeight bound + S.cap * S.weight x * S.held bound := by
  simp only [freeWeight, held, ← List.sum_map_mul_left, ← List.sum_map_add]
  apply List.sum_le_sum
  intro y hy
  by_cases h : bound < S.weight y
  · simp [h, hsub y hy h]
  · by_cases h' : bound' < S.weight y
    · have hle : S.weight x ≤ S.weight y := hx.trans h'.le
      simp only [h, h', if_true, if_false, mul_zero, mul_one, zero_add, add_zero]
      nlinarith
    · simp [h, h']

theorem Fits.lt_weight {bound' : ℤ} (hfits : S.Fits bound') (hcap : 0 ≤ S.cap)
    (hw : ∀ x ∈ S.rows, 0 ≤ S.weight x) (hfree : 0 < S.freeWeight bound)
    (hsub : ∀ y ∈ S.rows, bound < S.weight y → bound' < S.weight y) {x : ι} (hx : x ∈ S.rows)
    (hover : S.cap < S.part bound x) : bound' < S.weight x := by
  by_contra hle
  have hle := not_lt.mp hle
  have hover := (lt_part_iff hfree).mp hover
  have hne : S.weight x ≠ 0 := by
    intro hzero
    rw [hzero, mul_zero] at hover
    have : 0 < (S.cap + 1) * S.freeWeight bound := mul_pos (by omega) hfree
    omega
  have hpos : 0 < S.weight x := lt_of_le_of_ne (hw x hx) hne.symm
  have hfree' : 0 < S.freeWeight bound' := hpos.trans_le (weight_le_freeWeight hw hx hle)
  have hcost := free_and_held_le hcap hle hpos.le hsub
  have hover' : S.cap < S.part bound' x := by
    rw [lt_part_iff hfree']
    calc (S.cap + 1) * S.freeWeight bound'
        ≤ (S.cap + 1) * S.freeWeight bound + S.cap * S.weight x * S.held bound -
            S.cap * S.weight x * S.held bound' := by linarith
      _ ≤ S.rest bound * S.weight x + S.cap * S.weight x * S.held bound -
            S.cap * S.weight x * S.held bound' := by linarith
      _ = S.rest bound' * S.weight x := by
          unfold rest
          ring
  exact absurd hover' (not_lt.mpr (hfits x hx hle))

theorem held_congr {bound' : ℤ} (h : ∀ x ∈ S.rows, bound < S.weight x ↔ bound' < S.weight x) :
    S.held bound = S.held bound' :=
  congrArg List.sum (List.map_congr_left fun x hx => if_congr (h x hx) rfl rfl)

theorem freeWeight_congr {bound' : ℤ} (h : ∀ x ∈ S.rows, bound < S.weight x ↔ bound' < S.weight x) :
    S.freeWeight bound = S.freeWeight bound' :=
  congrArg List.sum (List.map_congr_left fun x hx => if_congr (h x hx) rfl rfl)

theorem IsLevel.lt_iff {bound' : ℤ} (h : S.IsLevel bound) (h' : S.IsLevel bound') {x : ι}
    (hx : x ∈ S.rows) : bound < S.weight x ↔ bound' < S.weight x :=
  ⟨h.least _ h'.fits x hx, h'.least _ h.fits x hx⟩

/-- All levels hold the same rows and leave the others the same parts. -/
theorem IsLevel.part_eq {bound' : ℤ} (h : S.IsLevel bound) (h' : S.IsLevel bound') :
    S.part bound = S.part bound' := by
  have hiff : ∀ x ∈ S.rows, bound < S.weight x ↔ bound' < S.weight x := fun x => h.lt_iff h'
  funext x
  rw [part, part, rest, rest, held_congr hiff, freeWeight_congr hiff]

section Saturation

/-- Every held row would get more than the cap if it were given its part now. -/
def Saturated (S : CappedSplit ι) (bound : ℤ) : Prop :=
  ∀ x ∈ S.rows, bound < S.weight x → (S.cap + 1) * S.freeWeight bound ≤ S.rest bound * S.weight x

theorem held_and_free_le {bound' price rate : ℤ}
    (hsub : ∀ y ∈ S.rows, bound < S.weight y → bound' < S.weight y)
    (hnew : ∀ y ∈ S.rows, ¬ bound < S.weight y → bound' < S.weight y → price ≤ rate * S.weight y) :
    price * S.held bound' + rate * S.freeWeight bound' ≤
      price * S.held bound + rate * S.freeWeight bound := by
  simp only [freeWeight, held, ← List.sum_map_mul_left, ← List.sum_map_add]
  apply List.sum_le_sum
  intro y hy
  by_cases h : bound < S.weight y
  · simp [h, hsub y hy h]
  · by_cases h' : bound' < S.weight y
    · simpa [h, h'] using hnew y hy h h'
    · simp [h, h']

theorem rest_mul_freeWeight_le {bound' : ℤ}
    (hsub : ∀ y ∈ S.rows, bound < S.weight y → bound' < S.weight y)
    (hnew : ∀ y ∈ S.rows, ¬ bound < S.weight y → bound' < S.weight y →
      S.cap * S.freeWeight bound ≤ S.rest bound * S.weight y) :
    S.rest bound * S.freeWeight bound' ≤ S.rest bound' * S.freeWeight bound := by
  have hspend := held_and_free_le hsub hnew
  have hrest : S.rest bound' = S.rest bound + S.cap * S.held bound - S.cap * S.held bound' := by
    unfold rest
    ring
  rw [hrest]
  linarith

theorem Saturated.lower (h : S.Saturated bound) (hcap : 0 ≤ S.cap) (hw : ∀ x ∈ S.rows, 0 ≤ S.weight x)
    (hrest : 0 ≤ S.rest bound) (hfree : 0 < S.freeWeight bound) : S.Saturated (S.lower bound) := by
  have hover {y : ι} (hy : y ∈ S.rows) (hl : S.lower bound < S.weight y) :
      (S.cap + 1) * S.freeWeight bound ≤ S.rest bound * S.weight y := by
    by_cases hb : bound < S.weight y
    · exact h y hy hb
    · exact (lt_part_iff hfree).mp ((lower_lt_iff hcap hrest hfree (not_lt.mp hb)).mp hl)
  have hrate : S.rest bound * S.freeWeight (S.lower bound) ≤ S.rest (S.lower bound) * S.freeWeight bound := by
    apply rest_mul_freeWeight_le (fun y _ hb => lower_le.trans_lt hb)
    intro y hy _ hl
    have := hover hy hl
    linarith
  intro x hx hl
  have hlow : 0 ≤ S.freeWeight (S.lower bound) := freeWeight_nonneg hw
  refine le_of_mul_le_mul_right ?_ hfree
  calc (S.cap + 1) * S.freeWeight (S.lower bound) * S.freeWeight bound
      = (S.cap + 1) * S.freeWeight bound * S.freeWeight (S.lower bound) := by ring
    _ ≤ S.rest bound * S.weight x * S.freeWeight (S.lower bound) :=
        mul_le_mul_of_nonneg_right (hover hx hl) hlow
    _ = S.rest bound * S.freeWeight (S.lower bound) * S.weight x := by ring
    _ ≤ S.rest (S.lower bound) * S.freeWeight bound * S.weight x :=
        mul_le_mul_of_nonneg_right hrate (hw x hx)
    _ = S.rest (S.lower bound) * S.weight x * S.freeWeight bound := by ring

theorem Saturated.lt_part (h : S.Saturated bound) (hfree : 0 < S.freeWeight bound) {x : ι} (hx : x ∈ S.rows)
    (hheld : bound < S.weight x) : S.cap < S.part bound x :=
  (lt_part_iff hfree).mpr (h x hx hheld)

def freeCount (S : CappedSplit ι) (bound : ℤ) : ℤ :=
  (S.rows.map (fun x => if bound < S.weight x ∨ S.weight x = 0 then (0 : ℤ) else 1)).sum

theorem mul_freeWeight_le {amount total : ℤ} (htotal : 0 < total) :
    amount * S.freeWeight bound ≤
      total * (S.rows.map (fun x => if bound < S.weight x then 0 else amount * S.weight x / total)).sum +
        (total - 1) * S.freeCount bound := by
  simp only [freeWeight, freeCount, ← List.sum_map_mul_left, ← List.sum_map_add]
  apply List.sum_le_sum
  intro x _
  by_cases hb : bound < S.weight x
  · simp [hb]
  · by_cases hzero : S.weight x = 0
    · simp [hzero]
    · have hmod := Int.emod_lt_of_pos (amount * S.weight x) htotal
      have hdiv := Int.mul_ediv_add_emod (amount * S.weight x) total
      simp only [hb, hzero, or_self, if_false]
      linarith

theorem freeCount_pos (hw : ∀ x ∈ S.rows, 0 ≤ S.weight x) (hfree : 0 < S.freeWeight bound) :
    0 < S.freeCount bound := by
  have hle : (S.rows.map (fun x => if bound < S.weight x then 0 else S.weight x)).sum ≤
      S.freeWeight bound * S.freeCount bound := by
    rw [freeCount, ← List.sum_map_mul_left]
    apply List.sum_le_sum
    intro x hx
    by_cases hb : bound < S.weight x
    · simp [hb]
    · by_cases hzero : S.weight x = 0
      · simp [hzero]
      · simpa [hb, hzero] using weight_le_freeWeight hw hx (not_lt.mp hb)
  exact pos_of_mul_pos_right (hfree.trans_le hle) hfree.le

/-- What the truncations lose together is less than the number of free rows of positive weight. -/
theorem rest_sub_sum_part_lt (hw : ∀ x ∈ S.rows, 0 ≤ S.weight x) (hfree : 0 < S.freeWeight bound) :
    S.rest bound - (S.rows.map (fun x => if bound < S.weight x then 0 else S.part bound x)).sum <
      S.freeCount bound := by
  have hlost : S.rest bound * S.freeWeight bound ≤ S.freeWeight bound *
      (S.rows.map (fun x => if bound < S.weight x then 0 else S.part bound x)).sum +
        (S.freeWeight bound - 1) * S.freeCount bound := mul_freeWeight_le hfree
  have hpos := freeCount_pos hw hfree
  refine lt_of_mul_lt_mul_left ?_ hfree.le
  linarith

end Saturation

section Budget

def withBudget (S : CappedSplit ι) (budget : ℤ) : CappedSplit ι := { S with budget := budget }

variable {budget level level' : ℤ}

theorem rest_withBudget (bound : ℤ) : (S.withBudget budget).rest bound = budget - S.budget + S.rest bound := by
  change budget - S.cap * S.held bound = _
  unfold rest
  ring

theorem part_le_part_withBudget (hbudget : S.budget ≤ budget) (hw : ∀ x ∈ S.rows, 0 ≤ S.weight x) {x : ι}
    (hx : x ∈ S.rows) : S.part bound x ≤ (S.withBudget budget).part bound x := by
  change S.rest bound * S.weight x / S.freeWeight bound ≤
    (S.withBudget budget).rest bound * S.weight x / S.freeWeight bound
  have hfree : 0 ≤ S.freeWeight bound := freeWeight_nonneg hw
  rcases hfree.eq_or_lt with hzero | hpos
  · rw [← hzero, Int.ediv_zero, Int.ediv_zero]
  · apply Int.ediv_le_ediv hpos
    apply mul_le_mul_of_nonneg_right _ (hw x hx)
    rw [rest_withBudget]
    omega

theorem IsLevel.held_withBudget (h : S.IsLevel level) (h' : (S.withBudget budget).Fits level')
    (hbudget : S.budget ≤ budget) (hw : ∀ x ∈ S.rows, 0 ≤ S.weight x) {x : ι} (hx : x ∈ S.rows)
    (hheld : level < S.weight x) : level' < S.weight x := by
  refine h.least level' (fun y hy hfree => ?_) x hx hheld
  exact (part_le_part_withBudget hbudget hw hy).trans (h' y hy hfree)

theorem IsLevel.rate_le (h : S.IsLevel level) (h' : (S.withBudget budget).IsLevel level')
    (hsat : (S.withBudget budget).Saturated level') (hbudget : S.budget ≤ budget)
    (hw : ∀ x ∈ S.rows, 0 ≤ S.weight x) (hfree : 0 < S.freeWeight level) (hfree' : 0 < S.freeWeight level') :
    S.rest level * S.freeWeight level' ≤ (S.withBudget budget).rest level' * S.freeWeight level := by
  by_contra hrate
  have hrate := not_le.mp hrate
  -- a row held only under the larger budget would exceed the cap at the higher rate of the smaller one
  have hsame : ∀ y ∈ S.rows, level < S.weight y ↔ level' < S.weight y := by
    intro y hy
    refine ⟨h.held_withBudget h'.fits hbudget hw hy, fun hheld => ?_⟩
    by_contra hle
    have hover : (S.cap + 1) * S.freeWeight level' ≤ (S.withBudget budget).rest level' * S.weight y :=
      hsat y hy hheld
    have hover' : S.cap < S.part level y := by
      rw [lt_part_iff hfree]
      refine le_of_mul_le_mul_right ?_ hfree'
      calc (S.cap + 1) * S.freeWeight level * S.freeWeight level'
          = (S.cap + 1) * S.freeWeight level' * S.freeWeight level := by ring
        _ ≤ (S.withBudget budget).rest level' * S.weight y * S.freeWeight level :=
            mul_le_mul_of_nonneg_right hover hfree.le
        _ = (S.withBudget budget).rest level' * S.freeWeight level * S.weight y := by ring
        _ ≤ S.rest level * S.freeWeight level' * S.weight y :=
            mul_le_mul_of_nonneg_right hrate.le (hw y hy)
        _ = S.rest level * S.weight y * S.freeWeight level' := by ring
    exact not_lt.mpr (h.fits y hy (not_lt.mp hle)) hover'
  have hrest : S.rest level ≤ (S.withBudget budget).rest level' := by
    rw [rest_withBudget, rest, rest, held_congr hsame]
    omega
  rw [freeWeight_congr hsame] at hrate
  exact not_lt.mpr (mul_le_mul_of_nonneg_right hrest hfree'.le) hrate

theorem IsLevel.part_le_withBudget (h : S.IsLevel level) (h' : (S.withBudget budget).IsLevel level')
    (hsat : (S.withBudget budget).Saturated level') (hbudget : S.budget ≤ budget)
    (hw : ∀ x ∈ S.rows, 0 ≤ S.weight x) {x : ι} (hx : x ∈ S.rows) (hle : S.weight x ≤ level)
    (hle' : S.weight x ≤ level') : S.part level x ≤ (S.withBudget budget).part level' x := by
  change S.rest level * S.weight x / S.freeWeight level ≤
    (S.withBudget budget).rest level' * S.weight x / S.freeWeight level'
  rcases (hw x hx).eq_or_lt with hzero | hpos
  · rw [← hzero, mul_zero, mul_zero, Int.zero_ediv, Int.zero_ediv]
  · have hfree : 0 < S.freeWeight level := hpos.trans_le (weight_le_freeWeight hw hx hle)
    have hfree' : 0 < S.freeWeight level' := hpos.trans_le (weight_le_freeWeight hw hx hle')
    have hrate := h.rate_le h' hsat hbudget hw hfree hfree'
    rw [Int.le_ediv_iff_mul_le hfree']
    refine le_of_mul_le_mul_right ?_ hfree
    have hdiv := Int.ediv_mul_le (S.rest level * S.weight x) hfree.ne'
    calc S.rest level * S.weight x / S.freeWeight level * S.freeWeight level' * S.freeWeight level
        = S.rest level * S.weight x / S.freeWeight level * S.freeWeight level * S.freeWeight level' := by ring
      _ ≤ S.rest level * S.weight x * S.freeWeight level' := mul_le_mul_of_nonneg_right hdiv hfree'.le
      _ = S.rest level * S.freeWeight level' * S.weight x := by ring
      _ ≤ (S.withBudget budget).rest level' * S.freeWeight level * S.weight x :=
          mul_le_mul_of_nonneg_right hrate hpos.le
      _ = (S.withBudget budget).rest level' * S.weight x * S.freeWeight level := by ring

end Budget

end CappedSplit
