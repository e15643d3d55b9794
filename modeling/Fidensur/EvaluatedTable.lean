import Fidensur.WaterFilling

set_option autoImplicit false

/-! What a validated policy evaluates to, in every mode. -/

namespace Fidensur

variable {cfg : EngineConfig} {p : Policy} {amounts table : List Allocation}

structure Policy.WellFormed (p : Policy) (amounts table : List Allocation) : Prop where
  ordered : table.Pairwise (fun a b => a.recipient < b.recipient)
  indexed : ∀ i, (hi : i < table.length) → table[i].index = i
  distinct : (table.map Allocation.recipient).Nodup
  recipients : ∀ a ∈ table, a.recipient ≠ 0 ∧ a.recipient ∈ p.entries.map PolicyEntry.recipient
  positive : ∀ a ∈ table, 0 < a.amount
  floor (h : capped p.minAlloc = true) : ∀ a ∈ table, value p.minAlloc ≤ a.amount
  cap (h : capped p.maxAlloc = true) : ∀ a ∈ table, a.amount ≤ value p.maxAlloc
  computed : ∀ a ∈ table, a.row ∈ amounts.map Allocation.row
  complete : ∀ a ∈ amounts, keeps p.minAlloc a.amount = true → a.row ∈ table.map Allocation.row
  budget : sumAllocations table ≤ value p.totalBudget

section Amounts

theorem capAmount_le_cap {maxAlloc : Option ℤ} (h : capped maxAlloc = true) (amount : ℤ) :
    capAmount maxAlloc amount ≤ value maxAlloc := by
  unfold capAmount
  split
  · exact le_rfl
  · next hle => exact not_lt.mp fun hlt => hle ⟨h, hlt⟩

theorem computeAmounts_le (hp : p.Valid cfg) (hc : capped p.maxAlloc = true)
    (h : computeAmounts p = .ok amounts) : ∀ a ∈ amounts, a.amount ≤ value p.maxAlloc := by
  have h10 : modeWeighted ≠ modeExplicit := by decide
  have h20 : modeTiered ≠ modeExplicit := by decide
  have h21 : modeTiered ≠ modeWeighted := by decide
  cases hp.mode with
  | explicit hm =>
    rw [computeAmounts, if_pos hm] at h
    cases h
    exact List.forall_mem_map.mpr fun e _ => capAmount_le_cap hc _
  | weighted hm =>
    obtain ⟨level, passes, hlevel, hpasses, hends⟩ := exists_loopEnds hp
    have hshares := weightedShares_of_loopEnds hpasses hends
    rw [computeAmounts, if_neg (hm ▸ h10), if_pos hm, weightedAmounts, hshares] at h
    cases h
    obtain ⟨shares, hshares', -, hspent, -⟩ := weightedShares_ok hp
    cases hshares.symm.trans hshares'
    exact List.forall_mem_map.mpr ((dustPlaced (fun hc => hlevel.sharesAt_le hc) hspent).cap hc)
  | tiered hm hbands hindex =>
    rw [computeAmounts, if_neg (hm ▸ h20), if_neg (hm ▸ h21), if_pos hm, tieredAmounts_ok hindex] at h
    cases h
    exact List.forall_mem_map.mpr fun e _ => capAmount_le_cap hc _

end Amounts

section Table

theorem map_recipient_assignIndices (rows : List Allocation) :
    (assignIndices rows).map Allocation.recipient = rows.map Allocation.recipient := by
  have h := congrArg (List.map Prod.fst) (map_row_assignIndices rows)
  rwa [List.map_map, List.map_map] at h

theorem sorted_insertionSort {rows : List Allocation} (hn : (rows.map Allocation.recipient).Nodup) :
    ((rows.insertionSort byRecipient).map Allocation.recipient).Pairwise (· < ·) := by
  have htotal : Std.Total byRecipient := ⟨fun a b => le_total a.recipient b.recipient⟩
  have htrans : IsTrans Allocation byRecipient := ⟨fun a b c hab hbc => le_trans (α := Address) hab hbc⟩
  have hle : ((rows.insertionSort byRecipient).map Allocation.recipient).Pairwise (· ≤ ·) :=
    List.pairwise_map.mpr (List.pairwise_insertionSort _ _)
  have hne : ((rows.insertionSort byRecipient).map Allocation.recipient).Nodup :=
    ((List.perm_insertionSort _ _).map _).nodup_iff.mpr hn
  exact (hle.and hne).imp fun h => lt_of_le_of_ne h.1 h.2

theorem kept_eq_nil_iff (hnonneg : ∀ a ∈ amounts, 0 ≤ a.amount) : p.kept amounts = [] ↔
    ∀ a ∈ amounts, a.amount = 0 ∨ capped p.minAlloc = true ∧ a.amount < value p.minAlloc := by
  rw [Policy.kept, List.filter_eq_nil_iff]
  apply forall₂_congr
  intro a ha
  have := hnonneg a ha
  simp only [keeps, Bool.and_eq_true, decide_eq_true_eq, Bool.not_eq_true', Bool.and_eq_false_iff,
    decide_eq_false_iff_not, not_and, not_or, not_not, Bool.not_eq_false]
  constructor
  · intro h
    by_cases hzero : a.amount = 0
    · exact .inl hzero
    · exact .inr (h (by omega))
  · rintro (hzero | h) hpos
    · omega
    · exact h

theorem tabulate_wellFormed (hp : p.Valid cfg) (hamounts : computeAmounts p = .ok amounts)
    (hrecipients : amounts.map Allocation.recipient = p.entries.map PolicyEntry.recipient)
    (h : tabulate p amounts = .ok table) : p.WellFormed amounts table := by
  have hrows := map_row_of_tabulate h
  have hmem {a : Allocation} (ha : a ∈ table) : ∃ b ∈ amounts, keeps p.minAlloc b.amount = true ∧ b.row = a.row := by
    obtain ⟨b, hb, hab⟩ := List.mem_map.mp (hrows.mem_iff.mp (List.mem_map_of_mem (f := Allocation.row) ha))
    obtain ⟨hb, hkeep⟩ := List.mem_filter.mp hb
    exact ⟨b, hb, hkeep, hab⟩
  have hkept : ((p.kept amounts).map Allocation.recipient).Nodup := by
    refine List.Nodup.sublist (List.filter_sublist.map _) ?_
    rw [hrecipients]
    exact hp.distinct
  simp only [tabulate, bind_ok, require_ok, exists_const] at h
  obtain ⟨-, hbudget, h⟩ := h
  cases h
  have hsorted := sorted_insertionSort hkept
  rw [← map_recipient_assignIndices] at hsorted
  refine ⟨List.pairwise_map.mp hsorted, ?_, hsorted.imp fun h => h.ne, ?_, ?_, ?_, ?_, ?_, ?_, hbudget⟩
  · intro i hi
    simp [assignIndices]
  · intro a ha
    obtain ⟨b, hb, -, hrow⟩ := hmem ha
    have hrecipient : a.recipient ∈ p.entries.map PolicyEntry.recipient := by
      rw [← hrecipients, ← (Prod.mk.inj hrow).1]
      exact List.mem_map_of_mem hb
    obtain ⟨e, he, heq⟩ := List.mem_map.mp hrecipient
    exact ⟨heq ▸ hp.nonzero e he, hrecipient⟩
  · intro a ha
    obtain ⟨b, -, hkeep, hrow⟩ := hmem ha
    rw [← (Prod.mk.inj hrow).2]
    exact pos_of_keeps hkeep
  · intro hc a ha
    obtain ⟨b, -, hkeep, hrow⟩ := hmem ha
    simp only [keeps, hc, Bool.true_and, Bool.and_eq_true, decide_eq_true_eq, Bool.not_eq_true',
      decide_eq_false_iff_not, not_lt] at hkeep
    rw [← (Prod.mk.inj hrow).2]
    exact hkeep.2
  · intro hc a ha
    obtain ⟨b, hb, -, hrow⟩ := hmem ha
    rw [← (Prod.mk.inj hrow).2]
    exact computeAmounts_le hp hc hamounts b hb
  · intro a ha
    obtain ⟨b, hb, -, hrow⟩ := hmem ha
    exact hrow ▸ List.mem_map_of_mem hb
  · intro a ha hkeep
    exact hrows.mem_iff.mpr (List.mem_map_of_mem (List.mem_filter.mpr ⟨ha, hkeep⟩))

end Table

/-- A validated policy evaluates to a well-formed table of its computed amounts, unless the floor
leaves none of them. -/
theorem validated_policy_tabulated (hv : validate cfg p = .ok ()) :
    ∃ amounts, computeAmounts p = .ok amounts ∧
      amounts.map Allocation.recipient = p.entries.map PolicyEntry.recipient ∧
      ((∃ e, evaluate p = .error e) ↔
        ∀ a ∈ amounts, a.amount = 0 ∨ capped p.minAlloc = true ∧ a.amount < value p.minAlloc) ∧
      (∀ e, evaluate p = .error e → e = .allocatesNothing) ∧
      ∀ table, evaluate p = .ok table → p.WellFormed amounts table := by
  have hp := Policy.Valid.of_validate hv
  obtain ⟨amounts, hamounts, hrecipients, hnonneg, hsum⟩ := computeAmounts_ok hp
  have heval := evaluate_eq_tabulate hamounts
  refine ⟨amounts, hamounts, hrecipients, ?_, fun e he => evaluate_error hp he, fun table htable => ?_⟩
  · rw [← kept_eq_nil_iff hnonneg, heval]
    constructor
    · rintro ⟨e, he⟩
      by_contra hk
      obtain ⟨table, htable⟩ := tabulate_ok hk ((sumAllocations_kept_le hnonneg).trans hsum)
      cases he.symm.trans htable
    · intro hk
      unfold Policy.kept at hk
      refine ⟨.allocatesNothing, ?_⟩
      rw [tabulate, hk]
      rfl
  · exact tabulate_wellFormed hp hamounts hrecipients (heval ▸ htable)

/-- The row that is left without the dust falls below the floor. -/
def flooredPolicy : Policy := { unevenPolicy with minAlloc := some 3 }

theorem validated_policy_tabulated_sample : validate surplusConfig flooredPolicy = .ok () ∧
    computeAmounts flooredPolicy = .ok [⟨0, 3, 6⟩, ⟨0, 1, 3⟩, ⟨0, 2, 2⟩] ∧
    evaluate flooredPolicy = .ok [⟨0, 1, 3⟩, ⟨1, 3, 6⟩] ∧
    flooredPolicy.WellFormed [⟨0, 3, 6⟩, ⟨0, 1, 3⟩, ⟨0, 2, 2⟩] [⟨0, 1, 3⟩, ⟨1, 3, 6⟩] := by
  have hv : validate surplusConfig flooredPolicy = .ok () := by decide
  have hcompute : computeAmounts flooredPolicy = .ok [⟨0, 3, 6⟩, ⟨0, 1, 3⟩, ⟨0, 2, 2⟩] := by decide
  have hevaluate : evaluate flooredPolicy = .ok [⟨0, 1, 3⟩, ⟨1, 3, 6⟩] := by decide
  obtain ⟨amounts, hamounts, -, -, -, htable⟩ := validated_policy_tabulated hv
  obtain rfl := Except.ok.inj (hamounts.symm.trans hcompute)
  exact ⟨hv, hcompute, hevaluate, htable _ hevaluate⟩

end Fidensur
