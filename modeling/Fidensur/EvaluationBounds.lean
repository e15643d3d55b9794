import Fidensur.AllocationTable

set_option autoImplicit false

namespace Fidensur

variable {cfg : EngineConfig} {p : Policy}

theorem capAmount_le (maxAlloc : Option ℤ) (amount : ℤ) : capAmount maxAlloc amount ≤ amount := by
  unfold capAmount
  split
  · next h => exact h.2.le
  · exact le_rfl

theorem value_pos_of_capped {maxAlloc : Option ℤ} (h : capped maxAlloc = true) : 0 < value maxAlloc := by
  cases maxAlloc with
  | none => cases h
  | some m => simpa [capped, value] using h

theorem capAmount_nonneg {maxAlloc : Option ℤ} {amount : ℤ} (h : 0 ≤ amount) :
    0 ≤ capAmount maxAlloc amount := by
  unfold capAmount
  split
  · next hc => exact (value_pos_of_capped hc.1).le
  · exact h

section Spending

variable {remaining : ℤ} {shares : List Share}

theorem Share.pass_weight (maxAlloc : Option ℤ) (remaining weightSum : ℤ) (s : Share) :
    (s.pass maxAlloc remaining weightSum).weight = s.weight := by
  unfold Share.pass
  split
  · rfl
  · dsimp only
    split <;> rfl

theorem Share.pass_recipient (maxAlloc : Option ℤ) (remaining weightSum : ℤ) (s : Share) :
    (s.pass maxAlloc remaining weightSum).recipient = s.recipient := by
  unfold Share.pass
  split
  · rfl
  · dsimp only
    split <;> rfl

theorem Share.pass_nonneg {maxAlloc : Option ℤ} {weightSum : ℤ} (hr : 0 ≤ remaining)
    (hw : 0 ≤ weightSum) {s : Share} (hs : 0 ≤ s.weight) (ha : 0 ≤ s.amount) :
    0 ≤ (s.pass maxAlloc remaining weightSum).amount := by
  unfold Share.pass
  split
  · exact ha
  · dsimp only
    split
    · next hc => exact (value_pos_of_capped hc.1).le
    · exact Int.ediv_nonneg (Int.mul_nonneg hr hs) hw

theorem Share.pass_le (maxAlloc : Option ℤ) {weightSum : ℤ} (hw : 0 < weightSum) (s : Share) :
    (s.pass maxAlloc remaining weightSum).amount * weightSum ≤
      (if s.isCapped then s.amount else 0) * weightSum +
        remaining * (if s.isCapped then 0 else s.weight) := by
  have hshare : remaining * s.weight / weightSum * weightSum ≤ remaining * s.weight :=
    Int.ediv_mul_le _ hw.ne'
  unfold Share.pass
  by_cases hc : s.isCapped = true
  · simp [hc]
  · simp only [hc, Bool.false_eq_true, if_false, zero_mul, zero_add]
    split
    · next hm => exact (Int.mul_le_mul_of_nonneg_right hm.2.le hw.le).trans hshare
    · exact hshare

structure InBudget (p : Policy) (remaining : ℤ) (shares : List Share) : Prop where
  nonneg : 0 ≤ remaining
  budget : remaining + cappedSum shares = value p.totalBudget
  spent : (shares.map Share.amount).sum ≤ value p.totalBudget
  weights : ∀ s ∈ shares, 0 ≤ s.weight
  amounts : ∀ s ∈ shares, 0 ≤ s.amount

theorem freeWeight_pos (hw : ∀ s ∈ shares, 0 ≤ s.weight) (hne : freeWeight shares ≠ 0) :
    0 < freeWeight shares := by
  refine lt_of_le_of_ne (List.sum_nonneg ?_) hne.symm
  intro x hx
  obtain ⟨s, hs, rfl⟩ := List.mem_map.mp hx
  split
  · exact le_rfl
  · exact hw s hs

theorem cappedSum_le (ha : ∀ s ∈ shares, 0 ≤ s.amount) :
    cappedSum shares ≤ (shares.map Share.amount).sum := by
  apply List.sum_le_sum
  intro s hs
  split
  · exact le_rfl
  · exact ha s hs

theorem InBudget.pass (h : InBudget p remaining shares) (hne : freeWeight shares ≠ 0) :
    let next := shares.map (Share.pass p.maxAlloc remaining (freeWeight shares))
    InBudget p (value p.totalBudget - cappedSum next) next := by
  intro next
  have hw := freeWeight_pos h.weights hne
  have hnonneg : ∀ s ∈ next, 0 ≤ s.amount := by
    rw [List.forall_mem_map]
    intro s hs
    exact Share.pass_nonneg h.nonneg hw.le (h.weights s hs) (h.amounts s hs)
  have hspent : (next.map Share.amount).sum * freeWeight shares ≤
      value p.totalBudget * freeWeight shares := by
    calc (next.map Share.amount).sum * freeWeight shares
        = (shares.map (fun s =>
            (s.pass p.maxAlloc remaining (freeWeight shares)).amount * freeWeight shares)).sum := by
          rw [List.sum_map_mul_right, List.map_map]
          rfl
      _ ≤ (shares.map (fun s => (if s.isCapped then s.amount else 0) * freeWeight shares +
            remaining * (if s.isCapped then 0 else s.weight))).sum :=
          List.sum_le_sum (fun s _ => Share.pass_le _ hw s)
      _ = cappedSum shares * freeWeight shares + remaining * freeWeight shares := by
          rw [List.sum_map_add, List.sum_map_mul_right, List.sum_map_mul_left]
          rfl
      _ = value p.totalBudget * freeWeight shares := by
          rw [← h.budget]
          ring
  have hspent := le_of_mul_le_mul_right hspent hw
  refine ⟨by linarith [cappedSum_le hnonneg], by ring, hspent, ?_, hnonneg⟩
  rw [List.forall_mem_map]
  intro s hs
  rw [Share.pass_weight]
  exact h.weights s hs

/-- The capping loop cannot fail, keeps the rows and cannot spend more than the budget. -/
theorem InBudget.weightedLoop (fuel : ℕ) (h : InBudget p remaining shares) :
    ∃ out, weightedLoop p fuel remaining shares = .ok out ∧
      out.map Share.recipient = shares.map Share.recipient ∧
      (out.map Share.amount).sum ≤ value p.totalBudget ∧ ∀ s ∈ out, 0 ≤ s.amount := by
  induction fuel generalizing remaining shares with
  | zero => exact ⟨shares, rfl, rfl, h.spent, h.amounts⟩
  | succ fuel ih =>
    rw [Fidensur.weightedLoop]
    dsimp only
    split
    · exact ⟨shares, rfl, rfl, h.spent, h.amounts⟩
    · next hne =>
      have hnext := h.pass hne
      have hsame : (shares.map (Share.pass p.maxAlloc remaining (freeWeight shares))).map
          Share.recipient = shares.map Share.recipient := by
        rw [List.map_map]
        exact List.map_congr_left (fun s _ => Share.pass_recipient _ _ _ s)
      split
      · exact ⟨_, rfl, hsame, hnext.spent, hnext.amounts⟩
      · rw [if_neg (not_lt.mpr hnext.nonneg)]
        obtain ⟨out, hout, hrecipients, hrest⟩ := ih hnext
        exact ⟨out, hout, hrecipients.trans hsame, hrest⟩

theorem inBudget_ofEntry (hp : p.Valid cfg) :
    InBudget p (value p.totalBudget) (p.entries.map Share.ofEntry) := by
  have hzero : ∀ l : List PolicyEntry, ((l.map Share.ofEntry).map Share.amount).sum = 0 := by
    intro l
    induction l with
    | nil => rfl
    | cons e rest ih => simpa [Share.ofEntry] using ih
  refine ⟨hp.budget.le, ?_, ?_, List.forall_mem_map.mpr hp.weights,
    List.forall_mem_map.mpr fun _ _ => le_rfl⟩
  · rw [add_eq_left, cappedSum]
    apply List.sum_eq_zero
    simp [Share.ofEntry]
  · rw [hzero]
    exact hp.budget.le

theorem weightedShares_ok (hp : p.Valid cfg) : ∃ shares, weightedShares p = .ok shares ∧
    shares.map Share.recipient = p.entries.map PolicyEntry.recipient ∧
    (shares.map Share.amount).sum ≤ value p.totalBudget ∧ ∀ s ∈ shares, 0 ≤ s.amount := by
  have hrows : (p.entries.map Share.ofEntry).map Share.recipient =
      p.entries.map PolicyEntry.recipient := by
    rw [List.map_map]
    rfl
  rw [← hrows]
  exact (inBudget_ofEntry hp).weightedLoop _

theorem sum_giveDust_le {maxAlloc : Option ℤ} {dust : ℤ} (hd : 0 ≤ dust) :
    ((giveDust maxAlloc dust shares).map Share.amount).sum ≤ (shares.map Share.amount).sum + dust := by
  induction shares with
  | nil => simpa [giveDust] using hd
  | cons s rest ih =>
    unfold giveDust
    split <;> simp only [List.map_cons, List.sum_cons] <;> linarith

theorem giveDust_nonneg {maxAlloc : Option ℤ} {dust : ℤ} (hd : 0 ≤ dust)
    (h : ∀ s ∈ shares, 0 ≤ s.amount) : ∀ s ∈ giveDust maxAlloc dust shares, 0 ≤ s.amount := by
  induction shares with
  | nil => exact h
  | cons s rest ih =>
    obtain ⟨hs, hrest⟩ := List.forall_mem_cons.mp h
    unfold giveDust
    split
    · exact List.forall_mem_cons.mpr ⟨add_nonneg hs hd, hrest⟩
    · exact List.forall_mem_cons.mpr ⟨hs, ih hrest⟩

end Spending

/-- In every mode each entry gets an amount, none is negative, and they fit the budget. -/
theorem computeAmounts_ok (hp : p.Valid cfg) : ∃ amounts, computeAmounts p = .ok amounts ∧
    amounts.map Allocation.recipient = p.entries.map PolicyEntry.recipient ∧
    (∀ a ∈ amounts, 0 ≤ a.amount) ∧ sumAllocations amounts ≤ value p.totalBudget := by
  have h10 : modeWeighted ≠ modeExplicit := by decide
  have h20 : modeTiered ≠ modeExplicit := by decide
  have h21 : modeTiered ≠ modeWeighted := by decide
  cases hp.mode with
  | explicit hm hfits =>
    refine ⟨explicitAmounts p, by rw [computeAmounts, if_pos hm], ?_, ?_, ?_⟩
    · rw [explicitAmounts, List.map_map]
      rfl
    · exact List.forall_mem_map.mpr fun e he => capAmount_nonneg (hp.amounts e he)
    · refine le_trans ?_ hfits
      rw [sumAllocations, explicitAmounts, List.map_map]
      exact List.sum_le_sum (fun e _ => capAmount_le _ _)
  | weighted hm =>
    obtain ⟨shares, hshares, hrows, hsum, hnonneg⟩ := weightedShares_ok hp
    refine ⟨(distributeDust p shares).map Share.allocation, ?_, ?_, ?_, ?_⟩
    · rw [computeAmounts, if_neg (hm ▸ h10), if_pos hm, weightedAmounts, hshares]
      rfl
    · rw [List.map_map, ← hrows]
      exact map_recipient_distributeDust
    · rw [List.forall_mem_map]
      unfold distributeDust
      split
      · exact hnonneg
      · next hd => exact giveDust_nonneg (not_le.mp hd).le hnonneg
    · rw [sumAllocations, List.map_map]
      change ((distributeDust p shares).map Share.amount).sum ≤ _
      unfold distributeDust
      split
      · exact hsum
      · next hd =>
        refine (sum_giveDust_le (not_le.mp hd).le).trans ?_
        rw [dustOf]
        linarith
  | tiered hm hbands hindex hfits =>
    refine ⟨p.entries.map p.banded, ?_, ?_, ?_, ?_⟩
    · rw [computeAmounts, if_neg (hm ▸ h20), if_neg (hm ▸ h21), if_pos hm, tieredAmounts_ok hindex]
    · rw [List.map_map]
      rfl
    · exact List.forall_mem_map.mpr fun e _ => capAmount_nonneg (tierOf_nonneg hbands e)
    · refine le_trans ?_ hfits
      rw [sumAllocations, List.map_map]
      exact List.sum_le_sum (fun e _ => capAmount_le _ _)

theorem evaluate_eq_tabulate {amounts : List Allocation} (h : computeAmounts p = .ok amounts) :
    evaluate p = tabulate p amounts := by
  rw [evaluate, h]
  rfl

theorem evaluate_error (hp : p.Valid cfg) {e : PolicyError} (h : evaluate p = .error e) :
    e = .allocatesNothing := by
  obtain ⟨amounts, hamounts, -, hnonneg, hsum⟩ := computeAmounts_ok hp
  rw [evaluate_eq_tabulate hamounts] at h
  by_cases hk : p.kept amounts = []
  · rw [tabulate] at h
    unfold Policy.kept at hk
    rw [hk] at h
    exact (Except.error.inj h).symm
  · obtain ⟨table, htable⟩ := tabulate_ok hk ((sumAllocations_kept_le hnonneg).trans hsum)
    rw [htable] at h
    cases h

structure Policy.Tabulated (p : Policy) (table : List Allocation) : Prop where
  nonempty : table ≠ []
  count : table.length ≤ p.entries.length
  indexed : ∀ i, (hi : i < table.length) → table[i].index = i
  distinct : (table.map Allocation.recipient).Nodup
  positive : ∀ a ∈ table, 0 < a.amount
  budget : sumAllocations table ≤ value p.totalBudget

theorem pos_of_keeps {minAlloc : Option ℤ} {amount : ℤ} (h : keeps minAlloc amount = true) :
    0 < amount := by
  simp only [keeps, Bool.and_eq_true, decide_eq_true_eq] at h
  exact h.1

theorem evaluate_ok (hp : p.Valid cfg) {table : List Allocation} (h : evaluate p = .ok table) :
    p.Tabulated table := by
  obtain ⟨amounts, hamounts, hrecipients, -, -⟩ := computeAmounts_ok hp
  rw [evaluate_eq_tabulate hamounts] at h
  have hrows := map_row_of_tabulate h
  have hlength : table.length = (p.kept amounts).length := by simpa using hrows.length_eq
  have hdistinct : (table.map Allocation.recipient).Nodup := by
    have hkept : ((p.kept amounts).map Allocation.recipient).Nodup := by
      refine List.Nodup.sublist (List.filter_sublist.map _) ?_
      rw [hrecipients]
      exact hp.distinct
    have hperm := hrows.map Prod.fst
    rw [List.map_map, List.map_map] at hperm
    exact hperm.nodup_iff.mpr hkept
  have hpositive : ∀ a ∈ table, 0 < a.amount := by
    intro a ha
    have hmem := hrows.mem_iff.mp (List.mem_map_of_mem (f := Allocation.row) ha)
    obtain ⟨b, hb, hab⟩ := List.mem_map.mp hmem
    have hkeep := (List.mem_filter.mp hb).2
    rw [← (Prod.mk.inj hab).2]
    exact pos_of_keeps hkeep
  simp only [tabulate, bind_ok, require_ok, exists_const] at h
  obtain ⟨hne, hbudget, h⟩ := h
  cases h
  refine ⟨?_, ?_, ?_, hdistinct, hpositive, hbudget⟩
  · apply List.ne_nil_of_length_pos
    rw [hlength]
    exact List.length_pos_iff.mpr hne
  · rw [hlength]
    calc (p.kept amounts).length ≤ amounts.length := List.length_filter_le _ _
      _ = p.entries.length := by simpa using congrArg List.length hrecipients
  · intro i hi
    simp [assignIndices]

end Fidensur
