import Fidensur.PolicyEvaluation

set_option autoImplicit false

namespace Fidensur

section Tabulation

variable {p : Policy} {amounts amounts' : List Allocation}

theorem sort_perm (h : amounts.Perm amounts') (hn : (amounts.map Allocation.recipient).Nodup) :
    amounts.insertionSort byRecipient = amounts'.insertionSort byRecipient := by
  have htotal : Std.Total byRecipient := ⟨fun a b => le_total a.recipient b.recipient⟩
  have htrans : IsTrans Allocation byRecipient := ⟨fun a b c hab hbc => le_trans (α := Address) hab hbc⟩
  have hsorted : List.Pairwise byRecipient (amounts.insertionSort byRecipient) :=
    List.pairwise_insertionSort _ _
  refine List.Perm.eq_of_pairwise ?_ hsorted (List.pairwise_insertionSort _ _) ?_
  · intro a b ha hb hab hba
    have ha' : a ∈ amounts := (List.mem_insertionSort _).mp ha
    have hb' : b ∈ amounts := h.mem_iff.mpr ((List.mem_insertionSort _).mp hb)
    exact List.inj_on_of_nodup_map hn ha' hb' (le_antisymm hab hba)
  · exact (List.perm_insertionSort _ _).trans (h.trans (List.perm_insertionSort _ _).symm)

def Policy.kept (p : Policy) (amounts : List Allocation) : List Allocation :=
  amounts.filter (fun a => keeps p.minAlloc a.amount)

theorem tabulate_kept_perm (h : (p.kept amounts).Perm (p.kept amounts'))
    (hn : (amounts.map Allocation.recipient).Nodup) : tabulate p amounts = tabulate p amounts' := by
  have hn' : ((p.kept amounts).map Allocation.recipient).Nodup :=
    hn.sublist (List.filter_sublist.map _)
  have hnil : (p.kept amounts ≠ []) = (p.kept amounts' ≠ []) := by
    simp only [ne_eq, ← List.length_eq_zero_iff, h.length_eq]
  unfold Policy.kept at *
  simp only [tabulate, sort_perm h hn', hnil]

theorem tabulate_perm (h : amounts.Perm amounts') (hn : (amounts.map Allocation.recipient).Nodup) :
    tabulate p amounts = tabulate p amounts' :=
  tabulate_kept_perm (h.filter _) hn

def Allocation.row (a : Allocation) : Address × ℤ := (a.recipient, a.amount)

theorem map_row_assignIndices (rows : List Allocation) :
    (assignIndices rows).map Allocation.row = rows.map Allocation.row := by
  apply List.ext_getElem
  · simp [assignIndices]
  · intro i _ _
    simp [assignIndices, Allocation.row]

theorem sumAllocations_eq (rows : List Allocation) :
    sumAllocations rows = ((rows.map Allocation.row).map Prod.snd).sum := by
  simp [sumAllocations, Allocation.row, Function.comp_def]

theorem map_row_of_tabulate {table : List Allocation} (h : tabulate p amounts = .ok table) :
    (table.map Allocation.row).Perm ((p.kept amounts).map Allocation.row) := by
  simp only [tabulate, bind_ok, require_ok, exists_const] at h
  obtain ⟨-, -, h⟩ := h
  cases h
  rw [map_row_assignIndices]
  exact (List.perm_insertionSort _ _).map _

theorem tabulate_ok (hk : p.kept amounts ≠ []) (hs : sumAllocations (p.kept amounts) ≤ value p.totalBudget) :
    ∃ table, tabulate p amounts = .ok table := by
  have hsum : sumAllocations (assignIndices ((p.kept amounts).insertionSort byRecipient)) =
      sumAllocations (p.kept amounts) := by
    rw [sumAllocations_eq, sumAllocations_eq, map_row_assignIndices]
    exact (((List.perm_insertionSort _ _).map _).map _).sum_eq
  unfold Policy.kept at *
  exact ⟨_, by simp only [tabulate, bind_ok, require_ok, exists_const, hsum]; exact ⟨hk, hs, rfl⟩⟩

theorem sumAllocations_kept_le {amounts : List Allocation} (h : ∀ a ∈ amounts, 0 ≤ a.amount) :
    sumAllocations (p.kept amounts) ≤ sumAllocations amounts := by
  apply List.Sublist.sum_le_sum
  · exact List.filter_sublist.map _
  · intro x hx
    obtain ⟨a, ha, rfl⟩ := List.mem_map.mp hx
    exact h a ha

end Tabulation

section Recipients

variable {maxAlloc : Option ℤ} {dust : ℤ} {shares : List Share}

theorem map_recipient_giveDust :
    (giveDust maxAlloc dust shares).map Share.recipient = shares.map Share.recipient := by
  induction shares with
  | nil => rfl
  | cons s rest ih =>
    unfold giveDust
    split
    · rfl
    · rw [List.map_cons, List.map_cons, ih]

theorem map_recipient_distributeDust {p : Policy} :
    (distributeDust p shares).map Share.recipient = shares.map Share.recipient := by
  unfold distributeDust
  split
  · rfl
  · exact map_recipient_giveDust

end Recipients

section Tiers

variable {p : Policy}

def Policy.banded (p : Policy) (e : PolicyEntry) : Allocation :=
  ⟨0, e.recipient, capAmount p.maxAlloc (tierOf p.bands e)⟩

theorem tieredAmounts_ok {i : ℕ} {entries : List PolicyEntry}
    (h : ∀ e ∈ entries, (bandIndex p.bands (value e.weight)).isSome = true) :
    tieredAmounts p i entries = .ok (entries.map p.banded) := by
  induction entries generalizing i with
  | nil => rfl
  | cons e rest ih =>
    obtain ⟨he, hrest⟩ := List.forall_mem_cons.mp h
    obtain ⟨b, hb⟩ := Option.isSome_iff_exists.mp he
    rw [tieredAmounts, hb, ih hrest]
    simp [Policy.banded, tierOf, hb, bind, Except.bind, pure, Except.pure]

end Tiers

end Fidensur
