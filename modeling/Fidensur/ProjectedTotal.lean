import Fidensur.BrowserPolicy
import Fidensur.RowOrder
import Fidensur.WeightedLevel

set_option autoImplicit false

namespace Fidensur

variable {cfg : EngineConfig} {p : Policy}

def Policy.UnderCap (p : Policy) (amount : ℤ) : Prop :=
  capped p.maxAlloc = true → amount ≤ value p.maxAlloc

def Policy.AboveFloor (p : Policy) (amount : ℤ) : Prop :=
  0 < amount → capped p.minAlloc = true → value p.minAlloc ≤ amount

/-- Nothing of the budget is lost: the division leaves no dust or the first row that can takes
it, and then the floor drops nobody. -/
inductive Policy.PlacesDust (p : Policy) (shares : List Share) : Prop
  | even (hdust : dustOf p shares = 0) (hfloor : ∀ s ∈ shares, p.AboveFloor s.amount)
  | given {before after : List Share} {s : Share} (hshares : shares = before ++ s :: after)
      (hdust : 0 < dustOf p shares)
      (hbefore : ∀ x ∈ before, x.absorbs p.maxAlloc (dustOf p shares) = false)
      (habsorbs : s.absorbs p.maxAlloc (dustOf p shares) = true)
      (hfloor : ∀ x ∈ before ++ s.dusted (dustOf p shares) :: after, p.AboveFloor x.amount)

/-- Cap and floor take nothing from what the rows are meant to get, and some row gets something. -/
inductive Policy.PaysInFull (p : Policy) : Prop
  | explicit (hm : p.mode = modeExplicit) (hsome : ∃ e ∈ p.entries, 0 < value e.amount)
      (hall : ∀ e ∈ p.entries, p.UnderCap (value e.amount) ∧ p.AboveFloor (value e.amount))
  | weighted {level : ℤ} (hm : p.mode = modeWeighted) (hlevel : p.split.IsLevel level)
      (hdust : p.PlacesDust (p.sharesAt level))
  | tiered (hm : p.mode = modeTiered) (hsome : ∃ e ∈ p.entries, 0 < tierOf p.bands e)
      (hall : ∀ e ∈ p.entries, p.UnderCap (tierOf p.bands e) ∧ p.AboveFloor (tierOf p.bands e))

section Sums

theorem sum_map_eq_iff {α : Type} {l : List α} {f g : α → ℤ} (h : ∀ x ∈ l, f x ≤ g x) :
    (l.map f).sum = (l.map g).sum ↔ ∀ x ∈ l, f x = g x := by
  induction l with
  | nil => simp
  | cons a l ih =>
    obtain ⟨ha, hl⟩ := List.forall_mem_cons.mp h
    have hle : (l.map f).sum ≤ (l.map g).sum := List.sum_le_sum hl
    rw [List.map_cons, List.map_cons, List.sum_cons, List.sum_cons, List.forall_mem_cons, ← ih hl]
    omega

theorem sumAllocations_kept (amounts : List Allocation) : sumAllocations (p.kept amounts) =
    (amounts.map (fun a => if keeps p.minAlloc a.amount = true then a.amount else 0)).sum := by
  induction amounts with
  | nil => rfl
  | cons a rest ih =>
    rw [List.map_cons, List.sum_cons, ← ih]
    by_cases hk : keeps p.minAlloc a.amount = true
    · rw [if_pos hk, Policy.kept, List.filter_cons, if_pos hk]
      rfl
    · rw [if_neg hk, zero_add, Policy.kept, List.filter_cons, if_neg hk]
      rfl

theorem keeps_iff {amount : ℤ} : keeps p.minAlloc amount = true ↔ 0 < amount ∧ p.AboveFloor amount := by
  simp only [keeps, Bool.and_eq_true, decide_eq_true_eq, Bool.not_eq_true', Bool.and_eq_false_iff,
    decide_eq_false_iff_not, not_lt, Policy.AboveFloor]
  constructor
  · rintro ⟨hpos, hfloor⟩
    exact ⟨hpos, fun _ hc => hfloor.resolve_left (by rw [hc]; decide)⟩
  · rintro ⟨hpos, hfloor⟩
    refine ⟨hpos, ?_⟩
    by_cases hc : capped p.minAlloc = true
    · exact .inr (hfloor hpos hc)
    · exact .inl (Bool.eq_false_of_not_eq_true hc)

variable {amounts : List Allocation}

theorem sum_kept_eq_iff (hnonneg : ∀ a ∈ amounts, 0 ≤ a.amount) :
    sumAllocations (p.kept amounts) = sumAllocations amounts ↔ ∀ a ∈ amounts, p.AboveFloor a.amount := by
  rw [sumAllocations_kept, sumAllocations, sum_map_eq_iff]
  · apply forall₂_congr
    intro a ha
    have hpos := hnonneg a ha
    by_cases hk : keeps p.minAlloc a.amount = true
    · exact iff_of_true (if_pos hk) (keeps_iff.mp hk).2
    · rw [if_neg hk]
      constructor
      · intro hzero hlt
        omega
      · intro hfloor
        by_contra hne
        exact hk (keeps_iff.mpr ⟨by omega, hfloor⟩)
  · intro a ha
    split
    · exact le_rfl
    · exact hnonneg a ha

theorem evaluate_total_iff (h : computeAmounts p = .ok amounts) (hnonneg : ∀ a ∈ amounts, 0 ≤ a.amount)
    (hsum : sumAllocations amounts ≤ value p.totalBudget) (total : ℤ) :
    (∃ table, evaluate p = .ok table ∧ sumAllocations table = total) ↔
      p.kept amounts ≠ [] ∧ sumAllocations (p.kept amounts) = total := by
  rw [evaluate_eq_tabulate h]
  have htotal {table : List Allocation} (htable : tabulate p amounts = .ok table) :
      sumAllocations table = sumAllocations (p.kept amounts) := by
    rw [sumAllocations_eq, sumAllocations_eq]
    exact ((map_row_of_tabulate htable).map Prod.snd).sum_eq
  constructor
  · rintro ⟨table, htable, rfl⟩
    refine ⟨?_, (htotal htable).symm⟩
    simp only [tabulate, bind_ok, require_ok, exists_const] at htable
    exact htable.1
  · rintro ⟨hne, rfl⟩
    obtain ⟨table, htable⟩ := tabulate_ok hne ((sumAllocations_kept_le hnonneg).trans hsum)
    exact ⟨table, htable, htotal htable⟩

theorem capAmount_eq_iff {amount : ℤ} : capAmount p.maxAlloc amount = amount ↔ p.UnderCap amount := by
  unfold capAmount Policy.UnderCap
  split
  · next h => exact ⟨fun heq _ => heq ▸ le_rfl, fun hcap => le_antisymm h.2.le (hcap h.1)⟩
  · next h => exact iff_of_true rfl fun hc => not_lt.mp fun hlt => h ⟨hc, hlt⟩

theorem entrywise_total_iff {nominal : PolicyEntry → ℤ}
    (hcompute : computeAmounts p =
      .ok (p.entries.map (fun e => ⟨0, e.recipient, capAmount p.maxAlloc (nominal e)⟩)))
    (hnonneg : ∀ e ∈ p.entries, 0 ≤ nominal e)
    (hfits : (p.entries.map nominal).sum ≤ value p.totalBudget) :
    (∃ table, evaluate p = .ok table ∧ sumAllocations table = (p.entries.map nominal).sum) ↔
      (∃ e ∈ p.entries, 0 < nominal e) ∧
        ∀ e ∈ p.entries, p.UnderCap (nominal e) ∧ p.AboveFloor (nominal e) := by
  set amounts := p.entries.map (fun e => Allocation.mk 0 e.recipient (capAmount p.maxAlloc (nominal e)))
    with hamounts
  have hnonneg' : ∀ a ∈ amounts, 0 ≤ a.amount :=
    List.forall_mem_map.mpr fun e he => capAmount_nonneg (hnonneg e he)
  have hsum : sumAllocations amounts = (p.entries.map (fun e => capAmount p.maxAlloc (nominal e))).sum := by
    rw [sumAllocations, hamounts, List.map_map]
    rfl
  have hle : sumAllocations amounts ≤ (p.entries.map nominal).sum :=
    hsum ▸ List.sum_le_sum fun e _ => capAmount_le _ _
  have hcap : sumAllocations amounts = (p.entries.map nominal).sum ↔ ∀ e ∈ p.entries, p.UnderCap (nominal e) := by
    rw [hsum, sum_map_eq_iff fun e _ => capAmount_le _ _]
    exact forall₂_congr fun e _ => capAmount_eq_iff
  rw [evaluate_total_iff hcompute hnonneg' (hle.trans hfits)]
  have hkept := sumAllocations_kept_le (p := p) hnonneg'
  constructor
  · rintro ⟨hne, htotal⟩
    have hall := hcap.mp (by omega)
    have hfloor := (sum_kept_eq_iff (p := p) hnonneg').mp (by omega)
    have hamount {e : PolicyEntry} (he : e ∈ p.entries) : capAmount p.maxAlloc (nominal e) = nominal e :=
      capAmount_eq_iff.mpr (hall e he)
    refine ⟨?_, fun e he => ⟨hall e he, ?_⟩⟩
    · obtain ⟨a, ha⟩ := List.exists_mem_of_ne_nil _ hne
      obtain ⟨hmem, hkeep⟩ := List.mem_filter.mp ha
      obtain ⟨e, he, rfl⟩ := List.mem_map.mp hmem
      exact ⟨e, he, hamount he ▸ (keeps_iff.mp hkeep).1⟩
    · have := hfloor _ (List.mem_map_of_mem he)
      rwa [hamount he] at this
  · rintro ⟨⟨e, he, hpos⟩, hall⟩
    have hamount {e : PolicyEntry} (he : e ∈ p.entries) : capAmount p.maxAlloc (nominal e) = nominal e :=
      capAmount_eq_iff.mpr (hall e he).1
    have hfloor : ∀ a ∈ amounts, p.AboveFloor a.amount := by
      rw [List.forall_mem_map]
      intro e he
      rw [hamount he]
      exact (hall e he).2
    refine ⟨?_, ((sum_kept_eq_iff hnonneg').mpr hfloor).trans (hcap.mpr fun e he => (hall e he).1)⟩
    apply List.ne_nil_of_mem (a := ⟨0, e.recipient, capAmount p.maxAlloc (nominal e)⟩)
    refine List.mem_filter.mpr ⟨List.mem_map_of_mem he, keeps_iff.mpr ?_⟩
    rw [hamount he]
    exact ⟨hpos, (hall e he).2⟩

end Sums

section Dust

variable {shares : List Share} {maxAlloc : Option ℤ} {dust : ℤ}

theorem giveDust_of_none (h : ∀ x ∈ shares, x.absorbs maxAlloc dust = false) :
    giveDust maxAlloc dust shares = shares := by
  induction shares with
  | nil => rfl
  | cons s rest ih =>
    obtain ⟨hs, hrest⟩ := List.forall_mem_cons.mp h
    rw [giveDust, hs, if_neg Bool.false_ne_true, ih hrest]

theorem giveDust_append {before after : List Share} {s : Share}
    (hbefore : ∀ x ∈ before, x.absorbs maxAlloc dust = false) (hs : s.absorbs maxAlloc dust = true) :
    giveDust maxAlloc dust (before ++ s :: after) = before ++ s.dusted dust :: after := by
  induction before with
  | nil => exact giveDust_cons_absorbs hs
  | cons x before ih =>
    obtain ⟨hx, hbefore⟩ := List.forall_mem_cons.mp hbefore
    rw [List.cons_append, giveDust, hx, if_neg Bool.false_ne_true, ih hbefore, List.cons_append]

theorem sumAllocations_shares (shares : List Share) :
    sumAllocations (shares.map Share.allocation) = (shares.map Share.amount).sum := by
  rw [sumAllocations, List.map_map]
  rfl

theorem sum_kept_distributeDust_iff (hspent : (shares.map Share.amount).sum ≤ value p.totalBudget)
    (hnonneg : ∀ s ∈ shares, 0 ≤ s.amount) :
    sumAllocations (p.kept ((distributeDust p shares).map Share.allocation)) = value p.totalBudget ↔
      p.PlacesDust shares := by
  have hkeep {out : List Share} (hout : ∀ s ∈ out, 0 ≤ s.amount)
      (hsum : (out.map Share.amount).sum = value p.totalBudget) :
      sumAllocations (p.kept (out.map Share.allocation)) = value p.totalBudget ↔
        ∀ s ∈ out, p.AboveFloor s.amount := by
    rw [← hsum, ← sumAllocations_shares, sum_kept_eq_iff (List.forall_mem_map.mpr hout)]
    exact List.forall_mem_map
  unfold distributeDust
  split
  · next hdust =>
    have hzero : dustOf p shares = 0 := by
      rw [dustOf] at hdust ⊢
      omega
    have hsum : (shares.map Share.amount).sum = value p.totalBudget := by
      rw [dustOf] at hzero
      omega
    rw [hkeep hnonneg hsum]
    constructor
    · exact .even hzero
    · rintro (⟨-, hfloor⟩ | ⟨-, hpos⟩)
      · exact hfloor
      · omega
  · next hdust =>
    have hpos : 0 < dustOf p shares := not_le.mp hdust
    by_cases hnone : ∀ x ∈ shares, x.absorbs p.maxAlloc (dustOf p shares) = false
    · rw [giveDust_of_none hnone]
      have hle := sumAllocations_kept_le (p := p) (List.forall_mem_map.mpr hnonneg :
        ∀ a ∈ shares.map Share.allocation, 0 ≤ a.amount)
      rw [sumAllocations_shares] at hle
      apply iff_of_false
      · rw [dustOf] at hpos
        omega
      · rintro (⟨hzero, -⟩ | ⟨hshares, -, -, habsorbs⟩)
        · omega
        · have := hnone _ (hshares ▸ List.mem_append_right _ List.mem_cons_self)
          rw [habsorbs] at this
          cases this
    · push Not at hnone
      obtain ⟨x, hx, hxa⟩ := hnone
      obtain ⟨s, hs⟩ : ∃ s, shares.find? (Share.absorbs p.maxAlloc (dustOf p shares)) = some s :=
        Option.isSome_iff_exists.mp (List.find?_isSome.mpr ⟨x, hx, Bool.eq_true_of_not_eq_false hxa⟩)
      obtain ⟨habsorbs, before, after, hshares, hbefore⟩ := List.find?_eq_some_iff_append.mp hs
      have hbefore : ∀ x ∈ before, x.absorbs p.maxAlloc (dustOf p shares) = false := fun x hx => by
        simpa using hbefore x hx
      have hgive {before after : List Share} {s : Share} (hshares : shares = before ++ s :: after)
          (hbefore : ∀ x ∈ before, x.absorbs p.maxAlloc (dustOf p shares) = false)
          (habsorbs : s.absorbs p.maxAlloc (dustOf p shares) = true) :
          giveDust p.maxAlloc (dustOf p shares) shares = before ++ s.dusted (dustOf p shares) :: after :=
        (congrArg _ hshares).trans (giveDust_append hbefore habsorbs)
      have hout : ∀ s ∈ giveDust p.maxAlloc (dustOf p shares) shares, 0 ≤ s.amount :=
        giveDust_nonneg hpos.le hnonneg
      have hsum : ((giveDust p.maxAlloc (dustOf p shares) shares).map Share.amount).sum =
          value p.totalBudget := by
        have hshareSum := congrArg (fun l => (l.map Share.amount).sum) hshares
        rw [hgive hshares hbefore habsorbs]
        simp only [List.map_append, List.map_cons, List.sum_append, List.sum_cons] at hshareSum ⊢
        simp only [Share.dusted, dustOf]
        omega
      rw [hkeep hout hsum]
      constructor
      · intro hfloor
        rw [hgive hshares hbefore habsorbs] at hfloor
        exact .given hshares hpos hbefore habsorbs hfloor
      · rintro (⟨hzero, -⟩ | ⟨hshares', -, hbefore', habsorbs', hfloor⟩)
        · omega
        · rwa [hgive hshares' hbefore' habsorbs']

end Dust

section Projection

theorem explicit_total_iff (hp : p.Valid cfg) (hm : p.mode = modeExplicit)
    (hfits : (p.entries.map (fun e => value e.amount)).sum ≤ value p.totalBudget) :
    (∃ table, evaluate p = .ok table ∧
      sumAllocations table = (p.entries.map (fun e => value e.amount)).sum) ↔ p.PaysInFull := by
  have hcompute : computeAmounts p =
      .ok (p.entries.map (fun e => ⟨0, e.recipient, capAmount p.maxAlloc (value e.amount)⟩)) := by
    rw [computeAmounts, if_pos hm]
    rfl
  rw [entrywise_total_iff hcompute hp.amounts hfits]
  constructor
  · rintro ⟨hsome, hall⟩
    exact .explicit hm hsome hall
  · rintro (⟨-, hsome, hall⟩ | ⟨hm', -⟩ | ⟨hm'⟩)
    · exact ⟨hsome, hall⟩
    · cases hm.symm.trans hm'
    · cases hm.symm.trans hm'

theorem tiered_total_iff (hm : p.mode = modeTiered)
    (hbands : ∀ b ∈ p.bands, 0 ≤ value b)
    (hindex : ∀ e ∈ p.entries, (bandIndex p.bands (value e.weight)).isSome = true)
    (hfits : (p.entries.map (tierOf p.bands)).sum ≤ value p.totalBudget) :
    (∃ table, evaluate p = .ok table ∧ sumAllocations table = (p.entries.map (tierOf p.bands)).sum) ↔
      p.PaysInFull := by
  have h20 : modeTiered ≠ modeExplicit := by decide
  have h21 : modeTiered ≠ modeWeighted := by decide
  have hcompute : computeAmounts p =
      .ok (p.entries.map (fun e => ⟨0, e.recipient, capAmount p.maxAlloc (tierOf p.bands e)⟩)) := by
    rw [computeAmounts, if_neg (hm ▸ h20), if_neg (hm ▸ h21), if_pos hm, tieredAmounts_ok hindex]
    rfl
  rw [entrywise_total_iff hcompute (fun e _ => tierOf_nonneg hbands e) hfits]
  constructor
  · rintro ⟨hsome, hall⟩
    exact .tiered hm hsome hall
  · rintro (⟨hm', -⟩ | ⟨hm', -⟩ | ⟨-, hsome, hall⟩)
    · cases hm.symm.trans hm'
    · cases hm.symm.trans hm'
    · exact ⟨hsome, hall⟩

theorem weighted_total_iff (hp : p.Valid cfg) (hm : p.mode = modeWeighted) :
    (∃ table, evaluate p = .ok table ∧ sumAllocations table = value p.totalBudget) ↔ p.PaysInFull := by
  have h10 : modeWeighted ≠ modeExplicit := by decide
  obtain ⟨level, hlevel, hshares⟩ := weightedShares_level hp
  obtain ⟨shares, hshares', -, hspent, hnonneg⟩ := weightedShares_ok hp
  obtain rfl := Except.ok.inj (hshares.symm.trans hshares')
  obtain ⟨amounts, hamounts, -, hpositive, hsum⟩ := computeAmounts_ok hp
  have hcompute : computeAmounts p = .ok ((distributeDust p (p.sharesAt level)).map Share.allocation) := by
    rw [computeAmounts, if_neg (hm ▸ h10), if_pos hm, weightedAmounts, hshares]
    rfl
  obtain rfl := Except.ok.inj (hcompute.symm.trans hamounts)
  rw [evaluate_total_iff hcompute hpositive hsum, sum_kept_distributeDust_iff hspent hnonneg]
  constructor
  · rintro ⟨-, hdust⟩
    exact .weighted hm hlevel hdust
  · rintro (⟨hm', -⟩ | ⟨-, hlevel', hdust⟩ | ⟨hm', -⟩)
    · cases hm.symm.trans hm'
    · have hsame : p.sharesAt _ = p.sharesAt level :=
        Except.ok.inj ((weightedShares_of_level hp hlevel').symm.trans hshares)
      rw [hsame] at hdust
      refine ⟨fun hnil => ?_, hdust⟩
      have htotal := (sum_kept_distributeDust_iff hspent hnonneg).mpr hdust
      have hbudget := hp.budget
      rw [hnil] at htotal
      change 0 = _ at htotal
      omega
    · cases hm.symm.trans hm'

end Projection

namespace BrowserPolicy

variable {keccak : Keccak} {policy : BrowserPolicy.Policy} {t : PolicyTerms}

theorem sum_value_amount :
    (t.policy.entries.map (fun e => Fidensur.value e.amount)).sum = (t.amountSum : ℤ) := by
  rw [PolicyTerms.policy, PolicyTerms.amountSum, Nat.cast_list_sum, List.map_map, List.map_map]
  rfl

theorem tierOf_entry (hlen : t.bands.length < 2 ^ 64) (e : EntryTerms) :
    tierOf (t.bands.map pointer) e.entry = (t.band e.weight : ℤ) := by
  have hvalue : Fidensur.value e.entry.weight = ((e.weight : ℕ) : ℤ) := rfl
  rw [tierOf, hvalue, bandIndex_pointer t hlen]
  by_cases hw : (e.weight : ℕ) < t.bands.length
  · rw [if_pos hw, Option.elim_some, bandAmount_pointer]
  · rw [if_neg hw, PolicyTerms.band, List.getElem?_eq_none (not_lt.mp hw)]
    rfl

theorem sum_tierOf (hlen : t.bands.length < 2 ^ 64) :
    (t.policy.entries.map (tierOf t.policy.bands)).sum = (t.bandSum : ℤ) := by
  have hrow : ∀ e ∈ t.entries, (tierOf (t.bands.map pointer) ∘ EntryTerms.entry) e =
      ((t.band e.weight : ℕ) : ℤ) := fun e _ => by rw [Function.comp_apply, tierOf_entry hlen]
  change ((t.entries.map EntryTerms.entry).map (tierOf (t.bands.map pointer))).sum = _
  rw [List.map_map, List.map_congr_left hrow, PolicyTerms.bandSum, Nat.cast_list_sum, List.map_map]
  rfl

/-- The engine pays what the browser projects exactly where cap, floor and rounding lose nothing. -/
theorem projectedTotal_iff (h : policy.Denotes keccak t) (hok : (validatePolicy policy).ok = true)
    (hvalid : validate cfg t.policy = .ok ()) {total : ℤ}
    (htotal : (validatePolicy policy).projectedTotal = some total) :
    (∃ table, evaluate t.policy = .ok table ∧ sumAllocations table = total) ↔ t.policy.PaysInFull := by
  have hp := Policy.Valid.of_validate hvalid
  have hrules := (validatePolicy_ok h).mp hok
  have hmode : t.mode < 256 := by cases hrules.mode <;> omega
  have htotal : (BrowserPolicy.validateMode policy).2 = some total := htotal
  rw [BrowserPolicy.validateMode, h.mode] at htotal
  cases hp.mode with
  | explicit hm hfits =>
    have hm0 : t.mode = 0 := (mode_eq_iff hmode modeExplicit).mp hm
    simp only [hm0] at htotal
    rw [(validateExplicit_eq h).2, ← sum_value_amount] at htotal
    rw [← Option.some.inj htotal]
    exact explicit_total_iff hp hm hfits
  | weighted hm =>
    have hm1 : t.mode = 1 := (mode_eq_iff hmode modeWeighted).mp hm
    simp only [hm1] at htotal
    have hpositive : 0 < t.weightSum := by
      cases hrules.mode <;> omega
    rw [(validateWeighted_eq h).2, if_pos hpositive, h.totalBudget] at htotal
    rw [← Option.some.inj htotal]
    exact weighted_total_iff hp hm
  | tiered hm hbands hindex hfits =>
    have hm2 : t.mode = 2 := (mode_eq_iff hmode modeTiered).mp hm
    simp only [hm2] at htotal
    have hset : cfg.contractAddressSet = true := hp.served
    have hshort := ((validate_policy hset hp.target hmode).mp hvalid).2
    have hlen : t.bands.length < 2 ^ 64 := by
      have : t.bands.length ≤ maxRecipients := not_lt.mp fun hlong => hshort ⟨hm2, hlong⟩
      rw [maxRecipients] at this
      omega
    rw [(validateTiered_eq h).2, ← sum_tierOf hlen] at htotal
    rw [← Option.some.inj htotal]
    exact tiered_total_iff hm hbands hindex hfits

section Sample

def payoutConfig : EngineConfig := ⟨1, true, 0⟩

def payoutKeccak : Keccak := fun b => Fin.ofNat _ (ByteWords.value b)

def cappedTerms (maxAlloc : Uint256) : PolicyTerms where
  contractAddr := 1
  roundId := 1
  organization := 2
  mode := 0
  totalBudget := 10
  minAlloc := 0
  maxAlloc := maxAlloc
  bands := []
  salt := 5
  entries := [⟨3, 0, 10⟩]

def cappedPolicy (maxAlloc : Uint256) : BrowserPolicy.Policy where
  contractAddr := addressText 1
  roundId := 1
  organization := addressText 2
  mode := 0
  totalBudget := 10
  minAlloc := 0
  maxAlloc := (maxAlloc : ℕ)
  bands := []
  salt := wordText 5
  entries := [⟨addressText 3, 0, 10⟩]

theorem cappedPolicy_denotes (maxAlloc : Uint256) :
    (cappedPolicy maxAlloc).Denotes payoutKeccak (cappedTerms maxAlloc) where
  contractAddr := .address 1
  roundId := rfl
  organization := .address 2
  mode := rfl
  totalBudget := rfl
  minAlloc := rfl
  maxAlloc := rfl
  bands := rfl
  bandCount := by simp [cappedPolicy]
  salt := rfl
  entries := .cons ⟨.address 3, rfl, rfl⟩ .nil
  entryCount := by simp [cappedPolicy]

/-- Three shares of eleven units under a cap of six: the heaviest row is held, and rounding leaves one
unit of dust. -/
def sharedTerms : PolicyTerms :=
  { cappedTerms 6 with
    mode := 1
    totalBudget := 11
    minAlloc := 2
    entries := [⟨3, 4, 0⟩, ⟨4, 1, 0⟩, ⟨5, 1, 0⟩] }

def sharedPolicy : BrowserPolicy.Policy :=
  { cappedPolicy 6 with
    mode := 1
    totalBudget := 11
    minAlloc := 2
    entries := [⟨addressText 3, 4, 0⟩, ⟨addressText 4, 1, 0⟩, ⟨addressText 5, 1, 0⟩] }

theorem sharedPolicy_denotes : sharedPolicy.Denotes payoutKeccak sharedTerms where
  contractAddr := .address 1
  roundId := rfl
  organization := .address 2
  mode := rfl
  totalBudget := rfl
  minAlloc := rfl
  maxAlloc := rfl
  bands := rfl
  bandCount := by simp [sharedPolicy, cappedPolicy]
  salt := rfl
  entries := .cons ⟨.address 3, rfl, rfl⟩
    (.cons ⟨.address 4, rfl, rfl⟩ (.cons ⟨.address 5, rfl, rfl⟩ .nil))
  entryCount := by simp [sharedPolicy]

theorem projectedTotal_iff_sample :
    evaluate sharedTerms.policy = .ok [⟨0, 3, 6⟩, ⟨1, 4, 3⟩, ⟨2, 5, 2⟩] ∧ sharedTerms.policy.PaysInFull := by
  have hok : (validatePolicy sharedPolicy).ok = true := by decide
  have hvalid : validate payoutConfig sharedTerms.policy = .ok () := by decide
  have htotal : (validatePolicy sharedPolicy).projectedTotal = some 11 := by decide
  have hevaluate : evaluate sharedTerms.policy = .ok [⟨0, 3, 6⟩, ⟨1, 4, 3⟩, ⟨2, 5, 2⟩] := by decide
  have hiff := projectedTotal_iff sharedPolicy_denotes hok hvalid htotal
  exact ⟨hevaluate, hiff.mp ⟨_, hevaluate, by decide⟩⟩

theorem capped_amount_projected : ¬ ∀ (keccak : Keccak) (cfg : EngineConfig) (policy : BrowserPolicy.Policy)
    (t : PolicyTerms) (total : ℤ), policy.Denotes keccak t → (validatePolicy policy).ok = true →
      validate cfg t.policy = .ok () → (validatePolicy policy).projectedTotal = some total →
        ∃ table, evaluate t.policy = .ok table ∧ sumAllocations table = total := by
  intro hall
  have hok : (validatePolicy (cappedPolicy 5)).ok = true := by decide
  have hvalid : validate payoutConfig (cappedTerms 5).policy = .ok () := by decide
  have hevaluate : evaluate (cappedTerms 5).policy = .ok [⟨0, 3, 5⟩] := by decide
  obtain ⟨table, htable, hsum⟩ := hall _ _ _ _ _ (cappedPolicy_denotes 5) hok hvalid rfl
  obtain rfl := Except.ok.inj (hevaluate.symm.trans htable)
  revert hsum
  decide

end Sample

end BrowserPolicy

end Fidensur
