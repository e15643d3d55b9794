import Fidensur.PolicyValidation

set_option autoImplicit false

namespace Fidensur

-- A policy as an encoding carries it: every number present and in range.
structure EntryTerms where
  recipient : Address
  weight : Uint256
  amount : Uint256

structure PolicyTerms where
  contractAddr : Address
  roundId : Uint256
  organization : Address
  mode : ℕ
  totalBudget : Uint256
  minAlloc : Uint256
  maxAlloc : Uint256
  bands : List Uint256
  salt : Bytes32
  entries : List EntryTerms

def pointer (n : Uint256) : Option ℤ := some (n : ℕ)

@[simp] theorem value_pointer (n : Uint256) : value (pointer n) = (n : ℕ) := rfl

def EntryTerms.entry (e : EntryTerms) : PolicyEntry := ⟨e.recipient, pointer e.weight, pointer e.amount⟩

namespace PolicyTerms

def policy (t : PolicyTerms) : Policy where
  contractAddr := t.contractAddr
  roundId := pointer t.roundId
  organization := t.organization
  mode := UInt8.ofNat t.mode
  totalBudget := pointer t.totalBudget
  minAlloc := pointer t.minAlloc
  maxAlloc := pointer t.maxAlloc
  bands := t.bands.map pointer
  salt := t.salt
  entries := t.entries.map EntryTerms.entry

def amountSum (t : PolicyTerms) : ℕ := (t.entries.map (fun e => (e.amount : ℕ))).sum

def weightSum (t : PolicyTerms) : ℕ := (t.entries.map (fun e => (e.weight : ℕ))).sum

def band (t : PolicyTerms) (weight : ℕ) : ℕ := (t.bands[weight]?).elim 0 Fin.val

def bandSum (t : PolicyTerms) : ℕ := (t.entries.map (fun e => t.band e.weight)).sum

inductive ModeRules (t : PolicyTerms) : Prop
  | explicit (hm : t.mode = 0) (hbands : t.bands = []) (hweights : ∀ e ∈ t.entries, e.weight = 0)
      (hfits : t.amountSum ≤ t.totalBudget)
  | weighted (hm : t.mode = 1) (hbands : t.bands = []) (hamounts : ∀ e ∈ t.entries, e.amount = 0)
      (hpositive : t.weightSum ≠ 0)
  | tiered (hm : t.mode = 2) (hbands : t.bands ≠ []) (hamounts : ∀ e ∈ t.entries, e.amount = 0)
      (hindex : ∀ e ∈ t.entries, (e.weight : ℕ) < t.bands.length) (hfits : t.bandSum ≤ t.totalBudget)

/-- The rules an allocation policy has to meet, without a limit on the length of the band table. -/
structure Rules (t : PolicyTerms) : Prop where
  budget : 0 < (t.totalBudget : ℕ)
  bounds : 0 < (t.maxAlloc : ℕ) → (t.minAlloc : ℕ) ≤ t.maxAlloc
  entries : t.entries ≠ []
  count : t.entries.length ≤ maxRecipients
  distinct : (t.entries.map EntryTerms.recipient).Nodup
  nonzero : ∀ e ∈ t.entries, e.recipient ≠ 0
  mode : t.ModeRules

/-- The band table is one the engine refuses for its length alone. -/
def LongBands (t : PolicyTerms) : Prop := t.mode = 2 ∧ maxRecipients < t.bands.length

instance (t : PolicyTerms) : Decidable t.LongBands := inferInstanceAs (Decidable (_ ∧ _))

end PolicyTerms

section Loops

theorem validateEntries_entry {seen : List (Address × ℕ)} {i : ℕ} {es : List EntryTerms} :
    validateEntries seen i (es.map EntryTerms.entry) = .ok () ↔
      (es.map EntryTerms.recipient).Nodup ∧
        ∀ e ∈ es, e.recipient ≠ 0 ∧ e.recipient ∉ seen.map Prod.fst := by
  induction es generalizing seen i with
  | nil => simp [validateEntries]
  | cons e rest ih =>
    have hpresent (n : Uint256) : (pointer n).any (fun w => decide (0 ≤ w)) = true := by simp [pointer]
    simp only [List.map_cons, validateEntries, EntryTerms.entry, bind_ok, require_ok, exists_const,
      hpresent, List.nodup_cons, List.forall_mem_cons]
    cases hl : seen.lookup e.recipient with
    | some previous =>
      have hmem : e.recipient ∈ seen.map Prod.fst := by
        by_contra hmem
        rw [lookup_eq_none_iff_notMem.mpr hmem] at hl
        cases hl
      simp [hmem]
    | none =>
      have hmem : e.recipient ∉ seen.map Prod.fst := lookup_eq_none_iff_notMem.mp hl
      simp only [bind_ok, require_ok, exists_const, true_and, ih, List.map_cons, List.mem_cons, not_or]
      constructor
      · rintro ⟨hzero, hnodup, hall⟩
        have hnew : e.recipient ∉ rest.map EntryTerms.recipient := by
          intro hmem
          obtain ⟨x, hx, heq⟩ := List.mem_map.mp hmem
          exact (hall x hx).2.1 heq
        exact ⟨⟨hnew, hnodup⟩, ⟨hzero, hmem⟩, fun x hx => ⟨(hall x hx).1, (hall x hx).2.2⟩⟩
      · rintro ⟨⟨hnew, hnodup⟩, ⟨hzero, -⟩, hall⟩
        exact ⟨hzero, hnodup, fun x hx => ⟨(hall x hx).1,
          fun heq => hnew (List.mem_map.mpr ⟨x, hx, heq⟩), (hall x hx).2⟩⟩

theorem explicitTotal_entry {total t : ℤ} {i : ℕ} {es : List EntryTerms} :
    explicitTotal total i (es.map EntryTerms.entry) = .ok t ↔
      (∀ e ∈ es, e.weight = 0) ∧ t = total + ((es.map (fun e => (e.amount : ℕ))).sum : ℕ) := by
  induction es generalizing total i with
  | nil => simp [explicitTotal, eq_comm]
  | cons e rest ih =>
    simp only [List.map_cons, explicitTotal, EntryTerms.entry, bind_ok, require_ok, exists_const, ih,
      value_pointer, List.forall_mem_cons, List.sum_cons, Nat.cast_add, add_assoc, and_assoc,
      Nat.cast_eq_zero, Fin.val_eq_zero_iff]

theorem weightTotal_entry {total t : ℤ} {i : ℕ} {es : List EntryTerms} :
    weightTotal total i (es.map EntryTerms.entry) = .ok t ↔
      (∀ e ∈ es, e.amount = 0) ∧ t = total + ((es.map (fun e => (e.weight : ℕ))).sum : ℕ) := by
  induction es generalizing total i with
  | nil => simp [weightTotal, eq_comm]
  | cons e rest ih =>
    simp only [List.map_cons, weightTotal, EntryTerms.entry, bind_ok, require_ok, exists_const, ih,
      value_pointer, List.forall_mem_cons, List.sum_cons, Nat.cast_add, add_assoc, and_assoc,
      Nat.cast_eq_zero, Fin.val_eq_zero_iff]

theorem validateBands_pointer (i : ℕ) (bands : List Uint256) :
    validateBands i (bands.map pointer) = .ok () := by
  induction bands generalizing i with
  | nil => rfl
  | cons b rest ih =>
    have hpresent : (pointer b).any (fun x => decide (0 ≤ x)) = true := by simp [pointer]
    simp only [List.map_cons, validateBands, bind_ok, require_ok, exists_const, hpresent, ih, and_self]

variable (t : PolicyTerms)

theorem bandIndex_pointer (hlen : t.bands.length < 2 ^ 64) (w : Uint256) :
    bandIndex (t.bands.map pointer) ((w : ℕ) : ℤ) =
      if (w : ℕ) < t.bands.length then some (w : ℕ) else none := by
  have hiff : (0 ≤ ((w : ℕ) : ℤ) ∧ ((w : ℕ) : ℤ) < 2 ^ 64 ∧
      ((w : ℕ) : ℤ).toNat < (t.bands.map pointer).length) ↔ (w : ℕ) < t.bands.length := by
    simp only [List.length_map, Int.toNat_natCast]
    omega
  rw [bandIndex, if_congr hiff rfl rfl, Int.toNat_natCast]

theorem bandAmount_pointer (i : ℕ) : bandAmount (t.bands.map pointer) i = t.band i := by
  rw [bandAmount, PolicyTerms.band, List.getD_eq_getElem?_getD, List.getElem?_map]
  cases t.bands[i]? <;> rfl

theorem tieredTotal_cons {bands : List (Option ℤ)} {total s : ℤ} {i : ℕ} {e : PolicyEntry}
    {rest : List PolicyEntry} :
    tieredTotal bands total i (e :: rest) = .ok s ↔ value e.amount = 0 ∧
      ∃ b, bandIndex bands (value e.weight) = some b ∧
        tieredTotal bands (total + bandAmount bands b) (i + 1) rest = .ok s := by
  simp only [tieredTotal, bind_ok, require_ok, exists_const]
  cases hb : bandIndex bands (value e.weight) <;> simp

theorem tieredTotal_entry (hlen : t.bands.length < 2 ^ 64) {total s : ℤ} {i : ℕ}
    {es : List EntryTerms} :
    tieredTotal (t.bands.map pointer) total i (es.map EntryTerms.entry) = .ok s ↔
      (∀ e ∈ es, e.amount = 0) ∧ (∀ e ∈ es, (e.weight : ℕ) < t.bands.length) ∧
        s = total + ((es.map (fun e => t.band e.weight)).sum : ℕ) := by
  induction es generalizing total i with
  | nil => simp [tieredTotal, eq_comm]
  | cons e rest ih =>
    have hb := bandIndex_pointer t hlen e.weight
    simp only [List.map_cons, tieredTotal_cons, EntryTerms.entry, value_pointer, ih,
      List.forall_mem_cons, Nat.cast_eq_zero, Fin.val_eq_zero_iff]
    by_cases hw : (e.weight : ℕ) < t.bands.length
    · rw [if_pos hw] at hb
      simp only [hb, Option.some.injEq, exists_eq_left', bandAmount_pointer, hw, true_and, List.sum_cons,
        Nat.cast_add, add_assoc, and_assoc]
    · rw [if_neg hw] at hb
      simp only [hb, hw, reduceCtorEq, false_and, exists_false, and_false]

end Loops

section Rules

variable {t : PolicyTerms}

theorem mode_eq_iff (hmode : t.mode < 256) (m : UInt8) : t.policy.mode = m ↔ t.mode = m.toNat := by
  rw [← UInt8.toNat_inj]
  simp only [PolicyTerms.policy, UInt8.toNat_ofNat', Nat.mod_eq_of_lt hmode]

theorem validateMode_policy (hmode : t.mode < 256) :
    validateMode t.policy = .ok () ↔ t.ModeRules ∧ ¬ t.LongBands := by
  have hexplicit : t.policy.mode = modeExplicit ↔ t.mode = 0 := mode_eq_iff hmode modeExplicit
  have hweighted : t.policy.mode = modeWeighted ↔ t.mode = 1 := mode_eq_iff hmode modeWeighted
  have htiered : t.policy.mode = modeTiered ↔ t.mode = 2 := mode_eq_iff hmode modeTiered
  have hentries : t.policy.entries = t.entries.map EntryTerms.entry := rfl
  have hbands : t.policy.bands = t.bands.map pointer := rfl
  have hbudget : value t.policy.totalBudget = (t.totalBudget : ℕ) := rfl
  unfold validateMode
  split_ifs with h0 h1 h2
  · have hm := hexplicit.mp h0
    simp only [bind_ok, require_ok, exists_const, hentries, explicitTotal_entry, hbands, hbudget,
      List.map_eq_nil_iff, zero_add]
    constructor
    · rintro ⟨total, ⟨hweights, rfl⟩, hfits, hnil⟩
      exact ⟨.explicit hm hnil hweights (by exact_mod_cast hfits), fun hlong => by simp [hlong.1] at hm⟩
    · rintro ⟨hrules, -⟩
      cases hrules with
      | explicit _ hnil hweights hfits => exact ⟨_, ⟨hweights, rfl⟩, by exact_mod_cast hfits, hnil⟩
      | weighted hm' => simp [hm] at hm'
      | tiered hm' => simp [hm] at hm'
  · have hm := hweighted.mp h1
    simp only [bind_ok, require_ok, exists_const, hentries, weightTotal_entry, hbands,
      List.map_eq_nil_iff, zero_add]
    constructor
    · rintro ⟨total, ⟨hamounts, rfl⟩, hpositive, hnil⟩
      exact ⟨.weighted hm hnil hamounts (by exact_mod_cast hpositive), fun hlong => by simp [hlong.1] at hm⟩
    · rintro ⟨hrules, -⟩
      cases hrules with
      | explicit hm' => simp [hm] at hm'
      | weighted _ hnil hamounts hpositive =>
        exact ⟨_, ⟨hamounts, rfl⟩, by exact_mod_cast hpositive, hnil⟩
      | tiered hm' => simp [hm] at hm'
  · have hm := htiered.mp h2
    simp only [bind_ok, require_ok, exists_const, hentries, hbands, hbudget, validateBands_pointer,
      List.map_eq_nil_iff, List.length_map, ne_eq, true_and]
    constructor
    · rintro ⟨hne, hlen, total, htotal, hfits⟩
      have hlen64 : t.bands.length < 2 ^ 64 := lt_of_le_of_lt hlen (by decide)
      obtain ⟨hamounts, hindex, rfl⟩ := (tieredTotal_entry t hlen64).mp htotal
      rw [zero_add] at hfits
      exact ⟨.tiered hm hne hamounts hindex (by exact_mod_cast hfits), fun hlong => by
        have := hlong.2
        omega⟩
    · rintro ⟨hrules, hshort⟩
      have hlen : t.bands.length ≤ maxRecipients := not_lt.mp fun hlt => hshort ⟨hm, hlt⟩
      have hlen64 : t.bands.length < 2 ^ 64 := lt_of_le_of_lt hlen (by decide)
      cases hrules with
      | explicit hm' => simp [hm] at hm'
      | weighted hm' => simp [hm] at hm'
      | tiered _ hne hamounts hindex hfits =>
        refine ⟨hne, hlen, _, (tieredTotal_entry t hlen64).mpr ⟨hamounts, hindex, rfl⟩, ?_⟩
        rw [zero_add]
        exact_mod_cast hfits
  · constructor
    · nofun
    · rintro ⟨hrules, -⟩
      cases hrules with
      | explicit hm => exact absurd (hexplicit.mpr hm) h0
      | weighted hm => exact absurd (hweighted.mpr hm) h1
      | tiered hm => exact absurd (htiered.mpr hm) h2

theorem validate_policy {cfg : EngineConfig} (hset : cfg.contractAddressSet = true)
    (hserved : t.contractAddr = cfg.contractAddress) (hmode : t.mode < 256) :
    validate cfg t.policy = .ok () ↔ t.Rules ∧ ¬ t.LongBands := by
  have hcap : capped t.policy.maxAlloc = true ↔ 0 < (t.maxAlloc : ℕ) := by
    simp [capped, PolicyTerms.policy, pointer]
  have hfloor : capped t.policy.minAlloc = true ↔ 0 < (t.minAlloc : ℕ) := by
    simp [capped, PolicyTerms.policy, pointer]
  have hbudget : t.policy.totalBudget.any (fun b => decide (0 < b)) = true ↔ 0 < (t.totalBudget : ℕ) := by
    simp [PolicyTerms.policy, pointer]
  have hmin : t.policy.minAlloc.all (fun m => decide (0 ≤ m)) = true := by
    simp [PolicyTerms.policy, pointer]
  have hmax : t.policy.maxAlloc.all (fun m => decide (0 ≤ m)) = true := by
    simp [PolicyTerms.policy, pointer]
  have hbounds : ¬ (0 < (t.maxAlloc : ℕ) ∧ 0 < (t.minAlloc : ℕ) ∧
      value t.policy.maxAlloc < value t.policy.minAlloc) ↔
        (0 < (t.maxAlloc : ℕ) → (t.minAlloc : ℕ) ≤ t.maxAlloc) := by
    simp only [PolicyTerms.policy, value_pointer]
    omega
  have hne : t.policy.entries ≠ [] ↔ t.entries ≠ [] := by simp [PolicyTerms.policy]
  have hcount : t.policy.entries.length = t.entries.length := by simp [PolicyTerms.policy]
  have hentries : validateEntries [] 0 t.policy.entries = .ok () ↔
      (t.entries.map EntryTerms.recipient).Nodup ∧ ∀ e ∈ t.entries, e.recipient ≠ 0 := by
    rw [PolicyTerms.policy, validateEntries_entry]
    simp
  simp only [validate, bind_ok, require_ok, exists_const, hset, hcap, hfloor, hbudget, hmin, hmax,
    hbounds, hne, hcount, hentries, validateMode_policy hmode, true_and]
  constructor
  · rintro ⟨-, -, hbudget, hbounds, hne, hcount, ⟨hnodup, hzero⟩, hmode, hshort⟩
    exact ⟨⟨hbudget, hbounds, hne, hcount, hnodup, hzero, hmode⟩, hshort⟩
  · rintro ⟨hrules, hshort⟩
    exact ⟨hserved, rfl, hrules.budget, hrules.bounds, hrules.entries, hrules.count,
      ⟨hrules.distinct, hrules.nonzero⟩, hrules.mode, hshort⟩

end Rules

end Fidensur
