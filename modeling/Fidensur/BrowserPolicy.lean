import Fidensur.AllocationRules
import Fidensur.BrowserVerification

set_option autoImplicit false

namespace Fidensur.BrowserPolicy

open HexText BrowserVerification

structure PolicyEntry where
  recipient : Text
  weight : ℤ
  amount : ℤ

structure Policy where
  contractAddr : Text
  roundId : ℤ
  organization : Text
  mode : ℕ
  totalBudget : ℤ
  minAlloc : ℤ
  maxAlloc : ℤ
  bands : List ℤ
  salt : Text
  entries : List PolicyEntry

structure ValidationResult where
  ok : Bool
  errors : List String
  projectedTotal : Option ℤ

section Validation

/-- `if (cond) errors.push(text)`. -/
def pushIf (cond : Prop) [Decidable cond] (text : String) : List String := if cond then [text] else []

@[simp] theorem pushIf_eq_nil {cond : Prop} [Decidable cond] {text : String} :
    pushIf cond text = [] ↔ ¬ cond := by
  by_cases h : cond <;> simp [pushIf, h]

def zeroAddress : Text := "0x0000000000000000000000000000000000000000".toList

/-- The latest entry of a recipient comes first in `seen`. -/
def entryErrors (seen : List (Text × ℕ)) : ℕ → List PolicyEntry → List String
  | _, [] => []
  | i, entry :: rest =>
      let key := toLowerCase entry.recipient
      pushIf (entry.recipient = zeroAddress) ("entry " ++ i.repr ++ ": recipient is the zero address") ++
      (match seen.lookup key with
        | some prev => ["entry " ++ i.repr ++ " duplicates recipient from entry " ++ prev.repr]
        | none => []) ++
      pushIf (entry.weight < 0) ("entry " ++ i.repr ++ ": weight must not be negative") ++
      pushIf (entry.amount < 0) ("entry " ++ i.repr ++ ": amount must not be negative") ++
      entryErrors ((key, i) :: seen) (i + 1) rest

def explicitEntries (errors : List String) (total : ℤ) : ℕ → List PolicyEntry → List String × ℤ
  | _, [] => (errors, total)
  | i, entry :: rest =>
      explicitEntries
        (errors ++ pushIf (entry.weight ≠ 0) ("entry " ++ i.repr ++ ": weight must be zero in explicit mode"))
        (total + entry.amount) (i + 1) rest

def weightedEntries (errors : List String) (weightSum : ℤ) : ℕ → List PolicyEntry → List String × ℤ
  | _, [] => (errors, weightSum)
  | i, entry :: rest =>
      weightedEntries
        (errors ++ pushIf (entry.amount ≠ 0) ("entry " ++ i.repr ++ ": amount must be zero in weighted mode"))
        (weightSum + entry.weight) (i + 1) rest

/-- `policy.bands[Number(weight)] ?? 0n`. -/
def bandAt (bands : List ℤ) (weight : ℤ) : ℤ := if 0 ≤ weight then bands.getD weight.toNat 0 else 0

def tieredEntries (bands : List ℤ) (errors : List String) (total : ℤ) :
    ℕ → List PolicyEntry → List String × ℤ
  | _, [] => (errors, total)
  | i, entry :: rest =>
      let errors := errors ++
        pushIf (entry.amount ≠ 0) ("entry " ++ i.repr ++ ": amount must be zero in tiered mode")
      if bands.length ≤ entry.weight then
        tieredEntries bands
          (errors ++ ["entry " ++ i.repr ++ ": band index " ++ entry.weight.repr ++ " is out of range"])
          total (i + 1) rest
      else tieredEntries bands errors (total + bandAt bands entry.weight) (i + 1) rest

def bandErrors : ℕ → List ℤ → List String
  | _, [] => []
  | i, band :: rest =>
      pushIf (band < 0) ("band " ++ i.repr ++ ": amount must not be negative") ++ bandErrors (i + 1) rest

def validateExplicit (policy : Policy) : List String × Option ℤ :=
  let errors := pushIf (policy.bands ≠ []) "bands must be empty in explicit mode"
  let (errors, total) := explicitEntries errors 0 0 policy.entries
  (errors ++ pushIf (policy.totalBudget < total)
    ("amounts total " ++ total.repr ++ " but the budget is " ++ policy.totalBudget.repr), some total)

def validateWeighted (policy : Policy) : List String × Option ℤ :=
  let errors := pushIf (policy.bands ≠ []) "bands must be empty in weighted mode"
  let (errors, weightSum) := weightedEntries errors 0 0 policy.entries
  (errors ++ pushIf (weightSum = 0) "weighted mode needs at least one positive weight",
    some (if 0 < weightSum then policy.totalBudget else 0))

def validateTiered (policy : Policy) : List String × Option ℤ :=
  let errors := pushIf (policy.bands = []) "tiered mode needs at least one band" ++
    bandErrors 0 policy.bands
  let (errors, total) := tieredEntries policy.bands errors 0 0 policy.entries
  (errors ++ pushIf (policy.totalBudget < total)
    ("band amounts total " ++ total.repr ++ " but the budget is " ++ policy.totalBudget.repr), some total)

def validateMode (policy : Policy) : List String × Option ℤ :=
  match policy.mode with
  | 0 => validateExplicit policy
  | 1 => validateWeighted policy
  | 2 => validateTiered policy
  | mode => (["unknown allocation mode " ++ mode.repr], none)

def boundErrors (policy : Policy) : List String :=
  pushIf (policy.totalBudget ≤ 0) "total budget must be positive" ++
  pushIf (policy.minAlloc < 0) "minimum allocation must not be negative" ++
  pushIf (policy.maxAlloc < 0) "maximum allocation must not be negative" ++
  pushIf (0 < policy.maxAlloc ∧ policy.maxAlloc < policy.minAlloc)
    "minimum allocation exceeds maximum allocation" ++
  pushIf (policy.entries.length = 0) "policy has no recipients" ++
  pushIf (4096 < policy.entries.length)
    ("policy has " ++ policy.entries.length.repr ++ " recipients, limit is 4096")

def validatePolicy (policy : Policy) : ValidationResult :=
  let (modeErrors, projectedTotal) := validateMode policy
  let errors := boundErrors policy ++ entryErrors [] 0 policy.entries ++ modeErrors
  { ok := errors.isEmpty, errors, projectedTotal }

end Validation

section Denotation

variable (keccak : Keccak)

structure PolicyEntry.Denotes (entry : PolicyEntry) (e : EntryTerms) : Prop where
  recipient : (AbiParam.address entry.recipient).Denotes keccak e.recipient
  weight : entry.weight = (e.weight : ℕ)
  amount : entry.amount = (e.amount : ℕ)

/-- A policy with numbers in range and well-formed addresses; an array has fewer than `2 ^ 32`
elements. -/
structure Policy.Denotes (policy : Policy) (t : PolicyTerms) : Prop where
  contractAddr : (AbiParam.address policy.contractAddr).Denotes keccak t.contractAddr
  roundId : policy.roundId = (t.roundId : ℕ)
  organization : (AbiParam.address policy.organization).Denotes keccak t.organization
  mode : policy.mode = t.mode
  totalBudget : policy.totalBudget = (t.totalBudget : ℕ)
  minAlloc : policy.minAlloc = (t.minAlloc : ℕ)
  maxAlloc : policy.maxAlloc = (t.maxAlloc : ℕ)
  bands : policy.bands = t.bands.map (fun b : Uint256 => ((b : ℕ) : ℤ))
  bandCount : policy.bands.length < 2 ^ 32
  salt : policy.salt = wordText t.salt
  entries : List.Forall₂ (PolicyEntry.Denotes keccak) policy.entries t.entries
  entryCount : policy.entries.length < 2 ^ 32

end Denotation

section Loops

variable {keccak : Keccak} {es : List PolicyEntry} {ts : List EntryTerms}

theorem checksumHex_zero : (checksumHex keccak 0).toList = zeroAddress := by
  have htext : zeroAddress = '0' :: 'x' :: List.replicate 40 '0' := by decide
  rw [htext, checksumHex, String.toList_append, String.toList_ofList, String.toList_ofList, Fin.val_zero,
    DigitText.hexDigits_zero]
  refine congrArg (fun digits => '0' :: 'x' :: digits) (List.eq_replicate_iff.mpr ⟨by simp, ?_⟩)
  intro c hc
  rw [List.append_eq, List.nil_append] at hc
  obtain ⟨i, hi, rfl⟩ := List.getElem_of_mem hc
  rw [List.getElem_mapIdx, List.getElem_replicate]
  split <;> rfl

theorem zeroAddress_iff {text : Text} {a : Address} (h : (AbiParam.address text).Denotes keccak a) :
    text = zeroAddress ↔ a = 0 := by
  have hzero : zeroAddress = addressText 0 := by decide
  constructor
  · rintro rfl
    rw [hzero] at h
    exact (toLowerCase_eq_iff h (AbiParam.Denotes.address 0)).mp rfl
  · rintro rfl
    generalize hp : AbiParam.address text = p at h
    generalize ha : ((0 : Address) : ℕ) = w at h
    cases h with
    | uint256 => nomatch hp
    | bytes32 => nomatch hp
    | address a =>
      rw [AbiParam.address.inj hp, hzero, Fin.ext ha]
    | checksummed a =>
      rw [AbiParam.address.inj hp, ← Fin.ext ha]
      exact checksumHex_zero

theorem entryErrors_eq_nil (h : List.Forall₂ (PolicyEntry.Denotes keccak) es ts)
    {seen : List (Text × ℕ)} {before : List Address} {i : ℕ}
    (hseen : seen.map Prod.fst = before.map addressText) :
    entryErrors seen i es = [] ↔
      (ts.map EntryTerms.recipient).Nodup ∧ ∀ e ∈ ts, e.recipient ≠ 0 ∧ e.recipient ∉ before := by
  induction h generalizing seen before i with
  | nil => simp [entryErrors]
  | @cons entry e es ts hd _ ih =>
    obtain ⟨a, ha, hkey⟩ := toLowerCase_denotes hd.recipient
    obtain rfl := Fin.ext ha
    have hlookup : seen.lookup (toLowerCase entry.recipient) = none ↔ e.recipient ∉ before := by
      rw [lookup_eq_none_iff_notMem, hseen, hkey, List.mem_map_of_injective fun _ _ => addressText_injective]
    have hrest := @ih ((toLowerCase entry.recipient, i) :: seen) (e.recipient :: before) (i + 1)
      (by simp [hkey, hseen])
    have hweight : ¬ entry.weight < 0 := by
      rw [hd.weight]
      omega
    have hamount : ¬ entry.amount < 0 := by
      rw [hd.amount]
      omega
    simp only [entryErrors, List.append_eq_nil_iff, pushIf_eq_nil, hweight, hamount, not_false_eq_true,
      and_true, zeroAddress_iff hd.recipient, hrest, List.map_cons, List.nodup_cons, List.mem_cons, not_or]
    cases hl : seen.lookup (toLowerCase entry.recipient) with
    | some prev =>
      have hmem : e.recipient ∈ before := by
        by_contra hmem
        rw [hlookup.mpr hmem] at hl
        cases hl
      simp [hmem]
    | none =>
      have hmem : e.recipient ∉ before := hlookup.mp hl
      simp only [and_true]
      constructor
      · rintro ⟨hzero, hnodup, hall⟩
        refine ⟨⟨?_, hnodup⟩, ?_⟩
        · intro hin
          obtain ⟨x, hx, heq⟩ := List.mem_map.mp hin
          exact (hall x hx).2.1 heq
        · rintro x (rfl | hx)
          · exact ⟨hzero, hmem⟩
          · exact ⟨(hall x hx).1, (hall x hx).2.2⟩
      · rintro ⟨⟨hnew, hnodup⟩, hall⟩
        refine ⟨(hall e (.inl rfl)).1, hnodup, fun x hx => ⟨(hall x (.inr hx)).1, ?_, (hall x (.inr hx)).2⟩⟩
        exact fun heq => hnew (List.mem_map.mpr ⟨x, hx, heq⟩)

theorem map_weight (h : List.Forall₂ (PolicyEntry.Denotes keccak) es ts) :
    es.map PolicyEntry.weight = ts.map (fun e => ((e.weight : ℕ) : ℤ)) := by
  induction h with
  | nil => rfl
  | cons hd _ ih => rw [List.map_cons, List.map_cons, hd.weight, ih]

theorem map_amount (h : List.Forall₂ (PolicyEntry.Denotes keccak) es ts) :
    es.map PolicyEntry.amount = ts.map (fun e => ((e.amount : ℕ) : ℤ)) := by
  induction h with
  | nil => rfl
  | cons hd _ ih => rw [List.map_cons, List.map_cons, hd.amount, ih]

theorem explicitEntries_eq (errors : List String) (total : ℤ) (i : ℕ) (es : List PolicyEntry) :
    ((explicitEntries errors total i es).1 = [] ↔ errors = [] ∧ ∀ w ∈ es.map PolicyEntry.weight, w = 0) ∧
      (explicitEntries errors total i es).2 = total + (es.map PolicyEntry.amount).sum := by
  induction es generalizing errors total i with
  | nil => simp [explicitEntries]
  | cons entry rest ih =>
    obtain ⟨herrors, htotal⟩ := ih (errors ++
      pushIf (entry.weight ≠ 0) ("entry " ++ i.repr ++ ": weight must be zero in explicit mode"))
      (total + entry.amount) (i + 1)
    refine ⟨herrors.trans ?_, htotal.trans ?_⟩
    · simp [and_assoc]
    · rw [List.map_cons, List.sum_cons, add_assoc]

theorem weightedEntries_eq (errors : List String) (weightSum : ℤ) (i : ℕ) (es : List PolicyEntry) :
    ((weightedEntries errors weightSum i es).1 = [] ↔
        errors = [] ∧ ∀ a ∈ es.map PolicyEntry.amount, a = 0) ∧
      (weightedEntries errors weightSum i es).2 = weightSum + (es.map PolicyEntry.weight).sum := by
  induction es generalizing errors weightSum i with
  | nil => simp [weightedEntries]
  | cons entry rest ih =>
    obtain ⟨herrors, htotal⟩ := ih (errors ++
      pushIf (entry.amount ≠ 0) ("entry " ++ i.repr ++ ": amount must be zero in weighted mode"))
      (weightSum + entry.weight) (i + 1)
    refine ⟨herrors.trans ?_, htotal.trans ?_⟩
    · simp [and_assoc]
    · rw [List.map_cons, List.sum_cons, add_assoc]

theorem bandAt_of_le {bands : List ℤ} {weight : ℤ} (h : bands.length ≤ weight) :
    bandAt bands weight = 0 := by
  have hle : bands.length ≤ weight.toNat := by omega
  rw [bandAt, List.getD_eq_default _ _ hle, ite_self]

theorem tieredEntries_eq (bands : List ℤ) (errors : List String) (total : ℤ) (i : ℕ)
    (es : List PolicyEntry) :
    ((tieredEntries bands errors total i es).1 = [] ↔ errors = [] ∧
        (∀ a ∈ es.map PolicyEntry.amount, a = 0) ∧
          ∀ w ∈ es.map PolicyEntry.weight, w < (bands.length : ℤ)) ∧
      (tieredEntries bands errors total i es).2 =
        total + ((es.map PolicyEntry.weight).map (bandAt bands)).sum := by
  induction es generalizing errors total i with
  | nil => simp [tieredEntries]
  | cons entry rest ih =>
    rw [tieredEntries]
    split_ifs with hw
    · obtain ⟨herrors, htotal⟩ := ih ((errors ++
        pushIf (entry.amount ≠ 0) ("entry " ++ i.repr ++ ": amount must be zero in tiered mode")) ++
        ["entry " ++ i.repr ++ ": band index " ++ entry.weight.repr ++ " is out of range"]) total (i + 1)
      refine ⟨herrors.trans ?_, htotal.trans ?_⟩
      · simp [not_lt.mpr hw]
      · rw [List.map_cons, List.map_cons, List.sum_cons, bandAt_of_le hw, zero_add]
    · obtain ⟨herrors, htotal⟩ := ih (errors ++
        pushIf (entry.amount ≠ 0) ("entry " ++ i.repr ++ ": amount must be zero in tiered mode"))
        (total + bandAt bands entry.weight) (i + 1)
      refine ⟨herrors.trans ?_, htotal.trans ?_⟩
      · simp [not_le.mp hw, and_assoc]
      · rw [List.map_cons, List.map_cons, List.sum_cons, add_assoc]

theorem bandErrors_eq_nil {bands : List ℤ} {i : ℕ} : bandErrors i bands = [] ↔ ∀ b ∈ bands, 0 ≤ b := by
  induction bands generalizing i with
  | nil => simp [bandErrors]
  | cons b rest ih => simp [bandErrors, ih]

end Loops

section Agreement

variable {keccak : Keccak} {policy : Policy} {t : PolicyTerms} (h : policy.Denotes keccak t)
include h

theorem entries_length : policy.entries.length = t.entries.length := h.entries.length_eq

theorem sum_amount : (policy.entries.map PolicyEntry.amount).sum = (t.amountSum : ℤ) := by
  rw [map_amount h.entries, PolicyTerms.amountSum, Nat.cast_list_sum, List.map_map]
  rfl

theorem sum_weight : (policy.entries.map PolicyEntry.weight).sum = (t.weightSum : ℤ) := by
  rw [map_weight h.entries, PolicyTerms.weightSum, Nat.cast_list_sum, List.map_map]
  rfl

theorem bandAt_cast (w : Uint256) : bandAt policy.bands ((w : ℕ) : ℤ) = t.band w := by
  rw [bandAt, if_pos (Int.natCast_nonneg _), Int.toNat_natCast, h.bands, PolicyTerms.band,
    List.getD_eq_getElem?_getD, List.getElem?_map]
  cases t.bands[(w : ℕ)]? <;> rfl

theorem sum_band :
    ((policy.entries.map PolicyEntry.weight).map (bandAt policy.bands)).sum = (t.bandSum : ℤ) := by
  rw [map_weight h.entries, PolicyTerms.bandSum, Nat.cast_list_sum, List.map_map, List.map_map]
  exact congrArg List.sum (List.map_congr_left fun e _ => bandAt_cast h e.weight)

theorem bands_eq_nil : policy.bands = [] ↔ t.bands = [] := by rw [h.bands, List.map_eq_nil_iff]

theorem amounts_zero : (∀ a ∈ policy.entries.map PolicyEntry.amount, a = 0) ↔
    ∀ e ∈ t.entries, e.amount = 0 := by
  simp [map_amount h.entries]

theorem weights_zero : (∀ w ∈ policy.entries.map PolicyEntry.weight, w = 0) ↔
    ∀ e ∈ t.entries, e.weight = 0 := by
  simp [map_weight h.entries]

theorem weights_lt : (∀ w ∈ policy.entries.map PolicyEntry.weight, w < (policy.bands.length : ℤ)) ↔
    ∀ e ∈ t.entries, (e.weight : ℕ) < t.bands.length := by
  simp [map_weight h.entries, h.bands]

theorem boundErrors_eq_nil : boundErrors policy = [] ↔
    0 < (t.totalBudget : ℕ) ∧ (0 < (t.maxAlloc : ℕ) → (t.minAlloc : ℕ) ≤ t.maxAlloc) ∧
      t.entries ≠ [] ∧ t.entries.length ≤ maxRecipients := by
  have hlen := entries_length h
  have hne : t.entries ≠ [] ↔ t.entries.length ≠ 0 := List.length_eq_zero_iff.not.symm
  simp only [boundErrors, List.append_eq_nil_iff, pushIf_eq_nil, h.totalBudget, h.minAlloc, h.maxAlloc,
    hlen, hne, maxRecipients]
  omega

theorem validateExplicit_eq : ((validateExplicit policy).1 = [] ↔ t.bands = [] ∧
      (∀ e ∈ t.entries, e.weight = 0) ∧ t.amountSum ≤ t.totalBudget) ∧
    (validateExplicit policy).2 = some (t.amountSum : ℤ) := by
  obtain ⟨herrors, htotal⟩ := explicitEntries_eq
    (pushIf (policy.bands ≠ []) "bands must be empty in explicit mode") 0 0 policy.entries
  rw [zero_add, sum_amount h] at htotal
  simp only [validateExplicit, List.append_eq_nil_iff, herrors, htotal, weights_zero h]
  simp only [pushIf_eq_nil, bands_eq_nil h, h.totalBudget, ne_eq, not_not, not_lt, Nat.cast_le, and_assoc,
    and_self]

theorem validateWeighted_eq : ((validateWeighted policy).1 = [] ↔ t.bands = [] ∧
      (∀ e ∈ t.entries, e.amount = 0) ∧ t.weightSum ≠ 0) ∧
    (validateWeighted policy).2 = some (if 0 < t.weightSum then policy.totalBudget else 0) := by
  obtain ⟨herrors, htotal⟩ := weightedEntries_eq
    (pushIf (policy.bands ≠ []) "bands must be empty in weighted mode") 0 0 policy.entries
  rw [zero_add, sum_weight h] at htotal
  simp only [validateWeighted, List.append_eq_nil_iff, herrors, htotal, amounts_zero h]
  simp only [pushIf_eq_nil, bands_eq_nil h, ne_eq, not_not, Nat.cast_eq_zero, Nat.cast_pos, and_assoc,
    and_self]

theorem validateTiered_eq : ((validateTiered policy).1 = [] ↔ t.bands ≠ [] ∧
      (∀ e ∈ t.entries, e.amount = 0) ∧ (∀ e ∈ t.entries, (e.weight : ℕ) < t.bands.length) ∧
        t.bandSum ≤ t.totalBudget) ∧
    (validateTiered policy).2 = some (t.bandSum : ℤ) := by
  obtain ⟨herrors, htotal⟩ := tieredEntries_eq policy.bands
    (pushIf (policy.bands = []) "tiered mode needs at least one band" ++ bandErrors 0 policy.bands) 0 0
    policy.entries
  have hnonneg : ∀ b ∈ policy.bands, 0 ≤ b := by
    rw [h.bands]
    simp
  rw [zero_add, sum_band h] at htotal
  simp only [validateTiered, List.append_eq_nil_iff, herrors, htotal, amounts_zero h, weights_lt h]
  simp only [pushIf_eq_nil, bands_eq_nil h, h.totalBudget, bandErrors_eq_nil, iff_true_intro hnonneg, ne_eq,
    not_lt, Nat.cast_le, and_assoc, true_and, and_self]

theorem validateMode_eq_nil : (validateMode policy).1 = [] ↔ t.ModeRules := by
  rw [validateMode, h.mode]
  constructor
  · intro hnil
    split at hnil
    · next hm =>
      obtain ⟨hbands, hweights, hfits⟩ := (validateExplicit_eq h).1.mp hnil
      exact .explicit hm hbands hweights hfits
    · next hm =>
      obtain ⟨hbands, hamounts, hpositive⟩ := (validateWeighted_eq h).1.mp hnil
      exact .weighted hm hbands hamounts hpositive
    · next hm =>
      obtain ⟨hbands, hamounts, hindex, hfits⟩ := (validateTiered_eq h).1.mp hnil
      exact .tiered hm hbands hamounts hindex hfits
    · cases hnil
  · rintro (⟨hm, hbands, hweights, hfits⟩ | ⟨hm, hbands, hamounts, hpositive⟩ |
      ⟨hm, hbands, hamounts, hindex, hfits⟩) <;> rw [hm]
    · exact (validateExplicit_eq h).1.mpr ⟨hbands, hweights, hfits⟩
    · exact (validateWeighted_eq h).1.mpr ⟨hbands, hamounts, hpositive⟩
    · exact (validateTiered_eq h).1.mpr ⟨hbands, hamounts, hindex, hfits⟩

theorem validatePolicy_ok : (validatePolicy policy).ok = true ↔ t.Rules := by
  have hentries : entryErrors [] 0 policy.entries = [] ↔ (t.entries.map EntryTerms.recipient).Nodup ∧
      ∀ e ∈ t.entries, e.recipient ≠ 0 ∧ e.recipient ∉ [] := entryErrors_eq_nil h.entries rfl
  simp only [List.not_mem_nil, not_false_eq_true, and_true] at hentries
  simp only [validatePolicy, List.isEmpty_iff, List.append_eq_nil_iff, boundErrors_eq_nil h, hentries,
    validateMode_eq_nil h]
  constructor
  · rintro ⟨⟨⟨hbudget, hbounds, hne, hcount⟩, hnodup, hzero⟩, hmode⟩
    exact ⟨hbudget, hbounds, hne, hcount, hnodup, hzero, hmode⟩
  · intro hrules
    exact ⟨⟨⟨hrules.budget, hrules.bounds, hrules.entries, hrules.count⟩, hrules.distinct,
      hrules.nonzero⟩, hrules.mode⟩

end Agreement

end Fidensur.BrowserPolicy
