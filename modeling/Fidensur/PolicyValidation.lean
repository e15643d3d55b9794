import Fidensur.AllocationPolicy

set_option autoImplicit false

namespace Fidensur

/-- The loop of `Validate`; `seen` maps recipients to the entries they stood in. -/
def validateEntries (seen : List (Address × ℕ)) : ℕ → List PolicyEntry → Except PolicyError Unit
  | _, [] => .ok ()
  | i, e :: rest => do
      require (e.recipient ≠ 0) (.zeroRecipient i)
      match seen.lookup e.recipient with
      | some previous => .error (.duplicateRecipient i e.recipient previous)
      | none =>
        require (e.weight.any (fun w => decide (0 ≤ w)) = true) (.weightMissing i)
        require (e.amount.any (fun a => decide (0 ≤ a)) = true) (.amountMissing i)
        validateEntries ((e.recipient, i) :: seen) (i + 1) rest

def explicitTotal (total : ℤ) : ℕ → List PolicyEntry → Except PolicyError ℤ
  | _, [] => .ok total
  | i, e :: rest => do
      require (value e.weight = 0) (.weightNotZero i)
      explicitTotal (total + value e.amount) (i + 1) rest

def weightTotal (total : ℤ) : ℕ → List PolicyEntry → Except PolicyError ℤ
  | _, [] => .ok total
  | i, e :: rest => do
      require (value e.amount = 0) (.amountNotZeroWeighted i)
      weightTotal (total + value e.weight) (i + 1) rest

def validateBands : ℕ → List (Option ℤ) → Except PolicyError Unit
  | _, [] => .ok ()
  | i, b :: rest => do
      require (b.any (fun x => decide (0 ≤ x)) = true) (.bandMissing i)
      validateBands (i + 1) rest

/-- The band a weight indexes: it has to fit a `uint64` and lie inside the table. -/
def bandIndex (bands : List (Option ℤ)) (weight : ℤ) : Option ℕ :=
  if 0 ≤ weight ∧ weight < 2 ^ 64 ∧ weight.toNat < bands.length then some weight.toNat else none

def bandAmount (bands : List (Option ℤ)) (i : ℕ) : ℤ := value (bands.getD i none)

def tieredTotal (bands : List (Option ℤ)) (total : ℤ) : ℕ → List PolicyEntry → Except PolicyError ℤ
  | _, [] => .ok total
  | i, e :: rest => do
      require (value e.amount = 0) (.amountNotZeroTiered i)
      match bandIndex bands (value e.weight) with
      | none => .error (.bandIndexOutOfRange i (value e.weight) bands.length)
      | some b => tieredTotal bands (total + bandAmount bands b) (i + 1) rest

def validateMode (p : Policy) : Except PolicyError Unit :=
  if p.mode = modeExplicit then do
    let total ← explicitTotal 0 0 p.entries
    require (total ≤ value p.totalBudget) (.explicitTotalExceedsBudget total (value p.totalBudget))
    require (p.bands = []) .bandsNotEmptyExplicit
  else if p.mode = modeWeighted then do
    let weightSum ← weightTotal 0 0 p.entries
    require (weightSum ≠ 0) .noPositiveWeight
    require (p.bands = []) .bandsNotEmptyWeighted
  else if p.mode = modeTiered then do
    require (p.bands ≠ []) .noBands
    require (p.bands.length ≤ maxRecipients) (.tooManyBands p.bands.length)
    validateBands 0 p.bands
    let total ← tieredTotal p.bands 0 0 p.entries
    require (total ≤ value p.totalBudget) (.tieredTotalExceedsBudget total (value p.totalBudget))
  else .error (.unsupportedMode p.mode)

def validate (cfg : EngineConfig) (p : Policy) : Except PolicyError Unit := do
  require (cfg.contractAddressSet = true) .contractNotSet
  require (p.contractAddr = cfg.contractAddress) (.wrongContract p.contractAddr cfg.contractAddress)
  require (p.roundId.isSome = true) .roundIdMissing
  require (p.totalBudget.any (fun b => decide (0 < b)) = true) .totalBudgetNotPositive
  require (p.minAlloc.all (fun m => decide (0 ≤ m)) = true) .minAllocNegative
  require (p.maxAlloc.all (fun m => decide (0 ≤ m)) = true) .maxAllocNegative
  require (¬ (capped p.maxAlloc = true ∧ capped p.minAlloc = true ∧
      value p.maxAlloc < value p.minAlloc))
    (.minAllocExceedsMaxAlloc (value p.minAlloc) (value p.maxAlloc))
  require (p.entries ≠ []) .noEntries
  require (p.entries.length ≤ maxRecipients) (.tooManyEntries p.entries.length)
  validateEntries [] 0 p.entries
  validateMode p

section Accepted

theorem lookup_eq_none_iff_notMem {α β : Type} [BEq α] [LawfulBEq α] {l : List (α × β)} {k : α} :
    l.lookup k = none ↔ k ∉ l.map Prod.fst := by
  rw [List.lookup_eq_none_iff]
  constructor
  · intro h hmem
    obtain ⟨q, hq, rfl⟩ := List.mem_map.mp hmem
    simpa using h q hq
  · intro h q hq
    simpa using fun heq : k = q.1 => h (List.mem_map.mpr ⟨q, hq, heq.symm⟩)

theorem validateEntries_ok {seen : List (Address × ℕ)} {i : ℕ} {entries : List PolicyEntry}
    (h : validateEntries seen i entries = .ok ()) :
    (entries.map PolicyEntry.recipient).Nodup ∧
      ∀ e ∈ entries, e.recipient ≠ 0 ∧ e.recipient ∉ seen.map Prod.fst ∧
        0 ≤ value e.weight ∧ 0 ≤ value e.amount := by
  induction entries generalizing seen i with
  | nil => exact ⟨List.nodup_nil, nofun⟩
  | cons e rest ih =>
    simp only [validateEntries, bind_ok, require_ok, exists_const] at h
    obtain ⟨hzero, h⟩ := h
    cases hl : seen.lookup e.recipient with
    | some previous =>
      rw [hl] at h
      cases h
    | none =>
      simp only [hl, bind_ok, require_ok, exists_const] at h
      obtain ⟨hw, ha, hrest⟩ := h
      obtain ⟨hnodup, hall⟩ := ih hrest
      have hnew : e.recipient ∉ rest.map PolicyEntry.recipient := by
        intro hmem
        obtain ⟨e', he', heq⟩ := List.mem_map.mp hmem
        exact (hall e' he').2.1 (by simp [heq])
      have hseen : e.recipient ∉ seen.map Prod.fst := lookup_eq_none_iff_notMem.mp hl
      refine ⟨List.nodup_cons.mpr ⟨hnew, hnodup⟩, List.forall_mem_cons.mpr ⟨⟨hzero, hseen, ?_, ?_⟩, ?_⟩⟩
      · cases hv : e.weight <;> simp_all [value]
      · cases hv : e.amount <;> simp_all [value]
      · intro e' he'
        obtain ⟨hz, hs, hw', ha'⟩ := hall e' he'
        simp only [List.map_cons, List.mem_cons, not_or] at hs
        exact ⟨hz, hs.2, hw', ha'⟩

def tierOf (bands : List (Option ℤ)) (e : PolicyEntry) : ℤ :=
  (bandIndex bands (value e.weight)).elim 0 (bandAmount bands)

theorem explicitTotal_ok {total t : ℤ} {i : ℕ} {entries : List PolicyEntry}
    (h : explicitTotal total i entries = .ok t) :
    t = total + (entries.map (fun e => value e.amount)).sum := by
  induction entries generalizing total i with
  | nil =>
    cases h
    simp
  | cons e rest ih =>
    simp only [explicitTotal, bind_ok, require_ok, exists_const] at h
    rw [ih h.2, List.map_cons, List.sum_cons, add_assoc]

theorem tieredTotal_ok {bands : List (Option ℤ)} {total t : ℤ} {i : ℕ} {entries : List PolicyEntry}
    (h : tieredTotal bands total i entries = .ok t) :
    (∀ e ∈ entries, (bandIndex bands (value e.weight)).isSome = true) ∧
      t = total + (entries.map (tierOf bands)).sum := by
  induction entries generalizing total i with
  | nil =>
    cases h
    exact ⟨nofun, by simp⟩
  | cons e rest ih =>
    simp only [tieredTotal, bind_ok, require_ok, exists_const] at h
    obtain ⟨-, h⟩ := h
    cases hb : bandIndex bands (value e.weight) with
    | none =>
      rw [hb] at h
      cases h
    | some b =>
      simp only [hb] at h
      obtain ⟨hrest, ht⟩ := ih h
      refine ⟨List.forall_mem_cons.mpr ⟨by simp [hb], hrest⟩, ?_⟩
      simp [ht, tierOf, hb, add_assoc]

theorem validateBands_ok {i : ℕ} {bands : List (Option ℤ)} (h : validateBands i bands = .ok ()) :
    ∀ b ∈ bands, 0 ≤ value b := by
  induction bands generalizing i with
  | nil => nofun
  | cons b rest ih =>
    simp only [validateBands, bind_ok, require_ok, exists_const] at h
    refine List.forall_mem_cons.mpr ⟨?_, ih h.2⟩
    cases b <;> simp_all [value]

theorem tierOf_nonneg {bands : List (Option ℤ)} (h : ∀ b ∈ bands, 0 ≤ value b) (e : PolicyEntry) :
    0 ≤ tierOf bands e := by
  unfold tierOf
  cases hb : bandIndex bands (value e.weight) with
  | none => exact le_rfl
  | some i =>
    rw [Option.elim_some, bandAmount]
    by_cases hi : i < bands.length
    · rw [List.getD_eq_getElem _ _ hi]
      exact h _ (List.getElem_mem hi)
    · rw [List.getD_eq_default _ _ (not_lt.mp hi)]
      exact le_rfl

inductive Policy.ModeValid (p : Policy) : Prop
  | explicit (hm : p.mode = modeExplicit)
      (hfits : (p.entries.map (fun e => value e.amount)).sum ≤ value p.totalBudget)
  | weighted (hm : p.mode = modeWeighted)
  | tiered (hm : p.mode = modeTiered)
      (hbands : ∀ b ∈ p.bands, 0 ≤ value b)
      (hindex : ∀ e ∈ p.entries, (bandIndex p.bands (value e.weight)).isSome = true)
      (hfits : (p.entries.map (tierOf p.bands)).sum ≤ value p.totalBudget)

theorem validateMode_ok {p : Policy} (h : validateMode p = .ok ()) : p.ModeValid := by
  unfold validateMode at h
  split_ifs at h with h0 h1 h2
  · simp only [bind_ok, require_ok, exists_const] at h
    obtain ⟨total, htotal, hle, -⟩ := h
    rw [explicitTotal_ok htotal, zero_add] at hle
    exact .explicit h0 hle
  · exact .weighted h1
  · simp only [bind_ok, require_ok, exists_const] at h
    obtain ⟨-, -, _, hbands, total, htotal, hle⟩ := h
    obtain ⟨hindex, ht⟩ := tieredTotal_ok htotal
    rw [ht, zero_add] at hle
    exact .tiered h2 (validateBands_ok hbands) hindex hle

structure Policy.Valid (cfg : EngineConfig) (p : Policy) : Prop where
  target : p.contractAddr = cfg.contractAddress
  served : cfg.contractAddressSet = true
  roundId : p.roundId.isSome = true
  budget : 0 < value p.totalBudget
  entries : p.entries ≠ []
  count : p.entries.length ≤ maxRecipients
  distinct : (p.entries.map PolicyEntry.recipient).Nodup
  nonzero : ∀ e ∈ p.entries, e.recipient ≠ 0
  weights : ∀ e ∈ p.entries, 0 ≤ value e.weight
  amounts : ∀ e ∈ p.entries, 0 ≤ value e.amount
  mode : p.ModeValid

theorem Policy.Valid.of_validate {cfg : EngineConfig} {p : Policy} (h : validate cfg p = .ok ()) :
    p.Valid cfg := by
  simp only [validate, bind_ok, require_ok, exists_const] at h
  obtain ⟨hset, htarget, hid, hb, -, -, -, hne, hcount, _, hentries, hmode⟩ := h
  obtain ⟨hnodup, hall⟩ := validateEntries_ok hentries
  refine ⟨htarget, hset, hid, ?_, hne, hcount, hnodup, fun e he => (hall e he).1,
    fun e he => (hall e he).2.2.1, fun e he => (hall e he).2.2.2, validateMode_ok hmode⟩
  cases hv : p.totalBudget <;> simp_all [value]

end Accepted

end Fidensur
