import Fidensur.EvaluatedTable

set_option autoImplicit false

/-! Changes of a policy that its table does not see, or sees as a filter. -/

namespace Fidensur

variable {cfg : EngineConfig} {p : Policy} {k : ℤ}

section Scale

def PolicyEntry.scaled (k : ℤ) (e : PolicyEntry) : PolicyEntry := { e with weight := e.weight.map (k * ·) }

def Policy.scaled (k : ℤ) (p : Policy) : Policy := { p with entries := p.entries.map (PolicyEntry.scaled k) }

def Share.scaled (k : ℤ) (s : Share) : Share := { s with weight := k * s.weight }

theorem value_map_mul (w : Option ℤ) : value (w.map (k * ·)) = k * value w := by
  cases w with
  | none => exact (mul_zero k).symm
  | some w => rfl

theorem ofEntry_scaled (e : PolicyEntry) : Share.ofEntry (e.scaled k) = (Share.ofEntry e).scaled k := by
  simp only [Share.ofEntry, PolicyEntry.scaled, Share.scaled, value_map_mul]

theorem freeWeight_scaled (shares : List Share) :
    freeWeight (shares.map (Share.scaled k)) = k * freeWeight shares := by
  induction shares with
  | nil => simp [freeWeight]
  | cons s rest ih =>
    simp only [freeWeight, List.map_cons, List.sum_cons] at ih ⊢
    rw [ih, mul_add]
    congr 1
    cases hc : s.isCapped <;> simp [Share.scaled, hc]

theorem cappedSum_scaled (shares : List Share) :
    cappedSum (shares.map (Share.scaled k)) = cappedSum shares := by
  rw [cappedSum, List.map_map]
  rfl

/-- The factor cancels in every share. -/
theorem pass_scaled (hk : 0 < k) (maxAlloc : Option ℤ) (remaining weightSum : ℤ) (s : Share) :
    Share.pass maxAlloc remaining (k * weightSum) (s.scaled k) =
      (Share.pass maxAlloc remaining weightSum s).scaled k := by
  have hshare : remaining * (k * s.weight) / (k * weightSum) = remaining * s.weight / weightSum := by
    rw [mul_left_comm, Int.mul_ediv_mul_of_pos _ _ hk]
  have hcapped : (s.scaled k).isCapped = s.isCapped := rfl
  unfold Share.pass
  rw [hcapped]
  by_cases hc : s.isCapped = true
  · rw [if_pos hc, if_pos hc]
  · rw [if_neg hc, if_neg hc]
    simp only [Share.scaled, hshare]
    split <;> rfl

theorem weightedLoop_scaled (hk : 0 < k) (fuel : ℕ) (remaining : ℤ) (shares : List Share) :
    weightedLoop (p.scaled k) fuel remaining (shares.map (Share.scaled k)) =
      (weightedLoop p fuel remaining shares).map (List.map (Share.scaled k)) := by
  induction fuel generalizing remaining shares with
  | zero => rfl
  | succ fuel ih =>
    have hpass : (shares.map (Share.scaled k)).map (Share.pass p.maxAlloc remaining (k * freeWeight shares)) =
        (shares.map (Share.pass p.maxAlloc remaining (freeWeight shares))).map (Share.scaled k) := by
      rw [List.map_map, List.map_map]
      exact List.map_congr_left fun s _ => pass_scaled hk _ _ _ s
    have hnewly : (shares.map (Share.scaled k)).any (fun s => !s.isCapped &&
          (Share.pass p.maxAlloc remaining (k * freeWeight shares) s).isCapped) =
        shares.any (fun s => !s.isCapped &&
          (Share.pass p.maxAlloc remaining (freeWeight shares) s).isCapped) := by
      rw [List.any_map]
      congr 1
      funext s
      rw [Function.comp_apply, pass_scaled hk]
      rfl
    have hzero : k * freeWeight shares = 0 ↔ freeWeight shares = 0 := by
      rw [mul_eq_zero]
      exact or_iff_right hk.ne'
    have hmax : (p.scaled k).maxAlloc = p.maxAlloc := rfl
    have hbudget : (p.scaled k).totalBudget = p.totalBudget := rfl
    simp only [weightedLoop, freeWeight_scaled, hmax, hbudget, hpass, hnewly, cappedSum_scaled, hzero]
    split
    · rfl
    · split
      · rfl
      · split
        · rfl
        · apply ih

theorem weightedShares_scaled (hk : 0 < k) :
    weightedShares (p.scaled k) = (weightedShares p).map (List.map (Share.scaled k)) := by
  have hentries : (p.scaled k).entries.map Share.ofEntry = (p.entries.map Share.ofEntry).map (Share.scaled k) := by
    rw [Policy.scaled, List.map_map, List.map_map]
    exact List.map_congr_left fun e _ => ofEntry_scaled e
  have hlength : (p.scaled k).entries.length = p.entries.length := List.length_map ..
  rw [weightedShares, hentries, hlength]
  exact weightedLoop_scaled hk _ _ _

theorem giveDust_scaled (hk : 0 < k) (maxAlloc : Option ℤ) (dust : ℤ) (shares : List Share) :
    giveDust maxAlloc dust (shares.map (Share.scaled k)) =
      (giveDust maxAlloc dust shares).map (Share.scaled k) := by
  induction shares with
  | nil => rfl
  | cons s rest ih =>
    have habsorbs : (s.scaled k).absorbs maxAlloc dust = s.absorbs maxAlloc dust := by
      have hweight : decide ((s.scaled k).weight ≠ 0) = decide (s.weight ≠ 0) := by
        rw [decide_eq_decide, Share.scaled, ne_eq, mul_eq_zero, or_iff_right hk.ne']
      unfold Share.absorbs
      rw [hweight]
      rfl
    rw [List.map_cons, giveDust, giveDust, habsorbs, ih]
    split <;> rfl

theorem distributeDust_scaled (hk : 0 < k) (shares : List Share) :
    distributeDust (p.scaled k) (shares.map (Share.scaled k)) =
      (distributeDust p shares).map (Share.scaled k) := by
  have hdust : dustOf (p.scaled k) (shares.map (Share.scaled k)) = dustOf p shares := by
    rw [dustOf, List.map_map]
    rfl
  rw [distributeDust, distributeDust, hdust]
  split
  · rfl
  · exact giveDust_scaled hk _ _ _

theorem weightedAmounts_scaled (hk : 0 < k) : weightedAmounts (p.scaled k) = weightedAmounts p := by
  rw [weightedAmounts, weightedAmounts, weightedShares_scaled hk]
  cases weightedShares p with
  | error e => rfl
  | ok shares =>
    change Except.ok _ = Except.ok _
    rw [distributeDust_scaled hk, List.map_map]
    rfl

theorem validateEntries_scaled (hk : 0 < k) (seen : List (Address × ℕ)) (i : ℕ) (entries : List PolicyEntry) :
    validateEntries seen i (entries.map (PolicyEntry.scaled k)) = validateEntries seen i entries := by
  have hweight (w : Option ℤ) : (w.map (k * ·)).any (fun w => decide (0 ≤ w)) = w.any (fun w => decide (0 ≤ w)) := by
    cases w with
    | none => rfl
    | some w => simp [mul_nonneg_iff_of_pos_left hk]
  induction entries generalizing seen i with
  | nil => rfl
  | cons e rest ih =>
    simp only [List.map_cons, validateEntries, ih]
    simp only [PolicyEntry.scaled, hweight]
    rfl

theorem weightTotal_scaled (total : ℤ) (i : ℕ) (entries : List PolicyEntry) :
    weightTotal (k * total) i (entries.map (PolicyEntry.scaled k)) = (weightTotal total i entries).map (k * ·) := by
  induction entries generalizing total i with
  | nil => rfl
  | cons e rest ih =>
    have hnext : k * total + value (e.scaled k).weight = k * (total + value e.weight) := by
      rw [PolicyEntry.scaled, value_map_mul, mul_add]
    have hamount : (e.scaled k).amount = e.amount := rfl
    rw [List.map_cons, weightTotal, weightTotal, hnext, ih, hamount]
    unfold require
    split <;> rfl

theorem validateMode_scaled (hk : 0 < k) (hm : p.mode = modeWeighted) :
    validateMode (p.scaled k) = validateMode p := by
  have h10 : modeWeighted ≠ modeExplicit := by decide
  have htotal : weightTotal 0 0 (p.scaled k).entries = (weightTotal 0 0 p.entries).map (k * ·) := by
    rw [← weightTotal_scaled, mul_zero]
    rfl
  have hmode : (p.scaled k).mode = modeWeighted := hm
  rw [validateMode, validateMode, hmode, hm, if_neg h10, if_pos rfl, if_neg h10, if_pos rfl, htotal]
  cases weightTotal 0 0 p.entries with
  | error e => rfl
  | ok total =>
    have hne : (k * total ≠ 0) = (total ≠ 0) := by
      rw [ne_eq, ne_eq, mul_eq_zero, or_iff_right hk.ne']
    change (require (k * total ≠ 0) _ >>= _) = (require (total ≠ 0) _ >>= _)
    simp only [hne]
    rfl

end Scale

/-- Only the proportions of the weights count: a common positive factor changes neither the verdict
of the validation nor the table. -/
theorem weights_rescaled (cfg : EngineConfig) (p : Policy) (k : ℤ) (hk : 0 < k) (hm : p.mode = modeWeighted) :
    validate cfg (p.scaled k) = validate cfg p ∧ evaluate (p.scaled k) = evaluate p := by
  have h10 : modeWeighted ≠ modeExplicit := by decide
  constructor
  · have hentries : (p.scaled k).entries ≠ [] ↔ p.entries ≠ [] := List.map_eq_nil_iff.not
    have hlength : (p.scaled k).entries.length = p.entries.length := List.length_map ..
    have hrows := validateEntries_scaled hk [] 0 p.entries
    simp only [validate, hentries, hlength, validateMode_scaled hk hm]
    rw [← hrows]
    rfl
  · have hmode : (p.scaled k).mode = modeWeighted := hm
    have hamounts : computeAmounts (p.scaled k) = computeAmounts p := by
      rw [computeAmounts, computeAmounts, hmode, hm, if_neg h10, if_pos rfl, if_neg h10, if_pos rfl,
        weightedAmounts_scaled hk]
    rw [evaluate, evaluate, hamounts]
    rfl

/-- One row is held at the cap and the first of the others gets the dust. -/
def unevenTable : List Allocation := [⟨0, 1, 3⟩, ⟨1, 2, 2⟩, ⟨2, 3, 6⟩]

theorem weights_rescaled_sample : evaluate (unevenPolicy.scaled 1000) = .ok unevenTable ∧
    validate surplusConfig (unevenPolicy.scaled 1000) = .ok () := by
  obtain ⟨hvalidate, hevaluate⟩ := weights_rescaled surplusConfig unevenPolicy 1000 (by decide) rfl
  constructor
  · rw [hevaluate]
    decide
  · rw [hvalidate]
    decide

section Rows

theorem assignIndices_congr {rows rows' : List Allocation} (h : rows.map Allocation.row = rows'.map Allocation.row) :
    assignIndices rows = assignIndices rows' := by
  have hlen : rows.length = rows'.length := by simpa using congrArg List.length h
  apply List.ext_getElem
  · simpa [assignIndices] using hlen
  · intro i hi hi'
    simp only [assignIndices, List.length_mapIdx] at hi hi'
    have hrow : rows[i].row = rows'[i].row := by
      have := congrArg (fun l => l[i]?) h
      simpa [List.getElem?_eq_getElem hi, List.getElem?_eq_getElem hi'] using this
    obtain ⟨hrecipient, hamount⟩ := Prod.mk.inj hrow
    simp only [assignIndices, List.getElem_mapIdx, hrecipient, hamount]

theorem assignIndices_self {table : List Allocation} (h : ∀ i, (hi : i < table.length) → table[i].index = i) :
    assignIndices table = table := by
  apply List.ext_getElem
  · simp [assignIndices]
  · intro i hi hi'
    have hindex := h i hi'
    cases hrow : table[i]
    simp_all [assignIndices]

theorem filter_insertionSort {rows : List Allocation} (hn : (rows.map Allocation.recipient).Nodup)
    (f : Allocation → Bool) :
    (rows.insertionSort byRecipient).filter f = (rows.filter f).insertionSort byRecipient := by
  have hsub : ((rows.filter f).map Allocation.recipient).Nodup :=
    hn.sublist (List.filter_sublist.map _)
  have hsorted := sorted_insertionSort hn
  have hle : ((rows.insertionSort byRecipient).filter f).Pairwise byRecipient :=
    ((List.pairwise_map.mp hsorted).imp fun h => le_of_lt h).filter _
  have hperm : ((rows.insertionSort byRecipient).filter f).Perm (rows.filter f) :=
    (List.perm_insertionSort _ _).filter _
  have hnodup : (((rows.insertionSort byRecipient).filter f).map Allocation.recipient).Nodup :=
    (hperm.map _).nodup_iff.mpr hsub
  rw [← sort_perm hperm hnodup, List.Pairwise.insertionSort_eq hle]

theorem map_row_filter {rows rows' : List Allocation} (h : rows.map Allocation.row = rows'.map Allocation.row)
    (f : ℤ → Bool) : (rows.filter (fun a => f a.amount)).map Allocation.row =
      (rows'.filter (fun a => f a.amount)).map Allocation.row := by
  have hfilter (l : List Allocation) : (l.filter (fun a => f a.amount)).map Allocation.row =
      (l.map Allocation.row).filter (fun r => f r.2) := by
    rw [List.filter_map]
    rfl
  rw [hfilter, hfilter, h]

end Rows

section Replay

/-- The policy that lists a computed table row by row. -/
def Policy.replay (p : Policy) (table : List Allocation) : Policy where
  contractAddr := p.contractAddr
  roundId := p.roundId
  organization := p.organization
  mode := modeExplicit
  totalBudget := p.totalBudget
  minAlloc := p.minAlloc
  maxAlloc := p.maxAlloc
  bands := []
  salt := p.salt
  entries := table.map (fun a => ⟨a.recipient, some 0, some a.amount⟩)

theorem validateEntries_listed {rows : List Allocation} (seen : List (Address × ℕ)) (i : ℕ)
    (hn : (rows.map Allocation.recipient).Nodup) (hpos : ∀ a ∈ rows, 0 < a.amount)
    (hr : ∀ a ∈ rows, a.recipient ≠ 0 ∧ a.recipient ∉ seen.map Prod.fst) :
    validateEntries seen i (rows.map (fun a => ⟨a.recipient, some 0, some a.amount⟩)) = .ok () := by
  induction rows generalizing seen i with
  | nil => rfl
  | cons a rest ih =>
    obtain ⟨hnew, hn⟩ := List.nodup_cons.mp hn
    obtain ⟨hamount, hpos⟩ := List.forall_mem_cons.mp hpos
    obtain ⟨⟨hzero, hseen⟩, hr⟩ := List.forall_mem_cons.mp hr
    have hlookup : seen.lookup a.recipient = none := lookup_eq_none_iff_notMem.mpr hseen
    simp only [List.map_cons, validateEntries, bind_ok, require_ok, exists_const, hlookup]
    refine ⟨hzero, by simp, by simpa using hamount.le, ih _ _ hn hpos ?_⟩
    intro b hb
    refine ⟨(hr b hb).1, ?_⟩
    rw [List.map_cons, List.mem_cons, not_or]
    refine ⟨fun h => hnew (List.mem_map.mpr ⟨b, hb, h⟩), (hr b hb).2⟩

theorem explicitTotal_listed (total : ℤ) (i : ℕ) (rows : List Allocation) :
    explicitTotal total i (rows.map (fun a => ⟨a.recipient, some 0, some a.amount⟩)) =
      .ok (total + sumAllocations rows) := by
  induction rows generalizing total i with
  | nil => simp [explicitTotal, sumAllocations]
  | cons a rest ih =>
    have hstep : explicitTotal total i ((a :: rest).map (fun a => ⟨a.recipient, some 0, some a.amount⟩)) =
        explicitTotal (total + a.amount) (i + 1) (rest.map (fun a => ⟨a.recipient, some 0, some a.amount⟩)) := rfl
    rw [hstep, ih, sumAllocations, sumAllocations, List.map_cons, List.sum_cons, add_assoc]

theorem validate_replay {table : List Allocation} (hv : validate cfg p = .ok ()) (ht : evaluate p = .ok table) :
    validate cfg (p.replay table) = .ok () := by
  have hp := Policy.Valid.of_validate hv
  obtain ⟨amounts, hamounts, hrecipients, -, -⟩ := computeAmounts_ok hp
  have hwf := tabulate_wellFormed hp hamounts hrecipients (evaluate_eq_tabulate hamounts ▸ ht)
  have htab := evaluate_ok hp ht
  simp only [validate, bind_ok, require_ok, exists_const] at hv ⊢
  obtain ⟨hset, htarget, hid, hbudget, hmin, hmax, hbounds, -, hcount, -⟩ := hv
  have hentries : (p.replay table).entries = table.map (fun a => ⟨a.recipient, some 0, some a.amount⟩) := rfl
  have hmode : validateMode (p.replay table) = .ok () := by
    have h : (p.replay table).mode = modeExplicit := rfl
    simp only [validateMode, h, if_true, hentries, explicitTotal_listed, bind_ok, require_ok, exists_const]
    exact ⟨_, rfl, by rw [zero_add]; exact hwf.budget, rfl⟩
  refine ⟨hset, htarget, hid, hbudget, hmin, hmax, hbounds, ?_, ?_, (), ?_, hmode⟩
  · rw [hentries, ne_eq, List.map_eq_nil_iff]
    exact htab.nonempty
  · rw [hentries, List.length_map]
    exact htab.count.trans hcount
  · rw [hentries]
    exact validateEntries_listed [] 0 hwf.distinct hwf.positive fun a ha =>
      ⟨(hwf.recipients a ha).1, List.not_mem_nil⟩

/-- A computed table, listed as an explicit policy, passes the same checks and evaluates to itself:
neither bound cuts a row again, and the rows already stand in order. -/
theorem table_replays (cfg : EngineConfig) (p : Policy) (table : List Allocation)
    (hv : validate cfg p = .ok ()) (ht : evaluate p = .ok table) :
    validate cfg (p.replay table) = .ok () ∧ evaluate (p.replay table) = .ok table := by
  refine ⟨validate_replay hv ht, ?_⟩
  have hp := Policy.Valid.of_validate hv
  obtain ⟨amounts, hamounts, hrecipients, -, -⟩ := computeAmounts_ok hp
  have hwf := tabulate_wellFormed hp hamounts hrecipients (evaluate_eq_tabulate hamounts ▸ ht)
  have htab := evaluate_ok hp ht
  let listed : List Allocation := table.map (fun a => ⟨0, a.recipient, a.amount⟩)
  have hrow : listed.map Allocation.row = table.map Allocation.row := List.map_map ..
  have hcompute : computeAmounts (p.replay table) = .ok listed := by
    have hcapped (a : Allocation) (ha : a ∈ table) : capAmount p.maxAlloc a.amount = a.amount := by
      unfold capAmount
      split
      · next h => exact absurd (hwf.cap h.1 a ha) (not_le.mpr h.2)
      · rfl
    have hexplicit : explicitAmounts (p.replay table) = listed := by
      rw [explicitAmounts, Policy.replay, List.map_map]
      apply List.map_congr_left
      intro a ha
      exact congrArg (Allocation.mk 0 a.recipient) (hcapped a ha)
    rw [computeAmounts, hexplicit]
    rfl
  have hkept : listed.filter (fun a => keeps p.minAlloc a.amount) = listed := by
    rw [List.filter_eq_self]
    intro b hb
    obtain ⟨a, ha, rfl⟩ := List.mem_map.mp hb
    have hpos := hwf.positive a ha
    have hfloor := fun h => hwf.floor h a ha
    simp only [keeps, Bool.and_eq_true, decide_eq_true_eq, Bool.not_eq_true', Bool.and_eq_false_iff,
      decide_eq_false_iff_not, not_lt]
    refine ⟨hpos, ?_⟩
    cases hc : capped p.minAlloc with
    | false => exact .inl rfl
    | true => exact .inr (hfloor hc)
  have hsorted : listed.insertionSort byRecipient = listed := by
    apply List.Pairwise.insertionSort_eq
    exact List.pairwise_map.mpr (hwf.ordered.imp fun h => le_of_lt h)
  have htable : assignIndices listed = table := by
    rw [assignIndices_congr hrow]
    exact assignIndices_self hwf.indexed
  have hne : listed ≠ [] := List.map_eq_nil_iff.not.mpr htab.nonempty
  rw [evaluate_eq_tabulate hcompute]
  have hmin : (p.replay table).minAlloc = p.minAlloc := rfl
  have hbudget : (p.replay table).totalBudget = p.totalBudget := rfl
  simp only [tabulate, hmin, hbudget, hkept, hsorted, htable, bind_ok, require_ok, exists_const]
  exact ⟨hne, hwf.budget, rfl⟩

theorem table_replays_sample : evaluate (unevenPolicy.replay unevenTable) = .ok unevenTable := by
  have hv : validate surplusConfig unevenPolicy = .ok () := by decide
  have ht : evaluate unevenPolicy = .ok unevenTable := by decide
  exact (table_replays surplusConfig unevenPolicy unevenTable hv ht).2

end Replay

section Floor

def Policy.withFloor (p : Policy) (minAlloc : Option ℤ) : Policy := { p with minAlloc := minAlloc }

variable {minAlloc : Option ℤ}

theorem weightedLoop_withFloor (fuel : ℕ) (remaining : ℤ) (shares : List Share) :
    weightedLoop (p.withFloor minAlloc) fuel remaining shares = weightedLoop p fuel remaining shares := by
  induction fuel generalizing remaining shares with
  | zero => rfl
  | succ fuel ih =>
    simp only [weightedLoop, ih]
    rfl

theorem tieredAmounts_withFloor (p : Policy) (minAlloc : Option ℤ) (i : ℕ) (entries : List PolicyEntry) :
    tieredAmounts (p.withFloor minAlloc) i entries = tieredAmounts p i entries := by
  induction entries generalizing i with
  | nil => rfl
  | cons e rest ih =>
    simp only [tieredAmounts, ih]
    rfl

theorem computeAmounts_withFloor : computeAmounts (p.withFloor minAlloc) = computeAmounts p := by
  have hshares : weightedShares (p.withFloor minAlloc) = weightedShares p := weightedLoop_withFloor _ _ _
  have hweighted : weightedAmounts (p.withFloor minAlloc) = weightedAmounts p := by
    rw [weightedAmounts, hshares]
    rfl
  have htiered := tieredAmounts_withFloor p minAlloc 0 p.entries
  rw [computeAmounts, hweighted]
  change (if _ then _ else if _ then _ else if _ then tieredAmounts _ 0 p.entries else _) = _
  rw [htiered]
  rfl

theorem capped_of_value_pos {v : Option ℤ} (h : 0 < value v) : capped v = true := by
  cases v with
  | none => exact absurd h (lt_irrefl 0)
  | some v =>
    change 0 < v at h
    simpa [capped] using h

theorem keeps_of_value_le {floor : Option ℤ} {amount : ℤ} (hle : value floor ≤ value minAlloc)
    (h : keeps minAlloc amount = true) : keeps floor amount = true := by
  simp only [keeps, Bool.and_eq_true, decide_eq_true_eq, Bool.not_eq_true', Bool.and_eq_false_iff,
    decide_eq_false_iff_not, not_lt] at h ⊢
  obtain ⟨hpos, hfloor⟩ := h
  refine ⟨hpos, ?_⟩
  cases hc : capped floor with
  | false => exact .inl rfl
  | true =>
    have hcapped := capped_of_value_pos ((value_pos_of_capped hc).trans_le hle)
    rw [hcapped] at hfloor
    exact .inr (hle.trans (hfloor.resolve_left Bool.noConfusion))

/-- Raising the floor strikes out the rows below it and renumbers the others: what the dropped rows
would have been paid goes to nobody else. -/
theorem floor_raised (cfg : EngineConfig) (p : Policy) (minAlloc : Option ℤ) (table : List Allocation)
    (hv : validate cfg p = .ok ()) (ht : evaluate p = .ok table)
    (hle : value p.minAlloc ≤ value minAlloc) :
    evaluate (p.withFloor minAlloc) =
      if table.filter (fun a => keeps minAlloc a.amount) = [] then .error .allocatesNothing
      else .ok (assignIndices (table.filter (fun a => keeps minAlloc a.amount))) := by
  have hp := Policy.Valid.of_validate hv
  obtain ⟨amounts, hamounts, hrecipients, hnonneg, hsum⟩ := computeAmounts_ok hp
  have hn : (amounts.map Allocation.recipient).Nodup := by
    rw [hrecipients]
    exact hp.distinct
  have hsum' : sumAllocations ((p.withFloor minAlloc).kept amounts) ≤ value p.totalBudget :=
    (sumAllocations_kept_le hnonneg).trans hsum
  have hkept : (p.withFloor minAlloc).kept amounts =
      (p.kept amounts).filter (fun a => keeps minAlloc a.amount) := by
    rw [Policy.kept, Policy.kept, List.filter_filter]
    apply List.filter_congr
    intro a _
    rw [Bool.eq_iff_iff, Bool.and_eq_true]
    exact ⟨fun h => ⟨h, keeps_of_value_le hle h⟩, And.left⟩
  have hdistinct : ((p.kept amounts).map Allocation.recipient).Nodup :=
    hn.sublist (List.filter_sublist.map _)
  rw [evaluate_eq_tabulate hamounts] at ht
  rw [evaluate_eq_tabulate (computeAmounts_withFloor.trans hamounts)]
  simp only [tabulate, bind_ok, require_ok, exists_const] at ht
  obtain ⟨-, -, ht⟩ := ht
  have htable : assignIndices ((p.kept amounts).insertionSort byRecipient) = table := Except.ok.inj ht
  have hrow : (table.filter (fun a => keeps minAlloc a.amount)).map Allocation.row =
      (((p.withFloor minAlloc).kept amounts).insertionSort byRecipient).map Allocation.row := by
    rw [hkept, ← filter_insertionSort hdistinct]
    apply map_row_filter
    rw [← htable, map_row_assignIndices]
  have hlength : (table.filter (fun a => keeps minAlloc a.amount)).length =
      ((p.withFloor minAlloc).kept amounts).length := by
    simpa using congrArg List.length hrow
  rw [assignIndices_congr hrow]
  by_cases hk : (p.withFloor minAlloc).kept amounts = []
  · have hnone : table.filter (fun a => keeps minAlloc a.amount) = [] := by
      rw [← List.length_eq_zero_iff, hlength, hk]
      rfl
    unfold Policy.kept at hk
    rw [if_pos hnone, tabulate, hk]
    rfl
  · have hsome : table.filter (fun a => keeps minAlloc a.amount) ≠ [] := by
      rw [← List.length_pos_iff, hlength]
      exact List.length_pos_iff.mpr hk
    obtain ⟨table', htable'⟩ := tabulate_ok hk hsum'
    rw [if_neg hsome, htable']
    simp only [tabulate, bind_ok, require_ok, exists_const] at htable'
    exact htable'.2.2.symm

theorem floor_raised_sample :
    evaluate (unevenPolicy.withFloor (some 3)) = .ok [⟨0, 1, 3⟩, ⟨1, 3, 6⟩] := by
  have hv : validate surplusConfig unevenPolicy = .ok () := by decide
  have ht : evaluate unevenPolicy = .ok unevenTable := by decide
  have hfloor := floor_raised surplusConfig unevenPolicy (some 3) unevenTable hv ht (by decide)
  rw [hfloor]
  decide

end Floor

end Fidensur
