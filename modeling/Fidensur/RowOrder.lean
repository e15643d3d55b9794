import Fidensur.WeightedLevel

set_option autoImplicit false

namespace Fidensur

def Policy.withEntries (p : Policy) (entries : List PolicyEntry) : Policy := { p with entries := entries }

/-- No permutation of the rows changes what `Evaluate` returns. -/
def RowOrderIrrelevant (p : Policy) : Prop :=
  ∀ entries, entries.Perm p.entries → ∀ table,
    evaluate (p.withEntries entries) = .ok table ↔ evaluate p = .ok table

/-- What the proportional division loses to truncation, for the rows above the level held at the cap. -/
def Policy.dustAt (p : Policy) (level : ℤ) : ℤ :=
  value p.totalBudget - (p.entries.map (fun e => (p.shareAt level e).amount)).sum

def Policy.TakesDust (p : Policy) (level : ℤ) (e : PolicyEntry) : Prop :=
  value e.weight ≠ 0 ∧ value e.weight ≤ level ∧
    (capped p.maxAlloc = true → p.split.part level e + p.dustAt level ≤ value p.maxAlloc)

instance (p : Policy) (level : ℤ) (e : PolicyEntry) : Decidable (p.TakesDust level e) :=
  inferInstanceAs (Decidable (_ ∧ _ ∧ _))

/-- The dust of a weighted policy has no second place to go, or shows nowhere it could go. -/
def DustSettled (p : Policy) : Prop :=
  ∃ level, p.split.IsLevel level ∧
    (p.dustAt level ≤ 0 ∨
      (p.entries.filter (fun e => decide (p.TakesDust level e))).length ≤ 1 ∨
      ∀ e ∈ p.entries, p.TakesDust level e → keeps p.minAlloc (p.split.part level e + p.dustAt level) = false)

/-- The same of the rows that the capping loop leaves. -/
def SharesSettled (p : Policy) (shares : List Share) : Prop :=
  dustOf p shares ≤ 0 ∨
  (shares.filter (Share.absorbs p.maxAlloc (dustOf p shares))).length ≤ 1 ∨
  ∀ s ∈ shares, s.absorbs p.maxAlloc (dustOf p shares) = true →
    keeps p.minAlloc (s.amount + dustOf p shares) = false

section Level

variable {p : Policy} {level : ℤ} {e : PolicyEntry}

theorem dustOf_sharesAt_eq : dustOf p (p.sharesAt level) = p.dustAt level := by
  rw [dustOf, Policy.sharesAt, List.map_map]
  rfl

theorem absorbs_shareAt :
    (p.shareAt level e).absorbs p.maxAlloc (p.dustAt level) = true ↔ p.TakesDust level e := by
  unfold Share.absorbs Policy.shareAt Policy.TakesDust
  by_cases hl : level < value e.weight
  · simp [hl]
  · cases hc : capped p.maxAlloc <;> simp [hl, not_lt.mp hl]

theorem amount_shareAt (h : p.TakesDust level e) : (p.shareAt level e).amount = p.split.part level e := by
  rw [Policy.shareAt, if_neg (not_lt.mpr h.2.1)]

theorem sharesSettled_iff : SharesSettled p (p.sharesAt level) ↔
    p.dustAt level ≤ 0 ∨
      (p.entries.filter (fun e => decide (p.TakesDust level e))).length ≤ 1 ∨
      ∀ e ∈ p.entries, p.TakesDust level e →
        keeps p.minAlloc (p.split.part level e + p.dustAt level) = false := by
  have hcount : ((p.sharesAt level).filter (Share.absorbs p.maxAlloc (p.dustAt level))).length =
      (p.entries.filter (fun e => decide (p.TakesDust level e))).length := by
    rw [Policy.sharesAt, List.filter_map, List.length_map]
    apply congrArg List.length
    apply List.filter_congr
    intro e _
    rw [Function.comp_apply, Bool.eq_iff_iff, absorbs_shareAt, decide_eq_true_eq]
  unfold SharesSettled
  rw [dustOf_sharesAt_eq, hcount, Policy.sharesAt, List.forall_mem_map]
  apply or_congr Iff.rfl
  apply or_congr Iff.rfl
  apply forall₂_congr
  intro e _
  rw [absorbs_shareAt]
  apply forall_congr'
  intro htakes
  rw [amount_shareAt htakes]

end Level

section Split

variable {p : Policy} {ι : Type} {rows rows' : List ι}

theorem freeWeight_perm {shares shares' : List Share} (h : shares.Perm shares') :
    freeWeight shares = freeWeight shares' :=
  (h.map _).sum_eq

theorem cappedSum_perm {shares shares' : List Share} (h : shares.Perm shares') :
    cappedSum shares = cappedSum shares' :=
  (h.map _).sum_eq

theorem dustOf_perm {shares shares' : List Share} (h : shares.Perm shares') :
    dustOf p shares = dustOf p shares' := by
  simp only [dustOf, (h.map Share.amount).sum_eq]

structure Share.Follows (s t : Share) : Prop where
  recipient : t.recipient = s.recipient
  weight : t.weight = s.weight
  amount : 0 ≤ s.amount → 0 ≤ s.weight → 0 ≤ t.amount

theorem Share.follows_refl (s : Share) : s.Follows s := ⟨rfl, rfl, fun h _ => h⟩

theorem Share.Follows.trans {s t u : Share} (h : s.Follows t) (h' : t.Follows u) : s.Follows u where
  recipient := h'.recipient.trans h.recipient
  weight := h'.weight.trans h.weight
  amount ha hw := h'.amount (h.amount ha hw) (h.weight ▸ hw)

theorem Share.follows_pass {maxAlloc : Option ℤ} {remaining weightSum : ℤ} (hr : 0 ≤ remaining)
    (hw : 0 ≤ weightSum) (s : Share) : s.Follows (s.pass maxAlloc remaining weightSum) := by
  unfold Share.pass
  split
  · exact s.follows_refl
  dsimp only
  split
  · rename_i hm
    refine ⟨rfl, rfl, fun _ _ => ?_⟩
    obtain ⟨hm, -⟩ := hm
    cases maxAlloc with
    | none => cases hm
    | some m =>
      simp only [capped, Option.any_some, decide_eq_true_eq] at hm
      exact hm.le
  · exact ⟨rfl, rfl, fun _ hs => Int.ediv_nonneg (Int.mul_nonneg hr hs) hw⟩

theorem freeWeight_nonneg {shares : List Share} (h : ∀ s ∈ shares, 0 ≤ s.weight) :
    0 ≤ freeWeight shares := by
  apply List.sum_nonneg
  intro x hx
  obtain ⟨s, hs, rfl⟩ := List.mem_map.mp hx
  split
  · exact le_rfl
  · exact h s hs

/-- The capping loop treats every row by itself: its outcome is one function of the row, the
same for all orders of the rows. -/
theorem weightedLoop_map (fuel : ℕ) (remaining : ℤ) (f : ι → Share) (hr : 0 ≤ remaining)
    (hf : ∀ x ∈ rows, 0 ≤ (f x).weight) :
    (∃ e, ∀ rows' : List ι, rows'.Perm rows → weightedLoop p fuel remaining (rows'.map f) = .error e) ∨
    ∃ g : ι → Share, (∀ x ∈ rows, (f x).Follows (g x)) ∧
      ∀ rows' : List ι, rows'.Perm rows → weightedLoop p fuel remaining (rows'.map f) = .ok (rows'.map g) := by
  induction fuel generalizing remaining f with
  | zero => exact .inr ⟨f, fun x _ => (f x).follows_refl, fun _ _ => rfl⟩
  | succ fuel ih =>
    have hsum (rows' : List ι) (h : rows'.Perm rows) : freeWeight (rows'.map f) = freeWeight (rows.map f) :=
      freeWeight_perm (h.map f)
    by_cases hzero : freeWeight (rows.map f) = 0
    · refine .inr ⟨f, fun x _ => (f x).follows_refl, fun rows' h => ?_⟩
      simp [weightedLoop, hsum rows' h, hzero]
    have hnonneg : 0 ≤ freeWeight (rows.map f) :=
      freeWeight_nonneg (List.forall_mem_map.mpr hf)
    let pass := Share.pass p.maxAlloc remaining (freeWeight (rows.map f))
    have hpass : ∀ x ∈ rows, (f x).Follows (pass (f x)) := fun x _ =>
      Share.follows_pass hr hnonneg (f x)
    let news : Share → Bool := fun s => !s.isCapped && (pass s).isCapped
    have hnews (rows' : List ι) (h : rows'.Perm rows) : (rows'.map f).any news = (rows.map f).any news :=
      (h.map f).any_eq
    have hcapped (rows' : List ι) (h : rows'.Perm rows) :
        cappedSum (rows'.map (pass ∘ f)) = cappedSum (rows.map (pass ∘ f)) :=
      cappedSum_perm (h.map _)
    have hstep (rows' : List ι) (h : rows'.Perm rows) :
        weightedLoop p (fuel + 1) remaining (rows'.map f) =
          if (rows.map f).any news = false then .ok (rows'.map (pass ∘ f))
          else if value p.totalBudget - cappedSum (rows.map (pass ∘ f)) < 0 then .error .cappedExceedBudget
          else weightedLoop p fuel (value p.totalBudget - cappedSum (rows.map (pass ∘ f)))
            (rows'.map (pass ∘ f)) := by
      rw [weightedLoop, hsum rows' h, if_neg hzero, ← hnews rows' h, ← hcapped rows' h, ← List.map_map]
    by_cases hany : (rows.map f).any news = false
    · exact .inr ⟨pass ∘ f, hpass, fun rows' h => by rw [hstep rows' h, if_pos hany]⟩
    by_cases hneg : value p.totalBudget - cappedSum (rows.map (pass ∘ f)) < 0
    · exact .inl ⟨_, fun rows' h => by rw [hstep rows' h, if_neg hany, if_pos hneg]⟩
    have hf' : ∀ x ∈ rows, 0 ≤ ((pass ∘ f) x).weight := fun x hx => by
      rw [Function.comp_apply, (hpass x hx).weight]
      exact hf x hx
    rcases ih _ (pass ∘ f) (not_lt.mp hneg) hf' with ⟨e, he⟩ | ⟨g, hg, hok⟩
    · exact .inl ⟨e, fun rows' h => by rw [hstep rows' h, if_neg hany, if_neg hneg, he rows' h]⟩
    · exact .inr ⟨g, fun x hx => (hpass x hx).trans (hg x hx),
        fun rows' h => by rw [hstep rows' h, if_neg hany, if_neg hneg, hok rows' h]⟩

theorem weightedLoop_withEntries (entries : List PolicyEntry) (fuel : ℕ) (remaining : ℤ)
    (shares : List Share) :
    weightedLoop (p.withEntries entries) fuel remaining shares = weightedLoop p fuel remaining shares := by
  induction fuel generalizing remaining shares with
  | zero => rfl
  | succ fuel ih =>
    simp only [weightedLoop, ih]
    rfl

theorem weightedShares_map {cfg : EngineConfig} (hp : p.Valid cfg) :
    (∃ e, ∀ entries, entries.Perm p.entries → weightedShares (p.withEntries entries) = .error e) ∨
    ∃ g : PolicyEntry → Share,
      (∀ e ∈ p.entries, (g e).recipient = e.recipient ∧ 0 ≤ (g e).amount) ∧
      ∀ entries, entries.Perm p.entries → weightedShares (p.withEntries entries) = .ok (entries.map g) := by
  have hloop (entries : List PolicyEntry) (h : entries.Perm p.entries) :
      weightedShares (p.withEntries entries) =
        weightedLoop p (p.entries.length + 1) (value p.totalBudget) (entries.map Share.ofEntry) := by
    rw [weightedShares, weightedLoop_withEntries, ← h.length_eq]
    rfl
  rcases weightedLoop_map (p := p) (p.entries.length + 1) (value p.totalBudget) Share.ofEntry
    hp.budget.le hp.weights with ⟨e, he⟩ | ⟨g, hg, hok⟩
  · exact .inl ⟨e, fun entries h => (hloop entries h).trans (he entries h)⟩
  · refine .inr ⟨g, fun e he => ?_, fun entries h => (hloop entries h).trans (hok entries h)⟩
    exact ⟨(hg e he).recipient, (hg e he).amount le_rfl (hp.weights e he)⟩

end Split

section Dust

variable {maxAlloc : Option ℤ} {dust : ℤ} {shares : List Share}

def Share.dusted (dust : ℤ) (s : Share) : Share := { s with amount := s.amount + dust }

theorem giveDust_cons_absorbs {s : Share} (h : s.absorbs maxAlloc dust = true) :
    giveDust maxAlloc dust (s :: shares) = s.dusted dust :: shares := by
  simp [giveDust, h, Share.dusted]

theorem giveDust_of_unique
    (h : (shares.filter (Share.absorbs maxAlloc dust)).length ≤ 1) :
    giveDust maxAlloc dust shares =
      shares.map (fun s => if s.absorbs maxAlloc dust then s.dusted dust else s) := by
  induction shares with
  | nil => rfl
  | cons s rest ih =>
    by_cases hs : s.absorbs maxAlloc dust = true
    · rw [List.filter_cons_of_pos hs, List.length_cons] at h
      have hnone : rest.filter (Share.absorbs maxAlloc dust) = [] :=
        List.length_eq_zero_iff.mp (by omega)
      have hrest : rest.map (fun s => if s.absorbs maxAlloc dust then s.dusted dust else s) = rest := by
        conv_rhs => rw [← List.map_id rest]
        apply List.map_congr_left
        intro t ht
        simp [List.filter_eq_nil_iff.mp hnone t ht]
      rw [giveDust_cons_absorbs hs, List.map_cons, if_pos hs, hrest]
    · rw [List.filter_cons_of_neg hs] at h
      simp only [giveDust, List.map_cons, hs, ih h, Bool.false_eq_true, if_false]

theorem keeps_mono {minAlloc : Option ℤ} {a b : ℤ} (hab : a ≤ b) (h : keeps minAlloc a = true) :
    keeps minAlloc b = true := by
  unfold keeps at *
  simp only [Bool.and_eq_true, Bool.not_eq_true', decide_eq_true_eq, Bool.and_eq_false_iff,
    decide_eq_false_iff_not] at *
  obtain ⟨hpos, hfloor⟩ := h
  exact ⟨by omega, hfloor.imp_right (fun h => by omega)⟩

theorem kept_giveDust {p : Policy} (hd : 0 ≤ dust)
    (h : ∀ s ∈ shares, s.absorbs maxAlloc dust = true → keeps p.minAlloc (s.amount + dust) = false) :
    p.kept ((giveDust maxAlloc dust shares).map Share.allocation) = p.kept (shares.map Share.allocation) := by
  induction shares with
  | nil => rfl
  | cons s rest ih =>
    obtain ⟨hs, hrest⟩ := List.forall_mem_cons.mp h
    by_cases ha : s.absorbs maxAlloc dust = true
    · have hdropped : keeps p.minAlloc s.amount = false := by
        by_contra hk
        have := keeps_mono (show s.amount ≤ s.amount + dust by omega) (Bool.eq_true_of_not_eq_false hk)
        rw [hs ha] at this
        cases this
      rw [giveDust_cons_absorbs ha]
      simp [Policy.kept, Share.allocation, Share.dusted, hs ha, hdropped]
    · have ih := ih hrest
      simp only [Policy.kept, giveDust, ha, Bool.false_eq_true, if_false, List.map_cons,
        List.filter_cons] at ih ⊢
      rw [ih]

end Dust

section Orders

variable {cfg : EngineConfig} {p : Policy}

theorem evaluate_of_amounts {amounts : List Allocation} {entries : List PolicyEntry}
    (h : computeAmounts (p.withEntries entries) = .ok amounts) :
    evaluate (p.withEntries entries) = tabulate p amounts := by
  rw [evaluate, h]
  rfl

theorem rowOrderIrrelevant_of_entrywise {f : PolicyEntry → Allocation} (hp : p.Valid cfg)
    (hf : ∀ e ∈ p.entries, (f e).recipient = e.recipient)
    (h : ∀ entries, entries.Perm p.entries →
      computeAmounts (p.withEntries entries) = .ok (entries.map f)) : RowOrderIrrelevant p := by
  intro entries hperm table
  have hrecipients : (entries.map f).map Allocation.recipient = entries.map PolicyEntry.recipient := by
    rw [List.map_map]
    exact List.map_congr_left (fun e he => hf e (hperm.mem_iff.mp he))
  have hnodup : ((entries.map f).map Allocation.recipient).Nodup := by
    rw [hrecipients]
    exact (hperm.map _).nodup_iff.mpr hp.distinct
  have hp' : evaluate p = tabulate p (p.entries.map f) :=
    evaluate_of_amounts (h p.entries (.refl _))
  rw [evaluate_of_amounts (h entries hperm), hp', tabulate_perm (hperm.map f) hnodup]

theorem rowOrderIrrelevant_of_error {e : PolicyError}
    (h : ∀ entries, entries.Perm p.entries → computeAmounts (p.withEntries entries) = .error e) :
    RowOrderIrrelevant p := by
  have herr (entries : List PolicyEntry) (hperm : entries.Perm p.entries) :
      evaluate (p.withEntries entries) = .error e := by
    rw [evaluate, h entries hperm]
    rfl
  intro entries hperm table
  have hp : evaluate p = .error e := herr p.entries (.refl _)
  rw [herr entries hperm, hp]

theorem rowOrderIrrelevant_explicit (hp : p.Valid cfg) (hm : p.mode = modeExplicit) :
    RowOrderIrrelevant p := by
  refine rowOrderIrrelevant_of_entrywise hp
    (f := fun e => ⟨0, e.recipient, capAmount p.maxAlloc (value e.amount)⟩) (fun _ _ => rfl) ?_
  intro entries _
  simp only [computeAmounts, Policy.withEntries, hm, if_true]
  rfl

theorem tieredAmounts_withEntries (rows : List PolicyEntry) (i : ℕ) (entries : List PolicyEntry) :
    tieredAmounts (p.withEntries rows) i entries = tieredAmounts p i entries := by
  induction entries generalizing i with
  | nil => rfl
  | cons e rest ih =>
    simp only [tieredAmounts, ih]
    rfl

theorem rowOrderIrrelevant_tiered (hp : p.Valid cfg) (hm : p.mode = modeTiered)
    (hindex : ∀ e ∈ p.entries, (bandIndex p.bands (value e.weight)).isSome = true) :
    RowOrderIrrelevant p := by
  refine rowOrderIrrelevant_of_entrywise hp (f := p.banded) (fun _ _ => rfl) ?_
  intro entries hperm
  have h0 : modeTiered ≠ modeExplicit := by decide
  have h1 : modeTiered ≠ modeWeighted := by decide
  have hcompute : computeAmounts (p.withEntries entries) =
      tieredAmounts (p.withEntries entries) 0 entries := by
    simp only [computeAmounts, Policy.withEntries, hm, h0, h1, if_false, if_true]
  rw [hcompute, tieredAmounts_withEntries]
  exact tieredAmounts_ok (fun e he => hindex e (hperm.mem_iff.mp he))

theorem computeAmounts_weighted (hm : p.mode = modeWeighted) (entries : List PolicyEntry) :
    computeAmounts (p.withEntries entries) = weightedAmounts (p.withEntries entries) := by
  have h0 : modeWeighted ≠ modeExplicit := by decide
  simp only [computeAmounts, Policy.withEntries, hm, h0, if_false, if_true]

theorem weightedAmounts_of_shares {entries : List PolicyEntry} {shares : List Share}
    (h : weightedShares (p.withEntries entries) = .ok shares) :
    weightedAmounts (p.withEntries entries) = .ok ((distributeDust p shares).map Share.allocation) := by
  rw [weightedAmounts, h]
  rfl

theorem rowOrderIrrelevant_of_sharesSettled (hp : p.Valid cfg) (hm : p.mode = modeWeighted)
    (hd : ∀ shares, weightedShares p = .ok shares → SharesSettled p shares) : RowOrderIrrelevant p := by
  rcases weightedShares_map hp with ⟨e, he⟩ | ⟨g, hg, hok⟩
  · apply rowOrderIrrelevant_of_error (e := e)
    intro entries hperm
    rw [computeAmounts_weighted hm, weightedAmounts, he entries hperm]
    rfl
  have hamounts (entries : List PolicyEntry) (hperm : entries.Perm p.entries) :
      computeAmounts (p.withEntries entries) =
        .ok ((distributeDust p (entries.map g)).map Share.allocation) := by
    rw [computeAmounts_weighted hm]
    exact weightedAmounts_of_shares (hok entries hperm)
  have hdust (entries : List PolicyEntry) (hperm : entries.Perm p.entries) :
      dustOf p (entries.map g) = dustOf p (p.entries.map g) := dustOf_perm (hperm.map g)
  by_cases hnone : dustOf p (p.entries.map g) ≤ 0
  · apply rowOrderIrrelevant_of_entrywise hp (f := Share.allocation ∘ g) (fun e he => (hg e he).1)
    intro entries hperm
    rw [hamounts entries hperm, distributeDust, if_pos (hdust entries hperm ▸ hnone), List.map_map]
  rcases hd _ (hok p.entries (.refl _)) with hle | hone | hlow
  · exact absurd hle hnone
  · apply rowOrderIrrelevant_of_entrywise hp
      (f := fun e => Share.allocation (if (g e).absorbs p.maxAlloc (dustOf p (p.entries.map g))
        then (g e).dusted (dustOf p (p.entries.map g)) else g e))
    · intro e he
      split
      · exact (hg e he).1
      · exact (hg e he).1
    · intro entries hperm
      have hone' : ((entries.map g).filter
          (Share.absorbs p.maxAlloc (dustOf p (p.entries.map g)))).length ≤ 1 := by
        rw [((hperm.map g).filter _).length_eq]
        exact hone
      rw [hamounts entries hperm, distributeDust, hdust entries hperm, if_neg hnone,
        giveDust_of_unique hone', List.map_map, List.map_map]
      rfl
  · have hkept (entries : List PolicyEntry) (hperm : entries.Perm p.entries) :
        p.kept ((distributeDust p (entries.map g)).map Share.allocation) =
          p.kept ((entries.map g).map Share.allocation) := by
      rw [distributeDust, hdust entries hperm, if_neg hnone]
      apply kept_giveDust (by omega)
      intro s hs
      exact hlow s ((hperm.map g).mem_iff.mp hs)
    intro entries hperm table
    have heval : evaluate p =
        tabulate p ((distributeDust p (p.entries.map g)).map Share.allocation) :=
      evaluate_of_amounts (hamounts p.entries (.refl _))
    have hrows : (p.kept ((distributeDust p (entries.map g)).map Share.allocation)).Perm
        (p.kept ((distributeDust p (p.entries.map g)).map Share.allocation)) := by
      rw [hkept entries hperm, hkept p.entries (.refl _)]
      exact ((hperm.map g).map _).filter _
    have hnodup : (((distributeDust p (entries.map g)).map Share.allocation).map
        Allocation.recipient).Nodup := by
      have hsame : (entries.map g).map Share.recipient = entries.map PolicyEntry.recipient := by
        rw [List.map_map]
        exact List.map_congr_left (fun e he => (hg e (hperm.mem_iff.mp he)).1)
      rw [List.map_map]
      change ((distributeDust p (entries.map g)).map Share.recipient).Nodup
      rw [map_recipient_distributeDust, hsame]
      exact (hperm.map _).nodup_iff.mpr hp.distinct
    rw [evaluate_of_amounts (hamounts entries hperm), heval, tabulate_kept_perm hrows hnodup]

theorem exists_other_of_length {α : Type} {l : List α} (hn : l.Nodup) (h : 1 < l.length) (a : α) :
    ∃ b ∈ l, b ≠ a := by
  by_contra hall
  push Not at hall
  have hl := List.eq_replicate_of_mem hall
  rw [hl, List.nodup_replicate] at hn
  omega

theorem amounts_of_first {g : PolicyEntry → Share} {e : PolicyEntry} (hm : p.mode = modeWeighted)
    (hok : ∀ entries, entries.Perm p.entries →
      weightedShares (p.withEntries entries) = .ok (entries.map g))
    (hpos : ¬ dustOf p (p.entries.map g) ≤ 0) (he : e ∈ p.entries)
    (ha : (g e).absorbs p.maxAlloc (dustOf p (p.entries.map g)) = true) :
    evaluate (p.withEntries (e :: p.entries.erase e)) =
      tabulate p (((g e).dusted (dustOf p (p.entries.map g)) ::
        (p.entries.erase e).map g).map Share.allocation) := by
  have hperm : (e :: p.entries.erase e).Perm p.entries := (List.perm_cons_erase he).symm
  apply evaluate_of_amounts
  rw [computeAmounts_weighted hm, weightedAmounts_of_shares (hok _ hperm), distributeDust,
    dustOf_perm (hperm.map g), if_neg hpos, List.map_cons, giveDust_cons_absorbs ha]

theorem sum_amounts_of_first {g : PolicyEntry → Share} {e : PolicyEntry} (he : e ∈ p.entries) :
    sumAllocations (((g e).dusted (dustOf p (p.entries.map g)) ::
      (p.entries.erase e).map g).map Share.allocation) = value p.totalBudget := by
  have hsum : ((p.entries.map g).map Share.amount).sum =
      (g e).amount + (((p.entries.erase e).map g).map Share.amount).sum := by
    rw [(((List.perm_cons_erase he).map g).map Share.amount).sum_eq, List.map_cons, List.map_cons,
      List.sum_cons]
  have hrest : ((((p.entries.erase e).map g).map Share.allocation).map Allocation.amount) =
      ((p.entries.erase e).map g).map Share.amount := by
    rw [List.map_map]
    rfl
  rw [sumAllocations, List.map_cons, List.map_cons, List.sum_cons, hrest]
  change (g e).amount + dustOf p (p.entries.map g) + _ = _
  rw [dustOf]
  omega

/-- Two rows that could take visible dust give two tables, according to which comes first. -/
theorem sharesSettled_of_rowOrderIrrelevant (hp : p.Valid cfg) (hm : p.mode = modeWeighted)
    (h : RowOrderIrrelevant p) {shares : List Share} (hshares : weightedShares p = .ok shares) :
    SharesSettled p shares := by
  rcases weightedShares_map hp with ⟨e, he⟩ | ⟨g, hg, hok⟩
  · have := he p.entries (.refl _)
    rw [show p.withEntries p.entries = p from rfl, hshares] at this
    cases this
  have hmap : shares = p.entries.map g := by
    have := hok p.entries (.refl _)
    rw [show p.withEntries p.entries = p from rfl, hshares] at this
    exact Except.ok.inj this
  subst hmap
  by_contra hunsettled
  unfold SharesSettled at hunsettled
  push Not at hunsettled
  obtain ⟨hpos, htwo, s, hs, hsabs, hskeep⟩ := hunsettled
  have hskeep := Bool.eq_true_of_not_eq_false hskeep
  have hpos' := not_le.mpr hpos
  obtain ⟨e₁, he₁, rfl⟩ := List.mem_map.mp hs
  obtain ⟨e₂, he₂, hne⟩ : ∃ e₂ ∈ p.entries.filter
      (fun e => (g e).absorbs p.maxAlloc (dustOf p (p.entries.map g))), e₂ ≠ e₁ := by
    apply exists_other_of_length (hp.distinct.of_map _ |>.filter _)
    rw [List.filter_map, List.length_map] at htwo
    exact htwo
  obtain ⟨he₂, habs₂⟩ := List.mem_filter.mp he₂
  let d := dustOf p (p.entries.map g)
  have hfirst := amounts_of_first hm hok hpos' he₁ hsabs
  have hsecond := amounts_of_first hm hok hpos' he₂ habs₂
  -- the run with `e₁` in front succeeds, and its table shows the dust at that recipient
  obtain ⟨table, htable⟩ : ∃ table, evaluate (p.withEntries (e₁ :: p.entries.erase e₁)) = .ok table := by
    rw [hfirst]
    apply tabulate_ok
    · apply List.ne_nil_of_mem (a := ((g e₁).dusted d).allocation)
      exact List.mem_filter.mpr ⟨List.mem_map_of_mem List.mem_cons_self, hskeep⟩
    · refine (sumAllocations_kept_le ?_).trans (sum_amounts_of_first he₁).le
      intro a ha
      obtain ⟨s, hs, rfl⟩ := List.mem_map.mp ha
      rcases List.mem_cons.mp hs with rfl | hs
      · exact add_nonneg (hg e₁ he₁).2 hpos.le
      · obtain ⟨e, he, rfl⟩ := List.mem_map.mp hs
        exact (hg e (List.mem_of_mem_erase he)).2
  have hrow : (e₁.recipient, (g e₁).amount + d) ∈ table.map Allocation.row := by
    rw [(map_row_of_tabulate (hfirst ▸ htable)).mem_iff, ← (hg e₁ he₁).1]
    apply List.mem_map_of_mem (f := Allocation.row) (a := ((g e₁).dusted d).allocation)
    exact List.mem_filter.mpr ⟨List.mem_map_of_mem List.mem_cons_self, hskeep⟩
  -- with `e₂` in front the same table would have to show `e₁` without the dust
  have hsame : evaluate (p.withEntries (e₂ :: p.entries.erase e₂)) = .ok table := by
    rw [h _ (List.perm_cons_erase he₂).symm, ← h _ (List.perm_cons_erase he₁).symm]
    exact htable
  rw [(map_row_of_tabulate (hsecond ▸ hsame)).mem_iff] at hrow
  obtain ⟨a, ha, hrow⟩ := List.mem_map.mp hrow
  obtain ⟨s, hs, rfl⟩ := List.mem_map.mp (List.mem_of_mem_filter ha)
  obtain ⟨hrecipient, hamount⟩ := Prod.mk.inj hrow
  have hinj := List.inj_on_of_nodup_map hp.distinct
  rcases List.mem_cons.mp hs with rfl | hs
  · exact hne (hinj he₂ he₁ ((hg e₂ he₂).1.symm.trans hrecipient))
  · obtain ⟨e, he, rfl⟩ := List.mem_map.mp hs
    have he := List.mem_of_mem_erase he
    have heq : e = e₁ := hinj he he₁ ((hg e he).1.symm.trans hrecipient)
    subst heq
    change (g e).amount = (g e).amount + d at hamount
    omega

/-- The loop ends at a level of the division, so its rows settle the dust if the division does. -/
theorem dustSettled_iff (hp : p.Valid cfg) :
    DustSettled p ↔ ∀ shares, weightedShares p = .ok shares → SharesSettled p shares := by
  constructor
  · rintro ⟨level, hlevel, hsettled⟩ shares hshares
    obtain rfl := Except.ok.inj ((weightedShares_of_level hp hlevel).symm.trans hshares)
    exact sharesSettled_iff.mpr hsettled
  · intro h
    obtain ⟨level, hlevel, hshares⟩ := weightedShares_level hp
    exact ⟨level, hlevel, sharesSettled_iff.mp (h _ hshares)⟩

theorem rowOrderIrrelevant_iff_dustSettled (h : validate cfg p = .ok ()) :
    RowOrderIrrelevant p ↔ (p.mode = modeWeighted → DustSettled p) := by
  have hp := Policy.Valid.of_validate h
  constructor
  · intro hirr hm
    exact (dustSettled_iff hp).mpr fun _ hshares => sharesSettled_of_rowOrderIrrelevant hp hm hirr hshares
  · intro hd
    cases hp.mode with
    | explicit hm => exact rowOrderIrrelevant_explicit hp hm
    | weighted hm => exact rowOrderIrrelevant_of_sharesSettled hp hm ((dustSettled_iff hp).mp (hd hm))
    | tiered hm _ hindex => exact rowOrderIrrelevant_tiered hp hm hindex

def evenSplit : Policy where
  contractAddr := 7
  roundId := some 1
  organization := 5
  mode := modeWeighted
  totalBudget := some 3
  minAlloc := none
  maxAlloc := none
  bands := []
  salt := 0
  entries := [⟨1, some 1, some 0⟩, ⟨2, some 1, some 0⟩]

def evenConfig : EngineConfig := ⟨7, true, 0⟩

theorem rowOrderIrrelevant_iff_dustSettled_sample :
    validate evenConfig evenSplit = .ok () ∧
      (RowOrderIrrelevant evenSplit ↔ (evenSplit.mode = modeWeighted → DustSettled evenSplit)) :=
  have h : validate evenConfig evenSplit = .ok () := by decide
  ⟨h, rowOrderIrrelevant_iff_dustSettled h⟩

theorem reversed_rows_move_dust :
    validate evenConfig evenSplit = .ok () ∧
    evaluate evenSplit = .ok [⟨0, 1, 2⟩, ⟨1, 2, 1⟩] ∧
    evaluate (evenSplit.withEntries evenSplit.entries.reverse) = .ok [⟨0, 1, 1⟩, ⟨1, 2, 2⟩] ∧
    ¬ RowOrderIrrelevant evenSplit := by
  have hforward : evaluate evenSplit = .ok [⟨0, 1, 2⟩, ⟨1, 2, 1⟩] := by decide
  have hreversed : evaluate (evenSplit.withEntries evenSplit.entries.reverse) =
      .ok [⟨0, 1, 1⟩, ⟨1, 2, 2⟩] := by decide
  refine ⟨by decide, hforward, hreversed, fun h => ?_⟩
  have hsame := (h _ (List.reverse_perm _) _).mpr hforward
  rw [hreversed] at hsame
  revert hsame
  decide

end Orders

end Fidensur
