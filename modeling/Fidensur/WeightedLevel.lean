import Fidensur.CappedSplit
import Fidensur.EvaluationBounds

set_option autoImplicit false

namespace Fidensur

variable {cfg : EngineConfig} {p : Policy}

/-- The division a weighted policy asks for; without a cap the whole budget is one. -/
def Policy.split (p : Policy) : CappedSplit PolicyEntry where
  budget := value p.totalBudget
  cap := if capped p.maxAlloc = true then value p.maxAlloc else value p.totalBudget
  rows := p.entries
  weight e := value e.weight

def Policy.shareAt (p : Policy) (level : ℤ) (e : PolicyEntry) : Share :=
  if level < value e.weight then ⟨e.recipient, value e.weight, p.split.cap, true⟩
  else ⟨e.recipient, value e.weight, p.split.part level e, false⟩

def Policy.sharesAt (p : Policy) (level : ℤ) : List Share := p.entries.map (p.shareAt level)

section Cap

theorem held_nonneg (bound : ℤ) : 0 ≤ p.split.held bound := by
  apply List.sum_nonneg
  rw [List.forall_mem_map]
  intro x _
  split <;> decide

variable (hp : p.Valid cfg)
include hp

theorem cap_pos : 0 < p.split.cap := by
  simp only [Policy.split]
  split
  · next hc => exact value_pos_of_capped hc
  · exact hp.budget

theorem rest_le_budget (bound : ℤ) : p.split.rest bound ≤ value p.totalBudget := by
  have := mul_nonneg (cap_pos hp).le (held_nonneg (p := p) bound)
  change value p.totalBudget - _ ≤ _
  omega

theorem part_le_rest {bound : ℤ} (hrest : 0 ≤ p.split.rest bound) {e : PolicyEntry} (he : e ∈ p.entries)
    (hfree : value e.weight ≤ bound) : p.split.part bound e ≤ p.split.rest bound := by
  have hle : value e.weight ≤ p.split.freeWeight bound :=
    CappedSplit.weight_le_freeWeight (S := p.split) hp.weights he hfree
  have hnonneg : 0 ≤ p.split.freeWeight bound := CappedSplit.freeWeight_nonneg hp.weights
  rcases hnonneg.eq_or_lt with hzero | hpos
  · rw [CappedSplit.part, ← hzero, Int.ediv_zero]
    exact hrest
  · exact Int.ediv_le_of_le_mul hpos (mul_le_mul_of_nonneg_left hle hrest)

theorem exceeds_iff {bound : ℤ} (hrest : 0 ≤ p.split.rest bound) {e : PolicyEntry} (he : e ∈ p.entries)
    (hfree : value e.weight ≤ bound) :
    (capped p.maxAlloc = true ∧ value p.maxAlloc < p.split.part bound e) ↔
      p.split.cap < p.split.part bound e := by
  by_cases hc : capped p.maxAlloc = true
  · simp [Policy.split, hc]
  · have hpart := (part_le_rest hp hrest he hfree).trans (rest_le_budget hp bound)
    have hcap : p.split.cap = value p.totalBudget := if_neg hc
    rw [hcap]
    exact iff_of_false (fun h => hc h.1) (not_lt.mpr hpart)

end Cap

/-- The rows in the middle of the loop: those above the bound are held at the cap. -/
structure Policy.StageAt (p : Policy) (bound : ℤ) (f : PolicyEntry → Share) : Prop where
  recipient : ∀ e ∈ p.entries, (f e).recipient = e.recipient
  weight : ∀ e ∈ p.entries, (f e).weight = value e.weight
  isCapped : ∀ e ∈ p.entries, (f e).isCapped = decide (bound < value e.weight)
  held : ∀ e ∈ p.entries, bound < value e.weight → (f e).amount = p.split.cap
  weightless : ∀ e ∈ p.entries, value e.weight = 0 → value e.weight ≤ bound → (f e).amount = 0

namespace Policy.StageAt

variable {bound remaining : ℤ} {f : PolicyEntry → Share}

theorem freeWeight_eq (h : p.StageAt bound f) : freeWeight (p.entries.map f) = p.split.freeWeight bound := by
  rw [freeWeight, List.map_map]
  apply congrArg List.sum
  apply List.map_congr_left
  intro e he
  simp only [Function.comp_apply, h.isCapped e he, h.weight e he, decide_eq_true_eq]
  rfl

theorem cappedSum_eq (h : p.StageAt bound f) :
    cappedSum (p.entries.map f) = p.split.cap * p.split.held bound := by
  rw [cappedSum, List.map_map, CappedSplit.held, ← List.sum_map_mul_left]
  apply congrArg List.sum
  apply List.map_congr_left
  intro e he
  simp only [Function.comp_apply, h.isCapped e he, decide_eq_true_eq]
  by_cases hb : bound < value e.weight
  · rw [if_pos hb, h.held e he hb]
    exact (if_pos hb).symm ▸ (mul_one _).symm
  · rw [if_neg hb]
    exact (if_neg hb).symm ▸ (mul_zero _).symm

theorem rest_eq (h : p.StageAt bound f) (hb : InBudget p remaining (p.entries.map f)) :
    p.split.rest bound = remaining := by
  have hbudget := hb.budget
  rw [h.cappedSum_eq] at hbudget
  change value p.totalBudget - _ = _
  omega

theorem eq_sharesAt (h : p.StageAt bound f)
    (hfree : ∀ e ∈ p.entries, value e.weight ≤ bound → (f e).amount = p.split.part bound e) :
    p.entries.map f = p.sharesAt bound := by
  apply List.map_congr_left
  intro e he
  obtain ⟨hr, hw, hc⟩ := And.intro (h.recipient e he) (And.intro (h.weight e he) (h.isCapped e he))
  unfold Policy.shareAt
  split
  · next hb =>
    have ha := h.held e he hb
    rw [decide_eq_true hb] at hc
    cases hf : f e
    simp_all
  · next hb =>
    have ha := hfree e he (not_lt.mp hb)
    rw [decide_eq_false hb] at hc
    cases hf : f e
    simp_all

theorem pass_eq (h : p.StageAt bound f) (hp : p.Valid cfg) (hb : InBudget p remaining (p.entries.map f))
    {e : PolicyEntry} (he : e ∈ p.entries) :
    (f e).pass p.maxAlloc remaining (freeWeight (p.entries.map f)) =
      if bound < value e.weight then f e
      else if p.split.cap < p.split.part bound e then
        { f e with amount := p.split.cap, isCapped := true }
      else { f e with amount := p.split.part bound e } := by
  have hrest := h.rest_eq hb
  have hshare : remaining * (f e).weight / freeWeight (p.entries.map f) = p.split.part bound e := by
    rw [h.weight e he, h.freeWeight_eq, ← hrest]
    rfl
  unfold Share.pass
  rw [hshare, h.isCapped e he]
  by_cases hw : bound < value e.weight
  · simp only [hw, decide_true, if_true]
  · have hexceeds := exceeds_iff hp (hrest ▸ hb.nonneg) he (not_lt.mp hw)
    simp only [hw, decide_false, Bool.false_eq_true, if_false, hexceeds]
    split_ifs with hover
    · have hcap : p.split.cap = value p.maxAlloc := if_pos (hexceeds.mpr hover).1
      rw [hcap]
    · have hc := h.isCapped e he
      rw [decide_eq_false hw] at hc
      rw [hc]

theorem pass (h : p.StageAt bound f) (hp : p.Valid cfg) (hb : InBudget p remaining (p.entries.map f))
    (hne : freeWeight (p.entries.map f) ≠ 0) :
    p.StageAt (p.split.lower bound)
      (fun e => (f e).pass p.maxAlloc remaining (freeWeight (p.entries.map f))) := by
  have hfree : 0 < p.split.freeWeight bound := h.freeWeight_eq ▸ freeWeight_pos hb.weights hne
  have hrest : 0 ≤ p.split.rest bound := h.rest_eq hb ▸ hb.nonneg
  have hlower {e : PolicyEntry} (hw : value e.weight ≤ bound) :
      p.split.lower bound < value e.weight ↔ p.split.cap < p.split.part bound e :=
    CappedSplit.lower_lt_iff (S := p.split) (cap_pos hp).le hrest hfree hw
  have hheld {e : PolicyEntry} (hw : bound < value e.weight) : p.split.lower bound < value e.weight :=
    CappedSplit.lower_le.trans_lt hw
  refine ⟨fun e he => ?_, fun e he => ?_, fun e he => ?_, fun e he hl => ?_, fun e he hzero hl => ?_⟩
  · rw [Share.pass_recipient, h.recipient e he]
  · rw [Share.pass_weight, h.weight e he]
  · rw [h.pass_eq hp hb he]
    by_cases hw : bound < value e.weight
    · simp only [hw, if_true, h.isCapped e he, hheld hw]
    · have hiff := hlower (not_lt.mp hw)
      by_cases hover : p.split.cap < p.split.part bound e
      · simp only [hw, if_false, hover, if_true, hiff.mpr hover, decide_true]
      · simp only [hw, if_false, hover, h.isCapped e he, hiff, decide_false]
  · rw [h.pass_eq hp hb he]
    by_cases hw : bound < value e.weight
    · rw [if_pos hw, h.held e he hw]
    · rw [if_neg hw, if_pos ((hlower (not_lt.mp hw)).mp hl)]
  · have hw : ¬ bound < value e.weight := fun hw => not_lt.mpr hl (hheld hw)
    have hover : ¬ p.split.cap < p.split.part bound e :=
      fun hover => not_lt.mpr hl ((hlower (not_lt.mp hw)).mpr hover)
    have hpart : p.split.part bound e = 0 := by
      simp only [CappedSplit.part, Policy.split, hzero, mul_zero, Int.zero_ediv]
    rw [h.pass_eq hp hb he, if_neg hw, if_neg hover, hpart]

theorem congr {bound' : ℤ} (h : p.StageAt bound f)
    (hiff : ∀ e ∈ p.entries, bound < value e.weight ↔ bound' < value e.weight) : p.StageAt bound' f where
  recipient := h.recipient
  weight := h.weight
  isCapped e he := by rw [h.isCapped e he, decide_eq_decide.mpr (hiff e he)]
  held e he hl := h.held e he ((hiff e he).mpr hl)
  weightless e he hzero hl := h.weightless e he hzero (not_lt.mp fun hlt => not_lt.mpr hl ((hiff e he).mp hlt))

theorem any_news (h : p.StageAt bound f) (hp : p.Valid cfg)
    (hb : InBudget p remaining (p.entries.map f)) :
    ((p.entries.map f).any (fun s => !s.isCapped &&
      (s.pass p.maxAlloc remaining (freeWeight (p.entries.map f))).isCapped) = false) ↔
        p.split.Fits bound := by
  rw [List.any_map, List.any_eq_false]
  apply forall₂_congr
  intro e he
  simp only [Function.comp_apply, h.pass_eq hp hb he, h.isCapped e he]
  by_cases hw : bound < value e.weight
  · simp [hw, Policy.split]
  · by_cases hover : p.split.cap < p.split.part bound e
    · simp only [hw, hover, decide_false, Bool.not_false, if_false, if_true, Bool.and_self,
        not_true_eq_false, false_iff]
      exact fun hfits => absurd (hfits (not_lt.mp hw)) (not_le.mpr hover)
    · simp only [hw, hover, decide_false, if_false, Bool.and_false, Bool.false_eq_true,
        not_false_eq_true, true_iff]
      exact fun _ => not_lt.mp hover

end Policy.StageAt

section Level

/-- The loop with its passes counted. It ends where no weight is free, or where no row was capped
anew; otherwise it goes on with what the capped rows leave. -/
inductive Policy.LoopEnds (p : Policy) : ℕ → ℤ → List Share → List Share → Prop
  | weightless {remaining : ℤ} {shares : List Share} (h : freeWeight shares = 0) :
      LoopEnds p 1 remaining shares shares
  | settled {remaining : ℤ} {shares : List Share} (h : freeWeight shares ≠ 0)
      (hnews : shares.any (fun s => !s.isCapped &&
        (s.pass p.maxAlloc remaining (freeWeight shares)).isCapped) = false) :
      LoopEnds p 1 remaining shares (shares.map (Share.pass p.maxAlloc remaining (freeWeight shares)))
  | again {remaining : ℤ} {shares out : List Share} {passes : ℕ} (h : freeWeight shares ≠ 0)
      (hnews : shares.any (fun s => !s.isCapped &&
        (s.pass p.maxAlloc remaining (freeWeight shares)).isCapped) = true)
      (hrest : 0 ≤ value p.totalBudget -
        cappedSum (shares.map (Share.pass p.maxAlloc remaining (freeWeight shares))))
      (hends : LoopEnds p passes (value p.totalBudget -
          cappedSum (shares.map (Share.pass p.maxAlloc remaining (freeWeight shares))))
        (shares.map (Share.pass p.maxAlloc remaining (freeWeight shares))) out) :
      LoopEnds p (passes + 1) remaining shares out

/-- A loop that ends within its bound does not notice it. -/
theorem Policy.LoopEnds.weightedLoop_eq {passes fuel : ℕ} {remaining : ℤ} {shares out : List Share}
    (h : p.LoopEnds passes remaining shares out) (hfuel : passes ≤ fuel) :
    weightedLoop p fuel remaining shares = .ok out := by
  induction h generalizing fuel with
  | weightless h =>
    obtain ⟨fuel, rfl⟩ := Nat.exists_eq_add_of_le' hfuel
    rw [weightedLoop]
    exact if_pos h
  | settled h hnews =>
    obtain ⟨fuel, rfl⟩ := Nat.exists_eq_add_of_le' hfuel
    rw [weightedLoop]
    exact (if_neg h).trans (if_pos hnews)
  | again h hnews hrest _ ih =>
    obtain ⟨fuel, rfl⟩ := Nat.exists_eq_add_of_le' (Nat.le_of_add_left_le hfuel)
    rw [weightedLoop]
    have hnews' : ¬ _ = false := Bool.not_eq_false _ ▸ hnews
    exact (if_neg h).trans ((if_neg hnews').trans ((if_neg (not_lt.mpr hrest)).trans (ih (by omega))))

def Policy.cappable (p : Policy) (bound : ℤ) : List PolicyEntry :=
  p.entries.filter (fun e => decide (0 < value e.weight ∧ value e.weight ≤ bound))

structure Policy.EndsAt (p : Policy) (level : ℤ) : Prop where
  isLevel : p.split.IsLevel level
  saturated : p.split.Saturated level
  rest_nonneg : 0 ≤ p.split.rest level

variable {bound remaining : ℤ} {f : PolicyEntry → Share}

theorem fits_of_weightless (hp : p.Valid cfg) (hzero : p.split.freeWeight bound = 0) :
    p.split.Fits bound := by
  intro e _ _
  rw [CappedSplit.part, hzero, Int.ediv_zero]
  exact (cap_pos hp).le

/-- A row is held anew only if its weight is positive, and then fewer are left. -/
theorem length_cappable_lt {bound' : ℤ} (hle : bound' ≤ bound) {e : PolicyEntry} (he : e ∈ p.entries)
    (hpos : 0 < value e.weight) (hw : value e.weight ≤ bound) (hl : bound' < value e.weight) :
    (p.cappable bound').length < (p.cappable bound).length := by
  have hsub : (p.cappable bound').Sublist (p.cappable bound) := by
    apply List.monotone_filter_right _
    intro x hx
    simp only [decide_eq_true_eq] at hx ⊢
    exact ⟨hx.1, hx.2.trans hle⟩
  apply lt_of_le_of_ne hsub.length_le
  intro hlen
  have hmem : e ∈ p.cappable bound' := by
    rw [hsub.eq_of_length hlen]
    exact List.mem_filter.mpr ⟨he, decide_eq_true ⟨hpos, hw⟩⟩
  exact not_lt.mpr (of_decide_eq_true (List.mem_filter.mp hmem).2).2 hl

/-- The capping loop ends in the division at the level, after as many passes at most as there are
rows to cap and one more. -/
theorem loopEnds_level (hp : p.Valid cfg) (h : p.StageAt bound f)
    (hb : InBudget p remaining (p.entries.map f)) (hsat : p.split.Saturated bound)
    (hleast : ∀ bound', p.split.Fits bound' → ∀ e ∈ p.entries, bound < value e.weight →
      bound' < value e.weight) :
    ∃ level passes, p.EndsAt level ∧ passes ≤ (p.cappable bound).length + 1 ∧
      p.LoopEnds passes remaining (p.entries.map f) (p.sharesAt level) := by
  induction hn : (p.cappable bound).length using Nat.strong_induction_on generalizing bound remaining f with
  | h n ih =>
    subst hn
    have hrest : 0 ≤ p.split.rest bound := h.rest_eq hb ▸ hb.nonneg
    by_cases hne : freeWeight (p.entries.map f) = 0
    · have hzero : p.split.freeWeight bound = 0 := h.freeWeight_eq ▸ hne
      have hshares : p.entries.map f = p.sharesAt bound := h.eq_sharesAt fun e he hw => by
        have hle := CappedSplit.weight_le_freeWeight (S := p.split) hp.weights he hw
        have hweight : value e.weight = 0 := le_antisymm (hzero ▸ hle) (hp.weights e he)
        rw [h.weightless e he hweight hw, CappedSplit.part, hzero, Int.ediv_zero]
      refine ⟨bound, 1, ⟨⟨fits_of_weightless hp hzero, hleast⟩, hsat, hrest⟩, by omega, ?_⟩
      rw [← hshares]
      exact .weightless hne
    · have hstage := h.pass hp hb hne
      have hnext : (p.entries.map f).map (Share.pass p.maxAlloc remaining (freeWeight (p.entries.map f))) =
          p.entries.map (fun e => (f e).pass p.maxAlloc remaining (freeWeight (p.entries.map f))) :=
        List.map_map
      have hfree : 0 < p.split.freeWeight bound := h.freeWeight_eq ▸ freeWeight_pos hb.weights hne
      have hlower {e : PolicyEntry} (hw : value e.weight ≤ bound) :
          p.split.lower bound < value e.weight ↔ p.split.cap < p.split.part bound e :=
        CappedSplit.lower_lt_iff (S := p.split) (cap_pos hp).le hrest hfree hw
      by_cases hfits : p.split.Fits bound
      · have hshares : p.entries.map (fun e =>
            (f e).pass p.maxAlloc remaining (freeWeight (p.entries.map f))) = p.sharesAt bound := by
          refine (hstage.congr fun e he => ?_).eq_sharesAt fun e he hw => ?_
          · refine ⟨fun hl => not_le.mp fun hw => ?_, fun hw => CappedSplit.lower_le.trans_lt hw⟩
            exact not_lt.mpr (hfits e he hw) ((hlower hw).mp hl)
          · rw [h.pass_eq hp hb he, if_neg (not_lt.mpr hw), if_neg (not_lt.mpr (hfits e he hw))]
        refine ⟨bound, 1, ⟨⟨hfits, hleast⟩, hsat, hrest⟩, by omega, ?_⟩
        rw [← hshares, ← hnext]
        exact .settled hne ((h.any_news hp hb).mpr hfits)
      · have hnews := Bool.eq_true_of_not_eq_false fun hany => hfits ((h.any_news hp hb).mp hany)
        simp only [CappedSplit.Fits, not_forall, not_le] at hfits
        obtain ⟨e, he, hw, hover⟩ := hfits
        have hpos : 0 < value e.weight := by
          apply lt_of_le_of_ne (hp.weights e he)
          intro hzero
          have hpart : p.split.part bound e = 0 := by
            simp only [CappedSplit.part, Policy.split, ← hzero, mul_zero, Int.zero_ediv]
          have := cap_pos hp
          omega
        have hfewer := length_cappable_lt CappedSplit.lower_le he hpos hw ((hlower hw).mpr hover)
        have hleast' : ∀ bound', p.split.Fits bound' → ∀ e ∈ p.entries,
            p.split.lower bound < value e.weight → bound' < value e.weight := by
          intro bound' hfits' e he hl
          by_cases hw : bound < value e.weight
          · exact hleast bound' hfits' e he hw
          · exact hfits'.lt_weight (cap_pos hp).le hp.weights hfree (hleast bound' hfits') he
              ((hlower (not_lt.mp hw)).mp hl)
        have hsat' := hsat.lower (cap_pos hp).le hp.weights hrest hfree
        have hbudget := hb.pass hne
        obtain ⟨level, passes, hlevel, hpasses, hends⟩ :=
          ih _ hfewer hstage (hnext ▸ hbudget) hsat' hleast' rfl
        refine ⟨level, passes + 1, hlevel, by omega, .again hne hnews hbudget.nonneg ?_⟩
        rw [hnext]
        exact hnext ▸ hends

theorem stageAt_top {top : ℤ} (htop : ∀ e ∈ p.entries, value e.weight ≤ top) : p.StageAt top Share.ofEntry :=
  ⟨fun _ _ => rfl, fun _ _ => rfl, fun e he => (decide_eq_false (not_lt.mpr (htop e he))).symm,
    fun e he hl => absurd hl (not_lt.mpr (htop e he)), fun _ _ _ _ => rfl⟩

theorem exists_loopEnds (hp : p.Valid cfg) :
    ∃ level passes, p.EndsAt level ∧
      passes ≤ (p.entries.filter (fun e => decide (0 < value e.weight))).length + 1 ∧
      p.LoopEnds passes (value p.totalBudget) (p.entries.map Share.ofEntry) (p.sharesAt level) := by
  have htop : ∀ e ∈ p.entries, value e.weight ≤ (p.entries.map (fun e => value e.weight)).sum := by
    intro e he
    exact List.single_le_sum (List.forall_mem_map.mpr hp.weights) _ (List.mem_map_of_mem he)
  have hcappable : p.cappable (p.entries.map (fun e => value e.weight)).sum =
      p.entries.filter (fun e => decide (0 < value e.weight)) := by
    apply List.filter_congr
    intro e he
    rw [decide_eq_decide, and_iff_left (htop e he)]
  rw [← hcappable]
  exact loopEnds_level hp (stageAt_top htop) (inBudget_ofEntry hp)
    (fun e he hl => absurd hl (not_lt.mpr (htop e he)))
    (fun _ _ e he hl => absurd hl (not_lt.mpr (htop e he)))

theorem weightedShares_of_loopEnds {passes : ℕ} {shares : List Share}
    (hpasses : passes ≤ (p.entries.filter (fun e => decide (0 < value e.weight))).length + 1)
    (h : p.LoopEnds passes (value p.totalBudget) (p.entries.map Share.ofEntry) shares) :
    weightedShares p = .ok shares := by
  refine h.weightedLoop_eq (hpasses.trans ?_)
  have := List.length_filter_le (fun e : PolicyEntry => decide (0 < value e.weight)) p.entries
  omega

theorem weightedShares_level (hp : p.Valid cfg) :
    ∃ level, p.split.IsLevel level ∧ weightedShares p = .ok (p.sharesAt level) := by
  obtain ⟨level, passes, hlevel, hpasses, hends⟩ := exists_loopEnds hp
  exact ⟨level, hlevel.isLevel, weightedShares_of_loopEnds hpasses hends⟩

theorem weightedShares_of_level (hp : p.Valid cfg) {level : ℤ} (h : p.split.IsLevel level) :
    weightedShares p = .ok (p.sharesAt level) := by
  obtain ⟨level', h', hshares⟩ := weightedShares_level hp
  rw [hshares]
  apply congrArg
  apply List.map_congr_left
  intro e he
  have hiff : level < value e.weight ↔ level' < value e.weight := h.lt_iff h' he
  simp only [Policy.shareAt, hiff, h.part_eq h']

end Level

end Fidensur
