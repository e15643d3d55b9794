import Fidensur.EngineHandlers
import Fidensur.EvaluationBounds

set_option autoImplicit false

namespace Fidensur

open DigitText

inductive Stage
  | validate | evaluate
  deriving DecidableEq

def policyFailure (cfg : EngineConfig) (p : Policy) : Option (Stage × PolicyError) :=
  match validate cfg p with
  | .error e => some (.validate, e)
  | .ok _ =>
    match evaluate p with
    | .error e => some (.evaluate, e)
    | .ok _ => none

/-- The failed rule and the positions it failed at, without the values. -/
def PolicyError.rule : PolicyError → PolicyError
  | .wrongContract _ _ => .wrongContract 0 0
  | .minAllocExceedsMaxAlloc _ _ => .minAllocExceedsMaxAlloc 0 0
  | .tooManyEntries _ => .tooManyEntries 0
  | .duplicateRecipient entry _ previous => .duplicateRecipient entry 0 previous
  | .explicitTotalExceedsBudget _ _ => .explicitTotalExceedsBudget 0 0
  | .tooManyBands _ => .tooManyBands 0
  | .bandIndexOutOfRange entry _ _ => .bandIndexOutOfRange entry 0 0
  | .tieredTotalExceedsBudget _ _ => .tieredTotalExceedsBudget 0 0
  | .unsupportedMode _ => .unsupportedMode 0
  | e => e

def Policy.recipientAt (p : Policy) (i : ℕ) : Address := (p.entries[i]?).elim 0 PolicyEntry.recipient

def Policy.weightAt (p : Policy) (i : ℕ) : ℤ := (p.entries[i]?).elim 0 (fun e => value e.weight)

def Policy.amountTotal (p : Policy) : ℤ := (p.entries.map (fun e => value e.amount)).sum

def Policy.tierTotal (p : Policy) : ℤ := (p.entries.map (tierOf p.bands)).sum

def Policy.fill (p : Policy) (cfg : EngineConfig) : PolicyError → PolicyError
  | .wrongContract _ _ => .wrongContract p.contractAddr cfg.contractAddress
  | .minAllocExceedsMaxAlloc _ _ => .minAllocExceedsMaxAlloc (value p.minAlloc) (value p.maxAlloc)
  | .tooManyEntries _ => .tooManyEntries p.entries.length
  | .duplicateRecipient entry _ previous => .duplicateRecipient entry (p.recipientAt entry) previous
  | .explicitTotalExceedsBudget _ _ => .explicitTotalExceedsBudget p.amountTotal (value p.totalBudget)
  | .tooManyBands _ => .tooManyBands p.bands.length
  | .bandIndexOutOfRange entry _ _ => .bandIndexOutOfRange entry (p.weightAt entry) p.bands.length
  | .tieredTotalExceedsBudget _ _ => .tieredTotalExceedsBudget p.tierTotal (value p.totalBudget)
  | .unsupportedMode _ => .unsupportedMode p.mode
  | e => e

/-- Two policies agree on what is not secret about them. -/
structure Policy.SameOutside (p q : Policy) : Prop where
  contractAddr : p.contractAddr = q.contractAddr
  roundId : p.roundId = q.roundId
  organization : p.organization = q.organization
  mode : p.mode = q.mode
  count : p.entries.length = q.entries.length

def QuotesAgree (p q : Policy) : PolicyError → Prop
  | .minAllocExceedsMaxAlloc _ _ => value p.minAlloc = value q.minAlloc ∧ value p.maxAlloc = value q.maxAlloc
  | .duplicateRecipient entry _ _ => p.recipientAt entry = q.recipientAt entry
  | .explicitTotalExceedsBudget _ _ =>
      p.amountTotal = q.amountTotal ∧ value p.totalBudget = value q.totalBudget
  | .tooManyBands _ => p.bands.length = q.bands.length
  | .bandIndexOutOfRange entry _ _ =>
      p.weightAt entry = q.weightAt entry ∧ p.bands.length = q.bands.length
  | .tieredTotalExceedsBudget _ _ =>
      p.tierTotal = q.tierTotal ∧ value p.totalBudget = value q.totalBudget
  | _ => True

section Sources

variable {cfg : EngineConfig} {p : Policy}

theorem fill_rule (p : Policy) (cfg : EngineConfig) (e : PolicyError) :
    p.fill cfg e.rule = p.fill cfg e := by
  cases e <;> rfl

/-- A loop over a list ends with the error of one of its turns. -/
theorem error_of_loop {α σ γ : Type} {P : PolicyError → Prop} {full : List α}
    {loop : σ → ℕ → List α → Except PolicyError γ} (hnil : ∀ acc i e, loop acc i [] ≠ .error e)
    (hcons : ∀ acc i a rest e, full[i]? = some a → loop acc i (a :: rest) = .error e →
      P e ∨ ∃ acc', loop acc' (i + 1) rest = .error e)
    {acc : σ} {i : ℕ} {l : List α} {e : PolicyError} (hl : full.drop i = l) (h : loop acc i l = .error e) :
    P e := by
  induction l generalizing acc i with
  | nil => exact absurd h (hnil acc i e)
  | cons a rest ih =>
    have hat : full[i]? = some a := by
      have := congrArg List.head? hl
      simpa [List.head?_drop] using this
    have hrest : full.drop (i + 1) = rest := by
      rw [← List.drop_drop, hl]
      rfl
    rcases hcons acc i a rest e hat h with he | ⟨acc', hnext⟩
    · exact he
    · exact ih hrest hnext

theorem validateEntries_error {e : PolicyError} (h : validateEntries [] 0 p.entries = .error e) :
    p.fill cfg e = e := by
  apply error_of_loop _ _ List.drop_zero h
  · rintro _ _ _ ⟨⟩
  · intro seen i a rest e hat h
    simp only [validateEntries, bind_error, require_error] at h
    rcases h with ⟨-, rfl⟩ | ⟨_, -, h⟩
    · exact .inl rfl
    cases hl : seen.lookup a.recipient with
    | some previous =>
      rw [hl] at h
      cases h
      exact .inl (by simp [Policy.fill, Policy.recipientAt, hat])
    | none =>
      simp only [hl, bind_error, require_error] at h
      rcases h with ⟨-, rfl⟩ | ⟨_, -, ⟨-, rfl⟩ | ⟨_, -, h⟩⟩
      · exact .inl rfl
      · exact .inl rfl
      · exact .inr ⟨_, h⟩

theorem explicitTotal_error {e : PolicyError} (h : explicitTotal 0 0 p.entries = .error e) :
    p.fill cfg e = e := by
  apply error_of_loop _ _ List.drop_zero h
  · rintro _ _ _ ⟨⟩
  · intro total i a rest e _ h
    simp only [explicitTotal, bind_error, require_error] at h
    rcases h with ⟨-, rfl⟩ | ⟨_, -, h⟩
    · exact .inl rfl
    · exact .inr ⟨_, h⟩

theorem weightTotal_error {e : PolicyError} (h : weightTotal 0 0 p.entries = .error e) :
    p.fill cfg e = e := by
  apply error_of_loop _ _ List.drop_zero h
  · rintro _ _ _ ⟨⟩
  · intro total i a rest e _ h
    simp only [weightTotal, bind_error, require_error] at h
    rcases h with ⟨-, rfl⟩ | ⟨_, -, h⟩
    · exact .inl rfl
    · exact .inr ⟨_, h⟩

theorem validateBands_error {e : PolicyError} (h : validateBands 0 p.bands = .error e) :
    p.fill cfg e = e := by
  let loop : Unit → ℕ → List (Option ℤ) → Except PolicyError Unit := fun _ => validateBands
  have hloop : loop () 0 p.bands = .error e := h
  apply error_of_loop _ _ List.drop_zero hloop
  · rintro _ _ _ ⟨⟩
  · intro _ i a rest e _ h
    simp only [loop, validateBands, bind_error, require_error] at h
    rcases h with ⟨-, rfl⟩ | ⟨_, -, h⟩
    · exact .inl rfl
    · exact .inr ⟨(), h⟩

theorem tieredTotal_error {e : PolicyError} (h : tieredTotal p.bands 0 0 p.entries = .error e) :
    p.fill cfg e = e := by
  apply error_of_loop _ _ List.drop_zero h
  · rintro _ _ _ ⟨⟩
  · intro total i a rest e hat h
    simp only [tieredTotal, bind_error, require_error] at h
    rcases h with ⟨-, rfl⟩ | ⟨_, -, h⟩
    · exact .inl rfl
    cases hb : bandIndex p.bands (value a.weight) with
    | none =>
      rw [hb] at h
      cases h
      exact .inl (by simp [Policy.fill, Policy.weightAt, hat])
    | some b =>
      rw [hb] at h
      exact .inr ⟨_, h⟩

theorem validateMode_error {e : PolicyError} (h : validateMode p = .error e) : p.fill cfg e = e := by
  unfold validateMode at h
  split_ifs at h
  · simp only [bind_error, require_error] at h
    rcases h with h | ⟨total, htotal, ⟨-, rfl⟩ | ⟨_, -, -, rfl⟩⟩
    · exact explicitTotal_error h
    · rw [explicitTotal_ok htotal, zero_add]
      rfl
    · rfl
  · simp only [bind_error, require_error] at h
    rcases h with h | ⟨_, -, ⟨-, rfl⟩ | ⟨_, -, -, rfl⟩⟩
    · exact weightTotal_error h
    · rfl
    · rfl
  · simp only [bind_error, require_error] at h
    rcases h with ⟨-, rfl⟩ | ⟨_, -, ⟨-, rfl⟩ | ⟨_, -, h | ⟨_, -, h | ⟨total, htotal, -, rfl⟩⟩⟩⟩
    · rfl
    · rfl
    · exact validateBands_error h
    · exact tieredTotal_error h
    · rw [(tieredTotal_ok htotal).2, zero_add]
      rfl
  · cases h
    rfl

/-- Every value an error of validation carries stands in the policy, at the position it names. -/
theorem validate_error {e : PolicyError} (h : validate cfg p = .error e) : p.fill cfg e = e := by
  simp only [validate, bind_error, require_error] at h
  rcases h with ⟨-, rfl⟩ | ⟨_, -, ⟨-, rfl⟩ | ⟨_, -, ⟨-, rfl⟩ | ⟨_, -, ⟨-, rfl⟩ | ⟨_, -, ⟨-, rfl⟩ |
    ⟨_, -, ⟨-, rfl⟩ | ⟨_, -, ⟨-, rfl⟩ | ⟨_, -, ⟨-, rfl⟩ | ⟨_, -, ⟨-, rfl⟩ | ⟨_, -, h | ⟨_, -, h⟩⟩⟩⟩⟩⟩⟩⟩⟩⟩
  all_goals first | rfl | skip
  · exact validateEntries_error h
  · exact validateMode_error h

theorem policyFailure_filled {stage : Stage} {e : PolicyError}
    (h : policyFailure cfg p = some (stage, e)) : p.fill cfg e = e := by
  unfold policyFailure at h
  split at h
  · next hv =>
    cases h
    exact validate_error hv
  · next hv =>
    split at h
    · next he =>
      cases h
      rw [evaluate_error (.of_validate hv) he]
      rfl
    · cases h

end Sources

section Texts

variable {keccak : Keccak}

theorem checksumHex_injective {a b : Address} (h : checksumHex keccak a = checksumHex keccak b) :
    a = b := by
  have hdigits := String.ofList_injective ((String.append_right_inj _).mp h)
  have hvalue := congrArg hexValue hdigits
  rw [hexValue_checksumDigits, hexValue_checksumDigits] at hvalue
  exact Fin.ext hvalue

theorem Enclave.addressHex_injective (E : Enclave) : Function.Injective E.addressHex := by
  intro a b h
  rw [E.addressHex_eq, E.addressHex_eq] at h
  exact checksumHex_injective h

theorem text_fill_inj {cfg : EngineConfig} {p q : Policy} {addressHex : Address → String}
    (hhex : Function.Injective addressHex) (hpq : p.SameOutside q) (e : PolicyError) :
    (p.fill cfg e).text addressHex = (q.fill cfg e).text addressHex ↔ QuotesAgree p q e := by
  constructor
  · intro h
    cases e with
    | minAllocExceedsMaxAlloc => exact intRepr_pair_inj (by decide) h
    | duplicateRecipient entry _ previous =>
      have h := (String.append_left_inj _).mp ((String.append_left_inj _).mp h)
      exact hhex ((String.append_right_inj _).mp h)
    | explicitTotalExceedsBudget => exact intRepr_pair_inj (by decide) h
    | tooManyBands => exact Nat.repr_injective ((String.append_right_inj _).mp h)
    | bandIndexOutOfRange entry =>
      have h := (String.append_left_inj _).mp h
      obtain ⟨hw, hb⟩ := append_append_inj (space_notMem_intRepr _) (space_notMem_intRepr _)
        (by decide) h
      exact ⟨Int.repr_injective hw, Nat.repr_injective hb⟩
    | tieredTotalExceedsBudget => exact intRepr_pair_inj (by decide) h
    | _ => trivial
  · intro h
    cases e with
    | minAllocExceedsMaxAlloc => simp only [Policy.fill, h.1, h.2]
    | duplicateRecipient => simp only [Policy.fill, show _ = _ from h]
    | explicitTotalExceedsBudget => simp only [Policy.fill, h.1, h.2]
    | tooManyBands => simp only [Policy.fill, show _ = _ from h]
    | bandIndexOutOfRange => simp only [Policy.fill, h.1, h.2]
    | tieredTotalExceedsBudget => simp only [Policy.fill, h.1, h.2]
    | wrongContract => simp only [Policy.fill, hpq.contractAddr]
    | tooManyEntries => simp only [Policy.fill, hpq.count]
    | unsupportedMode => simp only [Policy.fill, hpq.mode]
    | _ => rfl

end Texts

section Results

def ActionResult.published (r : ActionResult) : ByteWords.Bytes × UInt8 × String := (r.data, r.status, r.log)

def Stage.label : Stage → String
  | .validate => "invalid policy: "
  | .evaluate => "evaluating policy: "

theorem processCompute_failed {E : Enclave} {p : Policy} {df : DataFixed} {stage : Stage}
    {e : PolicyError} (hp : E.Opens df.originalMessage p)
    (he : policyFailure E.cfg p = some (stage, e)) (engine : Engine) (action : Action) (now : ℤ) :
    (processCompute E engine action df now).2.published =
      ([], statusError, "error: " ++ (stage.label ++ e.text E.addressHex)) := by
  obtain ⟨plaintext, hplain, hdecode⟩ := hp
  have hcompute : computeRound E df.originalMessage now =
      .error (stage.label ++ e.text E.addressHex) := by
    simp only [computeRound, bind_error, mapError_ok, mapError_error]
    unfold policyFailure at he
    split at he
    · next hv =>
      cases he
      exact .inr ⟨plaintext, hplain, .inr ⟨p, hdecode, .inl ⟨e, hv, rfl⟩⟩⟩
    · next hv =>
      split at he
      · next hev =>
        cases he
        exact .inr ⟨plaintext, hplain, .inr ⟨p, hdecode, .inr ⟨(), hv, .inl ⟨e, hev, rfl⟩⟩⟩⟩
      · cases he
  rw [processCompute, hcompute]
  rfl

/-- Two rejected policies that differ in secrets only look alike exactly when they agree on what
the failed rule quotes. -/
theorem published_failures_alike_iff (E : Enclave) (p q : Policy) (hpq : p.SameOutside q)
    (df df' : DataFixed) (hp : E.Opens df.originalMessage p) (hq : E.Opens df'.originalMessage q)
    (stage : Stage) (e e' : PolicyError) (he : policyFailure E.cfg p = some (stage, e))
    (he' : policyFailure E.cfg q = some (stage, e')) (hrule : e.rule = e'.rule)
    (engine engine' : Engine) (action action' : Action) (now now' : ℤ) :
    (processCompute E engine action df now).2.published =
      (processCompute E engine' action' df' now').2.published ↔ QuotesAgree p q e := by
  have hfill : q.fill E.cfg e = e' := by
    rw [← fill_rule, hrule, fill_rule]
    exact policyFailure_filled he'
  have htext : (p.fill E.cfg e).text E.addressHex = (q.fill E.cfg e).text E.addressHex ↔
      QuotesAgree p q e := text_fill_inj E.addressHex_injective hpq e
  rw [policyFailure_filled he, hfill] at htext
  rw [processCompute_failed hp he, processCompute_failed hq he', Prod.mk.injEq, Prod.mk.injEq,
    String.append_right_inj, String.append_right_inj, ← htext]
  exact ⟨fun h => h.2.2, fun h => ⟨rfl, rfl, h⟩⟩

end Results

section Sample

def crossedBounds (minAlloc maxAlloc : ℤ) : Policy where
  contractAddr := 7
  roundId := some 1
  organization := 5
  mode := modeExplicit
  totalBudget := some 100
  minAlloc := some minAlloc
  maxAlloc := some maxAlloc
  bands := []
  salt := 0
  entries := [⟨1, some 0, some 10⟩]

/-- An engine whose ciphertexts and plaintexts are one byte that stands for a policy. -/
def oneByteEnclave (policies : UInt8 → Policy) : Enclave where
  cfg := ⟨7, true, 0⟩
  keccak := fun b => Fin.ofNat _ (ByteWords.value b)
  addressHex := checksumHex fun b => Fin.ofNat _ (ByteWords.value b)
  addressHex_eq _ := rfl
  nodeDecrypt := fun b => .ok b
  decodePolicy := fun b => .ok (policies (b.headD 0))
  decodeDisclose := fun _ => .error ""
  decodeAttest := fun _ => .error ""
  marshal := fun _ => []
  unmarshalPubkey := fun b => .ok b
  decompressPubkey := fun b => .ok b
  eciesEncrypt := fun _ _ b => .ok b

def boundsEnclave : Enclave :=
  oneByteEnclave (fun b => if b = 1 then crossedBounds 5 3 else crossedBounds 6 4)

def computeData (b : UInt8) : DataFixed := ⟨0, 0, [b]⟩

theorem published_failures_alike_iff_sample :
    (processCompute boundsEnclave emptyEngine ⟨1, []⟩ (computeData 1) 0).2.published =
      (processCompute boundsEnclave emptyEngine ⟨2, []⟩ (computeData 2) 0).2.published ↔
      QuotesAgree (crossedBounds 5 3) (crossedBounds 6 4) (.minAllocExceedsMaxAlloc 5 3) :=
  published_failures_alike_iff boundsEnclave (crossedBounds 5 3) (crossedBounds 6 4)
    ⟨rfl, rfl, rfl, rfl, rfl⟩ (computeData 1) (computeData 2) ⟨[1], rfl, rfl⟩ ⟨[2], rfl, rfl⟩
    .validate (.minAllocExceedsMaxAlloc 5 3) (.minAllocExceedsMaxAlloc 6 4) (by decide)
    (by decide) rfl emptyEngine emptyEngine ⟨1, []⟩ ⟨2, []⟩ 0 0

theorem bounds_leaked :
    (crossedBounds 5 3).SameOutside (crossedBounds 6 4) ∧
    policyFailure boundsEnclave.cfg (crossedBounds 5 3) =
      some (.validate, .minAllocExceedsMaxAlloc 5 3) ∧
    policyFailure boundsEnclave.cfg (crossedBounds 6 4) =
      some (.validate, .minAllocExceedsMaxAlloc 6 4) ∧
    (processCompute boundsEnclave emptyEngine ⟨1, []⟩ (computeData 1) 0).2.log =
      "error: invalid policy: minAlloc 5 exceeds maxAlloc 3" ∧
    (processCompute boundsEnclave emptyEngine ⟨1, []⟩ (computeData 2) 0).2.log =
      "error: invalid policy: minAlloc 6 exceeds maxAlloc 4" ∧
    (processCompute boundsEnclave emptyEngine ⟨1, []⟩ (computeData 1) 0).2.published ≠
      (processCompute boundsEnclave emptyEngine ⟨1, []⟩ (computeData 2) 0).2.published :=
  ⟨⟨rfl, rfl, rfl, rfl, rfl⟩, by decide, by decide, by decide,
    by decide, by decide⟩

end Sample

end Fidensur
