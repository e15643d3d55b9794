import Fidensur.BrowserVerification

set_option autoImplicit false

namespace Fidensur.VerificationReport

open HexText BrowserVerification

section Attestation

/-- A JSON value that is a string or a number; numbers are safe integers. -/
inductive JsonId
  | string (text : Text)
  | number (n : Fin (2 ^ 53))

structure MachineData where
  platform : Option Text
  codeHash : Option Text
  extensionId : Option JsonId
  initialOwner : Option Text

structure AttestationReport where
  platform : Text
  codeHash : Text
  extensionId : Text
  initialOwner : Text

structure AttestationVerdict where
  isRealPlatform : Bool
  isSimulatedCodeHash : Bool
  matchesRegisteredExtension : Bool
  trustworthy : Bool

/-- `String(extensionId ?? "")`. -/
def idText : Option JsonId → Text
  | none => []
  | some (.string text) => text
  | some (.number n) => (n : ℕ).repr.toList

def zeroAddress : Text := "0x0000000000000000000000000000000000000000".toList

/-- `ProxyClient.attestation`, from what `info` returned. -/
def attestation (machineData : Option MachineData) : Option AttestationReport :=
  match machineData with
  | none => none
  | some m =>
    let platform := m.platform.getD []
    let codeHash := m.codeHash.getD []
    if platform = [] ∨ codeHash = [] then none
    else some ⟨platform, codeHash, idText m.extensionId, m.initialOwner.getD zeroAddress⟩

def gcpAmdSevPrefix : Text := "0x4743505f414d445f534556".toList

def simulatedCodeHashPrefix : Text := "0x194844cf".toList

def assessAttestation (report : AttestationReport) (expectedExtensionId : Text) : AttestationVerdict :=
  let isRealPlatform := gcpAmdSevPrefix.isPrefixOf (toLowerCase report.platform)
  let isSimulatedCodeHash := simulatedCodeHashPrefix.isPrefixOf (toLowerCase report.codeHash)
  let matchesRegisteredExtension := decide (report.extensionId = expectedExtensionId)
  { isRealPlatform, isSimulatedCodeHash, matchesRegisteredExtension
    trustworthy := isRealPlatform && !isSimulatedCodeHash && matchesRegisteredExtension }

end Attestation

section Verdict

inductive CheckState
  | pass | fail | unavailable | manual | info
  deriving DecidableEq

structure SectionVerdict where
  n : ℕ
  label : String
  state : CheckState
  note : String

inductive Overall
  | verified | failed | partially | simulated
  deriving DecidableEq

structure ReportVerdict where
  sections : List SectionVerdict
  passed : ℕ
  failed : ℕ
  unavailable : ℕ
  overall : Overall
  headline : String
  detail : String
  note : Option String

structure ReportInput where
  round : Round
  attestationAvailable : Bool
  attestation : Option AttestationVerdict
  steps : Option VerificationSteps
  resultAvailable : Bool

def enclaveSection (input : ReportInput) : SectionVerdict :=
  match input.attestationAvailable, input.attestation with
  | true, some attestation =>
    if attestation.trustworthy then
      ⟨1, "Real enclave", .pass, "Attested platform, measured code hash, registered extension."⟩
    else
      ⟨1, "Real enclave", .fail, if attestation.isSimulatedCodeHash then
        "Simulated attestation — this is not a genuine enclave measurement."
      else "The attestation report does not match a registered production enclave."⟩
  | _, _ => ⟨1, "Real enclave", .unavailable, "No attestation report reachable from here."⟩

def reproducibleSection (input : ReportInput) : SectionVerdict where
  n := 2
  label := "Published code"
  state := if input.attestationAvailable then .manual else .unavailable
  note := if input.attestationAvailable then "Requires rebuilding the published commit yourself."
    else "No attested code hash to compare a rebuild against."

def signatureSection (input : ReportInput) : SectionVerdict :=
  match input.resultAvailable, input.steps with
  | true, some steps =>
    if steps.signerOk && steps.statusOk then
      ⟨3, "TEE signature", .pass, "Recovered signer matches the registered TEE."⟩
    else
      ⟨3, "TEE signature", .fail, if steps.signerOk then
        "The signature is valid, but the enclave reported a failed computation."
      else "The recovered signer is not the registered TEE."⟩
  | _, _ =>
    ⟨3, "TEE signature", .unavailable, "No signed result available from the proxy for this round."⟩

def arithmeticOk (round : Round) : Bool :=
  decide (round.totalAllocated ≤ round.funded) && decide (round.totalClaimed ≤ round.totalAllocated)

def arithmeticSection (input : ReportInput) : SectionVerdict where
  n := 4
  label := "Arithmetic"
  state := if arithmeticOk input.round then .pass else .fail
  note := if arithmeticOk input.round then
    "Allocated does not exceed funded; claimed does not exceed allocated."
    else "The published totals do not hold together."

def sectionsOf (input : ReportInput) : List SectionVerdict :=
  [enclaveSection input, reproducibleSection input, signatureSection input, arithmeticSection input,
    ⟨5, "Committed policy", .info, "The commitment is recorded before the ciphertext is dispatched."⟩,
    ⟨6, "What the root commits to", .info,
      "The Merkle root fixes every allocation without publishing any."⟩]

def countState (sections : List SectionVerdict) (state : CheckState) : ℕ :=
  (sections.filter (fun s => s.state = state)).length

def plural (n : ℕ) (word : String) : String := n.repr ++ " " ++ word ++ (if n = 1 then "" else "s")

def headlineOf : Overall → String
  | .verified => "Verified"
  | .simulated => "Not verified — simulated enclave"
  | .failed => "Not verified"
  | .partially => "Partially verified"

def detailOf (passed failed unavailable : ℕ) : Overall → String
  | .verified => "Every check this page can make passed."
  | .simulated => "Every cryptographic check passed. The one failure is the hardware itself: " ++
      "attestation on this deployment is simulated, so genuine isolation cannot be established."
  | .failed => plural failed "check" ++ " failed. Read the sections below before relying on this round."
  | .partially => plural passed "check" ++ " passed; " ++ unavailable.repr ++
      " could not be checked from here."

def noteOf : Overall → Option String
  | .simulated => some ("The enclave, the encryption and the signature are all real and all verified. What is " ++
      "missing is proof that the machine running them was hardware-isolated — which is a " ++
      "deployment configuration, not a change to any of the code above.")
  | _ => none

def simulationOnly (input : ReportInput) (failed : ℕ) : Bool :=
  failed == 1 && (enclaveSection input).state == .fail &&
    input.attestation.any (fun a => a.isSimulatedCodeHash && a.matchesRegisteredExtension)

def overallOf (input : ReportInput) : Overall :=
  let failed := countState (sectionsOf input) .fail
  if 0 < failed then if simulationOnly input failed then .simulated else .failed
  else if 0 < countState (sectionsOf input) .unavailable then .partially
  else .verified

def deriveVerdict (input : ReportInput) : ReportVerdict :=
  let sections := sectionsOf input
  let passed := countState sections .pass
  let failed := countState sections .fail
  let unavailable := countState sections .unavailable
  let overall := overallOf input
  { sections, passed, failed, unavailable, overall
    headline := headlineOf overall
    detail := detailOf passed failed unavailable overall
    note := noteOf overall }

end Verdict

section Page

/-- The fields of a proxy's answer, the signature beside the result. -/
structure ActionResponse where
  id : Option Text
  data : Option Text
  submissionTag : Option String
  status : Option ℕ
  log : Option String
  signature : Option Text

def normalizeActionResult (body : ActionResponse) : Option BrowserVerification.ActionResult :=
  let actionId := body.id.getD []
  if actionId = [] then none
  else some ⟨body.data.getD "0x".toList, actionId, body.submissionTag.getD "submit", body.status.getD 2,
    body.signature.getD "0x".toList, body.log⟩

/-- What the page reads: the configured proxy, the chain and the proxy's answers. An error stands
for a call that threw, `none` for an answer without content. -/
structure PageInput where
  proxyUrl : Bool
  round : Round
  teeAddress : Text
  extensionId : Uint256
  info : Except String (Option MachineData)
  response : Except String (Option ActionResponse)

def coston2Id : ℕ := 114

variable {keccak : Keccak} {ecrecover : Bytes32 → UInt8 → Bytes32 → Bytes32 → Address}
  (V : ViemRecovery keccak ecrecover) (input : PageInput)

def PageInput.reported : Option AttestationReport :=
  if input.proxyUrl then
    match input.info with
    | .ok machineData => attestation machineData
    | .error _ => none
  else none

def PageInput.extensionText : Text := (input.extensionId : ℕ).repr.toList

def PageInput.assessed : Option AttestationVerdict :=
  input.reported.map (fun report => assessAttestation report input.extensionText)

def PageInput.fetched : Option BrowserVerification.ActionResult :=
  if input.proxyUrl && decide (wordText input.round.computeInstructionId ≠ []) then
    match input.response with
    | .ok body => body.bind normalizeActionResult
    | .error _ => none
  else none

def loadResult : Option BrowserVerification.ActionResult × Option VerificationSteps :=
  match input.fetched with
  | none => (none, none)
  | some result =>
    if result.status = 1 then
      match verifyActionResult V result input.teeAddress coston2Id with
      | .ok steps => (some result, some steps)
      | .error _ => (none, none)
    else (some result, none)

def reportInput : ReportInput where
  round := input.round
  attestationAvailable := input.proxyUrl && input.reported.isSome
  attestation := input.assessed
  steps := (loadResult V input).2
  resultAvailable := (loadResult V input).1.isSome

def pageReport : ReportVerdict := deriveVerdict (reportInput V input)

end Page

section States

variable {input : ReportInput}

theorem enclave_pass : (enclaveSection input).state = .pass ↔ input.attestationAvailable = true ∧
    ∃ a, input.attestation = some a ∧ a.trustworthy = true := by
  unfold enclaveSection
  rcases input.attestationAvailable <;> rcases input.attestation with - | a <;> simp
  split <;> simp_all

theorem enclave_fail : (enclaveSection input).state = .fail ↔ input.attestationAvailable = true ∧
    ∃ a, input.attestation = some a ∧ a.trustworthy = false := by
  unfold enclaveSection
  rcases input.attestationAvailable <;> rcases input.attestation with - | a <;> simp
  split <;> simp_all

theorem signature_pass : (signatureSection input).state = .pass ↔ input.resultAvailable = true ∧
    ∃ steps, input.steps = some steps ∧ steps.signerOk = true ∧ steps.statusOk = true := by
  unfold signatureSection
  rcases input.resultAvailable <;> rcases input.steps with - | steps <;> simp
  split <;> simp_all

theorem signature_unavailable : (signatureSection input).state = .unavailable ↔
    input.resultAvailable = false ∨ input.steps = none := by
  unfold signatureSection
  rcases input.resultAvailable <;> rcases input.steps with - | steps <;> simp
  split <;> simp

theorem signature_cases : (signatureSection input).state = .pass ∨ (signatureSection input).state = .fail ∨
    (signatureSection input).state = .unavailable := by
  unfold signatureSection
  rcases input.resultAvailable <;> rcases input.steps with - | steps <;> simp
  split <;> simp

theorem enclave_cases : (enclaveSection input).state = .pass ∨ (enclaveSection input).state = .fail ∨
    (enclaveSection input).state = .unavailable := by
  unfold enclaveSection
  rcases input.attestationAvailable <;> rcases input.attestation with - | a <;> simp
  split <;> simp

theorem countState_sectionsOf (state : CheckState) (hinfo : state ≠ .info) :
    countState (sectionsOf input) state =
      (if (enclaveSection input).state = state then 1 else 0) +
      (if (reproducibleSection input).state = state then 1 else 0) +
      (if (signatureSection input).state = state then 1 else 0) +
      (if (arithmeticSection input).state = state then 1 else 0) := by
  have hne : CheckState.info ≠ state := hinfo.symm
  rw [countState, ← List.countP_eq_length_filter, sectionsOf]
  simp only [List.countP_cons, List.countP_nil, hne, decide_eq_true_eq, if_false]
  omega

theorem reproducible_ne_fail : (reproducibleSection input).state ≠ .fail := by
  unfold reproducibleSection
  split <;> nofun

theorem arithmetic_fail : (arithmeticSection input).state = .fail ↔ arithmeticOk input.round = false := by
  unfold arithmeticSection
  cases arithmeticOk input.round <;> simp

theorem failures : countState (sectionsOf input) .fail =
    (if (enclaveSection input).state = .fail then 1 else 0) +
    (if (signatureSection input).state = .fail then 1 else 0) +
    (if arithmeticOk input.round = false then 1 else 0) := by
  rw [countState_sectionsOf _ (by decide), if_neg reproducible_ne_fail, if_congr arithmetic_fail rfl rfl,
    add_zero]

theorem overallOf_eq (h : countState (sectionsOf input) .fail = 0) :
    overallOf input = if 0 < countState (sectionsOf input) .unavailable then .partially else .verified := by
  simp only [overallOf, h, lt_irrefl, if_false]

theorem failures_eq_zero : countState (sectionsOf input) .fail = 0 ↔ (enclaveSection input).state ≠ .fail ∧
    (signatureSection input).state ≠ .fail ∧ arithmeticOk input.round = true := by
  rw [failures]
  by_cases he : (enclaveSection input).state = .fail <;>
    by_cases hs : (signatureSection input).state = .fail <;>
    cases ha : arithmeticOk input.round <;> simp [he, hs]

theorem unavailable_eq_zero : countState (sectionsOf input) .unavailable = 0 ↔
    (enclaveSection input).state ≠ .unavailable ∧ input.attestationAvailable = true ∧
    (signatureSection input).state ≠ .unavailable := by
  have harith : (arithmeticSection input).state ≠ .unavailable := by
    unfold arithmeticSection
    split <;> nofun
  have hrep : (reproducibleSection input).state = .unavailable ↔ input.attestationAvailable = false := by
    unfold reproducibleSection
    cases input.attestationAvailable <;> simp
  rw [countState_sectionsOf _ (by decide), if_neg harith, if_congr hrep rfl rfl]
  by_cases he : (enclaveSection input).state = .unavailable <;>
    by_cases hs : (signatureSection input).state = .unavailable <;>
    cases ha : input.attestationAvailable <;> simp [he, hs]

theorem overall_verified : overallOf input = .verified ↔ (enclaveSection input).state = .pass ∧
    (signatureSection input).state = .pass ∧ arithmeticOk input.round = true := by
  constructor
  · intro h
    have hfail : countState (sectionsOf input) .fail = 0 := by
      by_contra hne
      simp only [overallOf, Nat.pos_of_ne_zero hne, if_true] at h
      split at h <;> cases h
    have hunavailable : countState (sectionsOf input) .unavailable = 0 := by
      by_contra hne
      rw [overallOf_eq hfail, if_pos (Nat.pos_of_ne_zero hne)] at h
      cases h
    obtain ⟨he, hs, ha⟩ := failures_eq_zero.mp hfail
    obtain ⟨he', -, hs'⟩ := unavailable_eq_zero.mp hunavailable
    exact ⟨enclave_cases.resolve_right (not_or.mpr ⟨he, he'⟩),
      signature_cases.resolve_right (not_or.mpr ⟨hs, hs'⟩), ha⟩
  · rintro ⟨he, hs, ha⟩
    have hfail : countState (sectionsOf input) .fail = 0 :=
      failures_eq_zero.mpr ⟨he ▸ by decide, hs ▸ by decide, ha⟩
    have hunavailable : countState (sectionsOf input) .unavailable = 0 :=
      unavailable_eq_zero.mpr ⟨he ▸ by decide, (enclave_pass.mp he).1, hs ▸ by decide⟩
    rw [overallOf_eq hfail, hunavailable]
    rfl

theorem overall_simulated : overallOf input = .simulated ↔ (enclaveSection input).state = .fail ∧
    (signatureSection input).state ≠ .fail ∧ arithmeticOk input.round = true ∧
    ∃ a, input.attestation = some a ∧ a.isSimulatedCodeHash = true ∧ a.matchesRegisteredExtension = true := by
  have hattestation : input.attestation.any (fun a => a.isSimulatedCodeHash && a.matchesRegisteredExtension) =
      true ↔ ∃ a, input.attestation = some a ∧ a.isSimulatedCodeHash = true ∧
        a.matchesRegisteredExtension = true := by
    rw [Option.any_eq_true]
    simp only [Bool.and_eq_true]
  by_cases he : (enclaveSection input).state = .fail
  · have hpos : 0 < countState (sectionsOf input) .fail := by
      rw [failures, if_pos he]
      omega
    have hone : countState (sectionsOf input) .fail = 1 ↔
        (signatureSection input).state ≠ .fail ∧ arithmeticOk input.round = true := by
      rw [failures, if_pos he]
      by_cases hs : (signatureSection input).state = .fail <;> cases arithmeticOk input.round <;> simp [hs]
    simp only [overallOf, hpos, if_true, simulationOnly, he]
    rw [← hattestation, ← and_assoc (a := (signatureSection input).state ≠ .fail), ← hone]
    split <;> simp_all
  · refine iff_of_false ?_ fun h => he h.1
    simp only [overallOf, simulationOnly]
    split
    · simp [he]
    · split <;> nofun

end States

section Soundness

variable {keccak : Keccak} {ecrecover : Bytes32 → UInt8 → Bytes32 → Bytes32 → Address}
  (V : ViemRecovery keccak ecrecover) (input : PageInput)

/-- The signature check ran on a result of status 1 and recovered the registered machine. -/
def SignatureChecked : Prop :=
  ∃ result steps signer, input.fetched = some result ∧ result.status = 1 ∧
    verifyActionResult V result input.teeAddress coston2Id = .ok steps ∧
    steps.recoveredSigner = some signer ∧ toLowerCase signer = toLowerCase input.teeAddress

def TrustworthyAttestation : Prop :=
  ∃ report, input.reported = some report ∧
    (assessAttestation report input.extensionText).trustworthy = true

/-- What the headline of the report and its third section may be read to say. -/
structure NeverOverstates : Prop where
  verified : (pageReport V input).overall = .verified → TrustworthyAttestation input ∧
    SignatureChecked V input ∧ input.round.totalAllocated ≤ input.round.funded ∧
    input.round.totalClaimed ≤ input.round.totalAllocated
  simulated : (pageReport V input).overall = .simulated → SignatureChecked V input
  counted : ∀ result, input.fetched = some result → result.status ≠ 1 →
    ∃ s ∈ (pageReport V input).sections, s.n = 3 ∧ s.state = .fail

/-- A result came back that the enclave did not mark as successful. -/
def UnsuccessfulResult : Prop := ∃ result, input.fetched = some result ∧ result.status ≠ 1

/-- No result came back, or one of status 1 whose fields cannot be hashed. -/
def NothingToCheck : Prop :=
  ∀ result, input.fetched = some result → result.status = 1 ∧
    ∃ e, verifyActionResult V result input.teeAddress coston2Id = .error e

/-- The attestation is simulated but for the registered extension. -/
def SimulatedAttestation : Prop :=
  ∃ report, input.reported = some report ∧
    simulatedCodeHashPrefix.isPrefixOf (toLowerCase report.codeHash) = true ∧
    report.extensionId = input.extensionText

variable {V input}

theorem verifyActionResult_ok {result : BrowserVerification.ActionResult} {expected : Text} {chainId : ℕ}
    {steps : VerificationSteps} (h : verifyActionResult V result expected chainId = .ok steps) :
    steps.statusOk = (result.status == BrowserVerification.statusSuccess) ∧
      (steps.signerOk = true ↔ ∃ signer, steps.recoveredSigner = some signer ∧
        toLowerCase signer = toLowerCase expected) := by
  simp only [verifyActionResult, bind_ok] at h
  obtain ⟨_, -, _, -, _, -, _, -, h⟩ := h
  cases h
  exact ⟨rfl, by simp [Option.any_eq_true]⟩

theorem loadResult_steps {steps : VerificationSteps} : (loadResult V input).2 = some steps ↔
    ∃ result, input.fetched = some result ∧ result.status = 1 ∧
      verifyActionResult V result input.teeAddress coston2Id = .ok steps := by
  unfold loadResult
  rcases input.fetched with - | result
  · simp
  · dsimp only
    by_cases hs : result.status = 1
    · rw [if_pos hs]
      cases hv : verifyActionResult V result input.teeAddress coston2Id <;> simp [hs, hv]
    · rw [if_neg hs]
      simp [hs]

theorem loadResult_isSome {steps : VerificationSteps} (h : (loadResult V input).2 = some steps) :
    (loadResult V input).1.isSome = true := by
  obtain ⟨result, hfetched, hstatus, hsteps⟩ := loadResult_steps.mp h
  simp only [loadResult, hfetched, hstatus, hsteps, if_true, Option.isSome_some]

theorem signatureChecked_iff : SignatureChecked V input ↔
    (signatureSection (reportInput V input)).state = .pass := by
  rw [signature_pass]
  constructor
  · rintro ⟨result, steps, signer, hfetched, hstatus, hsteps, hsigner, heq⟩
    have hload := loadResult_steps.mpr ⟨result, hfetched, hstatus, hsteps⟩
    obtain ⟨hok, hsignerOk⟩ := verifyActionResult_ok hsteps
    refine ⟨loadResult_isSome hload, steps, hload, hsignerOk.mpr ⟨signer, hsigner, heq⟩, ?_⟩
    rw [hok, hstatus]
    rfl
  · rintro ⟨-, steps, hload, hsignerOk, -⟩
    obtain ⟨result, hfetched, hstatus, hsteps⟩ := loadResult_steps.mp hload
    obtain ⟨signer, hsigner, heq⟩ := (verifyActionResult_ok hsteps).2.mp hsignerOk
    exact ⟨result, steps, signer, hfetched, hstatus, hsteps, hsigner, heq⟩

theorem signature_unavailable_iff : (signatureSection (reportInput V input)).state = .unavailable ↔
    UnsuccessfulResult input ∨ NothingToCheck V input := by
  have hnone : (signatureSection (reportInput V input)).state = .unavailable ↔
      (loadResult V input).2 = none := by
    rw [signature_unavailable, or_iff_right_of_imp]
    · rfl
    · intro hunavailable
      by_contra hne
      obtain ⟨steps, hsteps⟩ := Option.ne_none_iff_exists'.mp hne
      exact absurd (loadResult_isSome hsteps) (Bool.eq_false_iff.mp hunavailable)
  rw [hnone, loadResult, UnsuccessfulResult, NothingToCheck]
  rcases input.fetched with - | result
  · simp
  · dsimp only
    by_cases hs : result.status = 1
    · rw [if_pos hs]
      cases hv : verifyActionResult V result input.teeAddress coston2Id <;> simp [hs, hv]
    · rw [if_neg hs]
      simp [hs]

theorem mem_sections_three {i : ReportInput} {s : SectionVerdict} (hs : s ∈ sectionsOf i) (hn : s.n = 3) :
    s = signatureSection i := by
  have henclave : (enclaveSection i).n = 1 := by
    unfold enclaveSection
    split
    · split <;> rfl
    · rfl
  simp only [sectionsOf, List.mem_cons, List.not_mem_nil, or_false] at hs
  rcases hs with rfl | rfl | rfl | rfl | rfl | rfl
  · rw [henclave] at hn
    cases hn
  · cases hn
  · rfl
  · cases hn
  · cases hn
  · cases hn

theorem attestationAvailable_of_reported {report : AttestationReport} (h : input.reported = some report) :
    (reportInput V input).attestationAvailable = true ∧ (reportInput V input).attestation =
      some (assessAttestation report input.extensionText) := by
  have hproxy : input.proxyUrl = true := by
    by_contra hne
    rw [PageInput.reported, if_neg hne] at h
    cases h
  simp only [reportInput, PageInput.assessed, h, hproxy, Option.isSome_some, Bool.and_self, Option.map_some,
    and_self]

theorem assessed_eq_some {verdict : AttestationVerdict} (h : input.assessed = some verdict) :
    ∃ report, input.reported = some report ∧ verdict = assessAttestation report input.extensionText := by
  obtain ⟨report, hreport, rfl⟩ := Option.map_eq_some_iff.mp h
  exact ⟨report, hreport, rfl⟩

theorem simulated_of_nothingToCheck (hsim : SimulatedAttestation input)
    (harith : arithmeticOk input.round = true) (hnothing : NothingToCheck V input) :
    (pageReport V input).overall = .simulated := by
  obtain ⟨report, hreport, hcode, hid⟩ := hsim
  obtain ⟨havailable, hverdict⟩ := attestationAvailable_of_reported (V := V) hreport
  have hunavailable := signature_unavailable_iff.mpr (.inr hnothing)
  refine overall_simulated.mpr ⟨enclave_fail.mpr ⟨havailable, _, hverdict, ?_⟩, ?_, harith, _, hverdict, hcode,
    decide_eq_true hid⟩
  · simp only [assessAttestation, hcode, Bool.not_true, Bool.and_false, Bool.false_and]
  · rw [hunavailable]
    decide

/-- The report overstates exactly on unsuccessful results, which it leaves out of its counts, and on
simulated attestations that no checked signature accompanies. -/
theorem neverOverstates_iff (V : ViemRecovery keccak ecrecover) (input : PageInput) :
    NeverOverstates V input ↔ ¬ UnsuccessfulResult input ∧
      ¬ (SimulatedAttestation input ∧ arithmeticOk input.round = true ∧ NothingToCheck V input) := by
  constructor
  · intro h
    constructor
    · rintro ⟨result, hfetched, hstatus⟩
      obtain ⟨s, hs, hn, hfail⟩ := h.counted result hfetched hstatus
      have hunavailable := signature_unavailable_iff (V := V).mpr (.inl ⟨result, hfetched, hstatus⟩)
      rw [mem_sections_three hs hn, hunavailable] at hfail
      cases hfail
    · rintro ⟨hsim, harith, hnothing⟩
      have hchecked := h.simulated (simulated_of_nothingToCheck hsim harith hnothing)
      have hpass := signatureChecked_iff.mp hchecked
      rw [signature_unavailable_iff.mpr (.inr hnothing)] at hpass
      cases hpass
  · rintro ⟨hsuccess, hsim⟩
    refine ⟨fun hverified => ?_, fun hsimulated => ?_, fun result hfetched hstatus => ?_⟩
    · obtain ⟨henclave, hsignature, harith⟩ := overall_verified.mp hverified
      obtain ⟨-, verdict, hverdict, htrust⟩ := enclave_pass.mp henclave
      obtain ⟨report, hreport, rfl⟩ := assessed_eq_some hverdict
      simp only [arithmeticOk, Bool.and_eq_true, decide_eq_true_eq] at harith
      exact ⟨⟨report, hreport, htrust⟩, signatureChecked_iff.mpr hsignature, harith⟩
    · obtain ⟨-, hsignature, harith, verdict, hverdict, hcode, hid⟩ := overall_simulated.mp hsimulated
      obtain ⟨report, hreport, rfl⟩ := assessed_eq_some hverdict
      rcases @signature_cases (reportInput V input) with hs | hs | hs
      · exact signatureChecked_iff.mpr hs
      · exact absurd hs hsignature
      · refine ((signature_unavailable_iff.mp hs).elim hsuccess fun hnothing => ?_).elim
        exact hsim ⟨⟨report, hreport, hcode, of_decide_eq_true hid⟩, harith, hnothing⟩
    · exact absurd ⟨result, hfetched, hstatus⟩ hsuccess

def sampleViem : ViemRecovery BrowserVerification.sampleDeployment.keccak
    BrowserVerification.sampleDeployment.ecrecover :=
  .standard _ _

def computingRound : Round :=
  { Round.unset with
    organization := 2, status := .computing, claimWindow := 3600, funded := 10, policyCommitment := 9
    computeRequestedAt := 100, computeInstructionId := 99 }

/-- A deployment with a simulated enclave whose proxy reports the extension id as a number and
holds the failed result of the round. -/
def failedInput : PageInput where
  proxyUrl := true
  round := computingRound
  teeAddress := addressText 7
  extensionId := 65536
  info := .ok (some ⟨some "0x544553545f504c4154464f524d".toList, some "0x194844cf00".toList,
    some (.number 65536), none⟩)
  response := .ok (some ⟨some (wordText 99), none, none, some 0, some "error: invalid policy", none⟩)

theorem simulated_without_signature : (pageReport sampleViem failedInput).overall = .simulated ∧
    ¬ NeverOverstates sampleViem failedInput := by
  have hoverall : (pageReport sampleViem failedInput).overall = .simulated := by decide
  refine ⟨hoverall, fun h => ?_⟩
  obtain ⟨result, -, -, hfetched, hstatus, -⟩ := h.simulated hoverall
  have hzero : failedInput.fetched.map BrowserVerification.ActionResult.status = some 0 := by decide
  rw [hfetched, Option.map_some, hstatus] at hzero
  cases hzero

end Soundness

end Fidensur.VerificationReport
