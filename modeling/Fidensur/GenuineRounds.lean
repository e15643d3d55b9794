import Fidensur.VerificationReport

set_option autoImplicit false

namespace Fidensur.VerificationReport

open ByteWords DigitText HexText BrowserVerification

/-- A round that ran in the registered enclave, with all its evidence at hand. The proxy reports
the extension id as 32 bytes in hexadecimal. -/
structure GenuineRound (D : Deployment) (input : PageInput) : Prop where
  chain : (D.chainId : ℕ) = coston2Id
  totals : arithmeticOk input.round = true
  proxy : input.proxyUrl = true
  attested : ∃ m platform codeHash digits, input.info = .ok (some m) ∧
    m.platform = some platform ∧ gcpAmdSevPrefix.isPrefixOf (toLowerCase platform) = true ∧
    m.codeHash = some codeHash ∧ codeHash ≠ [] ∧
    simulatedCodeHashPrefix.isPrefixOf (toLowerCase codeHash) = false ∧
    m.extensionId = some (.string ('0' :: 'x' :: digits)) ∧ digits.length = 64 ∧
    digits.all isHexDigit = true ∧ hexValue digits = input.extensionId
  signed : ∃ body data actionId tag sig log, ∃ tee : Address, input.response = .ok (some body) ∧
    normalizeActionResult body =
      some ⟨ofBytes data, wordText actionId, tag, (1 : UInt8).toNat, ofBytes sig, log⟩ ∧
    (AbiParam.address input.teeAddress).Denotes D.keccak tee ∧ tee ≠ 0 ∧
    TeeResultVerifier.SignedBy D (TeeResultVerifier.digest D data actionId (utf8Bytes tag) 1) sig tee

variable {D : Deployment} (V : ViemRecovery D.keccak D.ecrecover) {input : PageInput}

theorem hex_ne_extensionText (digits : Text) : '0' :: 'x' :: digits ≠ input.extensionText := by
  intro h
  have hmem : 'x' ∈ input.extensionText := by
    rw [← h]
    simp
  exact notMem_natRepr (by decide) _ hmem

theorem GenuineRound.assessed (h : GenuineRound D input) : ∃ report, input.reported = some report ∧
    (assessAttestation report input.extensionText).isRealPlatform = true ∧
    (assessAttestation report input.extensionText).isSimulatedCodeHash = false ∧
    (assessAttestation report input.extensionText).matchesRegisteredExtension = false := by
  obtain ⟨m, platform, codeHash, digits, hinfo, hplatform, hreal, hcode, hne, hsim, hid, -⟩ := h.attested
  have hplatformNe : platform ≠ [] := by
    rintro rfl
    revert hreal
    decide
  refine ⟨⟨platform, codeHash, '0' :: 'x' :: digits, m.initialOwner.getD zeroAddress⟩, ?_, hreal, hsim,
    decide_eq_false (hex_ne_extensionText digits)⟩
  simp only [PageInput.reported, h.proxy, if_true, hinfo, attestation, hplatform, hcode, Option.getD_some,
    hplatformNe, hne, or_self, if_false, hid, idText]

theorem GenuineRound.enclave_fail (h : GenuineRound D input) :
    (enclaveSection (reportInput V input)).state = .fail := by
  obtain ⟨report, hreport, -, -, hid⟩ := h.assessed
  obtain ⟨havailable, hverdict⟩ := attestationAvailable_of_reported (V := V) hreport
  refine VerificationReport.enclave_fail.mpr ⟨havailable, _, hverdict, ?_⟩
  change (_ && _ && (assessAttestation report input.extensionText).matchesRegisteredExtension) = false
  rw [hid, Bool.and_false]

theorem not_verified_of_enclave_fail {report : ReportInput}
    (h : (enclaveSection report).state = .fail) : (deriveVerdict report).overall ≠ .verified := by
  intro hverified
  have hpass := (overall_verified.mp hverified).1
  rw [h] at hpass
  cases hpass

/-- The page compares the reported hexadecimal id with the decimal text of the registered one, so
a genuine round always fails its enclave check. -/
theorem genuine_round_fails (h : GenuineRound D input) : (pageReport V input).overall = .failed := by
  obtain ⟨report, hreport, -, hsim, -⟩ := h.assessed
  obtain ⟨-, hverdict⟩ := attestationAvailable_of_reported (V := V) hreport
  have hpos : 0 < countState (sectionsOf (reportInput V input)) .fail := by
    rw [failures, if_pos (h.enclave_fail V)]
    omega
  have honly : simulationOnly (reportInput V input)
      (countState (sectionsOf (reportInput V input)) .fail) = false := by
    rw [simulationOnly, hverdict, Option.any_some, hsim, Bool.false_and, Bool.and_false]
  change overallOf (reportInput V input) = .failed
  simp only [overallOf, hpos, if_true, honly, Bool.false_eq_true, if_false]

section Sample

def finalizedRound : Round :=
  { computingRound with
    status := .finalized, recipientCount := 2, claimDeadline := 4000, totalAllocated := 8, totalClaimed := 3
    merkleRoot := 12, engineVersion := 1 }

def genuineInput : PageInput where
  proxyUrl := true
  round := finalizedRound
  teeAddress := addressText 7
  extensionId := 65536
  info := .ok (some ⟨some "0x4743505f414d445f534556".toList, some "0xab".toList,
    some (.string (wordText 65536)), none⟩)
  response := .ok (some ⟨some (wordText 99), some (ofBytes [42]), none, some 1, none,
    some (ofBytes (List.replicate 65 1))⟩)

theorem genuineInput_genuine : GenuineRound BrowserVerification.sampleDeployment genuineInput where
  chain := rfl
  totals := rfl
  proxy := rfl
  attested := by
    have hdigits : wordText 65536 = '0' :: 'x' :: hexDigits 64 65536 := by decide
    refine ⟨_, _, _, hexDigits 64 65536, rfl, rfl, by decide, rfl, by decide,
      by decide, ?_, length_hexDigits _ _, by decide, by decide⟩
    exact congrArg (fun t => some (JsonId.string t)) hdigits
  signed := by
    refine ⟨_, [42], 99, "submit", List.replicate 65 1, none, 7, rfl, ?_, .address 7, by decide, rfl,
      .inr (by decide), rfl⟩
    rw [normalizeActionResult, if_neg (by exact List.cons_ne_nil _ _)]
    rfl

theorem genuine_round_fails_sample : (pageReport sampleViem genuineInput).overall = .failed :=
  genuine_round_fails _ genuineInput_genuine

theorem genuine_round_not_verified : ¬ ∀ (D : Deployment) (V : ViemRecovery D.keccak D.ecrecover)
    (input : PageInput), GenuineRound D input → (pageReport V input).overall = .verified := by
  intro hall
  have hverified := hall BrowserVerification.sampleDeployment sampleViem genuineInput genuineInput_genuine
  exact not_verified_of_enclave_fail (genuineInput_genuine.enclave_fail _) hverified

end Sample

end Fidensur.VerificationReport
