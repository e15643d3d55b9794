import Fidensur.Viem

set_option autoImplicit false

namespace Fidensur.PolicyVault

open ByteWords DigitText HexText

structure StoredPolicy where
  roundId : ℕ
  commitment : Text
  ciphertext : Text

def title : Text := "# Fidensur policy ciphertext\n".toList
def roundLabel : Text := "# Round:      ".toList
def commitmentLabel : Text := "# Commitment: ".toList
def notice : Text := "#\n# Keep this file. requestCompute accepts only these exact bytes, and re-encrypting the same\n# policy produces different ones. Without it the round cannot be computed or recovered.\n".toList

def policyText (entry : StoredPolicy) : Text :=
  title ++ roundLabel ++ entry.roundId.repr.toList ++ ['\n'] ++
    commitmentLabel ++ entry.commitment ++ ['\n'] ++ notice ++ entry.ciphertext ++ ['\n']

/-- A match of `0x[0-9a-fA-F]{2,}` at the start of a text, as long as it goes. -/
def hexAtStart : Text → Option Text
  | '0' :: 'x' :: rest =>
      let run := rest.takeWhile isHexDigit
      if 2 ≤ run.length then some ('0' :: 'x' :: run) else none
  | _ => none

/-- The first match anywhere in the text. -/
def parsePolicyFile : Text → Option Text
  | [] => none
  | c :: rest => (hexAtStart (c :: rest)).or (parsePolicyFile rest)

section Search

theorem hexAtStart_eq_none {c d : Char} {rest : Text} (h : c ≠ '0' ∨ d ≠ 'x') :
    hexAtStart (c :: d :: rest) = none := by
  unfold hexAtStart
  split
  · next heq =>
    obtain ⟨rfl, htail⟩ := List.cons.inj heq
    obtain ⟨rfl, -⟩ := List.cons.inj htail
    simp at h
  · rfl

theorem hexAtStart_of_ne {c : Char} {rest : Text} (h : c ≠ '0') : hexAtStart (c :: rest) = none := by
  unfold hexAtStart
  split
  · next heq => exact absurd (List.cons.inj heq).1 h
  · rfl

theorem parsePolicyFile_append_of_zero {before rest : Text} (h : '0' ∉ before) :
    parsePolicyFile (before ++ rest) = parsePolicyFile rest := by
  induction before with
  | nil => rfl
  | cons c before ih =>
    rw [List.mem_cons, not_or] at h
    rw [List.cons_append, parsePolicyFile, hexAtStart_of_ne (Ne.symm h.1), Option.none_or, ih h.2]

theorem parsePolicyFile_append_of_x {before rest : Text} (h : 'x' ∉ before) :
    parsePolicyFile (before ++ '0' :: rest) = parsePolicyFile ('0' :: rest) := by
  induction before with
  | nil => rfl
  | cons c before ih =>
    rw [List.mem_cons, not_or] at h
    have hnone : hexAtStart (c :: (before ++ '0' :: rest)) = none := by
      cases before with
      | nil => exact hexAtStart_eq_none (.inr (by decide))
      | cons d before =>
        apply hexAtStart_eq_none
        right
        rintro rfl
        exact h.2 List.mem_cons_self
    rw [List.cons_append, parsePolicyFile, hnone, Option.none_or, ih h.2]

theorem parsePolicyFile_hex {digits : Text} {c : Char} {rest : Text} (h2 : 2 ≤ digits.length)
    (hdigits : ∀ d ∈ digits, isHexDigit d = true) (hc : isHexDigit c = false) :
    parsePolicyFile ('0' :: 'x' :: digits ++ c :: rest) = some ('0' :: 'x' :: digits) := by
  have hrun : (digits ++ c :: rest).takeWhile isHexDigit = digits := by
    rw [List.takeWhile_append_of_pos hdigits, List.takeWhile_cons_of_neg (by simp [hc]),
      List.append_nil]
  rw [List.cons_append, List.cons_append, parsePolicyFile, hexAtStart, hrun, if_pos h2, Option.some_or]

end Search

theorem wordText_digits (w : Bytes32) : ∃ digits, wordText w = '0' :: 'x' :: digits ∧
    digits.length = 64 ∧ ∀ d ∈ digits, isHexDigit d = true := by
  refine ⟨hexDigits (2 * (ofNat 32 (w : ℕ)).length) (ByteWords.value (ofNat 32 (w : ℕ))), ?_, ?_, ?_⟩
  · rw [wordText, ofWord, ofBytes_eq]
  · rw [length_hexDigits, length_ofNat]
  · exact fun _ hd => isHexDigit_of_mem hd

/-- Whatever the ciphertext, the commitment in the header is found first. -/
theorem parsePolicyFile_policyText (roundId : ℕ) (commitment : Bytes32) (ciphertext : Text) :
    parsePolicyFile (policyText ⟨roundId, wordText commitment, ciphertext⟩) =
      some (wordText commitment) := by
  obtain ⟨digits, hword, hlen, hdigits⟩ := wordText_digits commitment
  have hzero : '0' ∉ title ++ roundLabel := by decide
  have hx : 'x' ∉ roundId.repr.toList ++ '\n' :: commitmentLabel := by
    rw [List.mem_append, not_or]
    exact ⟨notMem_natRepr (by decide) roundId, by decide⟩
  have htext : policyText ⟨roundId, wordText commitment, ciphertext⟩ =
      (title ++ roundLabel) ++ ((roundId.repr.toList ++ '\n' :: commitmentLabel) ++
        '0' :: ('x' :: digits ++ '\n' :: (notice ++ ciphertext ++ ['\n']))) := by
    simp only [policyText, hword, List.append_assoc, List.cons_append, List.nil_append]
  rw [htext, parsePolicyFile_append_of_zero hzero, parsePolicyFile_append_of_x hx, hword]
  exact parsePolicyFile_hex (by omega) hdigits (by decide)

/-- The saved file restores the ciphertext just when the ciphertext is its own commitment. -/
theorem restored_iff (roundId : ℕ) (commitment : Bytes32) (ciphertext : Text) :
    parsePolicyFile (policyText ⟨roundId, wordText commitment, ciphertext⟩) = some ciphertext ↔
      ciphertext = wordText commitment := by
  rw [parsePolicyFile_policyText, Option.some_inj, eq_comm]

/-- One byte of ciphertext, and the commitment comes back instead. -/
theorem commitment_restored :
    ¬ ∀ (keccak : Keccak) (roundId : ℕ) (ciphertext : Bytes), ciphertext ≠ [] →
      parsePolicyFile (policyText ⟨roundId, wordText (keccak ciphertext), ofBytes ciphertext⟩) =
        some (ofBytes ciphertext) := by
  intro hall
  have hparsed := hall (fun _ => 5) 7 [42] (by decide)
  rw [parsePolicyFile_policyText, Option.some_inj, wordText, ofWord] at hparsed
  have hlen := congrArg List.length hparsed
  simp [length_ofBytes] at hlen

end Fidensur.PolicyVault
