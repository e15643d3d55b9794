import Fidensur.BrowserMerkle
import Fidensur.BrowserVerification
import Fidensur.EngineHandlers
import Fidensur.JsText

set_option autoImplicit false

namespace Fidensur.BrowserMerkle

open ByteWords DigitText HexText BrowserVerification

/-- What a recipient recovers by decrypting the engine's reply. -/
structure Disclosure where
  roundId : Text
  index : ℤ
  recipient : Text
  amount : Text
  proof : List Text
  merkleRoot : Text

structure DisclosureCheck where
  rootMatches : Bool
  proofValid : Bool
  ok : Bool
  deriving DecidableEq

def bigIntOf (t : Text) : Except String ℤ :=
  match JsText.bigInt t with
  | some n => .ok n
  | none => .error ("Cannot convert " ++ String.ofList t ++ " to a BigInt")

section Checking

variable {keccak : Keccak} (V : Viem keccak)

def verifyAllocation (root : Text) (entry : AllocationLeaf) (proof : List Text) : Except String Bool := do
  let leaf ← leafHash V entry
  verifyProof V root leaf proof

def checkDisclosure (disclosure : Disclosure) (onChainRoot : Text) : Except String DisclosureCheck := do
  let rootMatches := decide (toLowerCase disclosure.merkleRoot = toLowerCase onChainRoot)
  let roundId ← bigIntOf disclosure.roundId
  let amount ← bigIntOf disclosure.amount
  let proofValid ← verifyAllocation V onChainRoot
    ⟨roundId, disclosure.index, disclosure.recipient, amount⟩ disclosure.proof
  return ⟨rootMatches, proofValid, rootMatches && proofValid⟩

/-- The fields of the engine's JSON text; positions in a table are exact as numbers. -/
def received (d : Fidensur.Disclosure) : Disclosure where
  roundId := d.roundId.toList
  index := d.index
  recipient := d.recipient.toList
  amount := d.amount.toList
  proof := d.proof.map String.toList
  merkleRoot := d.merkleRoot.toList

end Checking

section Refinement

variable {keccak : Keccak} (V : Viem keccak)

theorem bigIntOf_toText (n : ℕ) : bigIntOf (JsText.toText n) = .ok (n : ℤ) := by
  rw [bigIntOf, JsText.bigInt_digits (JsText.digits_toText n), JsText.ofDigitChars_toText]

theorem wordText_eq (w : Bytes32) : wordText w = '0' :: 'x' :: hexDigits 64 w := by
  rw [wordText, ofWord, ofBytes_eq, length_ofNat, value_ofNat, Nat.mod_eq_of_lt (word_lt w)]

theorem toList_hashHex (w : Bytes32) : (hashHex w).toList = wordText w := by
  rw [wordText_eq, hashHex, String.toList_append, String.toList_ofList, String.toList_ofList]
  simp only [List.cons_append, List.nil_append]

theorem toLowerCase_wordText (w : Bytes32) : toLowerCase (wordText w) = wordText w := by
  rw [wordText_eq, toLowerCase_cons, toLowerCase_hexDigits]

theorem checkDisclosure_wordText {roundId index amount : Uint256} {recipient : Address} {text : Text}
    (h : (AbiParam.address text).Denotes keccak recipient) {onChainRoot : Bytes32}
    (hroot : onChainRoot ≠ 0) (merkleRoot : Bytes32) (proof : List Bytes32) :
    let valid := AllocationMerkle.verifyLeaf keccak onChainRoot
      (AllocationMerkle.leafHash keccak roundId index recipient amount) proof
    checkDisclosure V ⟨JsText.toText (roundId : ℕ), (index : ℕ), text, JsText.toText (amount : ℕ),
        proof.map wordText, wordText merkleRoot⟩ (wordText onChainRoot) =
      .ok ⟨decide (merkleRoot = onChainRoot), valid, decide (merkleRoot = onChainRoot) && valid⟩ := by
  simp only [checkDisclosure, verifyAllocation, bigIntOf_toText, leafHash_wordText V roundId index amount h,
    verifyProof_wordText V hroot, toLowerCase_wordText, wordText_inj, bind, Except.bind, pure, Except.pure]

end Refinement

end Fidensur.BrowserMerkle
