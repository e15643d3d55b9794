import Fidensur.AllocationPolicy
import Fidensur.HexText

set_option autoImplicit false

namespace Fidensur

open ByteWords DigitText HexText

def addressText (a : Address) : Text := ofBytes (ofNat 20 a)

def wordText (w : Bytes32) : Text := ofWord w

inductive AbiParam
  | uint256 (n : ℤ)
  | address (a : Text)
  | bytes32 (word : Text)

/-- The words well-formed values stand for; addresses are in lower case or carry their checksum. -/
inductive AbiParam.Denotes (keccak : Keccak) : AbiParam → ℕ → Prop
  | uint256 (n : Uint256) : Denotes keccak (.uint256 (n : ℕ)) n
  | address (a : Address) : Denotes keccak (.address (addressText a)) a
  | checksummed (a : Address) : Denotes keccak (.address (checksumHex keccak a).toList) a
  | bytes32 (word : Bytes32) : Denotes keccak (.bytes32 (wordText word)) word

/-- The hashing and encoding functions the browser takes from its library, and what it relies on
them for. Errors are given by their texts. -/
structure Viem (keccak : Keccak) where
  keccak256 : Text → Except String Text
  concatHex : List Text → Text
  encodeAbiParameters : List AbiParam → Except String Text
  hexToBytes : Text → Except String Bytes
  bytesToHex : Bytes → Text
  keccak256_ofBytes (b : Bytes) : keccak256 (ofBytes b) = .ok (wordText (keccak b))
  concatHex_ofBytes (bs : List Bytes) : concatHex (bs.map ofBytes) = ofBytes bs.flatten
  encodeAbiParameters_of_denotes {params : List AbiParam} {words : List ℕ}
    (h : List.Forall₂ (AbiParam.Denotes keccak) params words) :
    encodeAbiParameters params = .ok (ofBytes (abiEncode words))
  hexToBytes_ofBytes (b : Bytes) : hexToBytes (ofBytes b) = .ok b
  bytesToHex_eq (b : Bytes) : bytesToHex b = ofBytes b

namespace Viem

def hexBytes (t : Text) : Except String Bytes :=
  match toBytes t with
  | some b => .ok b
  | none => .error "Invalid hex value"

theorem hexBytes_ofBytes (b : Bytes) : hexBytes (ofBytes b) = .ok b := by
  rw [hexBytes, toBytes_ofBytes]

def wordOf : AbiParam → Except String ℕ
  | .uint256 n => if 0 ≤ n ∧ n < 2 ^ 256 then .ok n.toNat else .error "Number is not in safe range"
  | .address a => if a.length = 42 then .ok (hexValue (a.drop 2)) else .error "Address is invalid"
  | .bytes32 word =>
      if word.length = 66 then .ok (hexValue (word.drop 2)) else .error "Size of bytes does not match"

variable {keccak : Keccak}

theorem wordOf_denotes {p : AbiParam} {w : ℕ} (h : p.Denotes keccak w) : wordOf p = .ok w := by
  cases h with
  | uint256 n =>
    have := n.isLt
    simp [wordOf]
  | address a => simp [wordOf, addressText, ofBytes_eq, hexValue_hexDigits, value_ofNat]
  | checksummed a => simp [wordOf, checksumHex, hexValue_checksumDigits]
  | bytes32 word => simp [wordOf, wordText, ofWord, ofBytes_eq, hexValue_hexDigits, value_ofNat]

theorem mapM_wordOf {params : List AbiParam} {words : List ℕ}
    (h : List.Forall₂ (AbiParam.Denotes keccak) params words) : params.mapM wordOf = .ok words := by
  induction h with
  | nil => rfl
  | cons hw _ ih =>
    rw [List.mapM_cons, wordOf_denotes hw, ih]
    rfl

def standard (keccak : Keccak) : Viem keccak where
  keccak256 t := do
    let b ← hexBytes t
    return wordText (keccak b)
  concatHex ts := '0' :: 'x' :: ts.flatMap (List.drop 2)
  encodeAbiParameters params := do
    let words ← params.mapM wordOf
    return ofBytes (abiEncode words)
  hexToBytes := hexBytes
  bytesToHex := ofBytes
  keccak256_ofBytes b := by
    rw [hexBytes_ofBytes]
    rfl
  concatHex_ofBytes bs := by
    apply congrArg (fun digits => '0' :: 'x' :: digits)
    induction bs with
    | nil => rfl
    | cons b bs ih =>
      rw [List.map_cons, List.flatMap_cons, ih, List.flatten_cons, List.flatMap_append]
      rfl
  encodeAbiParameters_of_denotes h := by
    rw [mapM_wordOf h]
    rfl
  hexToBytes_ofBytes := hexBytes_ofBytes
  bytesToHex_eq _ := rfl

end Viem

end Fidensur
