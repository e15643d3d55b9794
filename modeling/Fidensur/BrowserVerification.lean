import Fidensur.JsText
import Fidensur.Viem
import Fidensur.TeeResultVerifier

set_option autoImplicit false

namespace Fidensur

open ByteWords DigitText HexText

def utf8Bytes (s : String) : Bytes := s.toList.flatMap String.utf8EncodeChar

inductive PackedParam
  | bytes32 (word : Text)
  | uint8 (n : ℕ)

inductive PackedParam.Denotes : PackedParam → Bytes → Prop
  | bytes32 (word : Bytes32) : Denotes (.bytes32 (wordText word)) (ofNat 32 word)
  | uint8 (x : UInt8) : Denotes (.uint8 x.toNat) [x]

/-- What signature verification takes from the library besides. Recovery throws on a signature
that recovers to nothing, or reports the zero address. -/
structure ViemRecovery (keccak : Keccak)
    (ecrecover : Bytes32 → UInt8 → Bytes32 → Bytes32 → Address) extends Viem keccak where
  stringToHex : String → Text
  /-- With a size: the bytes first, zeros after. -/
  stringToHexSized : String → ℕ → Except String Text
  encodePacked : List PackedParam → Except String Text
  recoverAddress : Text → Text → Except String Text
  stringToHex_eq (s : String) : stringToHex s = ofBytes (utf8Bytes s)
  stringToHexSized_eq {s : String} {size : ℕ} (h : (utf8Bytes s).length ≤ size) :
    stringToHexSized s size =
      .ok (ofBytes (utf8Bytes s ++ List.replicate (size - (utf8Bytes s).length) 0))
  encodePacked_of_denotes {params : List PackedParam} {parts : List Bytes}
    (h : List.Forall₂ PackedParam.Denotes params parts) :
    encodePacked params = .ok (ofBytes parts.flatten)
  -- 32 bytes each of `r` and `s`, then the recovery id
  recoverAddress_ofBytes (hash r s : Bytes32) {v : UInt8} (hv : v = 27 ∨ v = 28) :
    let signature := ofBytes (ofNat 32 r ++ ofNat 32 s ++ [v])
    (∃ text, recoverAddress (wordText hash) signature = .ok text ∧
        (AbiParam.address text).Denotes keccak (ecrecover hash v r s)) ∨
      ecrecover hash v r s = 0 ∧ ∃ e, recoverAddress (wordText hash) signature = .error e

namespace ViemRecovery

def packedOf : PackedParam → Except String Bytes
  | .bytes32 word => Viem.hexBytes word
  | .uint8 n => .ok [UInt8.ofNat n]

theorem mapM_packedOf {params : List PackedParam} {parts : List Bytes}
    (h : List.Forall₂ PackedParam.Denotes params parts) : params.mapM packedOf = .ok parts := by
  induction h with
  | nil => rfl
  | cons hp _ ih =>
    rw [List.mapM_cons, ih]
    cases hp with
    | bytes32 word =>
      rw [packedOf, wordText, ofWord, Viem.hexBytes_ofBytes]
      rfl
    | uint8 x =>
      rw [packedOf, UInt8.ofNat_toNat]
      rfl

variable {keccak : Keccak} (ecrecover : Bytes32 → UInt8 → Bytes32 → Bytes32 → Address)

def recovered (hash signature : Text) : Except String Text := do
  let digest ← Viem.wordOf (.bytes32 hash)
  let sig ← Viem.hexBytes signature
  let signer := ecrecover (Fin.ofNat (2 ^ 256) digest) (sig.getD 64 0) (Fin.ofNat (2 ^ 256) (ByteWords.value (sig.take 32)))
    (Fin.ofNat (2 ^ 256) (ByteWords.value ((sig.drop 32).take 32)))
  if signer = 0 then .error "Cannot find square root" else .ok (addressText signer)

theorem recovered_ofBytes (hash r s : Bytes32) (v : UInt8) :
    recovered ecrecover (wordText hash) (ofBytes (ofNat 32 r ++ ofNat 32 s ++ [v])) =
      if ecrecover hash v r s = 0 then .error "Cannot find square root"
      else .ok (addressText (ecrecover hash v r s)) := by
  have hword : Viem.wordOf (.bytes32 (wordText hash)) = .ok (hash : ℕ) :=
    Viem.wordOf_denotes (@AbiParam.Denotes.bytes32 (fun _ => 0) hash)
  have hbytes := Viem.hexBytes_ofBytes (ofNat 32 (r : ℕ) ++ ofNat 32 (s : ℕ) ++ [v])
  have hvalue (w : Bytes32) : ByteWords.value (ofNat 32 (w : ℕ)) = w := by
    rw [value_ofNat, Nat.mod_eq_of_lt (word_lt w)]
  have hv : (ofNat 32 (r : ℕ) ++ ofNat 32 (s : ℕ) ++ [v]).getD 64 0 = v := by
    simp [List.getD_eq_getElem?_getD]
  have hr : (ofNat 32 (r : ℕ) ++ ofNat 32 (s : ℕ) ++ [v]).take 32 = ofNat 32 (r : ℕ) := by
    rw [List.append_assoc, List.take_left' (length_ofNat _ _)]
  have hs : ((ofNat 32 (r : ℕ) ++ ofNat 32 (s : ℕ) ++ [v]).drop 32).take 32 = ofNat 32 (s : ℕ) := by
    rw [List.append_assoc, List.drop_left' (length_ofNat _ _), List.take_left' (length_ofNat _ _)]
  simp only [recovered, hword, hbytes, bind, Except.bind, hv, hr, hs, hvalue, Fin.ofNat_eq_cast,
    Fin.cast_val_eq_self]

def standard (keccak : Keccak) (ecrecover : Bytes32 → UInt8 → Bytes32 → Bytes32 → Address) :
    ViemRecovery keccak ecrecover where
  toViem := Viem.standard keccak
  stringToHex s := ofBytes (utf8Bytes s)
  stringToHexSized s size :=
    if (utf8Bytes s).length ≤ size then
      .ok (ofBytes (utf8Bytes s ++ List.replicate (size - (utf8Bytes s).length) 0))
    else .error "Size exceeds the given size"
  encodePacked params := do
    let parts ← params.mapM packedOf
    return ofBytes parts.flatten
  recoverAddress := recovered ecrecover
  stringToHex_eq _ := rfl
  stringToHexSized_eq h := if_pos h
  encodePacked_of_denotes h := by
    rw [mapM_packedOf h]
    rfl
  recoverAddress_ofBytes hash r s v _ := by
    intro signature
    rw [recovered_ofBytes ecrecover hash r s v]
    split_ifs with hz
    · exact .inr ⟨hz, _, rfl⟩
    · exact .inl ⟨_, rfl, .address _⟩

end ViemRecovery

namespace BrowserVerification

def statusSuccess : ℕ := 1

structure ActionResult where
  data : Text
  actionId : Text
  submissionTag : String
  status : ℕ
  signature : Text
  log : Option String

structure VerificationSteps where
  dataHash : Text
  resultHash : Text
  payloadHash : Text
  eip191Digest : Text
  recoveredSigner : Option Text
  expectedSigner : Text
  chainId : ℕ
  statusOk : Bool
  signerOk : Bool
  valid : Bool
  error : Option String

def toLowerCase (t : Text) : Text := t.map Char.toLower

def normalizeSignature (signature : Text) : Except String Text :=
  let raw := signature.drop 2
  if raw.length ≠ 130 then
    .error ("signature must be 65 bytes, got " ++ (raw.length / 2).repr ++
      if raw.length % 2 = 0 then "" else ".5")
  else
    match JsText.parseInt16 ((raw.drop 128).take 2) with
    | some v =>
        if v = 27 ∨ v = 28 then .ok signature
        else if v = 0 ∨ v = 1 then .ok ('0' :: 'x' :: raw.take 128 ++ hexDigits 2 (v + 27).toNat)
        else .error ("invalid signature recovery id: " ++ v.repr)
    | none => .error "invalid signature recovery id: NaN"

variable {keccak : Keccak} {ecrecover : Bytes32 → UInt8 → Bytes32 → Bytes32 → Address}
  (V : ViemRecovery keccak ecrecover)

def computeDataHash (data : Text) : Except String Text := V.keccak256 data

def computeResultHash (result : ActionResult) : Except String Text := do
  let packed ← V.encodePacked [.bytes32 (← V.keccak256 result.data), .bytes32 result.actionId,
    .bytes32 (← V.keccak256 (V.stringToHex result.submissionTag)), .uint8 result.status]
  V.keccak256 packed

def computePayloadHash (resultHash : Text) (chainId : ℕ) : Except String Text := do
  let teeActionResultPrefix ← V.stringToHexSized "TEE_ACTION_RESULT" 32
  let encoded ← V.encodeAbiParameters
    [.bytes32 teeActionResultPrefix, .uint256 chainId, .bytes32 resultHash]
  V.keccak256 encoded

def computeEip191Digest (payloadHash : Text) : Except String Text :=
  V.keccak256 (V.concatHex [V.stringToHex "\x19Ethereum Signed Message:\n32", payloadHash])

def recoverSigned (eip191Digest signature : Text) : Except String Text := do
  V.recoverAddress eip191Digest (← normalizeSignature signature)

/-- Only the recovery is caught; hashing errors reject the whole call. -/
def verifyActionResult (result : ActionResult) (expectedSigner : Text) (chainId : ℕ) :
    Except String VerificationSteps := do
  let dataHash ← computeDataHash V result.data
  let resultHash ← computeResultHash V result
  let payloadHash ← computePayloadHash V resultHash chainId
  let eip191Digest ← computeEip191Digest V payloadHash
  let statusOk := result.status == statusSuccess
  let recovery := recoverSigned V eip191Digest result.signature
  let recoveredSigner := recovery.toOption
  let signerOk := recoveredSigner.any (fun signer => toLowerCase signer = toLowerCase expectedSigner)
  return {
    dataHash, resultHash, payloadHash, eip191Digest, recoveredSigner, expectedSigner, chainId
    statusOk, signerOk
    valid := statusOk && signerOk
    error := match recovery with
      | .ok _ => none
      | .error e => some e }

section Texts

theorem toLower_digits {k n : ℕ} {c : Char} (h : c ∈ hexDigits k n) :
    c.toLower = c ∧ c.toUpper.toLower = c := by
  have hall : ∀ d < 16, (Nat.digitChar d).toLower = Nat.digitChar d ∧
      (Nat.digitChar d).toUpper.toLower = Nat.digitChar d := by decide
  obtain ⟨d, hd, rfl⟩ := mem_hexDigits h
  exact hall d hd

theorem addressText_eq (a : Address) : addressText a = '0' :: 'x' :: hexDigits 40 a := by
  have ha : (a : ℕ) < 256 ^ 20 := lt_of_lt_of_eq a.isLt (by norm_num)
  rw [addressText, ofBytes_eq, length_ofNat, value_ofNat, Nat.mod_eq_of_lt ha]

theorem addressText_injective {a b : Address} (h : addressText a = addressText b) : a = b := by
  have ha (a : Address) : (a : ℕ) < 256 ^ 20 := lt_of_lt_of_eq a.isLt (by norm_num)
  exact Fin.ext (ofNat_injective (ha a) (ha b) (ofBytes_injective h))

theorem toLowerCase_cons (digits : Text) :
    toLowerCase ('0' :: 'x' :: digits) = '0' :: 'x' :: toLowerCase digits := rfl

theorem toLowerCase_hexDigits (k n : ℕ) : toLowerCase (hexDigits k n) = hexDigits k n := by
  have hmap := List.map_congr_left (f := Char.toLower) (g := id)
    (fun c (hc : c ∈ hexDigits k n) => (toLower_digits hc).1)
  rw [toLowerCase, hmap, List.map_id]

theorem toLowerCase_mapIdx (k n : ℕ) (upper : ℕ → Prop) [DecidablePred upper] :
    toLowerCase ((hexDigits k n).mapIdx (fun i c => if upper i then c.toUpper else c)) =
      hexDigits k n := by
  apply List.ext_getElem
  · simp [toLowerCase]
  · intro i h h'
    have hc := toLower_digits (List.getElem_mem h')
    simp only [toLowerCase, List.getElem_map, List.getElem_mapIdx]
    split
    · exact hc.2
    · exact hc.1

theorem toLowerCase_checksumHex (a : Address) :
    toLowerCase (checksumHex keccak a).toList = addressText a := by
  rw [addressText_eq, checksumHex, String.toList_append, String.toList_ofList, String.toList_ofList]
  simp only [List.cons_append, List.nil_append]
  rw [toLowerCase_cons, toLowerCase_mapIdx]

theorem toLowerCase_addressText (a : Address) : toLowerCase (addressText a) = addressText a := by
  rw [addressText_eq, toLowerCase_cons, toLowerCase_hexDigits]

theorem toLowerCase_denotes {t : Text} {w : ℕ} (h : (AbiParam.address t).Denotes keccak w) :
    ∃ a : Address, (a : ℕ) = w ∧ toLowerCase t = addressText a := by
  generalize hp : AbiParam.address t = p at h
  cases h with
  | uint256 => nomatch hp
  | bytes32 => nomatch hp
  | address a =>
    rw [AbiParam.address.inj hp]
    exact ⟨a, rfl, toLowerCase_addressText a⟩
  | checksummed a =>
    rw [AbiParam.address.inj hp]
    exact ⟨a, rfl, toLowerCase_checksumHex a⟩

theorem toLowerCase_eq_iff {t t' : Text} {a b : Address} (h : (AbiParam.address t).Denotes keccak a)
    (h' : (AbiParam.address t').Denotes keccak b) : toLowerCase t = toLowerCase t' ↔ a = b := by
  obtain ⟨a', ha, hlow⟩ := toLowerCase_denotes h
  obtain ⟨b', hb, hlow'⟩ := toLowerCase_denotes h'
  obtain rfl := Fin.ext ha
  obtain rfl := Fin.ext hb
  rw [hlow, hlow']
  exact ⟨addressText_injective, congrArg addressText⟩

theorem drop_ofBytes (b : Bytes) : (ofBytes b).drop 2 = b.flatMap (fun x => hexDigits 2 x.toNat) := rfl

theorem length_digits (b : Bytes) : (b.flatMap (fun x => hexDigits 2 x.toNat)).length = 2 * b.length := by
  rw [flatMap_hexDigits, length_hexDigits]

theorem signatureV_concat {r : Bytes} (hr : r.length = 64) (x : UInt8) :
    TeeResultVerifier.signatureV (r ++ [x]) = if x < 27 then x + 27 else x := by
  have hget : (r ++ [x]).getD 64 0 = x := by simp [List.getD_eq_getElem?_getD, hr]
  simp only [TeeResultVerifier.signatureV, hget]

theorem normalizeSignature_concat {r : Bytes} (hr : r.length = 64) (x : UInt8) :
    normalizeSignature (ofBytes (r ++ [x])) =
      if x.toNat = 27 ∨ x.toNat = 28 then .ok (ofBytes (r ++ [x]))
      else if x.toNat = 0 ∨ x.toNat = 1 then .ok (ofBytes (r ++ [x + 27]))
      else .error ("invalid signature recovery id: " ++ x.toNat.repr) := by
  have hdigits := length_digits r
  rw [hr] at hdigits
  have hraw : (ofBytes (r ++ [x])).drop 2 = r.flatMap (fun x => hexDigits 2 x.toNat) ++ hexDigits 2 x.toNat := by
    rw [drop_ofBytes, List.flatMap_append, List.flatMap_singleton]
  have hlen : ((ofBytes (r ++ [x])).drop 2).length = 130 := by
    rw [hraw, List.length_append, hdigits, length_hexDigits]
  have hlast : (((ofBytes (r ++ [x])).drop 2).drop 128).take 2 = hexDigits 2 x.toNat := by
    rw [hraw, List.drop_left' hdigits, List.take_of_length_le (by rw [length_hexDigits])]
  have hfirst : ((ofBytes (r ++ [x])).drop 2).take 128 = r.flatMap (fun x => hexDigits 2 x.toNat) := by
    rw [hraw, List.take_left' hdigits]
  simp only [normalizeSignature, hlen, ne_eq, not_true_eq_false, if_false, hlast, JsText.parseInt16_hexDigits,
    hfirst]
  norm_cast
  split_ifs with h27 h01
  · rfl
  · have hadd : (x + 27).toNat = x.toNat + 27 := by
      rw [UInt8.toNat_add]
      rcases h01 with h | h <;> rw [h] <;> rfl
    rw [← hadd, ofBytes, List.flatMap_append, List.flatMap_singleton]
    rfl
  · rfl

theorem normalizeSignature_ofBytes (sig : Bytes) :
    (sig.length = 65 ∧ (TeeResultVerifier.signatureV sig = 27 ∨ TeeResultVerifier.signatureV sig = 28) ∧
        normalizeSignature (ofBytes sig) =
          .ok (ofBytes (sig.take 64 ++ [TeeResultVerifier.signatureV sig]))) ∨
      ¬ (sig.length = 65 ∧
          (TeeResultVerifier.signatureV sig = 27 ∨ TeeResultVerifier.signatureV sig = 28)) ∧
        ∃ e, normalizeSignature (ofBytes sig) = .error e := by
  by_cases hlen : sig.length = 65
  · obtain rfl | ⟨r, x, rfl⟩ := List.eq_nil_or_concat' sig
    · cases hlen
    have hr : r.length = 64 := by simpa using hlen
    have hlt : x < 27 ↔ x.toNat < 27 := UInt8.lt_iff_toNat_lt
    have h27 (y : UInt8) : y = 27 ↔ y.toNat = 27 := UInt8.toNat_inj.symm
    have h28 (y : UInt8) : y = 28 ↔ y.toNat = 28 := UInt8.toNat_inj.symm
    have hadd : (x + 27).toNat = (x.toNat + 27) % 256 := UInt8.toNat_add x 27
    rw [normalizeSignature_concat hr, signatureV_concat hr, List.take_left' hr]
    by_cases hplain : x.toNat = 27 ∨ x.toNat = 28
    · have hnot : ¬ x < 27 := by
        rw [hlt]
        omega
      rw [if_neg hnot, if_pos hplain, h27, h28]
      exact .inl ⟨hlen, hplain, rfl⟩
    by_cases hbit : x.toNat = 0 ∨ x.toNat = 1
    · have hsmall : x < 27 := by
        rw [hlt]
        omega
      rw [if_pos hsmall, if_neg hplain, if_pos hbit, h27, h28]
      exact .inl ⟨hlen, by omega, rfl⟩
    · refine .inr ⟨?_, ?_⟩
      · rintro ⟨-, hv⟩
        split_ifs at hv with hsmall
        · rw [hlt] at hsmall
          rw [h27, h28, hadd] at hv
          omega
        · rw [h27, h28] at hv
          exact hplain hv
      · rw [if_neg hplain, if_neg hbit]
        exact ⟨_, rfl⟩
  · refine .inr ⟨fun h => hlen h.1, ?_⟩
    have hraw : ((ofBytes sig).drop 2).length ≠ 130 := by
      rw [drop_ofBytes, length_digits]
      omega
    simp only [normalizeSignature, hraw, ne_eq, not_false_eq_true, if_true]
    exact ⟨_, rfl⟩

end Texts

section Agreement

variable {D : Deployment} (V : ViemRecovery D.keccak D.ecrecover)

theorem computeResultHash_eq (data : Bytes) (actionId : Bytes32) (tag : String) (status : UInt8)
    (signature : Text) (log : Option String) :
    computeResultHash V ⟨ofBytes data, wordText actionId, tag, status.toNat, signature, log⟩ =
      .ok (wordText (TeeResultVerifier.resultHash D data actionId (utf8Bytes tag) status)) := by
  have hpacked := V.encodePacked_of_denotes (.cons (.bytes32 (D.keccak data))
    (.cons (.bytes32 actionId) (.cons (.bytes32 (D.keccak (utf8Bytes tag))) (.cons (.uint8 status) .nil))))
  simp only [computeResultHash, V.stringToHex_eq, V.keccak256_ofBytes, bind, Except.bind, hpacked,
    TeeResultVerifier.resultHash, TeeResultVerifier.resultPreimage, List.flatten_cons, List.flatten_nil,
    List.append_nil, List.append_assoc]

theorem teeActionResultPrefix_eq :
    V.stringToHexSized "TEE_ACTION_RESULT" 32 = .ok (wordText TeeResultVerifier.teeActionResultPrefix) := by
  have hlen : (utf8Bytes "TEE_ACTION_RESULT").length ≤ 32 := by decide
  rw [V.stringToHexSized_eq hlen]
  have hbytes : ofNat 32 (TeeResultVerifier.teeActionResultPrefix : ℕ) =
      utf8Bytes "TEE_ACTION_RESULT" ++
        List.replicate (32 - (utf8Bytes "TEE_ACTION_RESULT").length) 0 := by
    decide
  rw [wordText, ofWord, hbytes]

theorem computePayloadHash_eq (resultHash : Bytes32) :
    computePayloadHash V (wordText resultHash) (D.chainId : ℕ) =
      .ok (wordText (TeeResultVerifier.payloadHash D resultHash)) := by
  have hencoded := V.encodeAbiParameters_of_denotes (.cons (.bytes32 TeeResultVerifier.teeActionResultPrefix)
    (.cons (.uint256 D.chainId) (.cons (.bytes32 resultHash) .nil)))
  simp only [computePayloadHash, teeActionResultPrefix_eq, bind, Except.bind, hencoded,
    V.keccak256_ofBytes, TeeResultVerifier.payloadHash, TeeResultVerifier.payloadPreimage]

theorem computeEip191Digest_eq (payloadHash : Bytes32) :
    computeEip191Digest V (wordText payloadHash) =
      .ok (wordText (TeeResultVerifier.ethSigned D payloadHash)) := by
  have hconcat := V.concatHex_ofBytes [utf8Bytes "\x19Ethereum Signed Message:\n32", ofNat 32 payloadHash]
  have hascii : utf8Bytes "\x19Ethereum Signed Message:\n32" =
      asciiBytes "\x19Ethereum Signed Message:\n32" := by decide
  simp only [List.map_cons, List.map_nil, List.flatten_cons, List.flatten_nil, List.append_nil] at hconcat
  rw [computeEip191Digest, V.stringToHex_eq, wordText, ofWord, hconcat, V.keccak256_ofBytes, hascii]
  rfl

theorem take_signature {sig : Bytes} (hlen : sig.length = 65) :
    sig.take 64 = ofNat 32 (TeeResultVerifier.signatureR sig : ℕ) ++ ofNat 32 (TeeResultVerifier.signatureS sig : ℕ) := by
  have hword {b : Bytes} (hb : b.length = 32) : ofNat 32 (ByteWords.value b % 2 ^ 256) = b := by
    have hlt := value_lt b
    rw [hb] at hlt
    rw [Nat.mod_eq_of_lt (hlt.trans_eq (by norm_num))]
    conv_lhs => rw [← hb, ofNat_value]
  have hr : (sig.take 32).length = 32 := by
    rw [List.length_take]
    omega
  have hs : ((sig.drop 32).take 32).length = 32 := by
    rw [List.length_take, List.length_drop]
    omega
  have hsplit : sig.take 64 = sig.take 32 ++ (sig.drop 32).take 32 := List.take_add (i := 32) (j := 32)
  rw [hsplit]
  exact congrArg₂ (· ++ ·) (hword hr).symm (hword hs).symm

theorem recovery_signedBy (hash : Bytes32) (sig : Bytes) {expected : Address} {text : Text}
    (hne : expected ≠ 0) (ht : (AbiParam.address text).Denotes D.keccak expected) :
    (recoverSigned V (wordText hash) (ofBytes sig)).toOption.any
        (fun signer => toLowerCase signer = toLowerCase text) = true ↔
      TeeResultVerifier.SignedBy D hash sig expected := by
  rcases normalizeSignature_ofBytes sig with ⟨hlen, hv, hnorm⟩ | ⟨hbad, e, hnorm⟩
  · have hrecover := V.recoverAddress_ofBytes hash (TeeResultVerifier.signatureR sig)
      (TeeResultVerifier.signatureS sig) hv
    rw [← take_signature hlen] at hrecover
    simp only [recoverSigned, hnorm, bind, Except.bind, TeeResultVerifier.SignedBy, hlen, hv, true_and]
    rcases hrecover with ⟨signer, hok, hdenotes⟩ | ⟨hzero, e, herror⟩
    · rw [hok]
      simp only [Except.toOption, Option.any_some, decide_eq_true_eq]
      exact toLowerCase_eq_iff hdenotes ht
    · rw [herror, hzero]
      simp only [Except.toOption, Option.any_none, Bool.false_eq_true, false_iff]
      exact Ne.symm hne
  · simp only [recoverSigned, hnorm, bind, Except.bind, Except.toOption, Option.any_none,
      Bool.false_eq_true, false_iff]
    exact fun h => hbad ⟨h.1, h.2.1⟩

/-- The browser's verdict on a result, in the terms of the contract. -/
theorem verifyActionResult_eq (data : Bytes) (actionId : Bytes32) (tag : String) (status : UInt8)
    (sig : Bytes) (log : Option String) {expected : Address} {text : Text} (hne : expected ≠ 0)
    (ht : (AbiParam.address text).Denotes D.keccak expected) :
    ∃ steps, verifyActionResult V
        ⟨ofBytes data, wordText actionId, tag, status.toNat, ofBytes sig, log⟩ text D.chainId =
        .ok steps ∧
      (steps.statusOk = true ↔ status = TeeResultVerifier.statusSuccess) ∧
      (steps.signerOk = true ↔ TeeResultVerifier.SignedBy D
        (TeeResultVerifier.digest D data actionId (utf8Bytes tag) status) sig expected) ∧
      steps.valid = (steps.statusOk && steps.signerOk) := by
  have hresult := computeResultHash_eq V data actionId tag status (ofBytes sig) log
  have hdata : computeDataHash V (ofBytes data) = .ok (wordText (D.keccak data)) :=
    V.keccak256_ofBytes data
  simp only [verifyActionResult, hdata, hresult, computePayloadHash_eq, computeEip191Digest_eq, bind,
    Except.bind, pure, Except.pure]
  refine ⟨_, rfl, ?_, recovery_signedBy V _ sig hne ht, rfl⟩
  rw [beq_iff_eq, statusSuccess, TeeResultVerifier.statusSuccess, ← UInt8.toNat_inj]
  rfl

theorem requireValid_iff {data : Bytes} {actionId : Bytes32} {tag : Bytes} {status : UInt8} {sig : Bytes}
    {expected : Address} :
    TeeResultVerifier.requireValid D data actionId tag status sig expected = .ok () ↔
      TeeResultVerifier.isValid D data actionId tag status sig expected = true := by
  rw [TeeResultVerifier.requireValid_ok, TeeResultVerifier.isValid_iff, TeeResultVerifier.recoverSigner,
    TeeResultVerifier.recover_ok]
  tauto

/-- Contract, view helper and browser accept the same signatures. -/
theorem verifiers_agree (V : ViemRecovery D.keccak D.ecrecover) (data : Bytes) (actionId : Bytes32)
    (tag : String) (status : UInt8) (sig : Bytes) (log : Option String) (expected : Address)
    (text : Text) (hne : expected ≠ 0) (ht : (AbiParam.address text).Denotes D.keccak expected) :
    ∃ steps, verifyActionResult V
        ⟨ofBytes data, wordText actionId, tag, status.toNat, ofBytes sig, log⟩ text D.chainId =
        .ok steps ∧
      (TeeResultVerifier.requireValid D data actionId (utf8Bytes tag) status sig expected = .ok () ↔
        TeeResultVerifier.isValid D data actionId (utf8Bytes tag) status sig expected = true) ∧
      (TeeResultVerifier.isValid D data actionId (utf8Bytes tag) status sig expected = true ↔
        steps.valid = true) ∧
      (steps.valid = true → status = 1 ∧ TeeResultVerifier.SignedBy D
        (TeeResultVerifier.digest D data actionId (utf8Bytes tag) status) sig expected) := by
  obtain ⟨steps, hsteps, hstatus, hsigner, hvalid⟩ :=
    verifyActionResult_eq V data actionId tag status sig log hne ht
  refine ⟨steps, hsteps, requireValid_iff, ?_, ?_⟩
  · rw [TeeResultVerifier.isValid_iff, hvalid, Bool.and_eq_true, hstatus, hsigner]
    tauto
  · rw [hvalid, Bool.and_eq_true, hstatus, hsigner]
    exact id

def sampleDeployment : Deployment where
  self := 1000
  chainId := 114
  keccak b := Fin.ofNat _ (ByteWords.value b)
  ecrecover _ _ _ _ := 7

theorem verifiers_agree_sample :
    ∃ steps, verifyActionResult (ViemRecovery.standard sampleDeployment.keccak sampleDeployment.ecrecover)
        ⟨ofBytes [42], wordText 99, "submit", (1 : UInt8).toNat, ofBytes (List.replicate 65 1), none⟩
        (addressText 7) sampleDeployment.chainId = .ok steps ∧
      (TeeResultVerifier.requireValid sampleDeployment [42] 99 (utf8Bytes "submit") 1
          (List.replicate 65 1) 7 = .ok () ↔
        TeeResultVerifier.isValid sampleDeployment [42] 99 (utf8Bytes "submit") 1
          (List.replicate 65 1) 7 = true) ∧
      (TeeResultVerifier.isValid sampleDeployment [42] 99 (utf8Bytes "submit") 1
          (List.replicate 65 1) 7 = true ↔ steps.valid = true) ∧
      (steps.valid = true → (1 : UInt8) = 1 ∧ TeeResultVerifier.SignedBy sampleDeployment
        (TeeResultVerifier.digest sampleDeployment [42] 99 (utf8Bytes "submit") 1)
        (List.replicate 65 1) 7) :=
  verifiers_agree (ViemRecovery.standard sampleDeployment.keccak sampleDeployment.ecrecover) [42] 99
    "submit" 1 (List.replicate 65 1) none 7 (addressText 7) (by decide) (.address 7)

end Agreement

end BrowserVerification

end Fidensur
