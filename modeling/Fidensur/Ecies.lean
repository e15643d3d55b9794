import Fidensur.ByteView

set_option autoImplicit false

namespace Fidensur.Ecies

open ByteWords ByteView

/-- The curve and hash libraries and the platform's AES, as the code calls them. -/
structure Crypto where
  getPublicKey (privateKey : Bytes) (isCompressed : Bool) : Except String Bytes
  getSharedSecret (privateKey publicKey : Bytes) (isCompressed : Bool) : Except String Bytes
  /-- `ProjectivePoint.fromHex(publicKey).toRawBytes(isCompressed)`. -/
  toRawBytes (publicKey : Bytes) (isCompressed : Bool) : Except String Bytes
  sha256 : Bytes → Bytes
  hmac : Bytes → Bytes → Bytes
  /-- The first bytes of the counter-mode stream of a key and an initial block. -/
  keystream : Bytes → Bytes → ℕ → Bytes

def keyLen : ℕ := 16
def ivLen : ℕ := 16
def tagLen : ℕ := 32
def pubkeyLen : ℕ := 65

variable (C : Crypto)

def hashInput (z s1 : View) (counter : ℕ) : Except String Bytes := do
  let input := zeros (4 + z.length + s1.length)
  let input ← set input (.ofBytes (ofNat 4 counter)) 0
  let input ← set input z 4
  set input s1 (4 + z.length)

/-- The loop of `concatKDF`, which never needs more turns than bytes are missing. -/
def concatLoop (z s1 : View) (outputLen : ℕ) : ℕ → Bytes → ℕ → ℕ → Except String Bytes
  | 0, _, _, _ => .error "concatKDF did not finish"
  | turns + 1, out, written, counter =>
    if written < outputLen then do
      let input ← hashInput z s1 counter
      let digest := View.ofBytes (C.sha256 input)
      let take := min digest.length (outputLen - written)
      let out ← set out (digest.subarray 0 take) written
      concatLoop z s1 outputLen turns out (written + take) (counter + 1)
    else .ok out

def concatKDF (z s1 : View) (outputLen : ℕ) : Except String View := do
  let out ← concatLoop C z s1 outputLen (outputLen + 1) (zeros outputLen) 0 1
  return .ofBytes out

def deriveSharedSecret (privateKey publicKey : View) : Except String View := do
  let shared ← C.getSharedSecret privateKey.bytes publicKey.bytes false
  let x := (View.ofBytes shared).subarray 1 33
  let z ← set (zeros 32) x (32 - x.length)
  return .ofBytes z

def toBuffer (view : View) : Bytes := view.bytes

def xorBytes (a b : Bytes) : Bytes := List.zipWith (· ^^^ ·) a b

def aesCtr (key iv data : View) : Except String View :=
  if (toBuffer key).length ≠ 16 then .error "Invalid key length"
  else if (toBuffer iv).length ≠ 16 then .error "Invalid counter length"
  else .ok (.ofBytes (xorBytes (toBuffer data)
    (C.keystream (toBuffer key) (toBuffer iv) (toBuffer data).length)))

def normalizePublicKey (publicKey : View) : Except String View :=
  if publicKey.length = pubkeyLen ∧ publicKey.bytes.head? = some 0x04 then .ok publicKey
  else if publicKey.length = 33 ∧
      (publicKey.bytes.head? = some 0x02 ∨ publicKey.bytes.head? = some 0x03) then do
    let raw ← C.toRawBytes publicKey.bytes false
    return .ofBytes raw
  else .error ("public key must be 65 bytes uncompressed or 33 bytes compressed, got " ++
    publicKey.length.repr)

def deriveKeys (privateKey publicKey : View) : Except String (View × Bytes) := do
  let z ← deriveSharedSecret C privateKey publicKey
  let derived ← concatKDF C z (.ofBytes []) (keyLen * 2)
  let encryptionKey := derived.subarray 0 keyLen
  let macKey := C.sha256 (derived.subarray keyLen (keyLen * 2)).bytes
  return (encryptionKey, macKey)

def joinBody (iv encrypted : View) : Except String Bytes := do
  let em := zeros (ivLen + encrypted.length)
  let em ← set em iv 0
  set em encrypted ivLen

def joinCiphertext (ephemeralPublic em tag : View) : Except String Bytes := do
  let out := zeros (pubkeyLen + em.length + tagLen)
  let out ← set out ephemeralPublic 0
  let out ← set out em pubkeyLen
  set out tag (pubkeyLen + em.length)

/-- The ephemeral private key and the iv are what the random generators returned. -/
def eciesEncrypt (ephemeralPrivate iv : Bytes) (plaintext recipientPubKey : View) : Except String View := do
  let pub ← normalizePublicKey C recipientPubKey
  let ephemeralPublic ← C.getPublicKey ephemeralPrivate false
  let (encryptionKey, macKey) ← deriveKeys C (.ofBytes ephemeralPrivate) pub
  let encrypted ← aesCtr C encryptionKey (.ofBytes iv) plaintext
  let em ← joinBody (.ofBytes iv) encrypted
  let tag := C.hmac macKey em
  let out ← joinCiphertext (.ofBytes ephemeralPublic) (.ofBytes em) (.ofBytes tag)
  return .ofBytes out

/-- No byte differs, read to the end. -/
def constantTimeEqual (a b : Bytes) : Bool :=
  if a.length ≠ b.length then false
  else (List.zip a b).foldl (fun diff x => diff ||| (x.1 ^^^ x.2)) 0 == 0

def macMismatch : String := "ECIES MAC mismatch — wrong key, or the ciphertext was modified"

def eciesDecrypt (ciphertext privateKey : View) : Except String View :=
  if ciphertext.length < pubkeyLen + ivLen + tagLen then
    .error ("ciphertext too short: " ++ ciphertext.length.repr ++ " bytes")
  else if ciphertext.bytes.head? ≠ some 0x04 then
    .error "ciphertext does not start with an uncompressed ephemeral public key"
  else do
    let ephemeralPublic := ciphertext.subarray 0 pubkeyLen
    let em := ciphertext.subarray pubkeyLen (ciphertext.length - tagLen)
    let tag := ciphertext.subarray (ciphertext.length - tagLen) ciphertext.length
    let (encryptionKey, macKey) ← deriveKeys C privateKey ephemeralPublic
    let expected := C.hmac macKey em.bytes
    if constantTimeEqual expected tag.bytes = false then .error macMismatch
    else
      let iv := em.subarray 0 ivLen
      let encrypted := em.subarray ivLen em.length
      aesCtr C encryptionKey iv encrypted

section Bytes

theorem constantTimeEqual_iff (a b : Bytes) : constantTimeEqual a b = true ↔ a = b := by
  have hfold (pairs : List (UInt8 × UInt8)) (diff : UInt8) :
      pairs.foldl (fun diff x => diff ||| (x.1 ^^^ x.2)) diff = 0 ↔
        diff = 0 ∧ ∀ x ∈ pairs, x.1 = x.2 := by
    induction pairs generalizing diff with
    | nil => simp
    | cons x pairs ih =>
      rw [List.foldl_cons, ih, UInt8.or_eq_zero_iff, UInt8.xor_eq_zero_iff]
      simp [and_assoc]
  have hzip (hl : a.length = b.length) : (∀ x ∈ List.zip a b, x.1 = x.2) ↔ a = b := by
    induction a generalizing b with
    | nil => simpa using (List.length_eq_zero_iff.mp hl.symm).symm
    | cons x a ih =>
      cases b with
      | nil => cases hl
      | cons y b =>
        rw [List.zip_cons_cons, List.forall_mem_cons, ih b (Nat.succ.inj hl), List.cons.injEq]
  unfold constantTimeEqual
  split_ifs with hl
  · exact iff_of_false id fun h => hl (congrArg List.length h)
  · rw [beq_iff_eq, hfold, hzip (not_not.mp hl)]
    simp

theorem length_xorBytes (a b : Bytes) : (xorBytes a b).length = min a.length b.length :=
  List.length_zipWith ..

theorem xorBytes_cancel {a b : Bytes} (h : a.length = b.length) : xorBytes (xorBytes a b) b = a := by
  induction a generalizing b with
  | nil => rfl
  | cons x a ih =>
    cases b with
    | nil => cases h
    | cons y b =>
      have hrest := ih (Nat.succ.inj h)
      simp only [xorBytes, List.zipWith_cons_cons] at hrest ⊢
      rw [hrest, UInt8.xor_assoc, UInt8.xor_self, UInt8.xor_zero]

end Bytes

/-- What the code relies on: key pairs share the X coordinate, a compressed key stands for its point,
and hashes and streams have their lengths. -/
structure Crypto.Standard (isPrivateKey : Bytes → Prop) : Prop where
  uncompressed : ∀ k, isPrivateKey k → ∃ point, C.getPublicKey k false = .ok (0x04 :: point) ∧
    point.length = 64
  compressed : ∀ k, isPrivateKey k → ∃ sign x, C.getPublicKey k true = .ok (sign :: x) ∧
    (sign = 0x02 ∨ sign = 0x03) ∧ x.length = 32 ∧ C.toRawBytes (sign :: x) false = C.getPublicKey k false
  shared : ∀ k l kPublic lPublic, isPrivateKey k → isPrivateKey l →
    C.getPublicKey k false = .ok kPublic → C.getPublicKey l false = .ok lPublic →
    ∃ p q, C.getSharedSecret k lPublic false = .ok p ∧ C.getSharedSecret l kPublic false = .ok q ∧
      p.length = 65 ∧ q.length = 65 ∧ (p.take 33).drop 1 = (q.take 33).drop 1
  sha256 : ∀ b, (C.sha256 b).length = 32
  hmac : ∀ k b, (C.hmac k b).length = 32
  keystream : ∀ k iv n, (C.keystream k iv n).length = n

section Derivation

variable {C}

def block (C : Crypto) (z s1 : Bytes) (counter : ℕ) : Bytes := C.sha256 (ofNat 4 counter ++ z ++ s1)

theorem ok_bind {α β : Type} (a : α) (f : α → Except String β) : (Except.ok a >>= f) = f a := rfl

theorem hashInput_ok (z s1 : View) (counter : ℕ) :
    hashInput z s1 counter = .ok (ofNat 4 counter ++ z.bytes ++ s1.bytes) := by
  have hcounter : (View.ofBytes (ofNat 4 counter)).length = 4 := length_ofNat 4 counter
  have hfirst : 4 + z.length + s1.length =
      (View.ofBytes (ofNat 4 counter)).length + (z.length + s1.length) := by omega
  unfold hashInput
  dsimp only
  rw [set_first hfirst, ok_bind, View.bytes_ofBytes, set_next (by simp) rfl, ok_bind,
    set_last (by simp) rfl]

theorem concatLoop_ok (hC : ∀ b, (C.sha256 b).length = 32) (z s1 : View) (outputLen : ℕ) :
    ∀ (turns counter : ℕ) (done : Bytes), outputLen - done.length < turns → done.length ≤ outputLen →
      concatLoop C z s1 outputLen turns (done ++ zeros (outputLen - done.length)) done.length counter =
        .ok (done ++ ((List.range' counter turns).flatMap (block C z.bytes s1.bytes)).take
          (outputLen - done.length)) := by
  intro turns
  induction turns with
  | zero => intro counter done h _; omega
  | succ turns ih =>
    intro counter done hturns hdone
    rw [concatLoop]
    split_ifs with hlt
    · rw [hashInput_ok, ok_bind]
      have hlength := hC (ofNat 4 counter ++ z.bytes ++ s1.bytes)
      generalize hb : C.sha256 (ofNat 4 counter ++ z.bytes ++ s1.bytes) = b at hlength ⊢
      have hblock : block C z.bytes s1.bytes counter = b := hb
      simp only [View.length_ofBytes]
      obtain ⟨take, htake⟩ : ∃ take, take = min b.length (outputLen - done.length) := ⟨_, rfl⟩
      have hbytes : ((View.ofBytes b).subarray 0 take).bytes = b.take (outputLen - done.length) := by
        rw [View.bytes_subarray, View.bytes_ofBytes, List.drop_zero, List.take_eq_take_iff]
        omega
      have htaken : ((View.ofBytes b).subarray 0 take).length = take := by
        simp only [View.length_subarray, View.length_ofBytes]
        omega
      have hnext := ih (counter + 1) (done ++ b.take (outputLen - done.length))
        (by simp only [List.length_append, List.length_take]; omega)
        (by simp only [List.length_append, List.length_take]; omega)
      have hrest : outputLen - (done ++ b.take (outputLen - done.length)).length =
          outputLen - done.length - take := by
        simp only [List.length_append, List.length_take]
        omega
      have hwritten : (done ++ b.take (outputLen - done.length)).length = done.length + take := by
        simp only [List.length_append, List.length_take]
        omega
      rw [← htake, set_next rfl (m := outputLen - done.length - take) (by omega), ok_bind, hbytes]
      rw [hrest, hwritten] at hnext
      rw [hnext, List.range'_succ, List.flatMap_cons, hblock, List.append_assoc, List.take_append]
      congr 4
      omega
    · have hzero : outputLen - done.length = 0 := by omega
      rw [hzero, List.take_zero]
      rfl

def kdfBytes (C : Crypto) (z : Bytes) (outputLen : ℕ) : Bytes :=
  ((List.range' 1 (outputLen + 1)).flatMap (block C z [])).take outputLen

theorem concatKDF_ok (hC : ∀ b, (C.sha256 b).length = 32) (z : View) (outputLen : ℕ) :
    concatKDF C z (.ofBytes []) outputLen = .ok (.ofBytes (kdfBytes C z.bytes outputLen)) := by
  have hloop := concatLoop_ok hC z (.ofBytes []) outputLen (outputLen + 1) 1 [] (by simp) (by simp)
  rw [concatKDF]
  simp only [List.nil_append, List.length_nil, Nat.sub_zero, View.bytes_ofBytes] at hloop
  rw [hloop]
  rfl

theorem length_kdfBytes (hC : ∀ b, (C.sha256 b).length = 32) (z : Bytes) (outputLen : ℕ) :
    (kdfBytes C z outputLen).length = outputLen := by
  have hsum : ((List.range' 1 (outputLen + 1)).map (fun counter => (block C z [] counter).length)).sum =
      (outputLen + 1) * 32 := by
    have hconst (counter : ℕ) : (block C z [] counter).length = 32 := hC _
    simp [hconst]
  rw [kdfBytes, List.length_take, List.length_flatMap, hsum]
  omega

def keysOf (C : Crypto) (shared : Bytes) : View × Bytes :=
  let derived := View.ofBytes (kdfBytes C ((shared.take 33).drop 1) (keyLen * 2))
  (derived.subarray 0 keyLen, C.sha256 (derived.subarray keyLen (keyLen * 2)).bytes)

theorem length_keysOf (hC : ∀ b, (C.sha256 b).length = 32) (shared : Bytes) :
    (keysOf C shared).1.length = 16 := by
  simp only [keysOf, View.length_subarray, View.length_ofBytes, length_kdfBytes hC]
  rfl

theorem deriveKeys_ok (hC : ∀ b, (C.sha256 b).length = 32) {privateKey publicKey : View} {shared : Bytes}
    (h : C.getSharedSecret privateKey.bytes publicKey.bytes false = .ok shared) (hl : shared.length = 65) :
    deriveKeys C privateKey publicKey = .ok (keysOf C shared) := by
  have hx : ((View.ofBytes shared).subarray 1 33).length = 32 := by
    simp only [View.length_subarray, View.length_ofBytes, hl]
    omega
  have hsecret : deriveSharedSecret C privateKey publicKey = .ok (.ofBytes ((shared.take 33).drop 1)) := by
    rw [deriveSharedSecret, h, ok_bind]
    dsimp only
    rw [hx, set_whole hx.symm, ok_bind, View.bytes_subarray, View.bytes_ofBytes]
    rfl
  rw [deriveKeys, hsecret, ok_bind, concatKDF_ok hC, ok_bind, View.bytes_ofBytes]
  rfl

end Derivation

section Framing

variable {C}

def bodyOf (b : Bytes) : Bytes := (b.take (b.length - tagLen)).drop pubkeyLen

def tagOf (b : Bytes) : Bytes := b.drop (b.length - tagLen)

def emOf (C : Crypto) (keys : View × Bytes) (iv plaintext : Bytes) : Bytes :=
  iv ++ xorBytes plaintext (C.keystream keys.1.bytes iv plaintext.length)

theorem aesCtr_ok {key iv data : View} (hk : key.length = 16) (hi : iv.length = 16) :
    aesCtr C key iv data =
      .ok (.ofBytes (xorBytes data.bytes (C.keystream key.bytes iv.bytes data.length))) := by
  have hk' : ¬ (toBuffer key).length ≠ 16 := by simpa [toBuffer] using hk
  have hi' : ¬ (toBuffer iv).length ≠ 16 := by simpa [toBuffer] using hi
  rw [aesCtr, if_neg hk', if_neg hi']
  simp only [toBuffer, View.length_bytes]

theorem joinBody_ok {iv encrypted : View} (hi : iv.length = ivLen) :
    joinBody iv encrypted = .ok (iv.bytes ++ encrypted.bytes) := by
  unfold joinBody
  dsimp only
  rw [set_first (by rw [hi]), ok_bind, set_last (by rw [View.length_bytes, hi]) rfl]

theorem joinCiphertext_ok {ephemeralPublic em tag : View} (he : ephemeralPublic.length = pubkeyLen)
    (ht : tag.length = tagLen) :
    joinCiphertext ephemeralPublic em tag = .ok (ephemeralPublic.bytes ++ em.bytes ++ tag.bytes) := by
  unfold joinCiphertext
  dsimp only
  rw [set_first (m := em.length + tagLen) (by rw [he, Nat.add_assoc]), ok_bind,
    set_next (by rw [View.length_bytes, he]) rfl, ok_bind,
    set_last (by rw [List.length_append, View.length_bytes, View.length_bytes, he]) ht.symm]

theorem eciesEncrypt_ok {isPrivateKey : Bytes → Prop} (hC : C.Standard isPrivateKey)
    {ephemeralPrivate iv ephemeralPublic shared : Bytes} {recipientPubKey pub : View} (plaintext : View)
    (hpub : normalizePublicKey C recipientPubKey = .ok pub)
    (he : C.getPublicKey ephemeralPrivate false = .ok ephemeralPublic) (hel : ephemeralPublic.length = 65)
    (hs : C.getSharedSecret ephemeralPrivate pub.bytes false = .ok shared) (hsl : shared.length = 65)
    (hiv : iv.length = 16) :
    eciesEncrypt C ephemeralPrivate iv plaintext recipientPubKey =
      .ok (.ofBytes (ephemeralPublic ++ emOf C (keysOf C shared) iv plaintext.bytes ++
        C.hmac (keysOf C shared).2 (emOf C (keysOf C shared) iv plaintext.bytes))) := by
  have hs' : C.getSharedSecret (View.ofBytes ephemeralPrivate).bytes pub.bytes false = .ok shared := by
    rw [View.bytes_ofBytes]
    exact hs
  have hbody : joinBody (.ofBytes iv) (.ofBytes (xorBytes plaintext.bytes
      (C.keystream (keysOf C shared).1.bytes iv plaintext.length))) =
      .ok (emOf C (keysOf C shared) iv plaintext.bytes) := by
    rw [joinBody_ok (by rw [View.length_ofBytes, hiv]; rfl), View.bytes_ofBytes, View.bytes_ofBytes, emOf,
      View.length_bytes]
  have htag := hC.hmac (keysOf C shared).2 (emOf C (keysOf C shared) iv plaintext.bytes)
  rw [eciesEncrypt, hpub, ok_bind, he, ok_bind, deriveKeys_ok hC.sha256 hs' hsl, ok_bind]
  dsimp only
  rw [aesCtr_ok (length_keysOf hC.sha256 shared) (by rw [View.length_ofBytes, hiv]), ok_bind,
    View.bytes_ofBytes, hbody, ok_bind, joinCiphertext_ok hel htag, ok_bind]
  simp only [View.bytes_ofBytes]
  rfl

theorem eciesDecrypt_ok {isPrivateKey : Bytes → Prop} (hC : C.Standard isPrivateKey)
    {ephemeralPublic shared : Bytes} (ciphertext privateKey : View)
    (hl : pubkeyLen + ivLen + tagLen ≤ ciphertext.length)
    (hr : ciphertext.bytes.take pubkeyLen = ephemeralPublic) (hh : ephemeralPublic.head? = some 0x04)
    (hs : C.getSharedSecret privateKey.bytes ephemeralPublic false = .ok shared) (hsl : shared.length = 65) :
    eciesDecrypt C ciphertext privateKey =
      if C.hmac (keysOf C shared).2 (bodyOf ciphertext.bytes) = tagOf ciphertext.bytes then
        .ok (.ofBytes (xorBytes ((bodyOf ciphertext.bytes).drop ivLen) (C.keystream (keysOf C shared).1.bytes
          ((bodyOf ciphertext.bytes).take ivLen) ((bodyOf ciphertext.bytes).drop ivLen).length)))
      else .error macMismatch := by
  have hhead : ¬ ciphertext.bytes.head? ≠ some 0x04 := by
    rw [not_not, ← hh, ← hr, List.head?_take]
    rfl
  have hem : (ciphertext.subarray pubkeyLen (ciphertext.length - tagLen)).bytes = bodyOf ciphertext.bytes := by
    rw [View.bytes_subarray, bodyOf, View.length_bytes]
  have htag : (ciphertext.subarray (ciphertext.length - tagLen) ciphertext.length).bytes =
      tagOf ciphertext.bytes := by
    rw [View.bytes_subarray, tagOf, View.length_bytes, List.take_of_length_le (View.length_bytes _).le]
  have hkeys : deriveKeys C privateKey (ciphertext.subarray 0 pubkeyLen) = .ok (keysOf C shared) := by
    apply deriveKeys_ok hC.sha256 _ hsl
    rw [View.bytes_subarray, List.drop_zero, hr]
    exact hs
  have hbody : ivLen ≤ (bodyOf ciphertext.bytes).length := by
    rw [bodyOf, List.length_drop, List.length_take, View.length_bytes]
    omega
  have hiv : ((ciphertext.subarray pubkeyLen (ciphertext.length - tagLen)).subarray 0 ivLen).bytes =
      (bodyOf ciphertext.bytes).take ivLen := by
    rw [View.bytes_subarray, hem, List.drop_zero]
  have hencrypted : ((ciphertext.subarray pubkeyLen (ciphertext.length - tagLen)).subarray ivLen
      (ciphertext.subarray pubkeyLen (ciphertext.length - tagLen)).length).bytes =
      (bodyOf ciphertext.bytes).drop ivLen := by
    rw [View.bytes_subarray, hem, ← View.length_bytes, hem, List.take_length]
  rw [eciesDecrypt, if_neg (Nat.not_lt.mpr hl), if_neg hhead]
  dsimp only
  rw [hkeys, ok_bind, hem, htag]
  by_cases heq : C.hmac (keysOf C shared).2 (bodyOf ciphertext.bytes) = tagOf ciphertext.bytes
  · have hequal := (constantTimeEqual_iff _ _).mpr heq
    have hivLength : ((ciphertext.subarray pubkeyLen (ciphertext.length - tagLen)).subarray 0 ivLen).length =
        16 := by
      rw [← View.length_bytes, hiv, List.length_take, min_eq_left hbody]
      rfl
    rw [if_pos heq, hequal, if_neg (by simp), aesCtr_ok (length_keysOf hC.sha256 shared) hivLength, hiv,
      hencrypted, ← View.length_bytes, hencrypted]
  · have hequal : constantTimeEqual (C.hmac (keysOf C shared).2 (bodyOf ciphertext.bytes))
        (tagOf ciphertext.bytes) = false := by
      rw [Bool.eq_false_iff]
      exact fun h => heq ((constantTimeEqual_iff _ _).mp h)
    rw [if_neg heq, hequal, if_pos rfl]

theorem bodyOf_append {r tag : Bytes} (em : Bytes) (hr : r.length = pubkeyLen) (ht : tag.length = tagLen) :
    bodyOf (r ++ em ++ tag) = em ∧ tagOf (r ++ em ++ tag) = tag := by
  have hlength : (r ++ em ++ tag).length - tagLen = (r ++ em).length := by
    rw [List.length_append, ht, Nat.add_sub_cancel]
  rw [bodyOf, tagOf, hlength, List.take_left, List.drop_left, ← hr, List.drop_left]
  exact ⟨rfl, rfl⟩

theorem normalizePublicKey_ok {isPrivateKey : Bytes → Prop} (hC : C.Standard isPrivateKey)
    {privateKey : Bytes} (hp : isPrivateKey privateKey) {isCompressed : Bool} {publicKey : View}
    (h : C.getPublicKey privateKey isCompressed = .ok publicKey.bytes) :
    ∃ pub, normalizePublicKey C publicKey = .ok pub ∧ C.getPublicKey privateKey false = .ok pub.bytes := by
  cases isCompressed with
  | false =>
    obtain ⟨point, hpoint, hlength⟩ := hC.uncompressed privateKey hp
    have hbytes : publicKey.bytes = 0x04 :: point := Except.ok.inj (h.symm.trans hpoint)
    refine ⟨publicKey, if_pos ⟨?_, by rw [hbytes]; rfl⟩, h⟩
    rw [← View.length_bytes, hbytes, List.length_cons, hlength]
    rfl
  | true =>
    obtain ⟨sign, x, hx, hsign, hlength, hraw⟩ := hC.compressed privateKey hp
    obtain ⟨point, hpoint, -⟩ := hC.uncompressed privateKey hp
    have hbytes : publicKey.bytes = sign :: x := Except.ok.inj (h.symm.trans hx)
    have h33 : publicKey.length = 33 := by rw [← View.length_bytes, hbytes, List.length_cons, hlength]
    have hhead : publicKey.bytes.head? = some 0x02 ∨ publicKey.bytes.head? = some 0x03 := by
      rw [hbytes]
      rcases hsign with rfl | rfl
      · exact .inl rfl
      · exact .inr rfl
    have h65 : ¬ (publicKey.length = pubkeyLen ∧ publicKey.bytes.head? = some 0x04) := by
      rw [h33]
      exact fun h => absurd h.1 (by decide)
    refine ⟨.ofBytes (0x04 :: point), ?_, by rw [View.bytes_ofBytes]; exact hpoint⟩
    rw [normalizePublicKey, if_neg h65, if_pos ⟨h33, hhead⟩, hbytes, hraw, hpoint]
    rfl

/-- ECIES with AES-128 and SHA-256: the ephemeral point, then the counter block and the text under its
stream, then the tag over these two. One block of the key derivation gives both keys. -/
def layout (C : Crypto) (shared ephemeralPublic iv plaintext : Bytes) : Bytes :=
  let derived := C.sha256 ([0, 0, 0, 1] ++ (shared.take 33).drop 1)
  let em := iv ++ List.zipWith (· ^^^ ·) plaintext (C.keystream (derived.take 16) iv plaintext.length)
  ephemeralPublic ++ em ++ C.hmac (C.sha256 (derived.drop 16)) em

def Sealed (C : Crypto) (isPrivateKey : Bytes → Prop) (publicKey plaintext ciphertext : Bytes) : Prop :=
  ∃ ephemeralPrivate ephemeralPublic iv shared, isPrivateKey ephemeralPrivate ∧ iv.length = ivLen ∧
    C.getPublicKey ephemeralPrivate false = .ok ephemeralPublic ∧
    C.getSharedSecret ephemeralPrivate publicKey false = .ok shared ∧
    ciphertext = layout C shared ephemeralPublic iv plaintext

theorem kdfBytes_one (hC : ∀ b, (C.sha256 b).length = 32) (z : Bytes) :
    kdfBytes C z (keyLen * 2) = C.sha256 ([0, 0, 0, 1] ++ z) := by
  have hblock : block C z [] 1 = C.sha256 ([0, 0, 0, 1] ++ z) := by
    rw [block, List.append_nil]
    rfl
  have hrange : List.range' 1 (keyLen * 2 + 1) = 1 :: List.range' 2 (keyLen * 2) := rfl
  have hlength : (block C z [] 1).length = keyLen * 2 := hC _
  rw [kdfBytes, hrange, List.flatMap_cons, List.take_left' hlength, hblock]

theorem layout_eq (hC : ∀ b, (C.sha256 b).length = 32) (shared ephemeralPublic iv plaintext : Bytes) :
    layout C shared ephemeralPublic iv plaintext =
      ephemeralPublic ++ emOf C (keysOf C shared) iv plaintext ++
        C.hmac (keysOf C shared).2 (emOf C (keysOf C shared) iv plaintext) := by
  have hlength : (C.sha256 ([0, 0, 0, 1] ++ (shared.take 33).drop 1)).length ≤ keyLen * 2 := (hC _).le
  simp only [layout, emOf, keysOf, kdfBytes_one hC, View.bytes_subarray, View.bytes_ofBytes, List.drop_zero,
    List.take_of_length_le hlength, xorBytes]
  rfl

/-- What the page seals is laid out so. -/
theorem eciesEncrypt_sealed {isPrivateKey : Bytes → Prop} (hC : C.Standard isPrivateKey)
    {privateKey publicKey ephemeralPrivate iv : Bytes} {recipientPubKey : View} {isCompressed : Bool}
    (he : isPrivateKey ephemeralPrivate) (hiv : iv.length = ivLen) (hp : isPrivateKey privateKey)
    (hrecipient : C.getPublicKey privateKey isCompressed = .ok recipientPubKey.bytes)
    (hpublic : C.getPublicKey privateKey false = .ok publicKey) (plaintext : View) :
    ∃ ciphertext, eciesEncrypt C ephemeralPrivate iv plaintext recipientPubKey = .ok ciphertext ∧
      Sealed C isPrivateKey publicKey plaintext.bytes ciphertext.bytes := by
  obtain ⟨pub, hnormal, hpub⟩ := normalizePublicKey_ok hC hp hrecipient
  obtain rfl := Except.ok.inj (hpublic.symm.trans hpub)
  obtain ⟨point, hephemeral, hpoint⟩ := hC.uncompressed _ he
  obtain ⟨p, q, hshared, -, hpl, -, -⟩ := hC.shared _ _ _ _ he hp hephemeral hpub
  have hel : (0x04 :: point).length = pubkeyLen := by
    rw [List.length_cons, hpoint]
    rfl
  refine ⟨_, eciesEncrypt_ok hC plaintext hnormal hephemeral hel hshared hpl hiv, ?_⟩
  rw [View.bytes_ofBytes, ← layout_eq hC.sha256]
  exact ⟨ephemeralPrivate, 0x04 :: point, iv, p, he, hiv, hephemeral, hshared, rfl⟩

/-- Whatever window it is seen through, the holder of the key opens what was sealed for its point. -/
theorem eciesDecrypt_sealed {isPrivateKey : Bytes → Prop} (hC : C.Standard isPrivateKey)
    {publicKey plaintext : Bytes} {privateKey ciphertext : View} (hp : isPrivateKey privateKey.bytes)
    (hpublic : C.getPublicKey privateKey.bytes false = .ok publicKey)
    (h : Sealed C isPrivateKey publicKey plaintext ciphertext.bytes) :
    ∃ opened, eciesDecrypt C ciphertext privateKey = .ok opened ∧ opened.bytes = plaintext := by
  obtain ⟨ephemeralPrivate, ephemeralPublic, iv, shared, he, hiv, hephemeral, hshared, hbytes⟩ := h
  obtain ⟨point, hpoint, hlength⟩ := hC.uncompressed _ he
  obtain rfl := Except.ok.inj (hpoint.symm.trans hephemeral)
  obtain ⟨p, q, hp', hshared', -, hql, hx⟩ := hC.shared _ _ _ _ he hp hephemeral hpublic
  obtain rfl := Except.ok.inj (hshared.symm.trans hp')
  have hkeys : keysOf C q = keysOf C shared := by rw [keysOf, keysOf, hx]
  have hel : (0x04 :: point).length = pubkeyLen := by
    rw [List.length_cons, hlength]
    rfl
  rw [layout_eq hC.sha256] at hbytes
  have htl := hC.hmac (keysOf C shared).2 (emOf C (keysOf C shared) iv plaintext)
  have hstream := hC.keystream (keysOf C shared).1.bytes iv plaintext.length
  have hdrop : (emOf C (keysOf C shared) iv plaintext).drop ivLen =
      xorBytes plaintext (C.keystream (keysOf C shared).1.bytes iv plaintext.length) := by
    rw [emOf, ← hiv, List.drop_left]
  have htake : (emOf C (keysOf C shared) iv plaintext).take ivLen = iv := by
    rw [emOf, ← hiv, List.take_left]
  have hlen : (xorBytes plaintext (C.keystream (keysOf C shared).1.bytes iv plaintext.length)).length =
      plaintext.length := by
    rw [length_xorBytes, hstream, min_self]
  obtain ⟨hbody, htag⟩ := bodyOf_append (emOf C (keysOf C shared) iv plaintext) hel htl
  rw [← hbytes] at hbody htag
  have hlong : pubkeyLen + ivLen + tagLen ≤ ciphertext.length := by
    rw [← View.length_bytes, hbytes, List.length_append, List.length_append, hel, htl, emOf, List.length_append, hiv]
    simp only [tagLen]
    omega
  have hfirst : ciphertext.bytes.take pubkeyLen = 0x04 :: point := by
    rw [hbytes, List.append_assoc, ← hel, List.take_left]
  refine ⟨.ofBytes plaintext, ?_, View.bytes_ofBytes _⟩
  rw [eciesDecrypt_ok hC _ privateKey hlong hfirst rfl hshared' hql, hkeys, hbody, htag, if_pos rfl, hdrop, htake,
    hlen, xorBytes_cancel hstream.symm]

end Framing

/-- What is sealed for a key is opened with it, whatever windows the bytes are seen through; a change
behind the ephemeral key stops at the tag, and what is too short is refused. -/
theorem framing_round_trips (C : Crypto) (isPrivateKey : Bytes → Prop) (hC : C.Standard isPrivateKey)
    (ephemeralPrivate iv : Bytes) (he : isPrivateKey ephemeralPrivate) (hiv : iv.length = ivLen)
    (privateKey recipientPubKey plaintext : View) (hp : isPrivateKey privateKey.bytes) (isCompressed : Bool)
    (hpub : C.getPublicKey privateKey.bytes isCompressed = .ok recipientPubKey.bytes) :
    ∃ ciphertext, eciesEncrypt C ephemeralPrivate iv plaintext recipientPubKey = .ok ciphertext ∧
      ciphertext.length = 113 + plaintext.length ∧
      (∀ c : View, c.bytes = ciphertext.bytes →
        ∃ opened, eciesDecrypt C c privateKey = .ok opened ∧ opened.bytes = plaintext.bytes) ∧
      (∀ c : View, c.length = ciphertext.length →
        c.bytes.take pubkeyLen = ciphertext.bytes.take pubkeyLen →
        (bodyOf c.bytes ≠ bodyOf ciphertext.bytes ∧ tagOf c.bytes = tagOf ciphertext.bytes ∧
            ∀ encryptionKey macKey,
              deriveKeys C privateKey (ciphertext.subarray 0 pubkeyLen) = .ok (encryptionKey, macKey) →
              C.hmac macKey (bodyOf c.bytes) ≠ C.hmac macKey (bodyOf ciphertext.bytes)) ∨
          bodyOf c.bytes = bodyOf ciphertext.bytes ∧ tagOf c.bytes ≠ tagOf ciphertext.bytes →
        eciesDecrypt C c privateKey = .error macMismatch) ∧
      ∀ c : View, c.length < 113 → ∃ message, eciesDecrypt C c privateKey = .error message := by
  obtain ⟨pub, hnormal, hpublic⟩ := normalizePublicKey_ok hC hp hpub
  obtain ⟨point, hephemeral, hpoint⟩ := hC.uncompressed _ he
  obtain ⟨p, q, hshared, hshared', hpl, hql, hx⟩ := hC.shared _ _ _ _ he hp hephemeral hpublic
  have hkeys : keysOf C q = keysOf C p := by rw [keysOf, keysOf, hx]
  have hel : (0x04 :: point).length = pubkeyLen := by rw [List.length_cons, hpoint]; rfl
  have htl := hC.hmac (keysOf C p).2 (emOf C (keysOf C p) iv plaintext.bytes)
  have hseal := eciesEncrypt_ok hC plaintext hnormal hephemeral hel hshared hpl hiv
  generalize hem : emOf C (keysOf C p) iv plaintext.bytes = em at hseal htl
  have heml : em.length = ivLen + plaintext.length := by
    rw [← hem, emOf, List.length_append, hiv, length_xorBytes, hC.keystream, min_self, View.length_bytes]
  generalize htag : C.hmac (keysOf C p).2 em = tag at hseal htl
  obtain ⟨hbody, htagOf⟩ := bodyOf_append em hel htl
  have htake : ((0x04 :: point) ++ em ++ tag).take pubkeyLen = 0x04 :: point := by
    rw [List.append_assoc, ← hel, List.take_left]
  have hlength : ((0x04 :: point) ++ em ++ tag).length = 113 + plaintext.length := by
    rw [List.length_append, List.length_append, hel, heml, htl]
    simp only [pubkeyLen, ivLen]
    omega
  have hopen (c : View) (hl : c.length = 113 + plaintext.length)
      (hr : c.bytes.take pubkeyLen = 0x04 :: point) :=
    eciesDecrypt_ok hC c privateKey
      (by rw [hl]; simp only [pubkeyLen, ivLen, tagLen]; omega) hr rfl hshared' hql
  refine ⟨_, hseal, hlength, fun c hc => ?_, fun c hc hr hchange => ?_, fun c hc => ?_⟩
  · obtain ⟨ciphertext, hseal', hsealed⟩ := eciesEncrypt_sealed hC he hiv hp hpub hpublic plaintext
    obtain rfl := Except.ok.inj (hseal.symm.trans hseal')
    rw [← hc] at hsealed
    exact eciesDecrypt_sealed hC hp hpublic hsealed
  · rw [View.bytes_ofBytes] at hr hchange
    have hl : c.length = 113 + plaintext.length := by rw [hc, View.length_ofBytes, hlength]
    rw [hopen c hl (hr.trans htake), hkeys]
    rw [hbody, htagOf] at hchange
    apply if_neg
    rcases hchange with ⟨-, htagEq, hcollide⟩ | ⟨hbodyEq, htagNe⟩
    · rw [htagEq, ← htag]
      apply hcollide (keysOf C p).1 (keysOf C p).2
      rw [deriveKeys_ok hC.sha256 _ hql, hkeys]
      rw [View.bytes_subarray, View.bytes_ofBytes, List.drop_zero, htake]
      exact hshared'
    · rw [hbodyEq, htag]
      exact htagNe.symm
  · exact ⟨_, if_pos hc⟩

section Sample

def one : Bytes := ofNat 32 1

def baseX : Bytes := ofNat 32 0x79be667ef9dcbbac55a06295ce870b07029bfcdb2dce28d959f2815b16f81798

def baseY : Bytes := ofNat 32 0x483ada7726a3c4655da4fbfc0e1108a8fd17b448a68554199c47d08ffb10d4b8

/-- The real values for the key `one` on both sides, an iv of zeros and the plaintext "hi". -/
def sampleCrypto : Crypto where
  getPublicKey k isCompressed :=
    if k = one then .ok (if isCompressed then 0x02 :: baseX else 0x04 :: (baseX ++ baseY))
    else .error "private key out of range"
  getSharedSecret k publicKey _ := if k = one then .ok publicKey else .error "private key out of range"
  toRawBytes publicKey _ :=
    if publicKey = 0x02 :: baseX then .ok (0x04 :: (baseX ++ baseY)) else .error "bad point"
  sha256 b :=
    if b = ofNat 4 1 ++ baseX then
      ofNat 32 0x8cb9c636e2c2d4e3345e36fcfe419f156780a25b8cf712db134a234384fbb0f1
    else if b = ofNat 16 0x6780a25b8cf712db134a234384fbb0f1 then
      ofNat 32 0x89e892d1ac6a7f3914c14512baf1ff8be5219e82f3385a48cc5e61da59f70b40
    else zeros 32
  hmac k b :=
    if k = ofNat 32 0x89e892d1ac6a7f3914c14512baf1ff8be5219e82f3385a48cc5e61da59f70b40 ∧
        b = zeros 16 ++ [0xee, 0x6b] then
      ofNat 32 0xa1f02901c943d45f97c9f34c52adc12fe2d856b02b9e52d96c8dbcda511fa607
    else zeros 32
  keystream _ _ n := (ofNat 16 0x8602483c010fadc65388e9c85909ae43 ++ zeros n).take n

theorem sampleCrypto_standard : sampleCrypto.Standard (· = one) where
  uncompressed := by
    rintro k rfl
    exact ⟨baseX ++ baseY, rfl, by rw [List.length_append, baseX, baseY, length_ofNat, length_ofNat]⟩
  compressed := by
    rintro k rfl
    exact ⟨0x02, baseX, rfl, .inl rfl, length_ofNat .., rfl⟩
  shared := by
    rintro k l kPublic lPublic rfl rfl hk hl
    cases hk.symm.trans hl
    have hlength : kPublic.length = 65 := by
      rw [← Except.ok.inj hk, if_neg Bool.false_ne_true, List.length_cons, List.length_append, baseX, baseY,
        length_ofNat, length_ofNat]
    exact ⟨kPublic, kPublic, rfl, rfl, hlength, hlength, rfl⟩
  sha256 b := by
    simp only [sampleCrypto]
    split_ifs <;> simp
  hmac k b := by
    simp only [sampleCrypto]
    split_ifs <;> simp
  keystream k iv n := by
    simp only [sampleCrypto, List.length_take, List.length_append, length_ofNat, length_zeros]
    omega

def sampleKey : View := (View.ofBytes (0xff :: 0x02 :: baseX ++ [0xff])).subarray 1 34

theorem framing_round_trips_sample :
    ∃ ciphertext, eciesEncrypt sampleCrypto one (zeros 16) (.ofBytes [0x68, 0x69]) sampleKey = .ok ciphertext ∧
      ciphertext.length = 113 + 2 ∧
      ∃ opened, eciesDecrypt sampleCrypto ciphertext (.ofBytes one) = .ok opened ∧
        opened.bytes = [0x68, 0x69] := by
  obtain ⟨ciphertext, hseal, hlength, hopen, -⟩ := framing_round_trips sampleCrypto (· = one)
    sampleCrypto_standard one (zeros 16) rfl (length_zeros 16) (.ofBytes one) sampleKey
    (.ofBytes [0x68, 0x69]) (View.bytes_ofBytes one) true (by decide)
  exact ⟨ciphertext, hseal, hlength, hopen ciphertext rfl⟩

end Sample

end Fidensur.Ecies
