import Fidensur.ByteWords
import Fidensur.DigitText

set_option autoImplicit false

/-! Byte strings written as `0x` and two lower-case digits a byte. -/

namespace HexText

open ByteWords DigitText

abbrev Text := List Char

def ofBytes (b : Bytes) : Text := '0' :: 'x' :: b.flatMap (fun x => hexDigits 2 x.toNat)

def ofWord (w : ℕ) : Text := ofBytes (ofNat 32 w)

def isHexDigit (c : Char) : Bool :=
  ('0' ≤ c && c ≤ '9') || ('a' ≤ c && c ≤ 'f') || ('A' ≤ c && c ≤ 'F')

def number : Text → Option ℕ
  | '0' :: 'x' :: digits =>
      if digits ≠ [] ∧ digits.all isHexDigit = true then some (hexValue digits) else none
  | _ => none

def pairs : Text → Option Bytes
  | [] => some []
  | [_] => none
  | a :: b :: rest =>
      if isHexDigit a = true ∧ isHexDigit b = true then
        (pairs rest).map (UInt8.ofNat (hexDigit a * 16 + hexDigit b) :: ·)
      else none

def toBytes : Text → Option Bytes
  | '0' :: 'x' :: digits => pairs digits
  | _ => none

theorem flatMap_hexDigits (b : Bytes) :
    b.flatMap (fun x => hexDigits 2 x.toNat) = hexDigits (2 * b.length) (value b) := by
  induction b using List.reverseRecOn with
  | nil => rfl
  | append_singleton b x ih =>
    have hx : x.toNat < 256 := x.toNat_lt
    have hhigh : (value b * 256 + x.toNat) / 16 / 16 = value b := by omega
    have hmid : (value b * 256 + x.toNat) / 16 % 16 = x.toNat / 16 % 16 := by omega
    have hlow : (value b * 256 + x.toNat) % 16 = x.toNat % 16 := by omega
    have hlen : 2 * (b ++ [x]).length = 2 * b.length + 1 + 1 := by
      simp only [List.length_append, List.length_singleton]
      omega
    rw [hlen, List.flatMap_append, List.flatMap_singleton, ih, value_concat]
    simp only [hexDigits, List.nil_append, List.append_assoc, hhigh, hmid, hlow]

theorem ofBytes_eq (b : Bytes) : ofBytes b = '0' :: 'x' :: hexDigits (2 * b.length) (value b) := by
  rw [ofBytes, flatMap_hexDigits]

theorem length_ofBytes (b : Bytes) : (ofBytes b).length = 2 * b.length + 2 := by
  simp [ofBytes_eq]

theorem ofBytes_injective : Function.Injective ofBytes := by
  intro b b' h
  rw [ofBytes_eq, ofBytes_eq] at h
  have hdigits : hexDigits (2 * b.length) (value b) = hexDigits (2 * b'.length) (value b') :=
    List.cons_injective (List.cons_injective h)
  have hlen : b.length = b'.length := by
    have := congrArg List.length hdigits
    simp only [length_hexDigits] at this
    omega
  have hvalue := congrArg hexValue hdigits
  have hpow (c : Bytes) : value c < 16 ^ (2 * c.length) := by
    have := value_lt c
    rwa [pow_mul]
  rw [hexValue_hexDigits, hexValue_hexDigits, Nat.mod_eq_of_lt (hpow b), Nat.mod_eq_of_lt (hpow b')]
    at hvalue
  rw [← ofNat_value b, ← ofNat_value b', hlen, hvalue]

theorem isHexDigit_of_mem {k n : ℕ} {c : Char} (h : c ∈ hexDigits k n) : isHexDigit c = true := by
  have hall : ∀ d < 16, isHexDigit (Nat.digitChar d) = true := by decide
  obtain ⟨d, hd, rfl⟩ := mem_hexDigits h
  exact hall d hd

theorem toBytes_ofBytes (b : Bytes) : toBytes (ofBytes b) = some b := by
  rw [ofBytes, toBytes]
  induction b with
  | nil => rfl
  | cons x b ih =>
    have hx : x.toNat < 256 := x.toNat_lt
    have hdigit (d : ℕ) : isHexDigit (Nat.digitChar (d % 16)) = true := by
      have hall : ∀ d < 16, isHexDigit (Nat.digitChar d) = true := by decide
      exact hall _ (Nat.mod_lt d (by decide))
    have hbyte : UInt8.ofNat (x.toNat / 16 % 16 * 16 + x.toNat % 16) = x := by
      have hsum : x.toNat / 16 % 16 * 16 + x.toNat % 16 = x.toNat := by omega
      rw [hsum, UInt8.ofNat_toNat]
    have hpair : hexDigits 2 x.toNat =
        [Nat.digitChar (x.toNat / 16 % 16), Nat.digitChar (x.toNat % 16)] := rfl
    rw [List.flatMap_cons, hpair]
    simp only [List.nil_append, List.cons_append, pairs, hdigit, and_self, if_true, ih, Option.map_some,
      hexDigit_digitChar (Nat.mod_lt _ (by decide : 0 < 16)), hbyte]

theorem number_ofBytes {b : Bytes} (h : b ≠ []) : number (ofBytes b) = some (value b) := by
  have hpos : 0 < b.length := List.length_pos_iff.mpr h
  have hlt := value_lt b
  have hpow : (16 : ℕ) ^ (2 * b.length) = 256 ^ b.length := by rw [pow_mul]; rfl
  have hne : hexDigits (2 * b.length) (value b) ≠ [] := by
    apply List.ne_nil_of_length_pos
    rw [length_hexDigits]
    omega
  have hall : (hexDigits (2 * b.length) (value b)).all isHexDigit = true :=
    List.all_eq_true.mpr fun _ hc => isHexDigit_of_mem hc
  rw [ofBytes_eq, number, if_pos ⟨hne, hall⟩, hexValue_hexDigits, hpow, Nat.mod_eq_of_lt hlt]

theorem number_ofWord {w : ℕ} (h : w < 256 ^ 32) : number (ofWord w) = some w := by
  have hne : ofNat 32 w ≠ [] := by
    apply List.ne_nil_of_length_pos
    simp
  rw [ofWord, number_ofBytes hne, value_ofNat, Nat.mod_eq_of_lt h]

theorem ofWord_inj {v w : ℕ} (hv : v < 256 ^ 32) (hw : w < 256 ^ 32) : ofWord v = ofWord w ↔ v = w := by
  constructor
  · intro h
    exact ofNat_injective hv hw (ofBytes_injective h)
  · rintro rfl
    rfl

end HexText
