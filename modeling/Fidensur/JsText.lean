import Fidensur.HexText

set_option autoImplicit false

namespace JsText

def isSpace (c : Char) : Bool :=
  c.toNat ∈ [0x09, 0x0A, 0x0B, 0x0C, 0x0D, 0x20, 0xA0, 0x1680, 0x2028, 0x2029, 0x202F, 0x205F, 0x3000,
    0xFEFF] || (0x2000 ≤ c.toNat && c.toNat ≤ 0x200A)

def trim (t : List Char) : List Char := (t.dropWhile isSpace).rdropWhile isSpace

/-- The pattern `^\d+$`. -/
def isDigits (t : List Char) : Bool := !t.isEmpty && t.all Char.isDigit

/-- The pattern `^\d+(\.\d+)?$`. -/
def isDecimal (t : List Char) : Bool :=
  isDigits (t.takeWhile Char.isDigit) &&
    match t.dropWhile Char.isDigit with
    | [] => true
    | '.' :: fraction => isDigits fraction
    | _ => false

def decimal (t : List Char) : Option ℤ :=
  if isDigits t then some ((Nat.ofDigitChars 10 t 0 : ℕ) : ℤ) else none

def literal (base : ℕ) (digit : Char → Bool) (t : List Char) : Option ℤ :=
  if t ≠ [] ∧ t.all digit = true then
    some ((t.foldl (fun acc c => acc * base + DigitText.hexDigit c) 0 : ℕ) : ℤ)
  else none

/-- `BigInt` of a text, which is no syntax error. -/
def bigInt (t : List Char) : Option ℤ :=
  match trim t with
  | [] => some 0
  | '+' :: digits => decimal digits
  | '-' :: digits => (decimal digits).map (- ·)
  | '0' :: 'x' :: digits | '0' :: 'X' :: digits => literal 16 HexText.isHexDigit digits
  | '0' :: 'o' :: digits | '0' :: 'O' :: digits => literal 8 (fun c => '0' ≤ c && c ≤ '7') digits
  | '0' :: 'b' :: digits | '0' :: 'B' :: digits => literal 2 (fun c => c = '0' || c = '1') digits
  | digits => decimal digits

/-- `parseInt` in base 16. Blanks, a sign and `0x` may lead; it stops at the first character that is no digit. -/
def parseInt16 (t : List Char) : Option ℤ :=
  let trimmed := t.dropWhile isSpace
  let unsigned := match trimmed with
    | '+' :: rest => rest
    | '-' :: rest => rest
    | _ => trimmed
  let stripped := match unsigned with
    | '0' :: 'x' :: rest => rest
    | '0' :: 'X' :: rest => rest
    | _ => unsigned
  let digits := stripped.takeWhile HexText.isHexDigit
  if digits = [] then none
  else if trimmed.head? = some '-' then some (-(DigitText.hexValue digits : ℤ)) else some (DigitText.hexValue digits)

def toText (n : ℤ) : List Char := n.repr.toList

theorem parseInt16_hexDigits (x : UInt8) : parseInt16 (DigitText.hexDigits 2 x.toNat) = some (x.toNat : ℤ) := by
  have hall : ∀ a < 16, ∀ b < 16, parseInt16 [Nat.digitChar a, Nat.digitChar b] = some ((a * 16 + b : ℕ) : ℤ) := by
    decide
  have hx : x.toNat < 256 := x.toNat_lt
  have hpair : DigitText.hexDigits 2 x.toNat =
      [Nat.digitChar (x.toNat / 16 % 16), Nat.digitChar (x.toNat % 16)] := rfl
  have hsum : x.toNat / 16 % 16 * 16 + x.toNat % 16 = x.toNat := by omega
  rw [hpair, hall _ (Nat.mod_lt _ (by decide)) _ (Nat.mod_lt _ (by decide)), hsum]

section Digits

variable {t t' : List Char} {c : Char}

theorem isDigits_iff : isDigits t = true ↔ t ≠ [] ∧ ∀ c ∈ t, c.isDigit = true := by
  simp [isDigits]

theorem digit_bounds (h : c.isDigit = true) : 48 ≤ c.toNat ∧ c.toNat ≤ 57 := by
  simp only [Char.isDigit, Bool.and_eq_true, decide_eq_true_eq] at h
  exact ⟨UInt32.le_iff_toNat_le.mp h.1, UInt32.le_iff_toNat_le.mp h.2⟩

theorem isSpace_of_isDigit (h : c.isDigit = true) : isSpace c = false := by
  obtain ⟨hle, hge⟩ := digit_bounds h
  simp only [isSpace, List.mem_cons, List.not_mem_nil, or_false, Bool.or_eq_false_iff,
    decide_eq_false_iff_not, Bool.and_eq_false_iff]
  omega

theorem trim_eq_self (h : ∀ c ∈ t, isSpace c = false) : trim t = t := by
  have hdrop : t.dropWhile isSpace = t := by
    cases t with
    | nil => rfl
    | cons c t => rw [List.dropWhile_cons_of_neg (by simpa using h c (by simp))]
  rw [trim, hdrop, List.rdropWhile_eq_self_iff]
  intro hne
  simpa using h _ (List.getLast_mem hne)

theorem isDecimal_iff : isDecimal t = true ↔ ∃ whole, isDigits whole = true ∧
    (t = whole ∨ ∃ fraction, isDigits fraction = true ∧ t = whole ++ '.' :: fraction) := by
  have hspan := List.takeWhile_append_dropWhile (p := Char.isDigit) (l := t)
  constructor
  · intro h
    rw [isDecimal, Bool.and_eq_true] at h
    refine ⟨_, h.1, ?_⟩
    cases hrest : t.dropWhile Char.isDigit with
    | nil => exact .inl (by rw [hrest, List.append_nil] at hspan; exact hspan.symm)
    | cons c fraction =>
      rw [hrest] at h hspan
      have hdot : c = '.' := by
        by_contra hc
        have h2 := h.2
        split at h2
        · next heq => cases heq
        · next heq => exact hc (List.cons.inj heq).1
        · cases h2
      subst hdot
      exact .inr ⟨fraction, h.2, hspan.symm⟩
  · rintro ⟨whole, hwhole, rfl | ⟨fraction, hfraction, rfl⟩⟩
    · have hall := (isDigits_iff.mp hwhole).2
      rw [isDecimal, List.takeWhile_eq_self_iff.mpr hall, List.dropWhile_eq_nil_iff.mpr hall, hwhole]
      rfl
    · have hall := (isDigits_iff.mp hwhole).2
      rw [isDecimal, List.takeWhile_append_of_pos hall, List.dropWhile_append_of_pos hall]
      simpa [List.takeWhile_cons, List.dropWhile_cons] using ⟨hwhole, hfraction⟩

theorem ofDigitChars_lt (h : ∀ c ∈ t, c.isDigit = true) : Nat.ofDigitChars 10 t 0 < 10 ^ t.length := by
  induction t with
  | nil => simp
  | cons c t ih =>
    have hc := digit_bounds (h c (by simp))
    have ht := ih (fun d hd => h d (by simp [hd]))
    rw [Nat.ofDigitChars_cons, Nat.ofDigitChars_eq_ofDigitChars_zero, List.length_cons, pow_succ]
    have hdigit : c.toNat - '0'.toNat ≤ 9 := by
      have : '0'.toNat = 48 := rfl
      omega
    nlinarith [Nat.pow_pos (n := t.length) (show 0 < 10 by omega)]

theorem ofDigitChars_append (t t' : List Char) :
    Nat.ofDigitChars 10 (t ++ t') 0 =
      10 ^ t'.length * Nat.ofDigitChars 10 t 0 + Nat.ofDigitChars 10 t' 0 := by
  rw [Nat.ofDigitChars_append, Nat.ofDigitChars_eq_ofDigitChars_zero]

theorem ofDigitChars_take (h : ∀ c ∈ t, c.isDigit = true) (p : ℕ) :
    Nat.ofDigitChars 10 (t.take p) 0 = Nat.ofDigitChars 10 t 0 / 10 ^ (t.length - p) := by
  have hlt := ofDigitChars_lt (t := t.drop p) (fun c hc => h c (List.mem_of_mem_drop hc))
  have happend := ofDigitChars_append (t.take p) (t.drop p)
  rw [List.take_append_drop, List.length_drop] at happend
  rw [List.length_drop] at hlt
  rw [happend, Nat.mul_add_div (Nat.pow_pos (by omega)), Nat.div_eq_of_lt hlt, Nat.add_zero]

theorem toText_ofNat (n : ℕ) : toText n = Nat.toDigits 10 n := by
  change (Nat.repr n).toList = _
  exact Nat.toList_repr

theorem digits_toText (n : ℕ) : isDigits (toText n) = true := by
  rw [isDigits_iff, toText_ofNat]
  exact ⟨Nat.toDigits_ne_nil, fun c hc => Nat.isDigit_of_mem_toDigits (by omega) le_rfl hc⟩

theorem ofDigitChars_toText (n : ℕ) : Nat.ofDigitChars 10 (toText n) 0 = n := by
  rw [toText_ofNat, Nat.ofDigitChars_ten_toDigits]

theorem bigInt_digits (h : isDigits t = true) : bigInt t = some ((Nat.ofDigitChars 10 t 0 : ℕ) : ℤ) := by
  obtain ⟨hne, hall⟩ := isDigits_iff.mp h
  have hd : decimal t = some ((Nat.ofDigitChars 10 t 0 : ℕ) : ℤ) := if_pos h
  rw [bigInt, trim_eq_self (fun c hc => isSpace_of_isDigit (hall c hc)), ← hd]
  split
  · exact absurd rfl hne
  · exact absurd (hall '+' (by simp)) (by decide)
  · exact absurd (hall '-' (by simp)) (by decide)
  · exact absurd (hall 'x' (by simp)) (by decide)
  · exact absurd (hall 'X' (by simp)) (by decide)
  · exact absurd (hall 'o' (by simp)) (by decide)
  · exact absurd (hall 'O' (by simp)) (by decide)
  · exact absurd (hall 'b' (by simp)) (by decide)
  · exact absurd (hall 'B' (by simp)) (by decide)
  · rfl

theorem rightpad_rdropWhile {n : ℕ} (h : t.length ≤ n) :
    (t.rdropWhile (· = '0')).rightpad n '0' = t ++ List.replicate (n - t.length) '0' := by
  induction t using List.reverseRecOn with
  | nil => simp [List.rightpad]
  | append_singleton t c ih =>
    by_cases hc : c = '0'
    · subst hc
      rw [List.length_append, List.length_singleton] at h ⊢
      rw [List.rdropWhile_concat_pos _ _ _ (by simp), ih (by omega), List.append_assoc,
        List.singleton_append, ← List.replicate_succ]
      congr 2
      omega
    · rw [List.rdropWhile_concat_neg _ _ _ (by simpa using hc)]
      rfl

end Digits

end JsText
