import Fidensur.JsText

set_option autoImplicit false

namespace Fidensur.MoneyText

open HexText JsText

def parseUnits (value : Text) (decimals : ℕ) : Except Text ℤ :=
  let trimmed := trim value
  if isDecimal trimmed = false then
    .error ("\"".toList ++ value ++ "\" is not a non-negative decimal number".toList)
  else
    let parts := trimmed.splitOn '.'
    let whole := parts.getD 0 ['0']
    let fraction := parts.getD 1 []
    if decimals < fraction.length then
      .error ("\"".toList ++ value ++ "\" has more than ".toList ++ toText decimals ++
        " decimal places".toList)
    else
      match bigInt (whole ++ fraction.rightpad decimals '0') with
      | some n => .ok n
      | none => .error "SyntaxError".toList

def formatAmount (value : ℤ) (decimals precision : ℕ) : Text :=
  let base : ℤ := 10 ^ decimals
  let whole := value.tdiv base
  let frac := value.tmod base
  if frac = 0 then toText whole
  else
    let fracStr := (((toText frac).leftpad decimals '0').take precision).rdropWhile (· = '0')
    if fracStr ≠ [] then toText whole ++ '.' :: fracStr else toText whole

/-- The lookahead `(?=(\d{3})+(?!\d))`. -/
def threesAhead : Text → Bool
  | a :: b :: c :: rest =>
    a.isDigit && b.isDigit && c.isDigit && (!(rest.head?.any Char.isDigit) || threesAhead rest)
  | _ => false

def isWord (c : Char) : Bool := c.isAlphanum || c = '_'

/-- A comma at every place inside a word with threes of digits ahead. -/
def groupThousands (previous : Option Char) : Text → Text
  | [] => []
  | c :: rest =>
    let inside := previous.any isWord == isWord c
    if inside && threesAhead (c :: rest) then ',' :: c :: groupThousands (some c) rest
    else c :: groupThousands (some c) rest

def formatTokenAmount (value : ℤ) (precision : ℕ) : Text :=
  let plain := formatAmount value 18 precision
  let parts := plain.splitOn '.'
  let whole := parts.getD 0 ['0']
  let grouped := groupThousands none whole
  match parts[1]? with
  | some frac => if frac ≠ [] then grouped ++ '.' :: frac else grouped
  | none => grouped

section Parsing

/-- Digits with an optional dot and at most `d` further digits, and what they say. -/
inductive Decimal (d : ℕ) : Text → ℚ → Prop
  | whole {whole : Text} (h : isDigits whole = true) : Decimal d whole (Nat.ofDigitChars 10 whole 0 : ℕ)
  | fraction {whole fraction : Text} (h : isDigits whole = true) (hf : isDigits fraction = true)
      (hd : fraction.length ≤ d) :
      Decimal d (whole ++ '.' :: fraction)
        ((Nat.ofDigitChars 10 whole 0 : ℕ) + (Nat.ofDigitChars 10 fraction 0 : ℕ) / 10 ^ fraction.length)

variable {value whole fraction : Text} {d : ℕ}

theorem dot_notMem (h : isDigits whole = true) : '.' ∉ whole := by
  intro hmem
  exact absurd ((isDigits_iff.mp h).2 _ hmem) (by decide)

theorem isDigits_rightpad (h : isDigits whole = true) (hf : ∀ c ∈ fraction, c.isDigit = true) :
    isDigits (whole ++ fraction.rightpad d '0') = true := by
  obtain ⟨hne, hall⟩ := isDigits_iff.mp h
  rw [isDigits_iff]
  refine ⟨by simp [hne], fun c hc => ?_⟩
  rcases List.mem_append.mp hc with hc | hc
  · exact hall c hc
  · rcases List.mem_append.mp hc with hc | hc
    · exact hf c hc
    · rw [List.eq_of_mem_replicate hc]
      decide

theorem parseUnits_whole (h : isDigits whole = true) (hv : trim value = whole) :
    parseUnits value d = .ok (Nat.ofDigitChars 10 (whole ++ List.rightpad d '0' []) 0 : ℕ) := by
  have hdecimal : isDecimal whole = true := isDecimal_iff.mpr ⟨whole, h, .inl rfl⟩
  have hsplit : whole.splitOn '.' = [whole] := List.splitOn_eq_singleton (dot_notMem h)
  have hbig := bigInt_digits (isDigits_rightpad (d := d) h (List.forall_mem_nil _))
  simp only [parseUnits, hv, hdecimal, hsplit, List.getD_cons_zero, List.getD_cons_succ, List.getD_nil,
    List.length_nil, Nat.not_lt_zero, hbig, reduceIte, Bool.true_eq_false]

theorem parseUnits_fraction (h : isDigits whole = true) (hf : isDigits fraction = true)
    (hd : fraction.length ≤ d) (hv : trim value = whole ++ '.' :: fraction) :
    parseUnits value d = .ok (Nat.ofDigitChars 10 (whole ++ fraction.rightpad d '0') 0 : ℕ) := by
  have hdecimal : isDecimal (whole ++ '.' :: fraction) = true :=
    isDecimal_iff.mpr ⟨whole, h, .inr ⟨fraction, hf, rfl⟩⟩
  have hsplit : (whole ++ '.' :: fraction).splitOn '.' = [whole, fraction] := by
    rw [List.splitOn_append_cons_self_of_not_mem (dot_notMem h), List.splitOn_eq_singleton (dot_notMem hf)]
  simp only [parseUnits, hv, hdecimal, hsplit, List.getD_cons_zero, List.getD_cons_succ,
    Nat.not_lt.mpr hd, bigInt_digits (isDigits_rightpad h (isDigits_iff.mp hf).2), reduceIte,
    Bool.true_eq_false]

theorem ofDigitChars_rightpad (whole : Text) (hd : fraction.length ≤ d) :
    ((Nat.ofDigitChars 10 (whole ++ fraction.rightpad d '0') 0 : ℕ) : ℚ) =
      ((Nat.ofDigitChars 10 whole 0 : ℕ) +
        (Nat.ofDigitChars 10 fraction 0 : ℕ) / 10 ^ fraction.length) * 10 ^ d := by
  have hlength : (fraction.rightpad d '0').length = d := by simp [List.rightpad, hd]
  have hzeros : Nat.ofDigitChars 10 (fraction.rightpad d '0') 0 =
      10 ^ (d - fraction.length) * Nat.ofDigitChars 10 fraction 0 := by
    rw [List.rightpad, Nat.ofDigitChars_append, Nat.ofDigitChars_replicate_zero]
  have hsplit : (10 : ℚ) ^ d = 10 ^ (d - fraction.length) * 10 ^ fraction.length := by
    rw [← pow_add, Nat.sub_add_cancel hd]
  rw [ofDigitChars_append, hlength, hzeros]
  push_cast
  rw [add_mul, div_mul_eq_mul_div, hsplit]
  field_simp

theorem Decimal.parse {q : ℚ} (h : Decimal d (trim value) q) :
    ∃ n : ℤ, parseUnits value d = .ok n ∧ (n : ℚ) = q * 10 ^ d := by
  generalize hv : trim value = t at h
  cases h with
  | whole h =>
    refine ⟨_, parseUnits_whole h hv, ?_⟩
    have hvalue := ofDigitChars_rightpad t (show ([] : Text).length ≤ d from Nat.zero_le d)
    simpa using hvalue
  | fraction h hf hd =>
    refine ⟨_, parseUnits_fraction h hf hd hv, ?_⟩
    exact_mod_cast ofDigitChars_rightpad _ hd

theorem parseUnits_decimal {n : ℤ} (h : parseUnits value d = .ok n) : ∃ q, Decimal d (trim value) q := by
  simp only [parseUnits] at h
  split_ifs at h with hdecimal hd
  rw [Bool.not_eq_false, isDecimal_iff] at hdecimal
  obtain ⟨whole, hwhole, ht | ⟨fraction, hfraction, ht⟩⟩ := hdecimal
  · rw [ht]
    exact ⟨_, .whole hwhole⟩
  · rw [ht, List.splitOn_append_cons_self_of_not_mem (dot_notMem hwhole),
      List.splitOn_eq_singleton (dot_notMem hfraction)] at hd
    rw [ht]
    exact ⟨_, .fraction hwhole hfraction (Nat.not_lt.mp hd)⟩

end Parsing

section Formatting

theorem formatAmount_ofNat (v d p : ℕ) : formatAmount v d p =
    if v % 10 ^ d = 0 then toText (v / 10 ^ d : ℕ)
    else
      let fracStr := (((toText (v % 10 ^ d : ℕ)).leftpad d '0').take p).rdropWhile (· = '0')
      if fracStr ≠ [] then toText (v / 10 ^ d : ℕ) ++ '.' :: fracStr else toText (v / 10 ^ d : ℕ) := by
  have hbase : (10 : ℤ) ^ d = ((10 ^ d : ℕ) : ℤ) := by push_cast; rfl
  have hdiv : (v : ℤ).tdiv (10 ^ d) = ((v / 10 ^ d : ℕ) : ℤ) := by rw [hbase]; rfl
  have hmod : (v : ℤ).tmod (10 ^ d) = ((v % 10 ^ d : ℕ) : ℤ) := by rw [hbase]; rfl
  simp only [formatAmount, hdiv, hmod, Nat.cast_eq_zero]

theorem leftpad_digits {n d : ℕ} (hd : n < 10 ^ d) (hn : n ≠ 0) :
    ((toText n).leftpad d '0').length = d ∧ (∀ c ∈ (toText n).leftpad d '0', c.isDigit = true) ∧
      Nat.ofDigitChars 10 ((toText n).leftpad d '0') 0 = n := by
  have hpos : 0 < d := by
    by_contra h
    obtain rfl : d = 0 := by omega
    omega
  have hlength : (toText n).length ≤ d := by
    rw [toText_ofNat, Nat.length_toDigits_le_iff (by omega) hpos]
    exact hd
  refine ⟨by simp [List.leftpad, hlength], fun c hc => ?_, ?_⟩
  · rcases List.mem_append.mp hc with hc | hc
    · rw [List.eq_of_mem_replicate hc]
      decide
    · exact (isDigits_iff.mp (digits_toText n)).2 c hc
  · rw [List.leftpad, Nat.ofDigitChars_append, Nat.ofDigitChars_replicate_zero, Nat.mul_zero,
      ofDigitChars_toText]

theorem trim_digits {whole fraction : Text} (h : isDigits whole = true)
    (hf : ∀ c ∈ fraction, c.isDigit = true) : trim (whole ++ '.' :: fraction) = whole ++ '.' :: fraction := by
  apply trim_eq_self
  intro c hc
  rcases List.mem_append.mp hc with hc | hc
  · exact isSpace_of_isDigit ((isDigits_iff.mp h).2 c hc)
  · rcases List.mem_cons.mp hc with rfl | hc
    · decide
    · exact isSpace_of_isDigit (hf c hc)

theorem parseUnits_shown {whole kept : Text} {d : ℕ} (h : isDigits whole = true)
    (hk : ∀ c ∈ kept, c.isDigit = true) (hd : kept.length ≤ d) :
    let fracStr := kept.rdropWhile (· = '0')
    parseUnits (if fracStr ≠ [] then whole ++ '.' :: fracStr else whole) d =
      .ok (10 ^ d * Nat.ofDigitChars 10 whole 0 +
        10 ^ (d - kept.length) * Nat.ofDigitChars 10 kept 0 : ℕ) := by
  intro fracStr
  have hstart : fracStr <+: kept := List.rdropWhile_prefix _ kept
  have hlength : fracStr.length ≤ d := hstart.length_le.trans hd
  have hall : ∀ c ∈ fracStr, c.isDigit = true := fun c hc => hk c (hstart.subset hc)
  have hpad : fracStr.rightpad d '0' = kept ++ List.replicate (d - kept.length) '0' :=
    rightpad_rdropWhile hd
  have hvalue : Nat.ofDigitChars 10 (whole ++ fracStr.rightpad d '0') 0 =
      10 ^ d * Nat.ofDigitChars 10 whole 0 +
        10 ^ (d - kept.length) * Nat.ofDigitChars 10 kept 0 := by
    have hsum : kept.length + (d - kept.length) = d := by omega
    rw [hpad, ofDigitChars_append, List.length_append, List.length_replicate, hsum,
      Nat.ofDigitChars_append, Nat.ofDigitChars_replicate_zero]
  rw [← hvalue]
  split_ifs with hne
  · exact parseUnits_fraction h (isDigits_iff.mpr ⟨hne, hall⟩) hlength (trim_digits h hall)
  · rw [not_not.mp hne]
    exact parseUnits_whole h
      (trim_eq_self fun c hc => isSpace_of_isDigit ((isDigits_iff.mp h).2 c hc))

theorem parseUnits_formatAmount (v : ℕ) {d p : ℕ} (hp : p ≤ d) :
    parseUnits (formatAmount v d p) d = .ok (v - v % 10 ^ (d - p) : ℕ) := by
  have hdvd : 10 ^ (d - p) ∣ 10 ^ d := Nat.pow_dvd_pow 10 (Nat.sub_le d p)
  have hv := Nat.div_add_mod v (10 ^ d)
  have hmod : v % 10 ^ (d - p) = v % 10 ^ d % 10 ^ (d - p) := (Nat.mod_mod_of_dvd v hdvd).symm
  rw [formatAmount_ofNat]
  by_cases h0 : v % 10 ^ d = 0
  · have hshown := parseUnits_shown (digits_toText (v / 10 ^ d)) (List.forall_mem_nil _) (Nat.zero_le d)
    have hnil : List.rdropWhile (· = '0') ([] : Text) = [] := rfl
    rw [if_pos h0]
    simp only [hnil, ne_eq, not_true_eq_false, reduceIte, ofDigitChars_toText, Nat.ofDigitChars_nil,
      Nat.mul_zero, Nat.add_zero] at hshown
    have hwhole : 10 ^ d * (v / 10 ^ d) = v := by omega
    rw [hshown, hmod, h0, Nat.zero_mod, Nat.sub_zero, hwhole]
  · obtain ⟨hlength, hdigits, hvalue⟩ := leftpad_digits (Nat.mod_lt v (Nat.pow_pos (by omega))) h0
    have hkept : (((toText (v % 10 ^ d : ℕ)).leftpad d '0').take p).length = p := by
      rw [List.length_take, hlength, min_eq_left hp]
    have hshown := parseUnits_shown (digits_toText (v / 10 ^ d))
      (fun c hc => hdigits c (List.mem_of_mem_take hc)) (hkept.trans_le hp)
    rw [if_neg h0]
    rw [hshown, hkept, ofDigitChars_take hdigits, hvalue, hlength, ofDigitChars_toText]
    have hfrac := Nat.div_add_mod (v % 10 ^ d) (10 ^ (d - p))
    have hwhole : 10 ^ d * (v / 10 ^ d) + 10 ^ (d - p) * (v % 10 ^ d / 10 ^ (d - p)) =
        v - v % 10 ^ d % 10 ^ (d - p) := by
      omega
    rw [hmod, hwhole]

theorem filter_groupThousands (previous : Option Char) (t : Text) :
    (groupThousands previous t).filter (· ≠ ',') = t.filter (· ≠ ',') := by
  induction t generalizing previous with
  | nil => rfl
  | cons c t ih =>
    simp only [groupThousands]
    split_ifs
    · rw [List.filter_cons_of_neg (by simp), List.filter_cons, List.filter_cons, ih]
    · rw [List.filter_cons, List.filter_cons, ih]

theorem notMem_toText {c : Char} (hc : c.isDigit = false) (hm : c ≠ '-') (n : ℤ) : c ∉ toText n := by
  rw [toText, Int.repr_eq_if]
  split
  · exact DigitText.notMem_natRepr hc _
  · rw [String.toList_append, List.mem_append, not_or]
    exact ⟨by simpa using hm, DigitText.notMem_natRepr hc _⟩

theorem formatAmount_cases (value : ℤ) (d p : ℕ) : ∃ whole, '.' ∉ whole ∧ ',' ∉ whole ∧
    (formatAmount value d p = whole ∨ ∃ frac, frac ≠ [] ∧ '.' ∉ frac ∧ ',' ∉ frac ∧
      formatAmount value d p = whole ++ '.' :: frac) := by
  refine ⟨toText (value.tdiv (10 ^ d)), notMem_toText (by decide) (by decide) _,
    notMem_toText (by decide) (by decide) _, ?_⟩
  simp only [formatAmount]
  have hnot {c : Char} (hc : c.isDigit = false) (hm : c ≠ '-') (h0 : c ≠ '0') :
      c ∉ (((toText (value.tmod (10 ^ d))).leftpad d '0').take p).rdropWhile (· = '0') := by
    intro hmem
    have hpad := List.mem_of_mem_take ((List.rdropWhile_prefix _ _).subset hmem)
    rcases List.mem_append.mp hpad with hz | ht
    · exact h0 (List.eq_of_mem_replicate hz)
    · exact notMem_toText hc hm _ ht
  split_ifs with h hne
  · exact .inl rfl
  · exact .inr ⟨_, hne, hnot (by decide) (by decide) (by decide), hnot (by decide) (by decide) (by decide),
      rfl⟩
  · exact .inl rfl

theorem filter_formatTokenAmount (value : ℤ) (p : ℕ) :
    (formatTokenAmount value p).filter (· ≠ ',') = formatAmount value 18 p := by
  have hfilter {t : Text} (h : ',' ∉ t) : t.filter (· ≠ ',') = t := by
    rw [List.filter_eq_self]
    intro c hc
    simpa using ne_of_mem_of_not_mem hc h
  obtain ⟨whole, hdot, hcomma, hplain | ⟨frac, hne, hdot', hcomma', hplain⟩⟩ :=
    formatAmount_cases value 18 p
  · have hsplit : whole.splitOn '.' = [whole] := List.splitOn_eq_singleton hdot
    simp only [formatTokenAmount, hplain, hsplit, List.getD_cons_zero]
    exact (filter_groupThousands none whole).trans (hfilter hcomma)
  · have hsplit : (whole ++ '.' :: frac).splitOn '.' = [whole, frac] := by
      rw [List.splitOn_append_cons_self_of_not_mem hdot, List.splitOn_eq_singleton hdot']
    simp only [formatTokenAmount, hplain, hsplit, List.getD_cons_zero]
    change (if frac ≠ [] then groupThousands none whole ++ '.' :: frac
      else groupThousands none whole).filter (· ≠ ',') = _
    rw [if_pos hne, List.filter_append, filter_groupThousands, hfilter hcomma,
      hfilter (by simpa using hcomma')]

end Formatting

/-- Amounts survive being written and read, grouping aside, and exactly the decimal texts with at most
`d` places are read, each as what it says. -/
theorem money_strings_exact (d v p : ℕ) (hp : p ≤ d) (precision : ℕ) (s : Text) :
    parseUnits (formatAmount v d p) d = .ok (v - v % 10 ^ (d - p) : ℕ) ∧
    (formatTokenAmount v precision).filter (· ≠ ',') = formatAmount v 18 precision ∧
    ((∃ n, parseUnits s d = .ok n) ↔ ∃ q, Decimal d (trim s) q) ∧
    ∀ n q, parseUnits s d = .ok n → Decimal d (trim s) q → (n : ℚ) = q * 10 ^ d := by
  refine ⟨parseUnits_formatAmount v hp, filter_formatTokenAmount v precision,
    ⟨fun ⟨n, hn⟩ => parseUnits_decimal hn, fun ⟨q, hq⟩ => ?_⟩, fun n q hn hq => ?_⟩
  · obtain ⟨n, hn, -⟩ := hq.parse
    exact ⟨n, hn⟩
  · obtain ⟨m, hm, hvalue⟩ := hq.parse
    cases hn.symm.trans hm
    exact hvalue

theorem money_strings_exact_sample :
    parseUnits (formatAmount (1234567 : ℕ) 6 2) 6 = .ok (1234567 - 1234567 % 10 ^ (6 - 2) : ℕ) ∧
    (formatTokenAmount (1234567 : ℕ) 2).filter (· ≠ ',') = formatAmount (1234567 : ℕ) 18 2 ∧
    ((∃ n, parseUnits "1.5".toList 6 = .ok n) ↔ ∃ q, Decimal 6 (trim "1.5".toList) q) ∧
    ∀ n q, parseUnits "1.5".toList 6 = .ok n → Decimal 6 (trim "1.5".toList) q → (n : ℚ) = q * 10 ^ 6 :=
  money_strings_exact 6 1234567 2 (by decide) 2 "1.5".toList

end Fidensur.MoneyText
