import Mathlib

set_option autoImplicit false

namespace DigitText

/-- The last `k` hexadecimal digits of a number, in lower case. -/
def hexDigits : ℕ → ℕ → List Char
  | 0, _ => []
  | k + 1, n => hexDigits k (n / 16) ++ [Nat.digitChar (n % 16)]

def hexDigit (c : Char) : ℕ :=
  if '0' ≤ c ∧ c ≤ '9' then c.toNat - 48
  else if 'a' ≤ c ∧ c ≤ 'f' then c.toNat - 87
  else if 'A' ≤ c ∧ c ≤ 'F' then c.toNat - 55
  else 0

def hexValue (digits : List Char) : ℕ := digits.foldl (fun acc c => acc * 16 + hexDigit c) 0

@[simp] theorem length_hexDigits (k n : ℕ) : (hexDigits k n).length = k := by
  induction k generalizing n with
  | zero => rfl
  | succ k ih => simp [hexDigits, ih]

theorem hexDigits_zero (k : ℕ) : hexDigits k 0 = List.replicate k '0' := by
  induction k with
  | zero => rfl
  | succ k ih => rw [hexDigits, Nat.zero_div, ih, Nat.zero_mod, List.replicate_succ']; rfl

theorem mem_hexDigits {k n : ℕ} {c : Char} (h : c ∈ hexDigits k n) :
    ∃ d < 16, c = Nat.digitChar d := by
  induction k generalizing n with
  | zero => cases h
  | succ k ih =>
    rw [hexDigits, List.mem_append, List.mem_singleton] at h
    rcases h with h | h
    · exact ih h
    · exact ⟨n % 16, Nat.mod_lt n (by decide), h⟩

theorem hexDigit_digitChar {d : ℕ} (h : d < 16) : hexDigit (Nat.digitChar d) = d := by
  have hall : ∀ d < 16, hexDigit (Nat.digitChar d) = d := by decide
  exact hall d h

theorem hexDigit_toUpper {k n : ℕ} {c : Char} (h : c ∈ hexDigits k n) :
    hexDigit c.toUpper = hexDigit c := by
  have hall : ∀ d < 16, hexDigit (Nat.digitChar d).toUpper = hexDigit (Nat.digitChar d) := by decide
  obtain ⟨d, hd, rfl⟩ := mem_hexDigits h
  exact hall d hd

theorem hexValue_concat (digits : List Char) (c : Char) :
    hexValue (digits ++ [c]) = hexValue digits * 16 + hexDigit c := by
  simp [hexValue]

theorem hexValue_hexDigits (k n : ℕ) : hexValue (hexDigits k n) = n % 16 ^ k := by
  induction k generalizing n with
  | zero => simp [hexDigits, hexValue, Nat.mod_one]
  | succ k ih =>
    rw [hexDigits, hexValue_concat, ih, hexDigit_digitChar (Nat.mod_lt n (by decide)), Nat.pow_succ',
      Nat.mod_mul]
    ring

theorem hexValue_mapIdx {digits : List Char} {f : ℕ → Char → Char}
    (h : ∀ i, ∀ c ∈ digits, hexDigit (f i c) = hexDigit c) :
    hexValue (digits.mapIdx f) = hexValue digits := by
  induction digits using List.reverseRecOn with
  | nil => rfl
  | append_singleton digits c ih =>
    rw [List.mapIdx_append, List.mapIdx_singleton, hexValue_concat, hexValue_concat,
      ih (fun i c' hc' => h i c' (List.mem_append_left _ hc')), h _ c (by simp)]

theorem append_cons_inj {α : Type} {c : α} {x x' y y' : List α} (hx : c ∉ x) (hx' : c ∉ x')
    (h : x ++ c :: y = x' ++ c :: y') : x = x' ∧ y = y' := by
  induction x generalizing x' with
  | nil =>
    cases x' with
    | nil => exact ⟨rfl, (List.cons.inj h).2⟩
    | cons a x' => exact absurd (List.cons.inj h).1 (fun heq => hx' (heq ▸ List.mem_cons_self))
  | cons a x ih =>
    cases x' with
    | nil => exact absurd (List.cons.inj h).1.symm (fun heq => hx (heq ▸ List.mem_cons_self))
    | cons b x' =>
      obtain ⟨rfl, htail⟩ := List.cons.inj h
      obtain ⟨rfl, rfl⟩ := ih (fun hm => hx (List.mem_cons_of_mem _ hm))
        (fun hm => hx' (List.mem_cons_of_mem _ hm)) htail
      exact ⟨rfl, rfl⟩

theorem notMem_natRepr {c : Char} (hc : c.isDigit = false) (n : ℕ) : c ∉ n.repr.toList := by
  intro h
  rw [Nat.toList_repr] at h
  have := Nat.isDigit_of_mem_toDigits (by decide) (by decide) h
  rw [hc] at this
  cases this

theorem space_notMem_natRepr (n : ℕ) : ' ' ∉ n.repr.toList := notMem_natRepr (by decide) n

theorem space_notMem_intRepr (a : ℤ) : ' ' ∉ a.repr.toList := by
  rw [Int.repr_eq_if]
  split
  · exact space_notMem_natRepr _
  · simp only [String.toList_append, List.mem_append, not_or]
    exact ⟨by decide, space_notMem_natRepr _⟩

theorem append_append_inj {x x' pre sep tail tail' : String} (hx : ' ' ∉ x.toList)
    (hx' : ' ' ∉ x'.toList) (hsep : sep.toList.head? = some ' ')
    (h : pre ++ x ++ sep ++ tail = pre ++ x' ++ sep ++ tail') : x = x' ∧ tail = tail' := by
  obtain ⟨rest, hrest⟩ : ∃ rest, sep.toList = ' ' :: rest := by
    cases hl : sep.toList with
    | nil => simp [hl] at hsep
    | cons c rest => exact ⟨rest, by simpa [hl] using hsep⟩
  have hl := congrArg String.toList h
  simp only [String.toList_append, hrest, List.append_assoc, List.cons_append] at hl
  obtain ⟨hhead, htail⟩ := append_cons_inj hx hx' (List.append_cancel_left hl)
  exact ⟨String.toList_inj.mp hhead, String.toList_inj.mp (List.append_cancel_left htail)⟩

theorem intRepr_pair_inj {a a' b b' : ℤ} {pre sep : String} (hsep : sep.toList.head? = some ' ')
    (h : pre ++ a.repr ++ sep ++ b.repr = pre ++ a'.repr ++ sep ++ b'.repr) : a = a' ∧ b = b' := by
  obtain ⟨ha, hb⟩ := append_append_inj (space_notMem_intRepr a) (space_notMem_intRepr a') hsep h
  exact ⟨Int.repr_injective ha, Int.repr_injective hb⟩

end DigitText
