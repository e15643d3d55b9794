import Mathlib

set_option autoImplicit false

namespace ByteWords

abbrev Bytes := List UInt8

def value (b : Bytes) : ℕ := b.foldl (fun acc x => acc * 256 + x.toNat) 0

/-- The last `k` base-256 digits of a number, most significant first. -/
def ofNat : ℕ → ℕ → Bytes
  | 0, _ => []
  | k + 1, v => ofNat k (v / 256) ++ [UInt8.ofNat v]

@[simp] theorem length_ofNat (k v : ℕ) : (ofNat k v).length = k := by
  induction k generalizing v with
  | zero => rfl
  | succ k ih => simp [ofNat, ih]

@[simp] theorem value_nil : value [] = 0 := rfl

@[simp] theorem value_concat (b : Bytes) (x : UInt8) : value (b ++ [x]) = value b * 256 + x.toNat := by
  simp [value]

theorem value_ofNat (k v : ℕ) : value (ofNat k v) = v % 256 ^ k := by
  induction k generalizing v with
  | zero => simp [ofNat, Nat.mod_one]
  | succ k ih =>
    have hd : (UInt8.ofNat v).toNat = v % 256 := by simp
    rw [ofNat, value_concat, ih, hd, Nat.pow_succ', Nat.mod_mul]
    ring

theorem value_lt (b : Bytes) : value b < 256 ^ b.length := by
  induction b using List.reverseRecOn with
  | nil => simp
  | append_singleton b x ih =>
    have hx : x.toNat < 256 := x.toNat_lt
    rw [value_concat, List.length_append, List.length_singleton, Nat.pow_succ]
    omega

theorem ofNat_value (b : Bytes) : ofNat b.length (value b) = b := by
  induction b using List.reverseRecOn with
  | nil => rfl
  | append_singleton b x ih =>
    have hx : x.toNat < 256 := x.toNat_lt
    have hdiv : (value b * 256 + x.toNat) / 256 = value b := by omega
    have hmod : UInt8.ofNat (value b * 256 + x.toNat) = x := by
      apply UInt8.toNat_inj.mp
      simp only [UInt8.toNat_ofNat']
      omega
    rw [List.length_append, List.length_singleton, ofNat, value_concat, hdiv, hmod, ih]

theorem ofNat_injective {k v w : ℕ} (hv : v < 256 ^ k) (hw : w < 256 ^ k)
    (h : ofNat k v = ofNat k w) : v = w := by
  have he := congrArg value h
  rwa [value_ofNat, value_ofNat, Nat.mod_eq_of_lt hv, Nat.mod_eq_of_lt hw] at he

def ofWords (k : ℕ) (words : List ℕ) : Bytes := words.flatMap (ofNat k)

@[simp] theorem ofWords_nil (k : ℕ) : ofWords k [] = [] := rfl

@[simp] theorem ofWords_cons (k v : ℕ) (words : List ℕ) :
    ofWords k (v :: words) = ofNat k v ++ ofWords k words := rfl

theorem length_ofWords (k : ℕ) (words : List ℕ) : (ofWords k words).length = k * words.length := by
  induction words with
  | nil => simp
  | cons v words ih => simp only [ofWords_cons, List.length_append, length_ofNat, ih, List.length_cons]; ring

theorem ofWords_injective {k : ℕ} {vs ws : List ℕ} (hl : vs.length = ws.length)
    (hv : ∀ v ∈ vs, v < 256 ^ k) (hw : ∀ w ∈ ws, w < 256 ^ k)
    (h : ofWords k vs = ofWords k ws) : vs = ws := by
  induction vs generalizing ws with
  | nil => exact (List.length_eq_zero_iff.mp hl.symm).symm
  | cons v vs ih =>
    cases ws with
    | nil => simp at hl
    | cons w ws =>
      obtain ⟨hhead, htail⟩ := List.append_inj h (by simp)
      have he : v = w := ofNat_injective (hv v (by simp)) (hw w (by simp)) hhead
      have ht : vs = ws := ih (by simpa using hl) (fun x hx => hv x (by simp [hx]))
        (fun x hx => hw x (by simp [hx])) htail
      rw [he, ht]

def wordAt (k i : ℕ) (b : Bytes) : ℕ := value ((b.drop (k * i)).take k)

theorem wordAt_ofWords (k : ℕ) (words : List ℕ) (i : ℕ) (hi : i < words.length)
    (hb : words[i] < 256 ^ k) : wordAt k i (ofWords k words) = words[i] := by
  induction words generalizing i with
  | nil => simp at hi
  | cons v words ih =>
    cases i with
    | zero =>
      have hv : v < 256 ^ k := by simpa using hb
      simp [wordAt, value_ofNat, Nat.mod_eq_of_lt hv]
    | succ i =>
      have ht := ih i (by simpa using hi) (by simpa using hb)
      have hdrop : (ofWords k (v :: words)).drop (k * (i + 1)) = (ofWords k words).drop (k * i) := by
        rw [ofWords_cons, Nat.mul_succ, Nat.add_comm, ← List.drop_drop,
          List.drop_left' (length_ofNat k v)]
      simpa only [wordAt, hdrop, List.getElem_cons_succ] using ht

end ByteWords
