import Fidensur.AllocationRules

set_option autoImplicit false

namespace Fidensur

open ByteWords

def wordFrom (offset : ℕ) (data : Bytes) : ℕ := ByteWords.value ((data.drop offset).take 32)

theorem wordFrom_ofWords {words : List ℕ} {i v : ℕ} (h : words[i]? = some v) (hlt : v < 256 ^ 32) :
    wordFrom (32 * i) (ofWords 32 words) = v := by
  obtain ⟨hi, rfl⟩ := List.getElem?_eq_some_iff.mp h
  exact wordAt_ofWords 32 words i hi hlt

def EntryTerms.words (e : EntryTerms) : List ℕ := [e.recipient, e.weight, e.amount]

namespace PolicyTerms

/-- The offset of the tuple, then its components, the two lists by their offsets from its start. -/
def headWords (t : PolicyTerms) : List ℕ :=
  [32, t.contractAddr, t.roundId, t.organization, t.mode, t.totalBudget, t.minAlloc, t.maxAlloc, 320,
    t.salt, 352 + 32 * t.bands.length]

def words (t : PolicyTerms) : List ℕ :=
  t.headWords ++ t.bands.length :: (t.bands.map Fin.val ++
    t.entries.length :: t.entries.flatMap EntryTerms.words)

def encode (t : PolicyTerms) : Bytes := ofWords 32 t.words

end PolicyTerms

/-- Reading a policy back: the lists lie at their offsets and have to fit the data. -/
def decodePolicy (data : Bytes) : Except String Policy :=
  let base := wordFrom 0 data
  let field (i : ℕ) := wordFrom (base + 32 * i) data
  let bands := base + field 7
  let entries := base + field 9
  let bandCount := wordFrom bands data
  let entryCount := wordFrom entries data
  if 256 ≤ field 3 then .error "abi: improperly encoded uint8 value"
  else if data.length < bands + 32 + 32 * bandCount ∨ data.length < entries + 32 + 96 * entryCount then
    .error "abi: cannot marshal in to go slice"
  else .ok
    { contractAddr := Fin.ofNat _ (field 0)
      roundId := some (field 1)
      organization := Fin.ofNat _ (field 2)
      mode := UInt8.ofNat (field 3)
      totalBudget := some (field 4)
      minAlloc := some (field 5)
      maxAlloc := some (field 6)
      bands := (List.range bandCount).map (fun j => some ((wordFrom (bands + 32 + 32 * j) data : ℕ) : ℤ))
      salt := Fin.ofNat _ (field 8)
      entries := (List.range entryCount).map (fun j =>
        { recipient := Fin.ofNat _ (wordFrom (entries + 32 + 96 * j) data)
          weight := some (wordFrom (entries + 64 + 96 * j) data : ℕ)
          amount := some (wordFrom (entries + 96 + 96 * j) data : ℕ) }) }

namespace PolicyTerms

variable (t : PolicyTerms)

theorem words_lt (hmode : t.mode < 256) (hbands : t.bands.length < 2 ^ 32)
    (hentries : t.entries.length < 2 ^ 32) : ∀ w ∈ t.words, w < 256 ^ 32 := by
  have hword (n : Uint256) : (n : ℕ) < 256 ^ 32 := lt_of_lt_of_eq n.isLt (by norm_num)
  have haddr (a : Address) : (a : ℕ) < 256 ^ 32 := lt_trans a.isLt (by norm_num)
  simp only [words, headWords, List.cons_append, List.nil_append, List.forall_mem_cons, List.forall_mem_append,
    List.forall_mem_map, List.mem_flatMap, forall_exists_index, and_imp]
  refine ⟨by norm_num, haddr _, hword _, haddr _, by omega, hword _, hword _, hword _, by norm_num,
    hword _, by omega, by omega, fun b _ => hword b, by omega, ?_⟩
  intro w e _ hw
  simp only [EntryTerms.words, List.mem_cons, List.not_mem_nil, or_false] at hw
  rcases hw with rfl | rfl | rfl
  · exact haddr _
  · exact hword _
  · exact hword _

theorem length_entryWords (es : List EntryTerms) : (es.flatMap EntryTerms.words).length = 3 * es.length := by
  induction es with
  | nil => rfl
  | cons e es ih =>
    rw [List.flatMap_cons, List.length_append, ih, List.length_cons, EntryTerms.words]
    simp only [List.length_cons, List.length_nil]
    omega

theorem entryWords_getElem? (es : List EntryTerms) {j : ℕ} (hj : j < es.length) :
    (es.flatMap EntryTerms.words)[3 * j]? = some (es[j].recipient : ℕ) ∧
      (es.flatMap EntryTerms.words)[3 * j + 1]? = some (es[j].weight : ℕ) ∧
      (es.flatMap EntryTerms.words)[3 * j + 2]? = some (es[j].amount : ℕ) := by
  induction es generalizing j with
  | nil => cases hj
  | cons e es ih =>
    cases j with
    | zero => exact ⟨rfl, rfl, rfl⟩
    | succ j =>
      have hnext : 3 * (j + 1) = 3 * j + 1 + 1 + 1 := by omega
      rw [hnext]
      exact ih (Nat.lt_of_succ_lt_succ hj)

theorem length_words : t.words.length = 13 + t.bands.length + 3 * t.entries.length := by
  simp only [words, headWords, List.length_append, List.length_cons, List.length_nil, List.length_map,
    length_entryWords]
  omega

theorem words_band {j : ℕ} (hj : j < t.bands.length) : t.words[12 + j]? = some (t.bands[j] : ℕ) := by
  have hindex : 12 + j = j + 12 := by omega
  rw [hindex]
  change (t.bands.map Fin.val ++ _)[j]? = _
  rw [List.getElem?_append_left (by simpa using hj), List.getElem?_map, List.getElem?_eq_getElem hj,
    Option.map_some]

theorem words_beyond (i : ℕ) : t.words[12 + t.bands.length + i]? =
    (t.entries.length :: t.entries.flatMap EntryTerms.words)[i]? := by
  have hindex : 12 + t.bands.length + i = (t.bands.length + i) + 12 := by omega
  rw [hindex]
  change (t.bands.map Fin.val ++ _)[t.bands.length + i]? = _
  rw [List.getElem?_append_right (by simp), List.length_map, Nat.add_sub_cancel_left]

theorem words_entry {j : ℕ} (hj : j < t.entries.length) :
    t.words[12 + t.bands.length + (3 * j + 1)]? = some (t.entries[j].recipient : ℕ) ∧
      t.words[12 + t.bands.length + (3 * j + 2)]? = some (t.entries[j].weight : ℕ) ∧
      t.words[12 + t.bands.length + (3 * j + 3)]? = some (t.entries[j].amount : ℕ) := by
  rw [words_beyond, words_beyond, words_beyond]
  exact entryWords_getElem? t.entries hj

theorem decodePolicy_encode (hmode : t.mode < 256) (hbands : t.bands.length < 2 ^ 32)
    (hentries : t.entries.length < 2 ^ 32) : decodePolicy t.encode = .ok t.policy := by
  have hword {i v : ℕ} (h : t.words[i]? = some v) : wordFrom (32 * i) t.encode = v :=
    wordFrom_ofWords h (t.words_lt hmode hbands hentries v (List.mem_of_getElem? h))
  have hlen : t.encode.length = 32 * (13 + t.bands.length + 3 * t.entries.length) := by
    rw [encode, length_ofWords, length_words]
  have hbase : wordFrom 0 t.encode = 32 := hword (i := 0) rfl
  have h0 : wordFrom 32 t.encode = t.contractAddr := hword (i := 1) rfl
  have h1 : wordFrom 64 t.encode = t.roundId := hword (i := 2) rfl
  have h2 : wordFrom 96 t.encode = t.organization := hword (i := 3) rfl
  have h3 : wordFrom 128 t.encode = t.mode := hword (i := 4) rfl
  have h4 : wordFrom 160 t.encode = t.totalBudget := hword (i := 5) rfl
  have h5 : wordFrom 192 t.encode = t.minAlloc := hword (i := 6) rfl
  have h6 : wordFrom 224 t.encode = t.maxAlloc := hword (i := 7) rfl
  have h7 : wordFrom 256 t.encode = 320 := hword (i := 8) rfl
  have h8 : wordFrom 288 t.encode = t.salt := hword (i := 9) rfl
  have h9 : wordFrom 320 t.encode = 352 + 32 * t.bands.length := hword (i := 10) rfl
  have hbandCount : wordFrom 352 t.encode = t.bands.length := hword (i := 11) rfl
  have hentryCount : wordFrom (32 + (352 + 32 * t.bands.length)) t.encode = t.entries.length := by
    have hoffset : 32 + (352 + 32 * t.bands.length) = 32 * (12 + t.bands.length + 0) := by omega
    rw [hoffset]
    exact hword (t.words_beyond 0)
  have hbandList : (List.range t.bands.length).map
      (fun j => some ((wordFrom (384 + 32 * j) t.encode : ℕ) : ℤ)) = t.bands.map pointer := by
    apply List.ext_getElem (by simp)
    intro j hj _
    rw [List.length_map, List.length_range] at hj
    have hoffset : 384 + 32 * j = 32 * (12 + j) := by omega
    simp only [List.getElem_map, List.getElem_range, hoffset, hword (t.words_band hj), pointer]
  have hentryList : (List.range t.entries.length).map (fun j => PolicyEntry.mk
      (Fin.ofNat _ (wordFrom (32 + (352 + 32 * t.bands.length) + 32 + 96 * j) t.encode))
      (some ((wordFrom (32 + (352 + 32 * t.bands.length) + 64 + 96 * j) t.encode : ℕ) : ℤ))
      (some ((wordFrom (32 + (352 + 32 * t.bands.length) + 96 + 96 * j) t.encode : ℕ) : ℤ))) =
        t.entries.map EntryTerms.entry := by
    apply List.ext_getElem (by simp)
    intro j hj _
    rw [List.length_map, List.length_range] at hj
    obtain ⟨hrecipient, hweight, hamount⟩ := t.words_entry hj
    have hoffset (k : ℕ) : 32 + (352 + 32 * t.bands.length) + 32 * k + 96 * j =
        32 * (12 + t.bands.length + (3 * j + k)) := by ring
    simp only [List.getElem_map, List.getElem_range, hoffset 1, hoffset 2, hoffset 3, hword hrecipient,
      hword hweight, hword hamount, EntryTerms.entry, pointer, Fin.ofNat_eq_cast, Fin.cast_val_eq_self]
  unfold decodePolicy
  simp only [hbase, Nat.reduceMul, Nat.reduceAdd, h0, h1, h2, h3, h4, h5, h6, h7, h8, h9, hbandCount,
    hentryCount, hlen, hbandList, hentryList, policy, pointer]
  rw [if_neg (by omega), if_neg (by omega)]
  simp only [Fin.ofNat_eq_cast, Fin.cast_val_eq_self]

end PolicyTerms

end Fidensur
