import Fidensur.Viem
import Fidensur.MerkleTree

set_option autoImplicit false

namespace Fidensur.BrowserMerkle

open ByteWords HexText

structure AllocationLeaf where
  roundId : ℤ
  index : ℤ
  recipient : Text
  amount : ℤ

/-- `BigInt` of a hexadecimal text; anything else is a syntax error. -/
def bigInt (t : Text) : Except String ℕ :=
  match number t with
  | some n => .ok n
  | none => .error ("Cannot convert " ++ String.ofList t ++ " to a BigInt")

section Hashing

variable {keccak : Keccak} (V : Viem keccak)

def leafHash (entry : AllocationLeaf) : Except String Text := do
  let inner ← V.keccak256 (← V.encodeAbiParameters
    [.uint256 entry.roundId, .uint256 entry.index, .address entry.recipient, .uint256 entry.amount])
  V.keccak256 inner

def hashPair (a b : Text) : Except String Text := do
  if (← bigInt a) < (← bigInt b) then V.keccak256 (V.concatHex [a, b])
  else V.keccak256 (V.concatHex [b, a])

def verifyProof (root leaf : Text) (proof : List Text) : Except String Bool := do
  if (← bigInt root) = 0 then return false
  return (← proof.foldlM (hashPair V) leaf) = root

structure Step where
  current : Text
  sibling : Text
  next : Text
  siblingIsLeft : Bool

structure ProofTrace where
  leaf : Text
  steps : List Step
  computedRoot : Text
  expectedRoot : Text
  valid : Bool

def traceSteps (current : Text) : List Text → Except String (List Step × Text)
  | [] => .ok ([], current)
  | sibling :: proof => do
      let siblingIsLeft := decide ((← bigInt sibling) < (← bigInt current))
      let next ← hashPair V current sibling
      let (steps, computedRoot) ← traceSteps next proof
      return (⟨current, sibling, next, siblingIsLeft⟩ :: steps, computedRoot)

def traceProof (root : Text) (entry : AllocationLeaf) (proof : List Text) :
    Except String ProofTrace := do
  let leaf ← leafHash V entry
  let (steps, computedRoot) ← traceSteps V leaf proof
  return ⟨leaf, steps, computedRoot, root, (← bigInt root) ≠ 0 && computedRoot = root⟩

/-- One round of the inner loop of `buildTree` takes two nodes, or a trailing one. -/
def nextLevel : List Text → Except String (List Text)
  | left :: right :: rest => do
      let parent ← hashPair V left right
      return parent :: (← nextLevel rest)
  | [left] => .ok [left]
  | [] => .ok []

/-- The outer loop of `buildTree`; a level of `n` nodes takes at most `n` rounds. -/
def buildLevels : ℕ → List Text → Except String (List (List Text))
  | 0, level => .ok [level]
  | fuel + 1, level =>
      if 1 < level.length then do
        let next ← nextLevel V level
        return level :: (← buildLevels fuel next)
      else .ok [level]

structure Tree where
  root : Text
  levels : List (List Text)

def buildTree (leaves : List Text) : Except String Tree := do
  require (leaves ≠ []) "cannot build a Merkle tree over zero leaves"
  let levels ← buildLevels V leaves.length leaves
  match (levels.getLastD []).head? with
  | none => .error "internal: tree collapsed to an empty level"
  | some root => return ⟨root, levels⟩

end Hashing

section Proofs

-- The bit operators of the language work on signed 32-bit integers.
def xor32 (a b : ℤ) : ℤ := (BitVec.ofInt 32 a ^^^ BitVec.ofInt 32 b).toInt

def shiftRight32 (a : ℤ) (n : ℕ) : ℤ := ((BitVec.ofInt 32 a).sshiftRight n).toInt

/-- An array read; there is nothing at negative positions. -/
def at? (level : List Text) (i : ℤ) : Option Text := if 0 ≤ i then level[i.toNat]? else none

def buildProof : List (List Text) → ℤ → List Text
  | level :: next :: above, idx =>
      (at? level (xor32 idx 1)).toList ++ buildProof (next :: above) (shiftRight32 idx 1)
  | _, _ => []

end Proofs

section Refinement

variable {keccak : Keccak} (V : Viem keccak)

theorem bigInt_wordText (w : Bytes32) : bigInt (wordText w) = .ok (w : ℕ) := by
  rw [bigInt, wordText, number_ofWord (word_lt w)]

theorem concatHex_wordText (a b : Bytes32) : V.concatHex [wordText a, wordText b] = ofBytes (abiEncode [a, b]) := by
  have hconcat := V.concatHex_ofBytes [ofNat 32 a, ofNat 32 b]
  simpa [wordText, ofWord, abiEncode] using hconcat

theorem hashPair_wordText (a b : Bytes32) :
    hashPair V (wordText a) (wordText b) = .ok (wordText (AllocationMerkle.hashPair keccak a b)) := by
  simp only [hashPair, bigInt_wordText, bind, Except.bind, concatHex_wordText, V.keccak256_ofBytes,
    AllocationMerkle.hashPair, AllocationMerkle.efficientHash, Fin.lt_def]
  split_ifs <;> rfl

theorem leafHash_wordText (roundId index amount : Uint256) {recipient : Address} {text : Text}
    (h : (AbiParam.address text).Denotes keccak recipient) :
    leafHash V ⟨(roundId : ℕ), (index : ℕ), text, (amount : ℕ)⟩ =
      .ok (wordText (AllocationMerkle.leafHash keccak roundId index recipient amount)) := by
  have hencode := V.encodeAbiParameters_of_denotes (.cons (.uint256 roundId)
    (.cons (.uint256 index) (.cons h (.cons (.uint256 amount) .nil))))
  simp only [leafHash, hencode, bind, Except.bind, V.keccak256_ofBytes]
  exact V.keccak256_ofBytes _

theorem foldlM_hashPair (leaf : Bytes32) (proof : List Bytes32) :
    (proof.map wordText).foldlM (hashPair V) (wordText leaf) =
      .ok (wordText (proof.foldl (AllocationMerkle.hashPair keccak) leaf)) := by
  induction proof generalizing leaf with
  | nil => rfl
  | cons sibling proof ih =>
    rw [List.map_cons, List.foldlM_cons, hashPair_wordText]
    exact ih _

theorem wordText_inj (v w : Bytes32) : wordText v = wordText w ↔ v = w := by
  rw [wordText, wordText, ofWord_inj (word_lt v) (word_lt w), Fin.ext_iff]

theorem verifyProof_wordText {root : Bytes32} (hroot : root ≠ 0) (leaf : Bytes32)
    (proof : List Bytes32) :
    verifyProof V (wordText root) (wordText leaf) (proof.map wordText) =
      .ok (AllocationMerkle.verifyLeaf keccak root leaf proof) := by
  have hne : (root : ℕ) ≠ 0 := fun h => hroot (Fin.ext h)
  simp only [verifyProof, bigInt_wordText, foldlM_hashPair, bind, Except.bind, hne, if_false,
    wordText_inj, AllocationMerkle.verifyLeaf]
  rfl

theorem traceSteps_wordText (leaf : Bytes32) (proof : List Bytes32) :
    ∃ steps, traceSteps V (wordText leaf) (proof.map wordText) =
      .ok (steps, wordText (proof.foldl (AllocationMerkle.hashPair keccak) leaf)) := by
  induction proof generalizing leaf with
  | nil => exact ⟨[], rfl⟩
  | cons sibling proof ih =>
    obtain ⟨steps, hsteps⟩ := ih (AllocationMerkle.hashPair keccak leaf sibling)
    simp only [List.map_cons, traceSteps, bigInt_wordText, hashPair_wordText, bind, Except.bind, hsteps,
      List.foldl_cons]
    exact ⟨_, rfl⟩

theorem traceProof_wordText {root : Bytes32} (hroot : root ≠ 0) {roundId index amount : Uint256}
    {recipient : Address} {text : Text} (h : (AbiParam.address text).Denotes keccak recipient)
    (proof : List Bytes32) :
    (traceProof V (wordText root) ⟨(roundId : ℕ), (index : ℕ), text, (amount : ℕ)⟩
        (proof.map wordText)).map ProofTrace.valid =
      .ok (AllocationMerkle.verifyLeaf keccak root
        (AllocationMerkle.leafHash keccak roundId index recipient amount) proof) := by
  have hne : (root : ℕ) ≠ 0 := fun hz => hroot (Fin.ext hz)
  obtain ⟨steps, hsteps⟩ := traceSteps_wordText V
    (AllocationMerkle.leafHash keccak roundId index recipient amount) proof
  simp only [traceProof, leafHash_wordText V roundId index amount h, hsteps, bigInt_wordText, bind, Except.bind, pure, Except.pure,
    Except.map, AllocationMerkle.verifyLeaf, wordText_inj, hne, ne_eq, not_false_eq_true, decide_true,
    Bool.true_and]

theorem nextLevel_wordText (level : List Bytes32) :
    nextLevel V (level.map wordText) =
      .ok ((PairHashTree.nextLevel (AllocationMerkle.hashPair keccak) level).map
        wordText) := by
  induction level using PairHashTree.nextLevel.induct with
  | case1 => rfl
  | case2 a => rfl
  | case3 a b rest ih =>
    simp only [List.map_cons, nextLevel, hashPair_wordText, ih, bind, Except.bind]
    rfl

theorem buildLevels_wordText (fuel : ℕ) (level : List Bytes32) :
    buildLevels V fuel (level.map wordText) =
      .ok ((PairHashTree.levels (AllocationMerkle.hashPair keccak) fuel level).map
        (List.map wordText)) := by
  induction fuel generalizing level with
  | zero => rfl
  | succ fuel ih =>
    rw [buildLevels, PairHashTree.levels, List.length_map]
    by_cases h : 1 < level.length
    · rw [if_pos h, if_neg (by omega), nextLevel_wordText]
      simp only [bind, Except.bind, ih]
      rfl
    · rw [if_neg h, if_pos (by omega)]
      rfl

theorem buildTree_wordText {leaves : List Bytes32} {levels : List (List Bytes32)}
    (h : MerkleTree.buildMerkleTree keccak leaves = some levels) :
    buildTree V (leaves.map wordText) =
      .ok ⟨wordText (MerkleTree.root levels), levels.map (List.map wordText)⟩ := by
  obtain ⟨hne, rfl⟩ := MerkleTree.buildMerkleTree_eq keccak h
  obtain ⟨r, hr⟩ := PairHashTree.getLast_levels (AllocationMerkle.hashPair keccak) le_rfl hne
  have hlast : ((PairHashTree.levels (AllocationMerkle.hashPair keccak) leaves.length leaves).map
      (List.map wordText)).getLastD [] = [wordText r] := by
    rw [List.getLastD_eq_getLast?, List.getLast?_map]
    rw [List.getLastD_eq_getLast?] at hr
    cases hl : (PairHashTree.levels (AllocationMerkle.hashPair keccak) leaves.length leaves).getLast? with
    | none => simp [hl] at hr
    | some last =>
      rw [hl] at hr
      simp only [Option.getD_some] at hr
      simp [hr]
  have hmap : leaves.map wordText ≠ [] := by simpa using hne
  simp only [buildTree, require, hmap, ne_eq, not_false_eq_true, if_true, List.length_map,
    buildLevels_wordText, bind, Except.bind, hlast, MerkleTree.root, hr]
  rfl

end Refinement

section Siblings

theorem xor32_of_lt {i : ℕ} (h : i < 2 ^ 31) : xor32 i 1 = ((i ^^^ 1 : ℕ) : ℤ) := by
  have hlt : i ^^^ 1 < 2 ^ 31 := Nat.xor_lt_two_pow h (by norm_num)
  have hbits : BitVec.ofInt 32 (i : ℤ) ^^^ BitVec.ofInt 32 1 = BitVec.ofNat 32 (i ^^^ 1) := by
    apply BitVec.eq_of_toNat_eq
    simp
  rw [xor32, hbits, BitVec.toInt_ofNat', Int.bmod_eq_of_le (by omega) (by omega)]

theorem shiftRight32_of_lt {i : ℕ} (h : i < 2 ^ 31) : shiftRight32 i 1 = ((i / 2 : ℕ) : ℤ) := by
  rw [shiftRight32, BitVec.toInt_sshiftRight, BitVec.toInt_ofInt,
    Int.bmod_eq_of_le (by omega) (by omega), Int.shiftRight_eq_div_pow]
  norm_num

theorem xor32_neg {a : ℤ} (h : (BitVec.ofInt 32 a).toInt < 0) : xor32 a 1 < 0 := by
  have hsign := BitVec.msb_eq_toInt (x := BitVec.ofInt 32 a)
  have hsign' := BitVec.msb_eq_toInt (x := BitVec.ofInt 32 a ^^^ BitVec.ofInt 32 1)
  rw [BitVec.msb_xor, hsign, decide_eq_true h] at hsign'
  exact of_decide_eq_true hsign'.symm

theorem toInt_shiftRight32_neg {a : ℤ} (h : (BitVec.ofInt 32 a).toInt < 0) :
    (BitVec.ofInt 32 (shiftRight32 a 1)).toInt < 0 := by
  rw [shiftRight32, BitVec.ofInt_toInt, BitVec.toInt_sshiftRight, Int.shiftRight_eq_div_pow]
  omega

theorem buildProof_map (levels : List (List Bytes32)) {idx : ℕ} (h : idx < 2 ^ 31) :
    buildProof (levels.map (List.map wordText)) idx = (PairHashTree.proof levels idx).map wordText := by
  induction levels generalizing idx with
  | nil => rfl
  | cons level levels ih =>
    cases levels with
    | nil => rfl
    | cons next above =>
      have hhalf : idx / 2 < 2 ^ 31 := by omega
      have hsibling : at? (level.map wordText) ((idx ^^^ 1 : ℕ) : ℤ) = (level[idx ^^^ 1]?).map wordText := by
        simp [at?]
      simp only [List.map_cons, buildProof, PairHashTree.proof, xor32_of_lt h, shiftRight32_of_lt h,
        hsibling, List.map_append] at ih ⊢
      rw [ih hhalf]
      cases level[idx ^^^ 1]? <;> rfl

theorem buildProof_neg (levels : List (List Text)) {idx : ℤ} (h : (BitVec.ofInt 32 idx).toInt < 0) :
    buildProof levels idx = [] := by
  induction levels generalizing idx with
  | nil => rfl
  | cons level levels ih =>
    cases levels with
    | nil => rfl
    | cons next above =>
      have hnone : at? level (xor32 idx 1) = none := if_neg (not_le.mpr (xor32_neg h))
      rw [buildProof, hnone, ih (toInt_shiftRight32_neg h)]
      rfl

end Siblings

section Agreement

variable {keccak : Keccak} (V : Viem keccak) (leaves : List Bytes32) (index : ℕ)

structure SchemesAgree : Prop where
  leaf (roundId amount : Uint256) (i : ℕ) (hi : i < 2 ^ 64) (recipient : Address) (text : Text)
    (ht : (AbiParam.address text).Denotes keccak recipient) :
    MerkleTree.leafHash keccak (roundId : ℕ) i recipient (amount : ℕ) =
        AllocationMerkle.leafHash keccak roundId ⟨i, hi.trans (by norm_num)⟩ recipient amount ∧
      leafHash V ⟨(roundId : ℕ), i, text, (amount : ℕ)⟩ =
        .ok (wordText (MerkleTree.leafHash keccak (roundId : ℕ) i recipient (amount : ℕ)))
  tree : ∃ levels, MerkleTree.buildMerkleTree keccak leaves = some levels ∧
    buildTree V (leaves.map wordText) =
      .ok ⟨wordText (MerkleTree.root levels), levels.map (List.map wordText)⟩ ∧
    buildProof (levels.map (List.map wordText)) index =
      (MerkleTree.proof levels index).map wordText
  verify (root leaf : Bytes32) (hroot : root ≠ 0) (proof : List Bytes32) :
    MerkleTree.verifyProof keccak root leaf proof = AllocationMerkle.verifyLeaf keccak root leaf proof ∧
      verifyProof V (wordText root) (wordText leaf) (proof.map wordText) =
        .ok (AllocationMerkle.verifyLeaf keccak root leaf proof)
  trace (root : Bytes32) (hroot : root ≠ 0) (roundId i amount : Uint256) (recipient : Address)
    (text : Text) (ht : (AbiParam.address text).Denotes keccak recipient) (proof : List Bytes32) :
    (traceProof V (wordText root) ⟨(roundId : ℕ), (i : ℕ), text, (amount : ℕ)⟩
        (proof.map wordText)).map ProofTrace.valid =
      .ok (AllocationMerkle.verifyLeaf keccak root
        (AllocationMerkle.leafHash keccak roundId i recipient amount) proof)

variable {leaves index}

variable (keccak) in
theorem buildMerkleTree_isSome (hne : leaves ≠ []) :
    ∃ levels, MerkleTree.buildMerkleTree keccak leaves = some levels := by
  rw [MerkleTree.buildMerkleTree, if_neg hne]
  exact ⟨_, rfl⟩

theorem schemesAgree_of_lt (hi : index < leaves.length) (h31 : index < 2 ^ 31) :
    SchemesAgree V leaves index where
  leaf roundId amount i hi recipient text ht := by
    have hleaf : MerkleTree.leafHash keccak (roundId : ℕ) i recipient (amount : ℕ) =
        AllocationMerkle.leafHash keccak roundId ⟨i, hi.trans (by norm_num)⟩ recipient amount :=
      MerkleTree.leafHash_eq keccak rfl rfl rfl
    refine ⟨hleaf, ?_⟩
    rw [hleaf]
    exact leafHash_wordText V roundId ⟨i, hi.trans (by norm_num)⟩ amount ht
  tree := by
    obtain ⟨levels, hlevels⟩ := buildMerkleTree_isSome keccak
      (List.ne_nil_of_length_pos (Nat.zero_lt_of_lt hi))
    refine ⟨levels, hlevels, buildTree_wordText V hlevels, ?_⟩
    rw [MerkleTree.proof_eq keccak hlevels hi]
    exact buildProof_map levels h31
  verify root leaf hroot proof := by
    constructor
    · rw [MerkleTree.verifyProof, MerkleTree.hashPair_eq, AllocationMerkle.verifyLeaf]
    · exact verifyProof_wordText V hroot leaf proof
  trace root hroot roundId i amount recipient text ht proof := traceProof_wordText V hroot ht proof

/-- Beyond 31 bits the browser finds no sibling, where the engine finds at least one. -/
theorem lt_of_schemesAgree (hi : index < leaves.length) (hlen : leaves.length < 2 ^ 32)
    (h : SchemesAgree V leaves index) : index < 2 ^ 31 := by
  by_contra h31
  obtain ⟨levels, hlevels, -, hproof⟩ := h.tree
  have hneg : (BitVec.ofInt 32 (index : ℤ)).toInt < 0 := by
    rw [BitVec.toInt_ofInt, Int.bmod_def]
    omega
  rw [buildProof_neg _ hneg, MerkleTree.proof_eq keccak hlevels hi, eq_comm, List.map_eq_nil_iff] at hproof
  obtain ⟨-, rfl⟩ := MerkleTree.buildMerkleTree_eq keccak hlevels
  exact PairHashTree.proof_ne_nil _ le_rfl (by omega) hi hproof

theorem schemesAgree_iff_lt (V : Viem keccak) (leaves : List Bytes32) (index : ℕ)
    (hi : index < leaves.length) (hlen : leaves.length < 2 ^ 32) :
    SchemesAgree V leaves index ↔ index < 2 ^ 31 :=
  ⟨lt_of_schemesAgree V hi hlen, schemesAgree_of_lt V hi⟩

def sampleKeccak : Keccak := fun b => Fin.ofNat _ (ByteWords.value b)

/-- The last position of a tree of more than two billion leaves. -/
theorem large_tree_disagrees :
    ¬ ∀ (leaves : List Bytes32) (index : ℕ), index < leaves.length → leaves.length < 2 ^ 32 →
      SchemesAgree (Viem.standard sampleKeccak) leaves index := by
  intro hall
  have hlength : (List.replicate (2 ^ 31 + 1) (1 : Bytes32)).length = 2 ^ 31 + 1 := List.length_replicate
  have hagree := hall (List.replicate (2 ^ 31 + 1) 1) (2 ^ 31) (by omega) (by omega)
  have hlt := lt_of_schemesAgree _ (by omega) (by omega) hagree
  omega

theorem schemesAgree_iff_lt_sample :
    SchemesAgree (Viem.standard sampleKeccak) [5, 6, 7] 2 ↔ 2 < 2 ^ 31 :=
  schemesAgree_iff_lt (Viem.standard sampleKeccak) [5, 6, 7] 2 (by decide) (by decide)

end Agreement

end Fidensur.BrowserMerkle
