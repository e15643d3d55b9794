import Fidensur.BrowserPolicy
import Fidensur.PolicyEncoding

set_option autoImplicit false

namespace Fidensur.BrowserPolicy

open HexText

section Encoding

inductive AbiComponent
  | value (name type : String)
  | tuples (name : String) (components : List (String × String))

def policyAbi : List AbiComponent :=
  [.value "contractAddr" "address", .value "roundId" "uint256", .value "organization" "address",
    .value "mode" "uint8", .value "totalBudget" "uint256", .value "minAlloc" "uint256",
    .value "maxAlloc" "uint256", .value "bands" "uint256[]", .value "salt" "bytes32",
    .tuples "entries" [("recipient", "address"), ("weight", "uint256"), ("amount", "uint256")]]

/-- The layout the engine decodes with. -/
def policyArg : List AbiComponent :=
  [.value "contractAddr" "address", .value "roundId" "uint256", .value "organization" "address",
    .value "mode" "uint8", .value "totalBudget" "uint256", .value "minAlloc" "uint256",
    .value "maxAlloc" "uint256", .value "bands" "uint256[]", .value "salt" "bytes32",
    .tuples "entries" [("recipient", "address"), ("weight", "uint256"), ("amount", "uint256")]]

variable (keccak : Keccak)

/-- The encoder of the browser and the decoder of the engine: a policy encoded under the layout
the decoder knows is read back, and a mode that fills no `uint8` is not encoded. -/
structure PolicyCodec where
  encodeAbiParameters : List AbiComponent → Policy → Except String Text
  decodeTo : List AbiComponent → ByteWords.Bytes → Except String Fidensur.Policy
  decode_encode {policy : Policy} {t : PolicyTerms} (h : policy.Denotes keccak t) (hmode : t.mode < 256) :
    ∃ b, encodeAbiParameters policyArg policy = .ok (ofBytes b) ∧ decodeTo policyArg b = .ok t.policy
  encode_mode {policy : Policy} (hmode : 256 ≤ policy.mode) :
    ∃ e, encodeAbiParameters policyArg policy = .error e

variable {keccak}

namespace PolicyCodec

def headParams (policy : Policy) : List AbiParam :=
  [.uint256 32, .address policy.contractAddr, .uint256 policy.roundId, .address policy.organization,
    .uint256 policy.mode, .uint256 policy.totalBudget, .uint256 policy.minAlloc, .uint256 policy.maxAlloc,
    .uint256 320, .bytes32 policy.salt, .uint256 (352 + 32 * policy.bands.length : ℕ)]

def entryParams (entry : PolicyEntry) : List AbiParam :=
  [.address entry.recipient, .uint256 entry.weight, .uint256 entry.amount]

def params (policy : Policy) : List AbiParam :=
  headParams policy ++ AbiParam.uint256 policy.bands.length :: (policy.bands.map AbiParam.uint256 ++
    AbiParam.uint256 policy.entries.length :: policy.entries.flatMap entryParams)

theorem denotes_entries {es : List PolicyEntry} {ts : List EntryTerms}
    (h : List.Forall₂ (PolicyEntry.Denotes keccak) es ts) :
    List.Forall₂ (AbiParam.Denotes keccak) (es.flatMap entryParams) (ts.flatMap EntryTerms.words) := by
  induction h with
  | nil => exact .nil
  | cons hd _ ih =>
    rw [List.flatMap_cons, List.flatMap_cons, entryParams, hd.weight, hd.amount]
    exact .cons hd.recipient (.cons (.uint256 _) (.cons (.uint256 _) ih))

theorem denotes_params {policy : Policy} {t : PolicyTerms} (h : policy.Denotes keccak t)
    (hmode : t.mode < 256) : List.Forall₂ (AbiParam.Denotes keccak) (params policy) t.words := by
  have hbandCount : policy.bands.length = t.bands.length := by rw [h.bands, List.length_map]
  have hentryCount := h.entries.length_eq
  have hbandBound := h.bandCount
  have hentryBound := h.entryCount
  have hcount {n : ℕ} (hn : n < 2 ^ 256) : (AbiParam.uint256 n).Denotes keccak n :=
    AbiParam.Denotes.uint256 ⟨n, hn⟩
  have hhead : List.Forall₂ (AbiParam.Denotes keccak) (headParams policy) t.headWords := by
    rw [headParams, PolicyTerms.headWords, h.roundId, h.mode, h.totalBudget, h.minAlloc, h.maxAlloc,
      h.salt, ← hbandCount]
    exact .cons (hcount (by norm_num)) (.cons h.contractAddr (.cons (.uint256 _) (.cons h.organization
      (.cons (hcount (by omega)) (.cons (.uint256 _) (.cons (.uint256 _) (.cons (.uint256 _)
      (.cons (hcount (by norm_num)) (.cons (.bytes32 _) (.cons (hcount (by omega)) .nil))))))))))
  have hbands : List.Forall₂ (AbiParam.Denotes keccak) (policy.bands.map AbiParam.uint256)
      (t.bands.map Fin.val) := by
    rw [h.bands, List.map_map, List.forall₂_map_left_iff, List.forall₂_map_right_iff, List.forall₂_same]
    intro b _
    exact .uint256 b
  rw [params, PolicyTerms.words, ← hbandCount, ← hentryCount]
  exact List.rel_append hhead (.cons (hcount (by omega)) (List.rel_append hbands
    (.cons (hcount (by omega)) (denotes_entries h.entries))))

def standard (keccak : Keccak) : PolicyCodec keccak where
  encodeAbiParameters _ policy :=
    if policy.mode < 256 then do
      let words ← (params policy).mapM Viem.wordOf
      return ofBytes (ByteWords.ofWords 32 words)
    else .error "Number is not in safe 8-bit unsigned integer range"
  decodeTo _ := decodePolicy
  decode_encode {policy t} h hmode := by
    have hcount : t.bands.length < 2 ^ 32 := by
      have := h.bandCount
      rwa [h.bands, List.length_map] at this
    have hencode := Viem.mapM_wordOf (denotes_params h hmode)
    refine ⟨t.encode, ?_, t.decodePolicy_encode hmode hcount (h.entries.length_eq ▸ h.entryCount)⟩
    rw [if_pos (h.mode ▸ hmode), hencode]
    rfl
  encode_mode hmode := ⟨_, if_neg (not_lt.mpr hmode)⟩

end PolicyCodec

variable (C : PolicyCodec keccak)

def encodePolicy (policy : Policy) : Except String Text := C.encodeAbiParameters policyAbi policy

def EngineAccepts (cfg : EngineConfig) (policy : Policy) : Prop :=
  ∃ b p, encodePolicy C policy = .ok (ofBytes b) ∧ C.decodeTo policyArg b = .ok p ∧
    validate cfg p = .ok ()

end Encoding

section Acceptance

variable {keccak : Keccak} {policy : Policy} {t : PolicyTerms} (h : policy.Denotes keccak t)
include h

theorem engineAccepts_iff (C : PolicyCodec keccak) {cfg : EngineConfig}
    (hset : cfg.contractAddressSet = true) (hserved : t.contractAddr = cfg.contractAddress) :
    EngineAccepts C cfg policy ↔ t.Rules ∧ ¬ t.LongBands := by
  by_cases hmode : t.mode < 256
  · obtain ⟨b, hencode, hdecode⟩ := C.decode_encode h hmode
    rw [← validate_policy hset hserved hmode]
    constructor
    · rintro ⟨b', p, hencode', hdecode', hvalid⟩
      obtain rfl := ofBytes_injective (Except.ok.inj (hencode.symm.trans hencode'))
      obtain rfl := Except.ok.inj (hdecode.symm.trans hdecode')
      exact hvalid
    · intro hvalid
      exact ⟨b, _, hencode, hdecode, hvalid⟩
  · have hlarge : 256 ≤ policy.mode := by
      rw [h.mode]
      exact not_lt.mp hmode
    obtain ⟨e, hencode⟩ := C.encode_mode hlarge
    constructor
    · rintro ⟨b, p, hencode', -⟩
      cases hencode.symm.trans hencode'
    · rintro ⟨hrules, -⟩
      refine absurd ?_ hmode
      cases hrules.mode <;> omega

/-- The two checks agree on every policy except those that are refused only for the length of
their band table. -/
theorem checks_agree_iff (C : PolicyCodec keccak) {cfg : EngineConfig}
    (hset : cfg.contractAddressSet = true) (hserved : t.contractAddr = cfg.contractAddress) :
    ((validatePolicy policy).ok = true ↔ EngineAccepts C cfg policy) ↔ ¬ (t.LongBands ∧ t.Rules) := by
  rw [validatePolicy_ok h, engineAccepts_iff h C hset hserved]
  tauto

end Acceptance

section Sample

def sampleConfig : EngineConfig := ⟨1, true, 0⟩

def sampleKeccak : Keccak := fun b => Fin.ofNat _ (ByteWords.value b)

def tieredTerms (n : ℕ) : PolicyTerms where
  contractAddr := 1
  roundId := 1
  organization := 2
  mode := 2
  totalBudget := 100
  minAlloc := 0
  maxAlloc := 0
  bands := List.replicate n 7
  salt := 5
  entries := [⟨3, 0, 0⟩]

def tieredPolicy (n : ℕ) : Policy where
  contractAddr := addressText 1
  roundId := 1
  organization := addressText 2
  mode := 2
  totalBudget := 100
  minAlloc := 0
  maxAlloc := 0
  bands := List.replicate n 7
  salt := wordText 5
  entries := [⟨addressText 3, 0, 0⟩]

theorem tieredPolicy_denotes {n : ℕ} (hn : n < 2 ^ 32) :
    (tieredPolicy n).Denotes sampleKeccak (tieredTerms n) where
  contractAddr := .address 1
  roundId := rfl
  organization := .address 2
  mode := rfl
  totalBudget := rfl
  minAlloc := rfl
  maxAlloc := rfl
  bands := by simp [tieredPolicy, tieredTerms]
  bandCount := by simpa [tieredPolicy] using hn
  salt := rfl
  entries := .cons ⟨.address 3, rfl, rfl⟩ .nil
  entryCount := by simp [tieredPolicy]

theorem tieredTerms_rules {n : ℕ} (hn : 0 < n) : (tieredTerms n).Rules := by
  have hentries : ∀ e ∈ (tieredTerms n).entries, e = ⟨3, 0, 0⟩ := fun e he => List.mem_singleton.mp he
  have hlen : (tieredTerms n).bands.length = n := List.length_replicate
  have hband : (tieredTerms n).band 0 = 7 := by
    rw [PolicyTerms.band, tieredTerms, List.getElem?_replicate, if_pos hn]
    rfl
  have hsum : (tieredTerms n).bandSum = 7 := by
    rw [PolicyTerms.bandSum]
    change ((tieredTerms n).band 0 + 0) = 7
    rw [hband]
  have hmode : (tieredTerms n).ModeRules := by
    refine .tiered rfl ?_ ?_ ?_ ?_
    · apply List.ne_nil_of_length_pos
      rwa [hlen]
    · rintro e he
      rw [hentries e he]
    · rintro e he
      rw [hentries e he, hlen]
      exact hn
    · rw [hsum]
      exact (by decide : 7 ≤ ((100 : Uint256) : ℕ))
  refine ⟨(by decide : 0 < ((100 : Uint256) : ℕ)), fun hmax => absurd hmax (lt_irrefl 0),
    List.cons_ne_nil _ _, (by decide : 1 ≤ maxRecipients), List.nodup_singleton _, ?_, hmode⟩
  intro e he
  rw [hentries e he]
  decide

theorem long_band_table_disagrees : ¬ ∀ (keccak : Keccak) (C : PolicyCodec keccak) (cfg : EngineConfig)
    (policy : Policy) (t : PolicyTerms), policy.Denotes keccak t → cfg.contractAddressSet = true →
      t.contractAddr = cfg.contractAddress →
        ((validatePolicy policy).ok = true ↔ EngineAccepts C cfg policy) := by
  intro hall
  have hd := tieredPolicy_denotes (n := 4097) (by norm_num)
  have hrules := tieredTerms_rules (n := 4097) (by norm_num)
  have haccepts := (hall _ (.standard sampleKeccak) sampleConfig _ _ hd rfl rfl).mp
    ((validatePolicy_ok hd).mpr hrules)
  have hlong : maxRecipients < (tieredTerms 4097).bands.length := by
    rw [tieredTerms, List.length_replicate, maxRecipients]
    norm_num
  exact ((engineAccepts_iff hd _ rfl rfl).mp haccepts).2 ⟨rfl, hlong⟩

/-- A table of 4096 bands is no cause of disagreement. -/
theorem checks_agree_iff_sample :
    (validatePolicy (tieredPolicy 4096)).ok = true ↔
      EngineAccepts (.standard sampleKeccak) sampleConfig (tieredPolicy 4096) :=
  (checks_agree_iff (tieredPolicy_denotes (by norm_num)) (.standard sampleKeccak) rfl rfl).mpr
    fun h => absurd h.1.2 (by rw [tieredTerms, List.length_replicate, maxRecipients]; norm_num)

end Sample

end Fidensur.BrowserPolicy
