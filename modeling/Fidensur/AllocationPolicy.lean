import Fidensur.ContractState
import Fidensur.DigitText

set_option autoImplicit false

namespace Fidensur

open DigitText

def modeExplicit : UInt8 := 0
def modeWeighted : UInt8 := 1
def modeTiered : UInt8 := 2

-- Integers of a decoded policy are pointers, `none` standing for nil.
structure PolicyEntry where
  recipient : Address
  weight : Option ℤ
  amount : Option ℤ
  deriving DecidableEq

structure Policy where
  contractAddr : Address
  roundId : Option ℤ
  organization : Address
  mode : UInt8
  totalBudget : Option ℤ
  minAlloc : Option ℤ
  maxAlloc : Option ℤ
  bands : List (Option ℤ)
  salt : Bytes32
  entries : List PolicyEntry
  deriving DecidableEq

/-- The integer behind a pointer; reading nil would panic, and validation has excluded it. -/
def value (v : Option ℤ) : ℤ := v.getD 0

/-- Zero and nil both mean that no cap is in force. -/
def capped (v : Option ℤ) : Bool := v.any (fun x => decide (0 < x))

structure EngineConfig where
  contractAddress : Address
  contractAddressSet : Bool
  engineVersion : Bytes32

def maxRecipients : ℕ := 4096

/-- The errors of validation and evaluation, with the values their messages quote. -/
inductive PolicyError
  | contractNotSet
  | wrongContract (target served : Address)
  | roundIdMissing
  | totalBudgetNotPositive
  | minAllocNegative
  | maxAllocNegative
  | minAllocExceedsMaxAlloc (minAlloc maxAlloc : ℤ)
  | noEntries
  | tooManyEntries (count : ℕ)
  | zeroRecipient (entry : ℕ)
  | duplicateRecipient (entry : ℕ) (recipient : Address) (previous : ℕ)
  | weightMissing (entry : ℕ)
  | amountMissing (entry : ℕ)
  | weightNotZero (entry : ℕ)
  | explicitTotalExceedsBudget (total budget : ℤ)
  | bandsNotEmptyExplicit
  | amountNotZeroWeighted (entry : ℕ)
  | noPositiveWeight
  | bandsNotEmptyWeighted
  | noBands
  | tooManyBands (count : ℕ)
  | bandMissing (band : ℕ)
  | amountNotZeroTiered (entry : ℕ)
  | bandIndexOutOfRange (entry : ℕ) (index : ℤ) (bands : ℕ)
  | tieredTotalExceedsBudget (total budget : ℤ)
  | unsupportedMode (mode : UInt8)
  | cappedExceedBudget
  | allocatesNothing
  | totalExceedsBudget (total budget : ℤ)
  deriving DecidableEq

section Text

def nibble (hash : Bytes32) (i : ℕ) : ℕ := hash / 16 ^ (63 - i) % 16

/-- The checksummed text of an address: a letter is upper case where the hash of the lower-case text has a
digit above 7. -/
def checksumHex (keccak : Keccak) (a : Address) : String :=
  let digits := hexDigits 40 a
  let hash := keccak (digits.map (fun c => UInt8.ofNat c.toNat))
  "0x" ++ String.ofList (digits.mapIdx (fun i c => if 7 < nibble hash i then c.toUpper else c))

theorem hexValue_checksumDigits (a : Address) (hash : Bytes32) :
    hexValue ((hexDigits 40 a).mapIdx (fun i c => if 7 < nibble hash i then c.toUpper else c)) = a := by
  rw [hexValue_mapIdx, hexValue_hexDigits]
  · have := a.isLt
    omega
  · intro i c hc
    split
    · exact hexDigit_toUpper hc
    · rfl

/-- `Hash.Hex`. -/
def hashHex (h : Bytes32) : String := "0x" ++ String.ofList (hexDigits 64 h)

def PolicyError.text (addressHex : Address → String) : PolicyError → String
  | .contractNotSet => "extension misconfigured: FIDENSUR_CONTRACT is not set"
  | .wrongContract target served => "policy targets contract " ++ addressHex target ++
      ", this engine serves " ++ addressHex served
  | .roundIdMissing => "roundId must be present"
  | .totalBudgetNotPositive => "totalBudget must be positive"
  | .minAllocNegative => "minAlloc must not be negative"
  | .maxAllocNegative => "maxAlloc must not be negative"
  | .minAllocExceedsMaxAlloc minAlloc maxAlloc =>
      "minAlloc " ++ minAlloc.repr ++ " exceeds maxAlloc " ++ maxAlloc.repr
  | .noEntries => "policy has no entries"
  | .tooManyEntries count => "policy has " ++ count.repr ++ " entries, limit is " ++ maxRecipients.repr
  | .zeroRecipient entry => "entry " ++ entry.repr ++ ": recipient must not be the zero address"
  | .duplicateRecipient entry recipient previous => "entry " ++ entry.repr ++
      " duplicates recipient " ++ addressHex recipient ++ " from entry " ++ previous.repr
  | .weightMissing entry => "entry " ++ entry.repr ++ ": weight must be present and non-negative"
  | .amountMissing entry => "entry " ++ entry.repr ++ ": amount must be present and non-negative"
  | .weightNotZero entry => "entry " ++ entry.repr ++ ": weight must be zero in explicit mode"
  | .explicitTotalExceedsBudget total budget =>
      "explicit amounts total " ++ total.repr ++ " exceed budget " ++ budget.repr
  | .bandsNotEmptyExplicit => "bands must be empty in explicit mode"
  | .amountNotZeroWeighted entry => "entry " ++ entry.repr ++ ": amount must be zero in weighted mode"
  | .noPositiveWeight => "weighted mode needs at least one positive weight"
  | .bandsNotEmptyWeighted => "bands must be empty in weighted mode"
  | .noBands => "tiered mode needs at least one band"
  | .tooManyBands count => "too many bands: " ++ count.repr
  | .bandMissing band => "band " ++ band.repr ++ ": amount must be present and non-negative"
  | .amountNotZeroTiered entry => "entry " ++ entry.repr ++ ": amount must be zero in tiered mode"
  | .bandIndexOutOfRange entry index bands => "entry " ++ entry.repr ++ ": band index " ++
      index.repr ++ " out of range (" ++ bands.repr ++ " bands)"
  | .tieredTotalExceedsBudget total budget =>
      "tiered amounts total " ++ total.repr ++ " exceed budget " ++ budget.repr
  | .unsupportedMode mode => "unsupported allocation mode " ++ mode.toNat.repr
  | .cappedExceedBudget => "internal: capped allocations exceed budget"
  | .allocatesNothing => "policy allocates nothing: every entry is zero or below minAlloc"
  | .totalExceedsBudget total budget =>
      "allocations total " ++ total.repr ++ " exceed budget " ++ budget.repr

end Text

end Fidensur
