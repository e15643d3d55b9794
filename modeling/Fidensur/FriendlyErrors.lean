import Fidensur.ContractState
import Fidensur.HexText

set_option autoImplicit false

/-! How the pages word a failure. -/

namespace Fidensur.FriendlyErrors

open HexText

inductive Kind
  | rejected | contract | network | eligibility | unknown
  deriving DecidableEq

structure Wording where
  title : String
  detail : String
  hint : Option String := none

structure FriendlyError extends Wording where
  raw : String
  kind : Kind

/-- What an action of a page throws; `raw` is the message of a library's error. -/
inductive Failure
  | message (text : String)
  | eligibility (log : String)
  | rejected (raw : String)
  | reverted (e : Error) (raw : String)
  /-- A revert with none of the contract's own errors, such as one of the registry's. -/
  | foreignRevert (name : Option String) (raw : String)

def Failure.raw : Failure → String
  | .message raw | .eligibility raw | .rejected raw | .reverted _ raw | .foreignRevert _ raw => raw

def statusName : RoundStatus → String
  | .none => "None"
  | .opened => "Open"
  | .committed => "Committed"
  | .computing => "Computing"
  | .finalized => "Finalized"
  | .closed => "Closed"
  | .cancelled => "Cancelled"

variable (toLocaleString : ℕ → String)

def asDate (seconds : ℕ) : String :=
  if seconds = 0 then "an unknown time" else toLocaleString seconds

def contractErrors : Error → Option Wording
  | .noSuchRound roundId => some {
      title := "That round doesn't exist"
      detail := "There is no round numbered " ++ roundId.repr ++ " on this contract."
      hint := some "Rounds are numbered from 0 in the order they were created." }
  | .wrongStatus _ actual expected => some {
      title := "This round isn't at that step yet"
      detail := "The round is currently " ++ statusName actual ++ ", and this action needs it to be " ++
        statusName expected ++ "."
      hint := some "Reload the page — someone may have advanced the round since you opened it." }
  | .notOrganization _ _ => some {
      title := "This isn't your round"
      detail := "Only the account that created a round can fund it, commit a policy, or request its computation."
      hint := some "Switch to the account that created it, or create a round of your own." }
  | .invalidClaimWindow _ => some {
      title := "Claim window out of range"
      detail := "A claim window must be at least 1 hour and at most 365 days." }
  | .zeroAmount => some {
      title := "Amount must be greater than zero"
      detail := "Enter how much you want to put into this round." }
  | .nothingFunded _ => some {
      title := "Fund the round first"
      detail := "A round has to hold the money before it can promise it."
      hint := some "Go back to the funding step and deposit an amount." }
  | .emptyCommitment => some {
      title := "No policy to commit"
      detail := "The policy commitment was empty." }
  | .ciphertextMismatch _ _ => some {
      title := "These aren't the committed bytes"
      detail := "The ciphertext you supplied doesn't hash to the commitment recorded on-chain, so the contract " ++
        "rejected it."
      hint := some ("Upload the exact file you downloaded when you committed. Re-encrypting the same policy " ++
        "produces different bytes, so it cannot be recreated — only that file will work. If it is " ++
        "lost, use Cancel & refund to take the funds back and start a new round.") }
  | .emptyCiphertext => some {
      title := "No ciphertext supplied"
      detail := "The encrypted policy was empty." }
  | .retryTooSoon _ earliestRetry => some {
      title := "Too soon to retry"
      detail := "The enclave was asked recently and hasn't answered yet. You can try again after " ++
        asDate toLocaleString earliestRetry ++ "."
      hint := some "Nothing is lost in the meantime — the round keeps its commitment and its funds." }
  | .noTeeAvailable => some {
      title := "No enclave is available"
      detail := "No Trusted Execution Environment is currently registered to take this computation."
      hint := some ("This is an infrastructure problem rather than something wrong with your round. " ++
        "Try again shortly.") }
  | .policyCommitmentMismatch _ _ => some {
      title := "Result doesn't match this round's policy"
      detail := "The signed result reports a different policy commitment than the one recorded on-chain."
      hint := some "It probably belongs to another round. Check the round number." }
  | .resultNotForThisRound _ _ => some {
      title := "Result belongs to a different round"
      detail := "The signed result's action id doesn't match this round's computation request." }
  | .resultNotForThisContract _ => some {
      title := "Result belongs to a different contract"
      detail := "The signed result was produced for another deployment of Fidensur." }
  | .emptyMerkleRoot => some {
      title := "The enclave returned nothing to settle"
      detail := "The result carried an empty Merkle root, so there is no allocation to record." }
  | .noRecipients => some {
      title := "No recipients in the result"
      detail := "The enclave computed a result with zero recipients."
      hint := some "Check that your policy's minimum allocation isn't dropping every entry." }
  | .overAllocated totalAllocated funded => some {
      title := "The policy allocates more than the round holds"
      detail := "It would pay out " ++ totalAllocated.repr ++ " wei against " ++ funded.repr ++ " wei funded."
      hint := some "Add more funds to the round, or lower the total budget in the policy and start a new round." }
  | .alreadyClaimed _ _ => some {
      title := "Already claimed"
      detail := "This allocation has been claimed. Each entry can only be spent once."
      hint := some "If you didn't claim it, check the round's history on the block explorer." }
  | .claimWindowClosed deadline => some {
      title := "The claim window has closed"
      detail := "Claims for this round closed on " ++ asDate toLocaleString deadline ++ "."
      hint := some "Anything unclaimed returns to the organization. Ask them to open a new round." }
  | .claimWindowStillOpen deadline => some {
      title := "The claim window is still open"
      detail := "Unclaimed funds can't be returned until " ++ asDate toLocaleString deadline ++ "." }
  | .badMerkleProof => some {
      title := "You're not eligible for this round"
      detail := "The proof doesn't match this round's Merkle root, which normally means this address wasn't " ++
        "included in the allocation."
      hint := some ("If you expected to be included, check you're on the right account and the right round " ++
        "number.") }
  | .alreadySwept _ => some {
      title := "This round has already been closed out"
      detail := "Its remaining funds were returned to the organization." }
  | .invalidDisclosureKey _ => some {
      title := "The disclosure key was rejected"
      detail := "The public key sent with the request wasn't the right length."
      hint := some "Reload the page and try again — the key is generated fresh each time." }
  | .nothingToRescue => some {
      title := "Nothing to rescue"
      detail := "There is no stranded balance on this round." }
  | .teeAddressNotSet => some {
      title := "The contract has no enclave registered"
      detail := "No TEE address has been set, so signed results cannot be verified."
      hint := some "This deployment isn't finished being set up." }
  | .extensionIdNotSet => some {
      title := "The contract has no extension registered"
      detail := "Computation can't be requested until the extension id is resolved on-chain." }
  | _ => none

/-- The name of an error without a wording of its own, where the page's ABI has it. -/
def otherName : Error → Option String
  | .zeroAddress => some "ZeroAddress"
  | .extensionIdAlreadySet => some "ExtensionIdAlreadySet"
  | .extensionIdNotFound => some "ExtensionIdNotFound"
  | .panic => some "Panic"
  | _ => none

def refusedAction (name : Option String) (raw : String) : FriendlyError where
  title := "The contract refused this action"
  detail := match name with
    | some name => "It reverted with " ++ name ++
        ", which this interface doesn't have a friendlier explanation for yet."
    | none => "It reverted without giving a reason this interface can decode."
  raw := raw
  kind := .contract

/-- The Kelvin sign is the only character besides the capitals with a letter `a` to `z` for its lower case. -/
def lowered (text : String) : Text :=
  text.toList.map fun c => if c.toNat = 0x212A then 'k' else c.toLower

def includes (text : Text) (part : String) : Bool := decide (part.toList <:+: text)

def fromEnclaveLog (log : String) : Option FriendlyError :=
  let text := lowered log
  if includes text "not a recipient" || includes text "no allocation" || includes text "not found" then
    some {
      title := "You're not eligible for this round"
      detail := "The enclave has no allocation recorded for this address in this round."
      hint := some ("Check you're connected with the account the organization included, and that the round " ++
        "number is right.")
      raw := log
      kind := .eligibility }
  else if includes text "decrypt" then
    some {
      title := "The enclave couldn't read the policy"
      detail := "It failed to decrypt the committed ciphertext."
      hint := some ("The policy may have been encrypted to a key from a previous enclave registration. " ++
        "The round needs recreating.")
      raw := log
      kind := .contract }
  else none

/-- The end of `humanizeError`, which goes by the text alone. -/
def fromText (raw : String) : FriendlyError :=
  let text := lowered raw
  match fromEnclaveLog raw with
  | some fromLog => fromLog
  | none =>
    if includes text "insufficient funds" then {
      title := "Not enough C2FLR"
      detail := "This account can't cover the amount plus gas."
      hint := some "Top up from the Coston2 faucet at faucet.flare.network/coston2."
      raw := raw
      kind := .contract }
    else if includes text "failed to fetch" || includes text "networkerror" || includes text "load failed" ||
        includes text "cors" then {
      title := "Couldn't reach the enclave proxy"
      detail := "The request to the confidential compute proxy failed before it got a reply."
      hint := some "The proxy may be offline. Your round is unaffected — nothing has been lost."
      raw := raw
      kind := .network }
    else if includes text "timed out" || includes text "timeout" then {
      title := "The enclave didn't answer in time"
      detail := "It may still be working. Waiting and checking again is usually enough."
      hint := some "If it never answers, the computation can be requested again after 30 minutes."
      raw := raw
      kind := .network }
    else if includes text "addressed to" then {
      title := "That reply isn't yours"
      detail := "The enclave addressed its answer to a different account than the one connected."
      hint := some "Switch back to the account that made the request."
      raw := raw
      kind := .eligibility }
    else {
      title := "Something went wrong"
      detail := "The action didn't complete. The technical details below may help."
      raw := raw
      kind := .unknown }

def notEligible (log : String) : FriendlyError where
  title := "You're not eligible for this round"
  detail := "The enclave has no allocation recorded for this address in this round, so there is " ++
    "nothing to disclose."
  hint := some ("Check that you're connected with the account the organization included, and that the " ++
    "round number is right.")
  raw := log
  kind := .eligibility

def humanizeError : Failure → FriendlyError
  | .eligibility log => notEligible log
  | .rejected raw => {
      title := "Transaction cancelled"
      detail := "You declined the request in your wallet. Nothing was sent and nothing was charged."
      raw := raw
      kind := .rejected }
  | .reverted e raw =>
      match contractErrors toLocaleString e with
      | some built => { built with raw := raw, kind := if e = .badMerkleProof then .eligibility else .contract }
      | none => refusedAction (otherName e) raw
  | .foreignRevert name raw => refusedAction name raw
  | .message text => fromText text

theorem fromEnclaveLog_raw {log : String} {fromLog : FriendlyError} (h : fromEnclaveLog log = some fromLog) :
    fromLog.raw = log := by
  unfold fromEnclaveLog at h
  dsimp only at h
  split_ifs at h
  · rw [← Option.some.inj h]
  · rw [← Option.some.inj h]

theorem fromText_raw (text : String) : (fromText text).raw = text := by
  unfold fromText
  cases hlog : fromEnclaveLog text with
  | some fromLog => exact fromEnclaveLog_raw hlog
  | none =>
    dsimp only
    split_ifs <;> rfl

/-- The original text is never thrown away. -/
theorem humanizeError_raw (failure : Failure) : (humanizeError toLocaleString failure).raw = failure.raw := by
  cases failure with
  | message text => exact fromText_raw text
  | eligibility log => rfl
  | rejected raw => rfl
  | reverted e raw =>
    dsimp only [humanizeError]
    split
    · rfl
    · rfl
  | foreignRevert name raw => rfl

example : (fromText "The request Timed out.").kind = .network := by
  decide

end Fidensur.FriendlyErrors
