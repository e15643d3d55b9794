import Fidensur.Authenticity
import Fidensur.PairHashTree
import Fidensur.PublicFailure
import Fidensur.Attestation
import Fidensur.DeadEnds
import Fidensur.EngineStore
import Fidensur.RowOrder
import Fidensur.TokenReceipts
import Fidensur.BrowserMerkle
import Fidensur.BrowserVerification
import Fidensur.PolicyVault
import Fidensur.PolicyTransfer
import Fidensur.ProjectedTotal
import Fidensur.GenuineRounds
import Fidensur.ExtensionRegistration
import Fidensur.ClaimBitmap
import Fidensur.MerkleProofs
import Fidensur.BudgetGrowth
import Fidensur.EvaluatedTable
import Fidensur.TreasurySummary
import Fidensur.RoundConsole
import Fidensur.MoneyText
import Fidensur.RecipientList
import Fidensur.Ecies
import Fidensur.HonestPath
import Fidensur.RootBinding
import Fidensur.ActionServer
import Fidensur.EngineRecovery
import Fidensur.EvaluationLaws
import Fidensur.ClaimWindow
import Fidensur.Governance
import Fidensur.GuardedLedger
import Fidensur.SealedPolicy
import Fidensur.Disclosures
import Fidensur.ContractEvents
import Fidensur.RecipientPortal
import Fidensur.OrgConsole
