import LatticeTransfer.AnchorScheduler
import LatticeTransfer.AnchorVerifier
import LatticeTransfer.BridgeOperator
import LatticeTransfer.BridgeSafety
import LatticeTransfer.CommitmentReplay
import LatticeTransfer.CommitteeRoster
import LatticeTransfer.Compliance
import LatticeTransfer.ConsensusAgreement
import LatticeTransfer.ConsensusEpochs
import LatticeTransfer.ConsensusEvidence
import LatticeTransfer.CorridorErrors
import LatticeTransfer.DepositWatcher
import LatticeTransfer.DkgRobustness
import LatticeTransfer.ETPGovernance
import LatticeTransfer.EnforcementPipeline
import LatticeTransfer.EntityBindings
import LatticeTransfer.GatewayAccounting
import LatticeTransfer.InferenceMarket
import LatticeTransfer.MultiSigOwners
import LatticeTransfer.NodeAdmission
import LatticeTransfer.PlacementCache
import LatticeTransfer.RecordEncoding
import LatticeTransfer.ShardExpiry
import LatticeTransfer.SignerExpiry
import LatticeTransfer.StateRoot
import LatticeTransfer.StorageAudits
import LatticeTransfer.StoragePossession
import LatticeTransfer.WriterGate
import LatticeTransfer.ZKBridgeProofs
