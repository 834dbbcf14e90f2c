import LambdaEthereumConsensus.Binary.Encoding
import LambdaEthereumConsensus.Fallible.List
import LambdaEthereumConsensus.Queue.Ordered
import LambdaEthereumConsensus.Store.LRUCache
import LambdaEthereumConsensus.Utils.BitField
import LambdaEthereumConsensus.SszEx.Schema
import LambdaEthereumConsensus.SszEx.Encode
import LambdaEthereumConsensus.SszEx.Decode
import LambdaEthereumConsensus.SszEx.Merkleization
import LambdaEthereumConsensus.SszEx.MerkleRoots
import LambdaEthereumConsensus.StateTransition.Predicates
import LambdaEthereumConsensus.Types.DepositTree
import LambdaEthereumConsensus.P2P.ReqResp
import LambdaEthereumConsensus.Bls
import LambdaEthereumConsensus.StateTransition.Types
import LambdaEthereumConsensus.StateTransition.Shuffling
import LambdaEthereumConsensus.StateTransition.Committees
import LambdaEthereumConsensus.StateTransition.ProposerSlashing
import LambdaEthereumConsensus.StateTransition.Attestations
import LambdaEthereumConsensus.StateTransition.Withdrawals
import LambdaEthereumConsensus.StateTransition.ExpectedWithdrawals
import LambdaEthereumConsensus.StateTransition.SyncAggregate
import LambdaEthereumConsensus.StateTransition.PendingDeposits
import LambdaEthereumConsensus.StateTransition.Churn
import LambdaEthereumConsensus.StateTransition.RegistryUpdates
import LambdaEthereumConsensus.StateTransition.WithdrawalRequests
import LambdaEthereumConsensus.StateTransition.ExitQueue
import LambdaEthereumConsensus.StateTransition.EpochProcessing
import LambdaEthereumConsensus.StateTransition.Rewards
import LambdaEthereumConsensus.ForkChoice.Tree
import LambdaEthereumConsensus.ForkChoice.Store
import LambdaEthereumConsensus.ForkChoice.Handlers
import LambdaEthereumConsensus.ForkChoice.Tick
import LambdaEthereumConsensus.ForkChoice.Head
import LambdaEthereumConsensus.ForkChoice.Ghost
import LambdaEthereumConsensus.ForkChoice.HeadRefinement
import LambdaEthereumConsensus.Validator.ValidatorSet
import LambdaEthereumConsensus.ForkChoice.HeadDescent
import LambdaEthereumConsensus.Validator.BlockBuilder
import LambdaEthereumConsensus.StateTransition.Transition
import LambdaEthereumConsensus.Beacon.PendingBlocks
