import PaymentRollup.Lib.PrefixTree
import PaymentRollup.Lib.MerklePath
import PaymentRollup.Primitives
import PaymentRollup.Rollup.Transaction
import PaymentRollup.Rollup.Merkle
import PaymentRollup.Rollup.AddressPaths
import PaymentRollup.Rollup.MerkleTree
import PaymentRollup.Rollup.MerkleWitness
import PaymentRollup.Lib.HashChain
import PaymentRollup.Lib.Outcome
import PaymentRollup.Rollup.Signature
import PaymentRollup.Rollup.Chains
import PaymentRollup.Rollup.Replay
import PaymentRollup.Rollup.Verify
import PaymentRollup.Rollup.ChainProofs
import PaymentRollup.Rollup.Soundness
import PaymentRollup.Rollup.Conservation
import PaymentRollup.Rollup.Codec
import PaymentRollup.Rollup.CodecProofs
import PaymentRollup.Rollup.Ledger
import PaymentRollup.Rollup.LedgerProofs
import PaymentRollup.Rollup.Execution
import PaymentRollup.Contract.State
import PaymentRollup.Contract.Methods
import PaymentRollup.Contract.Run
import PaymentRollup.Contract.Effects
import PaymentRollup.Contract.History
import PaymentRollup.Contract.Bookkeeping
import PaymentRollup.Contract.Settlement
import PaymentRollup.Contract.Payouts
import PaymentRollup.Contract.Exits
import PaymentRollup.Contract.Solvency
import PaymentRollup.Rollup.Authorization
import PaymentRollup.Contract.Authorizations
import PaymentRollup.Rollup.HostSettlement
import PaymentRollup.Contract.Progress
import PaymentRollup.Contract.Sequencer
import PaymentRollup.Lib.Sha256
import PaymentRollup.Rollup.Checking
import PaymentRollup.Contract.Playing
import PaymentRollup.Rollup.Ownership
import PaymentRollup.Rollup.Answers
import PaymentRollup.Contract.Filing
import PaymentRollup.Contract.Invariant
import PaymentRollup.Contract.Frozen
import PaymentRollup.Contract.Watchdog
import PaymentRollup.Contract.Hatch
import PaymentRollup.Contract.Fates
import PaymentRollup.Contract.Keys
import PaymentRollup.Contract.FeeSink
import PaymentRollup.Rollup.Sizes
import PaymentRollup.Rollup.Drain
import PaymentRollup.Contract.Honest
import PaymentRollup.Contract.Drains
import PaymentRollup.Contract.Wedged
import PaymentRollup.Contract.Lapse
import PaymentRollup.Contract.Postponement
import PaymentRollup.Lib.Cutting
import PaymentRollup.Contract.Posting
import PaymentRollup.Rollup.CanonicalTree
import PaymentRollup.Rollup.MerkleProofs
import PaymentRollup.Contract.ExitProofs
import PaymentRollup.Rollup.RoundTrips
import PaymentRollup.Rollup.ShortestEncoding
import PaymentRollup.Rollup.Totality
import PaymentRollup.Rollup.VarintLaw
import PaymentRollup.Lib.Locality
import PaymentRollup.Rollup.PrefixFree
import PaymentRollup.Rollup.PayoutLinks
import PaymentRollup.Client.Messages
import PaymentRollup.Lib.Timelock
import PaymentRollup.Contract.Updates
import PaymentRollup.Contract.Rotations
import PaymentRollup.Contract.Programs
import PaymentRollup.Contract.Traceless
import PaymentRollup.Contract.ZeroAddress
import PaymentRollup.Lib.Independence
import PaymentRollup.Contract.Serial
import PaymentRollup.Contract.Evacuation
import PaymentRollup.Rollup.Following
import PaymentRollup.Contract.Takeover
import PaymentRollup.Contract.Handover
import PaymentRollup.Contract.Boxes
import PaymentRollup.Rollup.Pieces
import PaymentRollup.Lib.Grouping
import PaymentRollup.Rollup.Stdin
import PaymentRollup.Client.Driving
import PaymentRollup.Client.Leaving
import PaymentRollup.Client.Naming
import PaymentRollup.Client.Filing
import PaymentRollup.Contract.Fulfilment
