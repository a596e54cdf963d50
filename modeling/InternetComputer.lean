import InternetComputer.Lib.Quorum
import InternetComputer.Lib.Rust
import InternetComputer.Lib.Collections
import InternetComputer.Consensus.Committee
import InternetComputer.Consensus.Pool
import InternetComputer.Consensus.Replica
import InternetComputer.Consensus.Run
import InternetComputer.Consensus.Safety
import InternetComputer.Ledger.Tokens
import InternetComputer.Ledger.Holdings
import InternetComputer.Ledger.Balances
import InternetComputer.Ledger.Refinement
import InternetComputer.Ledger.Chain
import InternetComputer.Ledger.Ledger
import InternetComputer.Ledger.Conservation
import InternetComputer.Ingress.History
import InternetComputer.Ingress.Selector
import InternetComputer.Ingress.Induction
import InternetComputer.Ingress.Replay
import InternetComputer.Lib.Sorted
import InternetComputer.XNet.Stream
import InternetComputer.Lib.History
import InternetComputer.XNet.Handler
import InternetComputer.XNet.Protocol
import InternetComputer.XNet.Delivery
import InternetComputer.Ecdsa.Payload
import InternetComputer.Ecdsa.PayloadBuilder
import InternetComputer.Lib.Lists
import InternetComputer.Lib.Bytes
import InternetComputer.Lib.SortedMap
import InternetComputer.Lib.Text
import InternetComputer.TreeHash.LabeledTree
import InternetComputer.State.ReplicatedState
import InternetComputer.State.CallContextManager
import InternetComputer.CanonicalState.LazyTree
import InternetComputer.CanonicalState.Conversion
import InternetComputer.HttpHandler.ReadState
import InternetComputer.Governance.Indexes
import InternetComputer.Governance.Consistency
import InternetComputer.Lib.VersionedMap
import InternetComputer.Registry.Registry
import InternetComputer.Registry.Refinement
import InternetComputer.StableStructures.Allocator
import InternetComputer.StableStructures.BTreeMap
import InternetComputer.Routing.RoutingTable
import InternetComputer.Routing.WellFormed
import InternetComputer.Routing.AssignRanges
import InternetComputer.Lib.RoundRobin
import InternetComputer.CanisterQueues.Queue
import InternetComputer.CanisterQueues.CanisterQueues
import InternetComputer.CanisterQueues.Invariant
import InternetComputer.CanisterQueues.Steps
import InternetComputer.CanisterQueues.Stats
import InternetComputer.CanisterQueues.Schedule
import InternetComputer.CanisterQueues.FailedPush
import InternetComputer.CanisterQueues.OutputIterator
import InternetComputer.CanisterQueues.Capacity
import InternetComputer.CanisterQueues.Proto
import InternetComputer.Ledger.Dedup
import InternetComputer.Bitcoin.UtxoSet
import InternetComputer.Lib.Overlay
import InternetComputer.Bitcoin.BlockTree
import InternetComputer.Bitcoin.Apply
import InternetComputer.Bitcoin.AddressUtxoSet
import InternetComputer.Bitcoin.GetUtxos
import InternetComputer.StableStructures.RestrictedMemory
import InternetComputer.StableStructures.AllocatorInvariant
import InternetComputer.Routing.Route
import InternetComputer.StableStructures.Iter
import InternetComputer.Lib.Layout
import InternetComputer.StableStructures.ByteMemory
import InternetComputer.StableStructures.NodeLayout
import InternetComputer.Lib.Bits
import InternetComputer.Lib.Bounds
import InternetComputer.PageMap.IntMap
import InternetComputer.PageMap.WellFormed
import InternetComputer.PageMap.Union
import InternetComputer.PageMap.Order
import InternetComputer.PageMap.Refinement
import InternetComputer.Messages.MessageId
import InternetComputer.Messages.Http
import InternetComputer.Routing.Lookup
import InternetComputer.Routing.Optimize
import InternetComputer.Routing.Insert
import InternetComputer.Routing.CanisterMigrations
import InternetComputer.Routing.Locate
import InternetComputer.Lib.Serde
import InternetComputer.CanonicalState.Encoding
import InternetComputer.TreeHash.MixedHashTree
import InternetComputer.TreeHash.Serialize
import InternetComputer.TreeHash.Witness
import InternetComputer.TreeHash.HashTree
import InternetComputer.TreeHash.WitnessGenerator
import InternetComputer.TreeHash.PruneSelection
import InternetComputer.TreeHash.SparseTree
import InternetComputer.TreeHash.PartialTree
import InternetComputer.CanonicalState.HashTree
import InternetComputer.XNet.Streams
import InternetComputer.XNet.Loopback
import InternetComputer.XNet.SlicePool.Payload
import InternetComputer.XNet.SlicePool.TakePrefix
import InternetComputer.XNet.SlicePool.Slice
import InternetComputer.XNet.SlicePool.Pool
import InternetComputer.Messages.InterCanister
import InternetComputer.CanonicalState.MessageEncoding
import InternetComputer.Bitcoin.Utxos
import InternetComputer.Ledger.QueryBlocks
import InternetComputer.Ledger.Throttle
import InternetComputer.Governance.Proposal
import InternetComputer.Ledger.Notify
