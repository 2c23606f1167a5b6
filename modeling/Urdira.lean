import Urdira.IndexingCore.MerkleHistory
import Urdira.Canonical.SetRoot
import Urdira.StructuralStore.CrashRun
import Urdira.StructuralStore.CompactRun
import Urdira.StructuralStore.EntitiesIndex
import Urdira.IndexingWorker.HistoryRun
import Urdira.StructuralStore.StaleReader
import Urdira.StructuralStore.FilteredScan
import Urdira.StructuralStore.KeyValidity
import Urdira.StructuralStore.IdentityRun
import Urdira.StructuralStore.DeltaRoundTrip
import Urdira.NativeCore.DigestFraming
import Urdira.Engine.HintOrder
import Urdira.SourceFrontier.Catalog
import Urdira.SourceFrontier.CatalogAtomicity
import Urdira.Lib.Sha2
import Urdira.SourceFrontier.Load
import Urdira.Engine.PageLoop
import Urdira.Security.InclusionAgreement
import Urdira.WorkerProtocol.Delivery
import Urdira.Daemon.StreamCuts
import Urdira.Daemon.IpcRoundTrip
import Urdira.Daemon.Cancellation
import Urdira.Engine.BarrierMirror
import Urdira.Lib.KeysetPages
import Urdira.StructuralStore.IdentityPages
import Urdira.StructuralStore.CompactReferences
import Urdira.NativeNode.Selector
import Urdira.Canonical.SparseMerkle
import Urdira.Lib.Json
import Urdira.Lib.Binary64
import Urdira.Canonical.LogicalDigestWriter
import Urdira.SourceFrontier.Digest
import Urdira.SourceFrontier.DigestAgreement
import Urdira.Engine.QueryOperators
import Urdira.Lib.Distance
import Urdira.Engine.RelationExpansion
import Urdira.Engine.ShortestPaths
import Urdira.Engine.QueryComparison
import Urdira.Engine.KeyedComparison
import Urdira.Engine.ComparisonMerge
import Urdira.Engine.ComparisonDiff
import Urdira.Lib.KeyedDiff
import Urdira.Lib.GreedyMatching
import Urdira.Lib.TextCodec
import Urdira.Canonical.LogicalEncoding
import Urdira.Lib.MachineTrace
import Urdira.StructuralStore.ContainerSafety
import Urdira.StructuralStore.ReaderMarkers
import Urdira.StructuralStore.SegmentReclaim
import Urdira.StructuralStore.RecoverDirectory
import Urdira.StructuralStore.ChangedBetween
import Urdira.StructuralStore.BucketRanges
import Urdira.Lib.DepthFirst
import Urdira.Canonical.DigestRecipes
import Urdira.Lib.Emission
import Urdira.Lib.KeyedSort
import Urdira.Canonical.EncodingLaw
import Urdira.Canonical.Digests
import Urdira.Canonical.StreamingDigests
import Urdira.NativeCore.UceValue
import Urdira.IndexingWorker.UceEncoding
import Urdira.Canonical.UceAgreement
import Urdira.Lib.RowLedger
import Urdira.Engine.StageSpool
import Urdira.Engine.SpoolAccounting
import Urdira.Daemon.ChunkRoundTrip
import Urdira.Engine.OneSubscription
import Urdira.Lib.TopK
import Urdira.Lib.DoubleRounding
import Urdira.Lib.Leaders
import Urdira.NativeCore.ExactVector
import Urdira.Engine.VectorScan
import Urdira.Engine.ExactSearch
import Urdira.Engine.ResidentLane
import Urdira.Engine.EntityLane
import Urdira.Engine.SemanticRerank
import Urdira.Canonical.DecodingRoundTrip
import Urdira.Engine.SpoolReading
import Urdira.Lib.DependencyOrder
import Urdira.Canonical.ValueDigest
import Urdira.Engine.SpoolAgreement
import Urdira.Engine.ExecutionSpool
import Urdira.Engine.PipelineExecutor
import Urdira.Engine.PipelineSealing
import Urdira.Engine.PipelineSchedule
