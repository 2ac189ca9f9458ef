import GorillaTsdb.Foundations.BitSequences
import GorillaTsdb.Foundations.TokenStreams
import GorillaTsdb.Foundations.PrefixCodes
import GorillaTsdb.Foundations.SignedWords
import GorillaTsdb.Foundations.EventHistories
import GorillaTsdb.Foundations.LittleEndian
import GorillaTsdb.Foundations.ModularOrbits
import GorillaTsdb.Foundations.WhileLoops
import GorillaTsdb.Foundations.StableSorting
import GorillaTsdb.Foundations.Grouping
import GorillaTsdb.Foundations.CheckedPrograms
import GorillaTsdb.Foundations.StarvedReaders
import GorillaTsdb.Foundations.NormalFloats
import GorillaTsdb.Foundations.SpreadReads
import GorillaTsdb.Foundations.Interleavings
import GorillaTsdb.Foundations.Simulations
import GorillaTsdb.Foundations.SegmentedLogs
import GorillaTsdb.Foundations.IncrementalParsing
import GorillaTsdb.Foundations.NestedGroups
import GorillaTsdb.Foundations.SplitGroups
import GorillaTsdb.Foundations.FueledPrograms
import GorillaTsdb.Foundations.DoubleSums
import GorillaTsdb.Core.DataModel
import GorillaTsdb.Core.FloatArithmetic
import GorillaTsdb.Core.FloatOrder
import GorillaTsdb.Core.FloatDivision
import GorillaTsdb.Core.FloatPicks
import GorillaTsdb.Compression.BitIo
import GorillaTsdb.Compression.BitRoundTrip
import GorillaTsdb.Compression.TimestampCodec
import GorillaTsdb.Compression.TimestampRoundTrip
import GorillaTsdb.Compression.ValueCodec
import GorillaTsdb.Compression.ValueRoundTrip
import GorillaTsdb.Compression.TimestampStreams
import GorillaTsdb.Compression.CheckedDecoders
import GorillaTsdb.Compression.MalformedStreams
import GorillaTsdb.Compression.TimestampJumps
import GorillaTsdb.Compression.ValueCosts
import GorillaTsdb.Compression.ValueWindows
import GorillaTsdb.Compression.TimestampDrifts
import GorillaTsdb.Storage.Block
import GorillaTsdb.Storage.BlockStream
import GorillaTsdb.Storage.BlockContents
import GorillaTsdb.Storage.Memory
import GorillaTsdb.Storage.Segments
import GorillaTsdb.Storage.StoreRuns
import GorillaTsdb.Storage.ConcurrentStats
import GorillaTsdb.Storage.RangeScans
import GorillaTsdb.Storage.ClientRuns
import GorillaTsdb.Storage.SealingPasses
import GorillaTsdb.Storage.SuccessiveStats
import GorillaTsdb.Storage.Wal
import GorillaTsdb.Storage.WalRuns
import GorillaTsdb.Storage.EntryFormat
import GorillaTsdb.Storage.WalCrashes
import GorillaTsdb.Storage.FailedInserts
import GorillaTsdb.Storage.SeriesRuns
import GorillaTsdb.Storage.RangeQueries
import GorillaTsdb.Storage.BlockClosings
import GorillaTsdb.Storage.BlockOrder
import GorillaTsdb.Storage.BlockOverflow
import GorillaTsdb.Storage.TruncatedBlocks
import GorillaTsdb.Storage.BlockSizes
import GorillaTsdb.Storage.WalCounts
import GorillaTsdb.Storage.OversizedEntries
import GorillaTsdb.Storage.LogStore
import GorillaTsdb.Storage.OpenBlocks
import GorillaTsdb.Storage.BatchInserts
import GorillaTsdb.Storage.CompleteScans
import GorillaTsdb.Storage.SealedRecords
import GorillaTsdb.Storage.MovedRuns
import GorillaTsdb.Storage.DebugBuilds
import GorillaTsdb.Storage.StoreSizes
import GorillaTsdb.Storage.LogFormat
import GorillaTsdb.Storage.LogRecovery
import GorillaTsdb.Querying.Aggregation
import GorillaTsdb.Querying.Engine
import GorillaTsdb.Querying.Termination
import GorillaTsdb.Querying.Windows
import GorillaTsdb.Querying.WindowRange
import GorillaTsdb.Querying.Downsampling
import GorillaTsdb.Querying.SampleCoverage
import GorillaTsdb.Querying.LimitedAggregates
import GorillaTsdb.Querying.AnswerKinds
import GorillaTsdb.Querying.Rollups
import GorillaTsdb.Querying.ExecutionOutcomes
import GorillaTsdb.Querying.AggregatePages
import GorillaTsdb.Querying.FinishedWindows
import GorillaTsdb.Querying.DebugQueries
import GorillaTsdb.Programs.Server
