import ClaimsDB.LikePatterns
import ClaimsDB.CSBRangeQuery
import ClaimsDB.MergerReceiver
import ClaimsDB.LruEviction
import ClaimsDB.ChunkLoading
import ClaimsDB.LineSplitting
import ClaimsDB.ColumnSplitting
import ClaimsDB.TextRoundTrip
import ClaimsDB.InsertRoundTrip
import ClaimsDB.ColumnNames
import ClaimsDB.OuterJoins
import ClaimsDB.LoadExactlyOnce
import ClaimsDB.NumericCasts
import ClaimsDB.ExpanderCompletion
import ClaimsDB.BlockStreamBuffer
import ClaimsDB.PartitionedBlockBuffer
import ClaimsDB.OuterJoinPlanning
import ClaimsDB.ColumnPruning
import ClaimsDB.HashJoin
import ClaimsDB.NestLoopJoin
import ClaimsDB.OuterHashJoin
import ClaimsDB.Sorting
import ClaimsDB.ShadowTables
import ClaimsDB.ProjectionBinding
import ClaimsDB.IndexBuilding
import ClaimsDB.ScanIsolation
import ClaimsDB.PhysicalLimit
import ClaimsDB.DeleteFilter
import ClaimsDB.BuildPhase
import ClaimsDB.OpenStatus
import ClaimsDB.StatusLifetime
import ClaimsDB.StreamedBlocks
import ClaimsDB.FileHandle
