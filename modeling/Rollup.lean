import Rollup.Actors
import Rollup.Arguments
import Rollup.Config
import Rollup.Counter
import Rollup.CpuList
import Rollup.Export
import Rollup.Fault
import Rollup.Files
import Rollup.Handle
import Rollup.Hierarchy.Flush
import Rollup.Hierarchy.Queue
import Rollup.Hierarchy.Report
import Rollup.Hierarchy.Shape
import Rollup.Hierarchy.State
import Rollup.Ident
import Rollup.Json.Pretty
import Rollup.Json.Reader
import Rollup.Json.Text
import Rollup.Json.Token
import Rollup.Json.Value
import Rollup.Layout
import Rollup.Main
import Rollup.Node
import Rollup.Path
import Rollup.Program
import Rollup.Race
import Rollup.Record
import Rollup.Record.Json
import Rollup.Service
import Rollup.Session
import Rollup.Text.Blank
import Rollup.Text.Decimal
import Rollup.Text.Quoted
import Rollup.Text.Split
import Rollup.Text.Unprintable
import Rollup.Worker
import Rollup.Proofs.CounterAmounts
import Rollup.Proofs.Lineage
import Rollup.Proofs.TreeShape
import Rollup.Proofs.UpdateLists
import Rollup.Proofs.ScheduleOrder
import Rollup.Proofs.FlushSteps
import Rollup.Proofs.Ledger
import Rollup.Proofs.WholeFlush
import Rollup.Proofs.SoundOperations
import Rollup.Proofs.References
import Rollup.Proofs.Upkeep
import Rollup.Proofs.KeptBooks
import Rollup.Proofs.SessionSteps
import Rollup.Proofs.RecordedTotals
import Rollup.Proofs.FixedNodes
import Rollup.Proofs.BalancedBooks
import Rollup.Proofs.Additivity
import Rollup.Proofs.FlushGains
import Rollup.Proofs.RacingFlush
import Rollup.Proofs.LoneFlusher
import Rollup.Proofs.RacingUpdates
import Rollup.Proofs.RacingWriters
import Rollup.Proofs.AnyFlush
import Rollup.Proofs.EveryStep
import Rollup.Proofs.ListsInOrder
import Rollup.Proofs.DirtySet
import Rollup.Proofs.FailedFlush
import Rollup.Proofs.RetriedFlush
import Rollup.Proofs.FundedSessions
import Rollup.Proofs.SharedIds
import Rollup.Proofs.SettlingOrder
import Rollup.Proofs.OneTree
import Rollup.Proofs.PathLookup
import Rollup.Proofs.AlikeStates
import Rollup.Proofs.AlikeOperations
import Rollup.Proofs.Placement
import Rollup.Proofs.OwedEvents
import Rollup.Proofs.ServiceOrder
import Rollup.Proofs.LoneWorker
import Rollup.Proofs.WorkerPromises
import Rollup.Proofs.Refusals
import Rollup.Proofs.PathText
import Rollup.Proofs.IdSearch
import Rollup.Proofs.BuiltLayouts
import Rollup.Proofs.LayoutLeaves
import Rollup.Proofs.ActorCounts
import Rollup.Proofs.FreshLayouts
import Rollup.Proofs.ProgramOutcome
import Rollup.Proofs.Inheritances
import Rollup.Proofs.WordSums
import Rollup.Proofs.StepSums
import Rollup.Proofs.ExactSessions
import Rollup.Proofs.DumpLines
import Rollup.Proofs.PrintedJson
import Rollup.Proofs.WrittenLayouts
import Rollup.Proofs.ExportedTrees
import Rollup.Proofs.Removals
import Rollup.Proofs.CounterDrains
import Rollup.Proofs.Marking
import Rollup.Proofs.Sweeps
import Rollup.Proofs.InterleavedDrains
import Rollup.Proofs.CreatedPaths
import Rollup.Proofs.PlantedLayouts
import Rollup.Proofs.ChildlessLeaves
import Rollup.Proofs.FreshIds
import Rollup.Proofs.CpuRanges
import Rollup.Proofs.BoundHandles
import Rollup.Proofs.SummedGains
import Rollup.Proofs.BusyActors
