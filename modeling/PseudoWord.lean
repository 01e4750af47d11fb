import PseudoWord.Main
import PseudoWord.Note.Walk
import PseudoWord.Request.Json
import PseudoWord.Source.Congruential
import PseudoWord.Source.Scripted
import PseudoWord.Proofs.KeyMapLookup
import PseudoWord.Proofs.RunningTotals
import PseudoWord.Proofs.RebuiltSet
import PseudoWord.Proofs.SoundNode
import PseudoWord.Proofs.WellFormed
import PseudoWord.Proofs.SameGraph
import PseudoWord.Proofs.RowEffect
import PseudoWord.Proofs.Reachable
import PseudoWord.Proofs.TextFields
import PseudoWord.Proofs.PrintedRows
import PseudoWord.Proofs.ExportedRows
import PseudoWord.Proofs.ItemForms
import PseudoWord.Proofs.RowForms
import PseudoWord.Proofs.ImportedTable
import PseudoWord.Proofs.KeptLines
import PseudoWord.Proofs.WrittenFiles
import PseudoWord.Proofs.TableRoundTrip
import PseudoWord.Proofs.Language
import PseudoWord.Proofs.SearchStep
import PseudoWord.Proofs.SearchExact
import PseudoWord.Proofs.WordLanguage
import PseudoWord.Proofs.ShortPath
import PseudoWord.Proofs.Contract
import PseudoWord.Proofs.SeededBounds
import PseudoWord.Proofs.Prompted
import PseudoWord.Proofs.Unfailing
import PseudoWord.Proofs.WalkSound
import PseudoWord.Proofs.WalkComplete
import PseudoWord.Proofs.FirstWord
import PseudoWord.Proofs.GeneratedWords
import PseudoWord.Proofs.SameWalks
import PseudoWord.Proofs.ReportWords
import PseudoWord.Proofs.RereadGeneration
import PseudoWord.Proofs.FreeId
import PseudoWord.Proofs.NewNodes
import PseudoWord.Proofs.AddedInOrder
import PseudoWord.Proofs.SnapshotReading
import PseudoWord.Proofs.SnapshotRoundTrip
import PseudoWord.Proofs.FilePlaces
import PseudoWord.Proofs.TableSizes
import PseudoWord.Proofs.LoadedTable
import PseudoWord.Proofs.SnapshotCache
import PseudoWord.Crew
import PseudoWord.Proofs.WorkerSteps
import PseudoWord.Proofs.CrewRuns
import PseudoWord.Proofs.MergedReports
import PseudoWord.Proofs.CurrentStarts
import PseudoWord.Proofs.LoadedInvariants
import PseudoWord.Proofs.GenerationReference
import PseudoWord.Proofs.LargerRequest
import PseudoWord.Proofs.AlikeGraphs
import PseudoWord.Proofs.AnySchedule
import PseudoWord.Proofs.KeptEquality
import PseudoWord.Proofs.ShortWords
import PseudoWord.Proofs.AdmittedWeights
import PseudoWord.Proofs.WeightedDraws
import PseudoWord.Proofs.RowGrammar
import PseudoWord.Proofs.RowOrder
import PseudoWord.Proofs.SpreadRows
import PseudoWord.Proofs.ForeignWords
import PseudoWord.Proofs.FileStems
import PseudoWord.Proofs.SeparateSnapshots
import PseudoWord.Proofs.RecordedDraws
import PseudoWord.Proofs.BoundedWork
import PseudoWord.Proofs.WellFormedDraws
import PseudoWord.Proofs.CutSnapshots
import PseudoWord.Proofs.ExtendedLanguage
import PseudoWord.Proofs.LengthBound
import PseudoWord.Proofs.StepLimit
import PseudoWord.Proofs.SingleWorker
import PseudoWord.Proofs.SeededStream
import PseudoWord.Proofs.BoundedSearch
