import NotebookTidy.Batch.Basic
import NotebookTidy.Batch.Outcome
import NotebookTidy.Batch.Schedule
import NotebookTidy.Batch.Summary
import NotebookTidy.CellFormat
import NotebookTidy.CommandLine.Arguments
import NotebookTidy.CommandLine.Run
import NotebookTidy.CommandLine.Wording
import NotebookTidy.Directive.Segments
import NotebookTidy.Discovery
import NotebookTidy.FileSystem.Action
import NotebookTidy.FileSystem.Basic
import NotebookTidy.FileSystem.Install
import NotebookTidy.FileSystem.Path
import NotebookTidy.FileSystem.Permission
import NotebookTidy.Formatter.Basic
import NotebookTidy.Formatter.Black
import NotebookTidy.Formatter.Program
import NotebookTidy.Formatter.Spacing
import NotebookTidy.Formatter.TargetVersion
import NotebookTidy.IoFault
import NotebookTidy.Json.Literal
import NotebookTidy.Json.Number
import NotebookTidy.Json.Reader
import NotebookTidy.Json.Token
import NotebookTidy.Json.Value
import NotebookTidy.Layout.Basic
import NotebookTidy.Layout.Detect
import NotebookTidy.Layout.Render
import NotebookTidy.Layout.Writer
import NotebookTidy.Main
import NotebookTidy.Notebook.Basic
import NotebookTidy.Notebook.Error
import NotebookTidy.Notebook.File
import NotebookTidy.Notebook.Format
import NotebookTidy.Notebook.Reader
import NotebookTidy.Proofs.AbortedRuns
import NotebookTidy.Proofs.AccountedCalls
import NotebookTidy.Proofs.AtomicReplacement
import NotebookTidy.Proofs.BatchTraces
import NotebookTidy.Proofs.CalmHistories
import NotebookTidy.Proofs.CalmNotebooks
import NotebookTidy.Proofs.CalmRuns
import NotebookTidy.Proofs.CancelledRuns
import NotebookTidy.Proofs.CancelledTasks
import NotebookTidy.Proofs.CanonicalFragments
import NotebookTidy.Proofs.CanonicalPaths
import NotebookTidy.Proofs.CellTasks
import NotebookTidy.Proofs.CellTraces
import NotebookTidy.Proofs.CheckedNotebooks
import NotebookTidy.Proofs.CompleteRuns
import NotebookTidy.Proofs.CountedOutcomes
import NotebookTidy.Proofs.DocumentRoundTrip
import NotebookTidy.Proofs.EditedNotebooks
import NotebookTidy.Proofs.EscapedText
import NotebookTidy.Proofs.EventKinds
import NotebookTidy.Proofs.FaultyNotebooks
import NotebookTidy.Proofs.FilesApart
import NotebookTidy.Proofs.FirstGiven
import NotebookTidy.Proofs.FirstKeys
import NotebookTidy.Proofs.FirstSeparators
import NotebookTidy.Proofs.ForcedResults
import NotebookTidy.Proofs.FormattedPrefixes
import NotebookTidy.Proofs.FoundNotebooks
import NotebookTidy.Proofs.KeptDirectives
import NotebookTidy.Proofs.LateInterruptions
import NotebookTidy.Proofs.LayoutRoundTrip
import NotebookTidy.Proofs.LossyDecoding
import NotebookTidy.Proofs.ModeArguments
import NotebookTidy.Proofs.NamedEntries
import NotebookTidy.Proofs.NamedVersions
import NotebookTidy.Proofs.NoteHistories
import NotebookTidy.Proofs.NotebookNames
import NotebookTidy.Proofs.ParallelRuns
import NotebookTidy.Proofs.ProperSegments
import NotebookTidy.Proofs.QuotedLines
import NotebookTidy.Proofs.ReadValues
import NotebookTidy.Proofs.RenderedNotebooks
import NotebookTidy.Proofs.RenderedText
import NotebookTidy.Proofs.ReplacedFiles
import NotebookTidy.Proofs.Replacement
import NotebookTidy.Proofs.ResolvedTargets
import NotebookTidy.Proofs.SearchedTrails
import NotebookTidy.Proofs.SeenSources
import NotebookTidy.Proofs.SpacedCode
import NotebookTidy.Proofs.SpacedLines
import NotebookTidy.Proofs.SpacedNotebooks
import NotebookTidy.Proofs.SpelledTokens
import NotebookTidy.Proofs.Stops
import NotebookTidy.Proofs.StrayMarkers
import NotebookTidy.Proofs.TemporaryFiles
import NotebookTidy.Proofs.TidyCode
import NotebookTidy.Proofs.UndisturbedRuns
import NotebookTidy.Proofs.UniqueSegments
import NotebookTidy.Proofs.UnitEscapes
import NotebookTidy.Proofs.Utf8RoundTrip
import NotebookTidy.Proofs.WalkFrames
import NotebookTidy.Proofs.Walks
import NotebookTidy.Proofs.WholeFiles
import NotebookTidy.Proofs.WrittenText
import NotebookTidy.Rejections
import NotebookTidy.Settings.Configuration
import NotebookTidy.Settings.Resolve
import NotebookTidy.Task
import NotebookTidy.Text.Blank
import NotebookTidy.Text.Decimal
import NotebookTidy.Text.Fragment
import NotebookTidy.Text.Search
import NotebookTidy.Text.Utf8
import NotebookTidy.Toml.Reader
import NotebookTidy.Toml.Scalar
import NotebookTidy.Toml.Value
