import ShellTree.Json.Parse
import ShellTree.Json.Print
import ShellTree.Print.Render
import ShellTree.Sample.Measure
import ShellTree.Shfmt.Run
import ShellTree.Tagged
import ShellTree.Text.Integer
import ShellTree.Text.Utf8
import ShellTree.Tree.Export
import ShellTree.Tree.Outline
import ShellTree.Walk
import ShellTree.Proofs.AlikeCommands
import ShellTree.Proofs.Arithmetic
import ShellTree.Proofs.ArrangedTrees
import ShellTree.Proofs.Assignments
import ShellTree.Proofs.BlankSeparatedText
import ShellTree.Proofs.ByteSplitting
import ShellTree.Proofs.CommandAssembly
import ShellTree.Proofs.CommandSteps
import ShellTree.Proofs.Conditions
import ShellTree.Proofs.DatumInside
import ShellTree.Proofs.Decoding
import ShellTree.Proofs.DeferredHeredocs
import ShellTree.Proofs.Delimiter
import ShellTree.Proofs.Encoding
import ShellTree.Proofs.Escapes
import ShellTree.Proofs.ExchangedOperators
import ShellTree.Proofs.Expansions
import ShellTree.Proofs.Exporters
import ShellTree.Proofs.Expression
import ShellTree.Proofs.FunctionNesting
import ShellTree.Proofs.Grammar
import ShellTree.Proofs.Heredoc
import ShellTree.Proofs.HeredocCommands
import ShellTree.Proofs.JobsBeforeSemicolons
import ShellTree.Proofs.JoinedStatements
import ShellTree.Proofs.NodeFields
import ShellTree.Proofs.OperatorsAfterHeredocs
import ShellTree.Proofs.Outcome
import ShellTree.Proofs.ParallelComputations
import ShellTree.Proofs.PipelineFlag
import ShellTree.Proofs.Pipelines
import ShellTree.Proofs.PipelinesAndJobs
import ShellTree.Proofs.Preorder
import ShellTree.Proofs.PrintableTrees
import ShellTree.Proofs.QuotedBody
import ShellTree.Proofs.RedirectionRows
import ShellTree.Proofs.Redirections
import ShellTree.Proofs.RequotedStrings
import ShellTree.Proofs.Script
import ShellTree.Proofs.ScriptReadBack
import ShellTree.Proofs.SessionSteps
import ShellTree.Proofs.Sessions
import ShellTree.Proofs.SourceWords
import ShellTree.Proofs.Spine
import ShellTree.Proofs.Statements
import ShellTree.Proofs.TaggedFormText
import ShellTree.Proofs.TaggedLayout
import ShellTree.Proofs.TaggedNormalForm
import ShellTree.Proofs.TaggedReread
import ShellTree.Proofs.TextAfterMarker
import ShellTree.Proofs.TextPieces
import ShellTree.Proofs.TreeClashes
import ShellTree.Proofs.TreeSlots
import ShellTree.Proofs.TwoPassOrder
import ShellTree.Proofs.UnbracedPrograms
import ShellTree.Proofs.VaryingCommands
import ShellTree.Proofs.VerbatimCommands
import ShellTree.Proofs.WalkClearing
import ShellTree.Proofs.WalkRoles
import ShellTree.Proofs.WalkRuns
import ShellTree.Proofs.WalkTrees
import ShellTree.Proofs.WellFormed
import ShellTree.Proofs.WordReadings
