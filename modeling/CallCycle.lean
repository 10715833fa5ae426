import CallCycle.Build.Builder
import CallCycle.Build.Config
import CallCycle.Build.Report
import CallCycle.CallGraph.Basic
import CallCycle.CallGraph.Cycles
import CallCycle.CallGraph.Json
import CallCycle.CallGraph.Scope
import CallCycle.Command.Line
import CallCycle.Command.Report
import CallCycle.Command.Run
import CallCycle.Command.Submission
import CallCycle.Descriptor.Canonical
import CallCycle.Descriptor.Json
import CallCycle.Descriptor.Primitive
import CallCycle.Descriptor.Spacing
import CallCycle.Digraph.Components
import CallCycle.Digraph.Sweep
import CallCycle.Export.Dot
import CallCycle.Export.Snapshot
import CallCycle.Files.Basic
import CallCycle.Files.Tree
import CallCycle.Json.Codec
import CallCycle.Json.Fault
import CallCycle.Json.Item
import CallCycle.Json.Number
import CallCycle.Json.Quoted
import CallCycle.Json.Row
import CallCycle.Json.Token
import CallCycle.Json.Value
import CallCycle.Key.Basic
import CallCycle.Key.Json
import CallCycle.Key.Parse
import CallCycle.Main
import CallCycle.Number.Binary64
import CallCycle.Number.Decimal
import CallCycle.Proofs.Account
import CallCycle.Proofs.Agreement
import CallCycle.Proofs.Arrival
import CallCycle.Proofs.Balance
import CallCycle.Proofs.Batch
import CallCycle.Proofs.Build
import CallCycle.Proofs.CallGraph
import CallCycle.Proofs.Canonical
import CallCycle.Proofs.Coarsening
import CallCycle.Proofs.CodecLaws
import CallCycle.Proofs.Components
import CallCycle.Proofs.Cycles
import CallCycle.Proofs.Diagnosis
import CallCycle.Proofs.Drawing
import CallCycle.Proofs.EntryPoint
import CallCycle.Proofs.Exclusion
import CallCycle.Proofs.Extraction
import CallCycle.Proofs.FixedForm
import CallCycle.Proofs.Growth
import CallCycle.Proofs.Highlight
import CallCycle.Proofs.KeyGrammar
import CallCycle.Proofs.KeySyntax
import CallCycle.Proofs.KeyText
import CallCycle.Proofs.Lexing
import CallCycle.Proofs.NormalSpacing
import CallCycle.Proofs.OverrideChain
import CallCycle.Proofs.Printed
import CallCycle.Proofs.Reachability
import CallCycle.Proofs.RecordText
import CallCycle.Proofs.Records
import CallCycle.Proofs.Refusal
import CallCycle.Proofs.Rendering
import CallCycle.Proofs.Representation
import CallCycle.Proofs.Respelling
import CallCycle.Proofs.Snapshot
import CallCycle.Proofs.Spacing
import CallCycle.Proofs.Spelling
import CallCycle.Proofs.Submission
import CallCycle.Proofs.TightText
import CallCycle.Proofs.Vanishing
import CallCycle.Proofs.Verdict
import CallCycle.Proofs.Worklist
import CallCycle.Proofs.WrittenType
import CallCycle.Record.Basic
import CallCycle.Record.Json
import CallCycle.Symbol
import CallCycle.Text.Affix
import CallCycle.Text.Blank
import CallCycle.Text.Quote
import CallCycle.Text.Ranges
import CallCycle.Text.WordChar
import CallCycle.Verdict
