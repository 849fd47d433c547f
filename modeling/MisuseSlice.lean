import MisuseSlice.Analysis
import MisuseSlice.Body.Basic
import MisuseSlice.Body.Feasibility
import MisuseSlice.Body.Folding
import MisuseSlice.Body.Region
import MisuseSlice.Body.Relevance
import MisuseSlice.Body.Renaming
import MisuseSlice.CallGraph.Basic
import MisuseSlice.CallGraph.Build
import MisuseSlice.CallGraph.Chains
import MisuseSlice.CommandLine.Command
import MisuseSlice.CommandLine.Flags
import MisuseSlice.CommandLine.Hint
import MisuseSlice.CommandLine.Run
import MisuseSlice.Criterion.Basic
import MisuseSlice.Criterion.Fingerprint
import MisuseSlice.Criterion.Ledger
import MisuseSlice.Digraph.Basic
import MisuseSlice.Digraph.Components
import MisuseSlice.Digraph.Cycles
import MisuseSlice.Digraph.Dot
import MisuseSlice.Document.Content
import MisuseSlice.Document.Decode
import MisuseSlice.Document.Json
import MisuseSlice.Document.Node
import MisuseSlice.Document.Scalar
import MisuseSlice.Document.Source
import MisuseSlice.Document.Token
import MisuseSlice.Document.Token.Reader
import MisuseSlice.Document.Token.Scalar
import MisuseSlice.Document.Token.Tag
import MisuseSlice.Document.Writer
import MisuseSlice.Files
import MisuseSlice.Interval
import MisuseSlice.KeyMaterial.Der
import MisuseSlice.KeyMaterial.Encoding
import MisuseSlice.KeyMaterial.Rsa
import MisuseSlice.Log
import MisuseSlice.Main
import MisuseSlice.Number.Binary64
import MisuseSlice.Number.Integer
import MisuseSlice.Number.Literal
import MisuseSlice.Number.Rational
import MisuseSlice.Packed.Decode
import MisuseSlice.Packed.Item
import MisuseSlice.Program.Basic
import MisuseSlice.Program.Decode
import MisuseSlice.Program.Dump
import MisuseSlice.Program.Encode
import MisuseSlice.Program.Format
import MisuseSlice.Program.Packed
import MisuseSlice.Program.Shown
import MisuseSlice.Proofs.Body.DeadCode
import MisuseSlice.Proofs.Body.Feasibility
import MisuseSlice.Proofs.Body.Flow
import MisuseSlice.Proofs.Body.IntegerFolding
import MisuseSlice.Proofs.Body.Iterations
import MisuseSlice.Proofs.Body.Links
import MisuseSlice.Proofs.Body.Names
import MisuseSlice.Proofs.Body.Nesting
import MisuseSlice.Proofs.Body.Ownership
import MisuseSlice.Proofs.Body.Prepared
import MisuseSlice.Proofs.Body.Preparing
import MisuseSlice.Proofs.Body.Propagation
import MisuseSlice.Proofs.Body.Relevance
import MisuseSlice.Proofs.Body.Scopes
import MisuseSlice.Proofs.Body.Sharing
import MisuseSlice.Proofs.Body.SingleAssignment
import MisuseSlice.Proofs.Breadth
import MisuseSlice.Proofs.CallGraph.Agreement
import MisuseSlice.Proofs.CallGraph.Building
import MisuseSlice.Proofs.CallGraph.Chains
import MisuseSlice.Proofs.CallGraph.Constancy
import MisuseSlice.Proofs.CallGraph.Edges
import MisuseSlice.Proofs.CallGraph.Entries
import MisuseSlice.Proofs.CallGraph.Holdings
import MisuseSlice.Proofs.CallGraph.PathStates
import MisuseSlice.Proofs.CallGraph.Sites
import MisuseSlice.Proofs.Comparison
import MisuseSlice.Proofs.Criterion.Calls
import MisuseSlice.Proofs.Criterion.Seeds
import MisuseSlice.Proofs.Digraph.Circuits
import MisuseSlice.Proofs.Digraph.Cycles
import MisuseSlice.Proofs.Digraph.Reach
import MisuseSlice.Proofs.Digraph.Ways
import MisuseSlice.Proofs.Document.Reading
import MisuseSlice.Proofs.Folds
import MisuseSlice.Proofs.Interval
import MisuseSlice.Proofs.Maps
import MisuseSlice.Proofs.Number.Decimals
import MisuseSlice.Proofs.Number.Integers
import MisuseSlice.Proofs.Packed.Reading
import MisuseSlice.Proofs.Packed.RoundTrip
import MisuseSlice.Proofs.Program.Conversion
import MisuseSlice.Proofs.Program.Finalizing
import MisuseSlice.Proofs.Program.Hierarchy
import MisuseSlice.Proofs.Program.Reading
import MisuseSlice.Proofs.Program.Standard
import MisuseSlice.Proofs.Program.Unpacking
import MisuseSlice.Proofs.Rule.Expressions
import MisuseSlice.Proofs.Rule.Reports
import MisuseSlice.Proofs.Rule.Subslices
import MisuseSlice.Proofs.Rule.Validation
import MisuseSlice.Proofs.Slice.Changes
import MisuseSlice.Proofs.Slice.Store
import MisuseSlice.Proofs.Slice.Tree
import MisuseSlice.Proofs.Slicer.Ascents
import MisuseSlice.Proofs.Slicer.Books
import MisuseSlice.Proofs.Slicer.Completion
import MisuseSlice.Proofs.Slicer.Connections
import MisuseSlice.Proofs.Slicer.Descents
import MisuseSlice.Proofs.Slicer.History
import MisuseSlice.Proofs.Slicer.Interruption
import MisuseSlice.Proofs.Slicer.Lines
import MisuseSlice.Proofs.Slicer.Losses
import MisuseSlice.Proofs.Slicer.Merging
import MisuseSlice.Proofs.Slicer.Narrowing
import MisuseSlice.Proofs.Slicer.Origins
import MisuseSlice.Proofs.Slicer.Outcome
import MisuseSlice.Proofs.Slicer.Playing
import MisuseSlice.Proofs.Slicer.Precedence
import MisuseSlice.Proofs.Slicer.Reachable
import MisuseSlice.Proofs.Slicer.Retention
import MisuseSlice.Proofs.Slicer.Retraction
import MisuseSlice.Proofs.Slicer.Roots
import MisuseSlice.Proofs.Slicer.Scans
import MisuseSlice.Proofs.Slicer.Slices
import MisuseSlice.Proofs.Slicer.StraightLine
import MisuseSlice.Proofs.Slicer.Termination
import MisuseSlice.Proofs.Slicer.Turns
import MisuseSlice.Proofs.Slicer.Visits
import MisuseSlice.Proofs.Slicer.Waiting
import MisuseSlice.Proofs.Slicer.Worklist
import MisuseSlice.Proofs.Sorting
import MisuseSlice.Proofs.Text.Cutting
import MisuseSlice.Proofs.Text.Utf8
import MisuseSlice.Proofs.ValueSets
import MisuseSlice.Report.Basic
import MisuseSlice.Report.Encode
import MisuseSlice.Report.Style
import MisuseSlice.Report.Text
import MisuseSlice.Rule.Algorithm
import MisuseSlice.Rule.Basic
import MisuseSlice.Rule.Check
import MisuseSlice.Rule.Decode
import MisuseSlice.Rule.Finding
import MisuseSlice.Rule.Subslices
import MisuseSlice.Session
import MisuseSlice.Settings
import MisuseSlice.Signature
import MisuseSlice.Slice.CriteriaTree
import MisuseSlice.Slice.Line
import MisuseSlice.Slice.Store
import MisuseSlice.Slicer.CallRule
import MisuseSlice.Slicer.Merge
import MisuseSlice.Slicer.Run
import MisuseSlice.Slicer.Scan
import MisuseSlice.Slicer.State
import MisuseSlice.Slicer.Step
import MisuseSlice.Sorting
import MisuseSlice.Statement.Basic
import MisuseSlice.Statement.Build
import MisuseSlice.Statement.Kind
import MisuseSlice.Text.Base64
import MisuseSlice.Text.Basic
import MisuseSlice.Text.Blank
import MisuseSlice.Text.Casing
import MisuseSlice.Text.Category
import MisuseSlice.Text.Glob
import MisuseSlice.Text.Held
import MisuseSlice.Text.Path
import MisuseSlice.Text.Printable
import MisuseSlice.Text.Quoted
import MisuseSlice.Text.Regex.Basic
import MisuseSlice.Text.Regex.Match
import MisuseSlice.Text.Regex.Parser
import MisuseSlice.Text.RunTable
import MisuseSlice.Text.Script
import MisuseSlice.Text.Utf8
import MisuseSlice.Value
import MisuseSlice.Workspace
