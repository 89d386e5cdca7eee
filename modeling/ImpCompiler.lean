import ImpCompiler.Token
import ImpCompiler.Token.Scanner
import ImpCompiler.Json
import ImpCompiler.Tree
import ImpCompiler.Tree.Listing
import ImpCompiler.Tree.Visit
import ImpCompiler.Tree.Json
import ImpCompiler.Tree.ParseError
import ImpCompiler.Tree.Parser
import ImpCompiler.Text.Hex
import ImpCompiler.Ssa.Names
import ImpCompiler.Ssa.Module
import ImpCompiler.Ssa.Assembly
import ImpCompiler.Ssa.Problem
import ImpCompiler.Ssa.Check
import ImpCompiler.Ssa.Json
import ImpCompiler.Ssa.Emitter
import ImpCompiler.Number.Rounding
import ImpCompiler.Number.Binary64
import ImpCompiler.Number.Fixed
import ImpCompiler.Number.Literal
import ImpCompiler.Lowering.Scopes
import ImpCompiler.Lowering.LoweringError
import ImpCompiler.Text.Utf8
import ImpCompiler.Output
import ImpCompiler.Lowering
import ImpCompiler.Text.Blank
import ImpCompiler.Text.BreakClass
import ImpCompiler.Text.Cluster
import ImpCompiler.Text.Trie
import ImpCompiler.Files
import ImpCompiler.Compilation
import ImpCompiler.CommandLine.Help
import ImpCompiler.CommandLine.Job
import ImpCompiler.CommandLine.TypedLine
import ImpCompiler.CommandLine.Session
import ImpCompiler.CommandLine.Arguments
import ImpCompiler.Main
import ImpCompiler.Proofs.Ssa.Cursor
import ImpCompiler.Proofs.Ssa.Sound
import ImpCompiler.Proofs.Lowering.Actions
import ImpCompiler.Proofs.Lowering.Soundness
import ImpCompiler.Proofs.Ssa.Checked
import ImpCompiler.Proofs.Ssa.WellFormed
import ImpCompiler.Proofs.Lowering.WellFormed
import ImpCompiler.Proofs.Semantics.Machine
import ImpCompiler.Proofs.Lowering.Runs
import ImpCompiler.Proofs.Semantics.Simulation
import ImpCompiler.Proofs.Semantics.Expressions
import ImpCompiler.Proofs.Semantics.Statements
import ImpCompiler.Proofs.Lowering.Definitions
import ImpCompiler.Proofs.Semantics.Preservation
import ImpCompiler.Proofs.Tree.Braced
import ImpCompiler.Proofs.Semantics.Environment
import ImpCompiler.Proofs.Ssa.Initialised
import ImpCompiler.Proofs.Lowering.Initialised
import ImpCompiler.Proofs.Typing.Agreement
import ImpCompiler.Proofs.Lowering.Reached
import ImpCompiler.Proofs.Tree.Grammar
import ImpCompiler.Proofs.Tree.Soundness
import ImpCompiler.Proofs.Tree.Completeness
import ImpCompiler.Proofs.Tree.Writer
import ImpCompiler.Proofs.Token.Lines
import ImpCompiler.Proofs.Tree.Relabelling
import ImpCompiler.Proofs.Tree.Names
import ImpCompiler.Proofs.Lowering.Construction
import ImpCompiler.Proofs.Tree.Concatenation
import ImpCompiler.Proofs.CommandLine.Sessions
import ImpCompiler.Proofs.Token.Layout
import ImpCompiler.Proofs.Lowering.Isolation
import ImpCompiler.Proofs.Token.LongestMatch
import ImpCompiler.Proofs.Tree.Truncation
import ImpCompiler.Proofs.Lowering.Desugaring
import ImpCompiler.Proofs.Lowering.Positions
import ImpCompiler.Proofs.Compilation.Layout
import ImpCompiler.Proofs.Ssa.Nameless
import ImpCompiler.Proofs.Lowering.Renaming
import ImpCompiler.Proofs.Ssa.Histories
import ImpCompiler.Proofs.Ssa.LocalTypes
import ImpCompiler.Proofs.Lowering.Inventory
import ImpCompiler.Proofs.Tree.Blame
import ImpCompiler.Proofs.Tree.Tokens
import ImpCompiler.Proofs.Typing.Blame
import ImpCompiler.Proofs.Compilation.Blame
import ImpCompiler.Proofs.Ssa.References
import ImpCompiler.Proofs.Ssa.AppendOnly
import ImpCompiler.Proofs.Ssa.SingleAssignment
import ImpCompiler.Proofs.Ssa.DistinctNames
import ImpCompiler.Proofs.Ssa.Failures
import ImpCompiler.Proofs.Lowering.Snapshots
import ImpCompiler.Proofs.Lowering.Context
import ImpCompiler.Proofs.Tree.TopLevel
import ImpCompiler.Proofs.Token.Spelling
import ImpCompiler.Proofs.Tree.RoundTrip
import ImpCompiler.Proofs.Tree.Progress
import ImpCompiler.Proofs.Ssa.LeastNumbers
import ImpCompiler.Proofs.Ssa.Constants
import ImpCompiler.Proofs.Tree.Leftmost
import ImpCompiler.Proofs.Number.Nearest
import ImpCompiler.Proofs.Number.ShortLiterals
