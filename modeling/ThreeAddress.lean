import ThreeAddress.Compilation.Log
import ThreeAddress.Main
import ThreeAddress.Program.Dump
import ThreeAddress.Program.Session
import ThreeAddress.Program.Descent
import ThreeAddress.Proofs.Program.Occurrence
import ThreeAddress.Proofs.SymbolTable
import ThreeAddress.Proofs.Code.Emission
import ThreeAddress.Proofs.Code.Placement
import ThreeAddress.Proofs.Machine.Arithmetic
import ThreeAddress.Proofs.Machine.Run
import ThreeAddress.Proofs.Code.Simulation
import ThreeAddress.Proofs.Code.Correctness
import ThreeAddress.Proofs.Code.Closed
import ThreeAddress.Proofs.Compilation
import ThreeAddress.Proofs.Program.Derivation
import ThreeAddress.Proofs.Program.Rule
import ThreeAddress.Proofs.Program.Soundness
import ThreeAddress.Proofs.Program.Grammar
import ThreeAddress.Proofs.Program.Completeness
import ThreeAddress.Proofs.Program.Height
import ThreeAddress.Proofs.Program.Tower
import ThreeAddress.Proofs.Text.Place
import ThreeAddress.Proofs.Token.Longest
import ThreeAddress.Proofs.Token.Trivia
import ThreeAddress.Proofs.Token.Cursor
import ThreeAddress.Proofs.Token.Place
import ThreeAddress.Proofs.Token.Tiling
import ThreeAddress.Proofs.Program.Failure
import ThreeAddress.Proofs.Code.Names
import ThreeAddress.Proofs.Code.Labels
import ThreeAddress.Proofs.SymbolTable.History
import ThreeAddress.Proofs.Token.Stream
import ThreeAddress.Proofs.Code.Table
import ThreeAddress.Proofs.Compilation.Stages
import ThreeAddress.Proofs.Code.Layout
import ThreeAddress.Proofs.Compilation.Layout
import ThreeAddress.Proofs.Machine.Effect
import ThreeAddress.Proofs.Machine.Attempt
import ThreeAddress.Proofs.Machine.Jumps
import ThreeAddress.Proofs.Code.Relocation
import ThreeAddress.Proofs.Program.Cost
import ThreeAddress.Proofs.Code.Cost
import ThreeAddress.Proofs.Machine.Twin
import ThreeAddress.Proofs.Code.Temporaries
import ThreeAddress.Proofs.Program.Prefix
import ThreeAddress.Proofs.Program.Lookahead
import ThreeAddress.Proofs.Program.Nesting
import ThreeAddress.Proofs.Program.Print
import ThreeAddress.Proofs.Code.Arrivals
import ThreeAddress.Proofs.Machine.Quotient
import ThreeAddress.Proofs.Text.Snippet
import ThreeAddress.Proofs.Text.Padded
import ThreeAddress.Proofs.Diagnostic
import ThreeAddress.Proofs.Report
import ThreeAddress.Proofs.Code.Listing
import ThreeAddress.Proofs.Token.Respacing
import ThreeAddress.Proofs.Code.Contexts
import ThreeAddress.Proofs.Compilation.Redeclaration
import ThreeAddress.Proofs.Code.SingleUse
import ThreeAddress.Proofs.Machine.Log
import ThreeAddress.Proofs.Compilation.Log
import ThreeAddress.Proofs.Program.Progress
import ThreeAddress.Proofs.Program.Descent
import ThreeAddress.Proofs.Program.Session
