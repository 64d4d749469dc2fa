import NumberedBasic.Command.Arguments
import NumberedBasic.Command.Folder
import NumberedBasic.Command.Session
import NumberedBasic.Document
import NumberedBasic.Double.Basic
import NumberedBasic.Double.Decimal
import NumberedBasic.Double.Format
import NumberedBasic.Dump
import NumberedBasic.Expr.Basic
import NumberedBasic.Expr.Eval
import NumberedBasic.Fault
import NumberedBasic.Image
import NumberedBasic.LineOrder
import NumberedBasic.Main
import NumberedBasic.Numeral
import NumberedBasic.Program.Basic
import NumberedBasic.Program.Edit
import NumberedBasic.Proofs.BlockRuns
import NumberedBasic.Proofs.Blocks
import NumberedBasic.Proofs.BracketMatching
import NumberedBasic.Proofs.Cancellation
import NumberedBasic.Proofs.Completion
import NumberedBasic.Proofs.Decimals
import NumberedBasic.Proofs.Decoding
import NumberedBasic.Proofs.Display
import NumberedBasic.Proofs.Doubles
import NumberedBasic.Proofs.Dumps
import NumberedBasic.Proofs.Editing
import NumberedBasic.Proofs.Effects
import NumberedBasic.Proofs.Escapes
import NumberedBasic.Proofs.Evaluation
import NumberedBasic.Proofs.Failures
import NumberedBasic.Proofs.Flow
import NumberedBasic.Proofs.Grammar
import NumberedBasic.Proofs.JoinedListings
import NumberedBasic.Proofs.Jumps
import NumberedBasic.Proofs.Lexemes
import NumberedBasic.Proofs.LineKeyword
import NumberedBasic.Proofs.LineQueries
import NumberedBasic.Proofs.Listing
import NumberedBasic.Proofs.LoopEnds
import NumberedBasic.Proofs.LoopStack
import NumberedBasic.Proofs.MaximalMunch
import NumberedBasic.Proofs.Memory
import NumberedBasic.Proofs.OpenLoops
import NumberedBasic.Proofs.Outcomes
import NumberedBasic.Proofs.Parsing
import NumberedBasic.Proofs.Performing
import NumberedBasic.Proofs.Positions
import NumberedBasic.Proofs.Precedence
import NumberedBasic.Proofs.Refusals
import NumberedBasic.Proofs.Remarks
import NumberedBasic.Proofs.Renumbering
import NumberedBasic.Proofs.Replies
import NumberedBasic.Proofs.Rounding
import NumberedBasic.Proofs.Rows
import NumberedBasic.Proofs.Runs
import NumberedBasic.Proofs.Spacing
import NumberedBasic.Proofs.Spelling
import NumberedBasic.Proofs.StepLimit
import NumberedBasic.Proofs.Symbols
import NumberedBasic.Proofs.Tracing
import NumberedBasic.Proofs.Viability
import NumberedBasic.Proofs.WholeNumbers
import NumberedBasic.Run
import NumberedBasic.Statement.Basic
import NumberedBasic.Statement.Parser
import NumberedBasic.Statement.Row
import NumberedBasic.Store
import NumberedBasic.Text.Blank
import NumberedBasic.Text.Digit
import NumberedBasic.Text.LineBreak
import NumberedBasic.Text.Printable
import NumberedBasic.Token.Basic
import NumberedBasic.Token.Lexer
import NumberedBasic.Trace
import NumberedBasic.Workspace
