import PairLisp.Main
import PairLisp.Reader.Stepwise
import PairLisp.Repl.Completion
import PairLisp.Proofs.Reader.Reads
import PairLisp.Proofs.Reader.Exactness
import PairLisp.Proofs.Reader.Offence
import PairLisp.Proofs.Reader.Descent
import PairLisp.Proofs.Scanner.Extent
import PairLisp.Proofs.Scanner.Shift
import PairLisp.Proofs.Reader.Joined
import PairLisp.Proofs.Eval.Ensures
import PairLisp.Proofs.Eval.Closure
import PairLisp.Proofs.Eval.Values
import PairLisp.Proofs.Reader.Nesting
import PairLisp.Proofs.Eval.Limits
import PairLisp.Proofs.Scanner.Again
import PairLisp.Proofs.Scanner.Spelling
import PairLisp.Proofs.Reader.Spelled
import PairLisp.Proofs.Expr.Listing
import PairLisp.Proofs.Reader.Written
import PairLisp.Proofs.Reader.Printed
import PairLisp.Proofs.Repl.Units
import PairLisp.Proofs.Repl.Readiness
import PairLisp.Proofs.Eval.Sequence
import PairLisp.Proofs.Text.Lines
import PairLisp.Proofs.Text.Bytes
import PairLisp.Proofs.Batch
import PairLisp.Proofs.Eval.Together
import PairLisp.Proofs.Eval.Agreement
import PairLisp.Proofs.Expr.Alike
import PairLisp.Proofs.Scanner.Fronts
import PairLisp.Proofs.Scanner.LongestNumber
import PairLisp.Proofs.Scanner.LongestMatch
import PairLisp.Proofs.Scanner.Lexemes
import PairLisp.Proofs.Scanner.Escapes
import PairLisp.Proofs.Scanner.QuotedText
import PairLisp.Proofs.Scanner.Integers
import PairLisp.Proofs.Repl.Segments
import PairLisp.Proofs.Scanner.Places
import PairLisp.Proofs.Eval.Frame
import PairLisp.Proofs.Scanner.Calls
import PairLisp.Proofs.Reader.Procedures
import PairLisp.Proofs.Reader.Calls
import PairLisp.Proofs.Text.Quoted
import PairLisp.Proofs.Expr.Pieces
import PairLisp.Proofs.Expr.Structural
import PairLisp.Proofs.Repl.Color
import PairLisp.Proofs.Eval.Growth
import PairLisp.Proofs.Repl.Echo
import PairLisp.Proofs.Repl.Dropped
import PairLisp.Proofs.Repl.Loop
import PairLisp.Proofs.Text.ByteOrder
import PairLisp.Proofs.Expr.Levels
import PairLisp.Proofs.Reader.MostOpen
import PairLisp.Proofs.Scope.Layers
import PairLisp.Proofs.Scope.Tables
import PairLisp.Proofs.Repl.Completion
import PairLisp.Proofs.Decimal.Values
import PairLisp.Proofs.Decimal.Rounding
import PairLisp.Proofs.Decimal.Shortest
import PairLisp.Proofs.Decimal.Written
import PairLisp.Proofs.Scanner.Floats
