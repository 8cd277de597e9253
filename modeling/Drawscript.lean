import Drawscript.Main
import Drawscript.Proofs.Exec.Plan
import Drawscript.Proofs.Exec.Call
import Drawscript.Proofs.Exec.RunLaw
import Drawscript.Proofs.Exec.Scoping
import Drawscript.Proofs.Stmt.Inside
import Drawscript.Proofs.Exec.Steps
import Drawscript.Proofs.Exec.Termination
import Drawscript.Proofs.Exec.FailStop
import Drawscript.Proofs.Exec.Limits
import Drawscript.Proofs.Exec.Lockstep
import Drawscript.Proofs.Exec.Isolation
import Drawscript.Proofs.Text.Fields
import Drawscript.Proofs.Source.Keyword
import Drawscript.Proofs.Source.Block
import Drawscript.Proofs.Stmt.Command
import Drawscript.Proofs.Stmt.Header
import Drawscript.Proofs.Stmt.Reading
import Drawscript.Proofs.Stmt.Written
import Drawscript.Proofs.Stmt.RoundTrip
import Drawscript.Proofs.Exec.Nesting
import Drawscript.Proofs.Exec.Returns
import Drawscript.Proofs.Store.Typed
import Drawscript.Proofs.Exec.History
import Drawscript.Proofs.Exec.Typed
import Drawscript.Proofs.Source.Lines
import Drawscript.Proofs.Stmt.Account
import Drawscript.Proofs.Exec.Origin
import Drawscript.Proofs.Exec.Located
import Drawscript.Proofs.Stmt.Names
import Drawscript.Proofs.Exec.Names
import Drawscript.Proofs.Canvas.History
import Drawscript.Proofs.Stmt.Append
import Drawscript.Proofs.Stmt.Kinds
import Drawscript.Proofs.Store.Slots
import Drawscript.Proofs.Exec.Slots
import Drawscript.Proofs.Expr.Lexer
import Drawscript.Proofs.Expr.Precedence
import Drawscript.Proofs.Session
import Drawscript.Proofs.Expr.Substitution
import Drawscript.Proofs.Expr.Agreement
import Drawscript.Proofs.Source.Extent
import Drawscript.Proofs.Store.Memory
import Drawscript.Proofs.Exec.Confined
import Drawscript.Proofs.Exec.Loops
import Drawscript.Proofs.Number.Double
import Drawscript.Proofs.Number.Rounding
import Drawscript.Proofs.Number.Arithmetic
import Drawscript.Proofs.Number.Reader
import Drawscript.Proofs.Number.RoundTrip
import Drawscript.Proofs.Number.Whole
import Drawscript.Proofs.Store.Integers
import Drawscript.Proofs.Expr.Integers
import Drawscript.Proofs.Expr.Negation
import Drawscript.Proofs.Expr.Literals
import Drawscript.Proofs.Exec.IntegerLines
import Drawscript.Proofs.Store.Keys
import Drawscript.Proofs.Store.Resolution
import Drawscript.Proofs.Expr.Condition
import Drawscript.Proofs.Exec.Writing
import Drawscript.Proofs.Source.Offset
import Drawscript.Proofs.Stmt.DrawArguments
import Drawscript.Proofs.Expr.Pattern
import Drawscript.Proofs.Source.Split
import Drawscript.Proofs.Expr.Tokenization
import Drawscript.Proofs.Number.Narrowing
import Drawscript.Proofs.Exec.WrittenValues
