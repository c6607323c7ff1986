import Nomi.Cli.Command
import Nomi.Main
import Nomi.Proofs.Syntax.Grammar
import Nomi.Proofs.Syntax.Reading
import Nomi.Proofs.Syntax.Soundness
import Nomi.Proofs.Syntax.Completeness
import Nomi.Proofs.Syntax.Recognition
import Nomi.Proofs.Lexical.Numerals
import Nomi.Proofs.Lexical.Cut
import Nomi.Proofs.Lexical.Scanning
import Nomi.Proofs.Syntax.Language
import Nomi.Proofs.Lexical.Tokens
import Nomi.Proofs.Syntax.Evaluable
import Nomi.Proofs.Syntax.Statements
import Nomi.Proofs.Eval.Values
import Nomi.Proofs.Eval.Soundness
import Nomi.Proofs.Store.Growth
import Nomi.Proofs.Eval.Growth
import Nomi.Proofs.Eval.Cutoff
import Nomi.Proofs.Eval.Bodies
import Nomi.Proofs.Store.Declarations
import Nomi.Proofs.Eval.Declarations
import Nomi.Proofs.Store.Alike
import Nomi.Proofs.Store.View
import Nomi.Proofs.Eval.Agreement
import Nomi.Proofs.Eval.Locality
import Nomi.Proofs.Syntax.Placement
import Nomi.Proofs.Lexical.Joining
import Nomi.Proofs.Lexical.Spelling
import Nomi.Proofs.Syntax.Joining
import Nomi.Proofs.Eval.Joining
import Nomi.Proofs.Syntax.Printing
import Nomi.Proofs.Syntax.RoundTrip
import Nomi.Proofs.Syntax.Writing
import Nomi.Proofs.Store.Laws
import Nomi.Proofs.Number.Equality
import Nomi.Proofs.Syntax.Equality
import Nomi.Proofs.Eval.Placement
import Nomi.Proofs.Lexical.Places
import Nomi.Proofs.Syntax.Origins
import Nomi.Proofs.Eval.Origins
import Nomi.Proofs.Diagnostic.Underline
import Nomi.Proofs.Store.Mapping
import Nomi.Proofs.Syntax.Shorthand
import Nomi.Proofs.Eval.Conversion
import Nomi.Proofs.Eval.Simulation
import Nomi.Proofs.Eval.Shorthand
import Nomi.Proofs.Eval.Clock
import Nomi.Proofs.Cli.Console
import Nomi.Proofs.Cli.Command
import Nomi.Proofs.Lexical.Lines
import Nomi.Proofs.Eval.Calls
import Nomi.Proofs.Number.Fields
import Nomi.Proofs.Number.Order
import Nomi.Proofs.Number.Nearest
import Nomi.Proofs.Number.Digits
import Nomi.Proofs.Number.Fewest
import Nomi.Proofs.Number.Conventional
import Nomi.Proofs.Number.Parts
import Nomi.Proofs.Number.ReadBack
import Nomi.Proofs.Eval.Literals
import Nomi.Proofs.Lexical.LineEnds
import Nomi.Proofs.Store.Every
import Nomi.Proofs.Eval.Keeping
import Nomi.Proofs.Syntax.Height
import Nomi.Proofs.Eval.Runaway
import Nomi.Proofs.Syntax.Cursor
import Nomi.Proofs.Syntax.Window
import Nomi.Proofs.Syntax.Lookahead
import Nomi.Proofs.Eval.Reads
import Nomi.Proofs.Eval.Rooted
import Nomi.Proofs.Syntax.Operations
import Nomi.Proofs.Syntax.Stream
import Nomi.Proofs.Syntax.Progress
