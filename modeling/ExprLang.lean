import ExprLang.Main
import ExprLang.Parser.Call
import ExprLang.Value
import ExprLang.Node.Describe
import ExprLang.Proofs.Phrase
import ExprLang.Proofs.Contract
import ExprLang.Proofs.Soundness
import ExprLang.Proofs.Spelling
import ExprLang.Proofs.WellFormed
import ExprLang.Proofs.Reading
import ExprLang.Proofs.Completeness
import ExprLang.Proofs.Lexeme
import ExprLang.Proofs.Limits
import ExprLang.Proofs.RoundTrip
import ExprLang.Proofs.Decomposition
import ExprLang.Proofs.Gluing
import ExprLang.Proofs.Progress
import ExprLang.Proofs.Lockstep
import ExprLang.Proofs.Result
import ExprLang.Proofs.Driving
import ExprLang.Proofs.Sequence
import ExprLang.Proofs.Isolation
import ExprLang.Proofs.Enclosure
import ExprLang.Proofs.Closing
import ExprLang.Proofs.Termination
import ExprLang.Proofs.Locating
import ExprLang.Proofs.Splitting
import ExprLang.Proofs.Independence
import ExprLang.Proofs.Encoding
import ExprLang.Proofs.Loading
import ExprLang.Proofs.Display
import ExprLang.Proofs.Charging
import ExprLang.Proofs.Lookahead
import ExprLang.Proofs.Requests
import ExprLang.Proofs.Interchange
import ExprLang.Proofs.Unclosed
import ExprLang.Proofs.Records
import ExprLang.Proofs.Numerals
import ExprLang.Proofs.Parameters
