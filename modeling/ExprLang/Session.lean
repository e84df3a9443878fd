import ExprLang.Report
import ExprLang.Text.Blank

/-!
# Interactive sessions

A session reads one line after another and answers each with a text. Nothing is kept from one line
to the next except whether tokens are listed. It ends at a line that asks for it, at an interrupt,
or where the input ends.
-/

namespace ExprLang.Session

/-- What comes from the user: a line, or an interrupt. -/
inductive Input where
  | line (text : String)
  | interrupt
  deriving DecidableEq, Repr

/-- The text before the first line is read. -/
def banner : String :=
  "This is Gibbon!\nBegin typing commands. Type 'exit' or 'quit' to leave.\n"

/-- What is shown when a line is asked for. -/
def prompt : String := ">> "

/-- The words that end a session. -/
def farewell : String := "Exiting Gibbon REPL.\n"

/-- The farewell where no line came. -/
def abruptFarewell : String := "\n" ++ farewell

/-- The listing of the tokens of a line. -/
def tokenListing (text : String) : String :=
  Report.tokens "[token] >>> " text

/-- The text that stands for a line that nests too deeply, in place of a trace of the failure. -/
def overflowNotice : String := "[error] >>>\n<traceback>"

/-- What is shown for the tree of a line: its faults, or else its canonical text. An empty line has
nothing to show. The tree itself may be too high to be shown. -/
def evaluate (nesting : Nat) (text : String) : Option String := do
  let parsed ← parseWithin nesting text
  if !parsed.errors.isEmpty then
    return Report.faults parsed.errors
  else if parsed.program.statements.isEmpty then
    return ""
  else
    return (← parsed.program.renderWithin nesting) ++ "\n"

/-- The tokens of a line, if they are to be listed. -/
def listing (verbose : Bool) (text : String) : String :=
  if verbose then tokenListing text else ""

/-- What is printed for a line of the language, unless it nests too deeply. -/
def respond (nesting : Nat) (verbose : Bool) (text : String) : Option String :=
  (evaluate nesting text).map (listing verbose text ++ ·)

/-- The answer to a line of the language. The notice of a line that nests too deeply comes after
its tokens. -/
def answer (nesting : Nat) (verbose : Bool) (text : String) : String :=
  (respond nesting verbose text).getD (listing verbose text ++ overflowNotice)

/-- How a session goes on after an input: it is over, or it reads another line. -/
inductive Reaction where
  | leave (reply : String)
  | stay (reply : String) (verbose : Bool)
  deriving DecidableEq, Repr

/-- The line that turns the listing of tokens on and off, in letters of any case. -/
def togglesListing (text : String) : Bool :=
  text.toList.map Char.toLower == "verbose-mode".toList

/-- The reaction to an input, where `answer` is what is printed for a line of the language, be it
evaluated or be it that its evaluation fails. White space at the ends of a line counts for nothing.
-/
def reactWith (answer : Bool → String → String) (verbose : Bool) : Input → Reaction
  | .interrupt => .leave abruptFarewell
  | .line text =>
    let text := String.ofList (Text.trim text.toList)
    if text = "" then .stay "" verbose
    else if text = "exit" ∨ text = "quit" then .leave farewell
    else if togglesListing text then
      .stay ("[mode] >>> Verbose mode " ++ (if verbose then "OFF" else "ON") ++ "\n") (!verbose)
    else .stay (answer verbose text) verbose

/-- The reaction to an input. -/
def react (nesting : Nat) : Bool → Input → Reaction :=
  reactWith (answer nesting)

/-- What a session showed and what it left unread. -/
structure Transcript where
  /-- One text for each time that a line was asked for. -/
  replies : List String
  /-- The inputs that it did not ask for. -/
  unread : List Input
  deriving DecidableEq, Repr

/-- A session over inputs, after which the input ends. -/
def transcriptWith (answer : Bool → String → String) (verbose : Bool) : List Input → Transcript
  | [] => ⟨[abruptFarewell], []⟩
  | input :: inputs =>
    match reactWith answer verbose input with
    | .leave reply => ⟨[reply], inputs⟩
    | .stay reply verbose =>
      let rest := transcriptWith answer verbose inputs
      ⟨reply :: rest.replies, rest.unread⟩

/-- A session over inputs whose lines are read as the language. -/
def transcript (nesting : Nat) : Bool → List Input → Transcript :=
  transcriptWith (answer nesting)

end ExprLang.Session
