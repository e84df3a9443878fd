import ExprLang.Run
import ExprLang.Session
import ExprLang.Text.Digit

/-!
# The command line

Arguments are classified first, each on its own, and then taken from left to right. A long flag may
be shortened as long as it stays unique, short flags may be joined, and after `--` every argument is
plain. There is at most one plain argument, the source.
-/

namespace ExprLang.CommandLine

/-- The flags. -/
inductive Flag where
  | help
  | string
  | tokens
  | ast
  | repl
  | verbose
  deriving DecidableEq, Repr

namespace Flag

/-- Every flag, in the order in which flags are listed. -/
def all : List Flag := [help, string, tokens, ast, repl, verbose]

/-- The long spelling of a flag. -/
def long : Flag → String
  | help => "--help"
  | string => "--string"
  | tokens => "--tokens"
  | ast => "--ast"
  | repl => "--repl"
  | verbose => "--verbose"

/-- The letter of the short spelling of a flag. -/
def letter? : Flag → Option Char
  | help => some 'h'
  | string => some 's'
  | _ => none

/-- The spellings of a flag in messages. -/
def spellings (flag : Flag) : String :=
  match flag.letter? with
  | some letter => "-" ++ String.singleton letter ++ "/" ++ flag.long
  | none => flag.long

/-- The flag with a given letter. -/
def ofLetter? (letter : Char) : Option Flag :=
  all.find? fun flag => flag.letter? == some letter

/-- The flag with a given long spelling. -/
def ofLong? (text : String) : Option Flag :=
  all.find? fun flag => flag.long == text

end Flag

/-- Why a command line is refused. -/
inductive Misuse where
  | unrecognized (arguments : List String)
  /-- A shortened flag stands for more than one. -/
  | ambiguous (argument : String) (flags : List Flag)
  /-- A flag comes with a value. -/
  | valued (flag : Flag) (value : String)
  deriving DecidableEq, Repr

/-- The wording of a refusal. -/
def Misuse.message : Misuse → String
  | unrecognized arguments => "unrecognized arguments: " ++ " ".intercalate arguments
  | ambiguous argument flags =>
    "ambiguous option: " ++ argument ++ " could match " ++ ", ".intercalate (flags.map Flag.long)
  | valued flag value =>
    "argument " ++ flag.spellings ++ ": ignored explicit argument " ++ Text.quoted value

/-- An argument on its own. -/
inductive Argument where
  /-- No flag. -/
  | plain (text : String)
  /-- `--`, after which every argument is plain. -/
  | divider
  /-- A flag by its long spelling, and the value after `=`. -/
  | long (flag : Flag) (value : Option String)
  /-- A flag by its letter, and what is joined to it. -/
  | short (flag : Flag) (joined : Option String)
  /-- Spelled like a flag, but none. -/
  | unknown (text : String)
  deriving DecidableEq, Repr

/-- What stands before the first `=`, and what stands after it if there is one. -/
def splitValue (text : List Char) : List Char × Option String :=
  match text.dropWhile (· != '=') with
  | [] => (text, none)
  | _ :: value => (text.takeWhile (· != '='), some (String.ofList value))

/-- Whether `text` is a minus sign and a decimal number in the digits of any script; a line feed may
end it. -/
def isNegativeNumber (text : List Char) : Bool :=
  match text with
  | '-' :: digits =>
    let digits := if digits.getLast? = some '\n' then digits.dropLast else digits
    match digits.dropWhile Text.isDigit with
    | [] => !digits.isEmpty
    | '.' :: fraction => !fraction.isEmpty && fraction.all Text.isDigit
    | _ => false
  | _ => false

/-- What an argument is that is spelled like a flag and is none. -/
def withoutFlag (text : List Char) : Argument :=
  if isNegativeNumber text || text.contains ' ' then .plain (String.ofList text)
  else .unknown (String.ofList text)

/-- What an argument before any divider is. -/
def classify (argument : String) : Except Misuse Argument :=
  let text := argument.toList
  match text with
  | '-' :: '-' :: [] => .ok .divider
  | '-' :: '-' :: _ =>
    let (name, value) := splitValue text
    match Flag.ofLong? argument, Flag.ofLong? (String.ofList name) with
    | some flag, _ => .ok (.long flag none)
    | none, some flag => .ok (.long flag value)
    | none, none =>
      match Flag.all.filter fun flag => name.isPrefixOf flag.long.toList with
      | [] => .ok (withoutFlag text)
      | [flag] => .ok (.long flag value)
      | flags => .error (.ambiguous argument flags)
  | '-' :: letter :: joined =>
    match Flag.ofLetter? letter, joined with
    | some flag, [] => .ok (.short flag none)
    | some flag, '=' :: value => .ok (.short flag (some (String.ofList value)))
    | some flag, joined => .ok (.short flag (some (String.ofList joined)))
    | none, _ => .ok (withoutFlag text)
  | _ => .ok (.plain argument)

/-- What the arguments of a command line are. -/
def classifyAll : List String → Except Misuse (List Argument)
  | [] => .ok []
  | text :: texts => do
    match ← classify text with
    | .divider => return .divider :: texts.map .plain
    | argument => return argument :: (← classifyAll texts)

/-- The flags that a short flag and what is joined to it stand for. -/
def joinedFlags (flag : Flag) : (joined : List Char) → Except Misuse (List Flag)
  | [] => .ok [flag]
  | letter :: joined =>
    match Flag.ofLetter? letter with
    | some next => (flag :: ·) <$> joinedFlags next joined
    | none => .error (.valued flag (String.ofList (letter :: joined)))

/-- The flags that an argument stands for. -/
def Argument.flags : Argument → Except Misuse (List Flag)
  | .long flag none => .ok [flag]
  | .long flag (some value) => .error (.valued flag value)
  | .short flag none => .ok [flag]
  | .short flag (some joined) =>
    if joined = "" then .error (.valued flag joined) else joinedFlags flag joined.toList
  | _ => .ok []

/-- What the arguments taken so far amount to. -/
structure Request where
  source : Option String
  flags : List Flag
  /-- The arguments that have no place. -/
  surplus : List String

/-- What a command line asks for. -/
inductive Command where
  | help
  | session (verbose : Bool)
  | run (source : String) (options : Run.Options)
  deriving DecidableEq, Repr

/-- What a request asks for once all arguments are taken. -/
def Request.command (request : Request) : Except Misuse Command :=
  if !request.surplus.isEmpty then .error (.unrecognized request.surplus)
  else
    let isSet (flag : Flag) := request.flags.contains flag
    match request.source with
    | none => .ok (.session (isSet .verbose))
    | some source =>
      if isSet .repl then .ok (.session (isSet .verbose))
      else .ok (.run source ⟨isSet .string, isSet .tokens, isSet .ast⟩)

/-- Takes arguments from left to right. The first plain argument is the source, and a divider next
to it goes with it; any other one is surplus. Help is given as soon as it is asked for. -/
def take (request : Request) : List Argument → Except Misuse Command
  | [] => request.command
  | .plain text :: arguments =>
    match request.source, arguments with
    | none, .divider :: arguments => take { request with source := some text } arguments
    | none, arguments => take { request with source := some text } arguments
    | some _, arguments => take { request with surplus := request.surplus ++ [text] } arguments
  | .divider :: arguments =>
    match request.source with
    | none => take request arguments
    | some _ => take { request with surplus := request.surplus ++ ["--"] } arguments
  | .unknown text :: arguments =>
    take { request with surplus := request.surplus ++ [text] } arguments
  | argument :: arguments => do
    let flags ← argument.flags
    if flags.contains .help then return .help
    else take { request with flags := request.flags ++ flags } arguments

/-- What a command line asks for. -/
def parse (arguments : List String) : Except Misuse Command := do
  take ⟨none, [], []⟩ (← classifyAll arguments)

/-- How the program is called. -/
def usage : String :=
  "usage: gibbon [-h] [-s] [--tokens] [--ast] [--repl] [--verbose] [source]\n"

/-- What is shown on request for help. -/
def helpText : String :=
  usage ++ Report.lines [
    "",
    "positional arguments:",
    "  source        Filename or raw source (with -s)",
    "",
    "options:",
    "  -h, --help    show this help message and exit",
    "  -s, --string  Interpret source as literal string",
    "  --tokens      Print the token stream",
    "  --ast         Print the AST as JSON",
    "  --repl        Launch interactive REPL instead of parsing",
    "  --verbose     Verbose REPL mode (if --repl)"]

/-- The answer to a command line that is refused. -/
def refusal (fault : Misuse) : String :=
  usage ++ "gibbon: error: " ++ fault.message ++ "\n"

/-- The report of a run that loads no text. -/
def failure (fault : Run.Fault) : String :=
  "[error] >>> " ++ fault.message ++ "\n"

/-- What the program did. -/
structure Result where
  /-- The exit status, unless the program ends with a session. -/
  exit : Option Nat
  /-- The text shown before each line that was asked for and after the last one. -/
  shown : List String
  errors : String
  /-- The inputs that were not asked for. -/
  unread : List Session.Input
  deriving DecidableEq, Repr

/-- Does what a command line asks for; `none` if a text nests too deeply. -/
def execute (nesting : Nat) (files : Run.Files) (arguments : List String)
    (inputs : List Session.Input) : Option Result :=
  match parse arguments with
  | .error fault => some ⟨some 2, [""], refusal fault, inputs⟩
  | .ok .help => some ⟨some 0, [helpText], "", inputs⟩
  | .ok (.session verbose) =>
    let transcript := Session.transcript nesting verbose inputs
    some ⟨none, Session.banner :: transcript.replies, "", transcript.unread⟩
  | .ok (.run source options) =>
    let result := Run.run nesting files options source
    match result.ending with
    | .status code => some ⟨some code, [result.output], result.errors, inputs⟩
    | .failed fault => some ⟨some 2, [result.output], failure fault, inputs⟩
    | .overflow => none

end ExprLang.CommandLine
