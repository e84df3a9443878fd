import ExprLang.Folder
import ExprLang.Node.Record
import ExprLang.Report
import ExprLang.Text.LineEnding
import ExprLang.Text.Utf8

/-!
# Running over a file or a text

A run loads a text, lists its tokens on request, and shows its tree or else its faults. The status is
zero exactly if there is no fault.
-/

namespace ExprLang.Run

/-- What a run is asked for. -/
structure Options where
  /-- The source is the text itself and not the name of a file. -/
  isText : Bool
  /-- Tokens are listed first. -/
  tokens : Bool
  /-- The tree is shown as JSON. -/
  tree : Bool
  deriving DecidableEq, Repr

/-- Why no text is loaded. -/
inductive Fault where
  /-- The name does not end like that of a source file. -/
  | unsupported
  /-- The name holds a null character. -/
  | embeddedNull
  | file (path : String) (fault : FileFault)
  | encoding (fault : Text.Utf8.Fault)
  deriving DecidableEq, Repr

/-- The wording of a fault. -/
def Fault.message : Fault → String
  | unsupported => "Only .gibbon files are supported."
  | embeddedNull => "embedded null byte"
  | file path fault => fault.message path
  | encoding fault => fault.message

/-- The end of the name of a source file. -/
def extension : String := ".gibbon"

/-- The text of a file: its bytes in UTF-8 with the line endings unified. -/
def textOf (bytes : List UInt8) : Except Fault String :=
  match Text.Utf8.decode bytes with
  | .ok text => .ok (String.ofList (Text.unifyLineEndings text))
  | .error fault => .error (.encoding fault)

/-- How the content of a file is found by its path. -/
abbrev Files : Type :=
  String → Except FileFault (List UInt8)

/-- Loads the text that `source` is or names. -/
def load (files : Files) (isText : Bool) (source : String) : Except Fault String :=
  if isText then .ok source
  else if !extension.toList.isSuffixOf source.toList then .error .unsupported
  else if source.toList.contains '\x00' then .error .embeddedNull
  else
    match files source with
    | .ok bytes => textOf bytes
    | .error fault => .error (.file source fault)

/-- How a run ends. -/
inductive Ending where
  | status (code : Nat)
  | failed (fault : Fault)
  /-- The text nests too deeply. -/
  | overflow
  deriving DecidableEq, Repr

/-- How a run ends and what it wrote. -/
structure Result where
  ending : Ending
  output : String
  errors : String
  deriving DecidableEq, Repr

/-- A tree as it is shown, unless it is too high. -/
def display (nesting : Nat) (tree : Bool) (program : Node) : Option String :=
  if tree then
    if program.fits nesting then some program.toJson.layout else none
  else program.renderWithin nesting

/-- Runs over a text. -/
def process (nesting : Nat) (options : Options) (text : String) : Result :=
  let listing := if options.tokens then Report.tokens "" text else ""
  match parseWithin nesting text with
  | none => ⟨.overflow, listing, ""⟩
  | some parsed =>
    if !parsed.errors.isEmpty then ⟨.status 1, listing, Report.faults parsed.errors⟩
    else
      match display nesting options.tree parsed.program with
      | none => ⟨.overflow, listing, ""⟩
      | some shown => ⟨.status 0, listing ++ shown ++ "\n", ""⟩

/-- Runs over what `source` is or names. -/
def run (nesting : Nat) (files : Files) (options : Options) (source : String) : Result :=
  match load files options.isText source with
  | .ok text => process nesting options text
  | .error fault => ⟨.failed fault, "", ""⟩

end ExprLang.Run
