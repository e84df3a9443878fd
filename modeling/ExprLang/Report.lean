import ExprLang.Parse
import ExprLang.Token.Scan

/-!
# Printed reports

The lines that a session and a run print: one per token, and a heading with one line per fault.
-/

namespace ExprLang.Report

/-- Lines of text, each of which is ended. -/
def lines (texts : List String) : String :=
  String.join (texts.map (· ++ "\n"))

/-- One line for each token of a text, after `mark`. -/
def tokens (mark text : String) : String :=
  lines ((tokenize text.toList).map fun token => mark ++ token.description)

/-- A heading and one line for each message. -/
def messages (texts : List String) : String :=
  lines ("parser errors:" :: texts.map ("\t" ++ ·))

/-- A heading and one line for each fault. -/
def faults (errors : List Diagnostic) : String :=
  messages (errors.map Diagnostic.message)

end ExprLang.Report
