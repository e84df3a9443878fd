/-!
# Kinds of tokens

The closed list of token kinds, the name each kind has in messages, and the two spelling tables:
fixed symbols and reserved words. A word that is not reserved is an identifier.
-/

namespace ExprLang

/-- The category of a token. -/
inductive Kind where
  /-- A character that starts no token. -/
  | illegal
  /-- The end of the text. -/
  | eof
  | ident
  | int
  | assign
  | plus
  | minus
  | asterisk
  | slash
  | bang
  | lt
  | gt
  | eq
  | ne
  | comma
  | semicolon
  | lparen
  | rparen
  | lbrace
  | rbrace
  | fnWord
  | letWord
  | trueWord
  | falseWord
  | ifWord
  | elseWord
  | returnWord
  deriving DecidableEq, Repr

namespace Kind

/-- Every kind, in the order of the declaration. -/
def all : List Kind :=
  [illegal, eof, ident, int, assign, plus, minus, asterisk, slash, bang, lt, gt, eq, ne, comma,
    semicolon, lparen, rparen, lbrace, rbrace, fnWord, letWord, trueWord, falseWord, ifWord,
    elseWord, returnWord]

/-- The name of a kind in messages. -/
def name : Kind → String
  | illegal => "Illegal"
  | eof => "Eof"
  | ident => "Ident"
  | int => "Int"
  | assign => "Assign"
  | plus => "Plus"
  | minus => "Minus"
  | asterisk => "Asterix"
  | slash => "Slash"
  | bang => "Bang"
  | lt => "Lt"
  | gt => "Gt"
  | eq => "Eq"
  | ne => "Ne"
  | comma => "Comma"
  | semicolon => "SemiColon"
  | lparen => "LParen"
  | rparen => "RParen"
  | lbrace => "LBrace"
  | rbrace => "RBrace"
  | fnWord => "Function"
  | letWord => "Let"
  | trueWord => "True"
  | falseWord => "False"
  | ifWord => "If"
  | elseWord => "Else"
  | returnWord => "Return"

/-- The kind with a given name. -/
def ofName? (text : String) : Option Kind :=
  all.find? fun kind => kind.name == text

/-- No kind is left out of the list. -/
theorem mem_all (kind : Kind) : kind ∈ all := by
  cases kind <;> decide

/-- Different kinds have different names. -/
theorem ofName?_name (kind : Kind) : ofName? kind.name = some kind := by
  cases kind <;> decide

/-- The fixed symbols with their kinds. -/
def symbols : List (String × Kind) :=
  [("==", eq), ("!=", ne), ("=", assign), ("+", plus), ("-", minus), ("*", asterisk), ("/", slash),
    ("!", bang), ("<", lt), (">", gt), (",", comma), (";", semicolon), ("(", lparen), (")", rparen),
    ("\x7b", lbrace), ("\x7d", rbrace)]

/-- The kind of a fixed symbol. -/
def ofSymbol? (text : String) : Option Kind :=
  symbols.lookup text

/-- The reserved words with their kinds. -/
def reserved : List (String × Kind) :=
  [("fn", fnWord), ("let", letWord), ("true", trueWord), ("false", falseWord), ("if", ifWord),
    ("else", elseWord), ("return", returnWord)]

/-- The kind of a word: its own if the word is reserved, and otherwise that of an identifier. -/
def ofWord (text : String) : Kind :=
  (reserved.lookup text).getD ident

end Kind

end ExprLang
