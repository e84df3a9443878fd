import ExprLang.Token.Source

/-!
# Reading a text at a position

A reader is a text with a position in it. A position past the end finds nothing. Looking ahead finds
nothing before the start of the text either, but taking a character at a negative position takes it
from the end of the text, so a gap that is skipped from a negative position reaches the start.
-/

namespace ExprLang

/-- A text and the place in it of the character that is read next. -/
structure Reader where
  source : List Char
  position : Int
  deriving DecidableEq, Repr

/-- Why no character can be taken. -/
inductive ReadFault where
  /-- The position is past the end of the text. -/
  | pastEnd (position : Int)
  /-- The position is negative and further from the end than the text is long. -/
  | outOfRange
  deriving DecidableEq, Repr

/-- The wording of a fault. -/
def ReadFault.message : ReadFault → String
  | pastEnd position =>
    "Attempted to read past end of source at position=<" ++ toString position ++ ">"
  | outOfRange => "string index out of range"

namespace Reader

/-- Whether the position is at the end of the text or past it. -/
def atEnd (reader : Reader) : Bool :=
  (reader.source.length : Int) ≤ reader.position

/-- The text from the position on; nothing stands at a negative position. -/
def ahead (reader : Reader) : List Char :=
  if reader.position < 0 then [] else reader.source.drop reader.position.toNat

/-- The reader `count` characters further on. -/
def advance (reader : Reader) (count : Nat) : Reader :=
  ⟨reader.source, reader.position + count⟩

/-- The character `offset` places from the position, if there is one. -/
def peek (reader : Reader) (offset : Int) : Option Char :=
  let index := reader.position + offset
  if index < 0 then none else reader.source[index.toNat]?

/-- The character at a position that is not past the end; a negative one counts from the end. -/
def charAt (reader : Reader) : Except ReadFault Char :=
  let index :=
    if reader.position < 0 then reader.position + reader.source.length else reader.position
  if index < 0 then .error .outOfRange
  else
    match reader.source[index.toNat]? with
    | some c => .ok c
    | none => .error (.pastEnd reader.position)

/-- The next character and the reader after it. -/
def next (reader : Reader) : Except ReadFault (Char × Reader) :=
  if reader.atEnd then .error (.pastEnd reader.position)
  else do
    let c ← reader.charAt
    return (c, reader.advance 1)

/-- The next character, which is not taken, or `none` at the end of the text. -/
def current (reader : Reader) : Except ReadFault (Option Char) :=
  if reader.atEnd then .ok none else some <$> reader.charAt

/-- The longest run of characters of the class `allowed` and the reader after it. -/
def readWhile (reader : Reader) (allowed : Char → Bool) : String × Reader :=
  let run := reader.ahead.takeWhile allowed
  (String.ofList run, reader.advance run.length)

/-- The reader after the gap it stands in. From a negative position every character up to the
start of the text is skipped too. -/
def skipGap (reader : Reader) : Except ReadFault Reader :=
  if reader.position < 0 then
    if reader.position + reader.source.length < 0 then .error .outOfRange
    else .ok ((⟨reader.source, 0⟩ : Reader).readWhile isGap).2
  else .ok (reader.readWhile isGap).2

/-- The fixed symbol at the position, if one stands there, and the reader after it. -/
def matchSymbol (reader : Reader) : Option (Token × Reader) :=
  (longestSymbol? reader.ahead).map fun token => (token, reader.advance token.literal.length)

/-- The next token and the reader after it. -/
def nextToken (reader : Reader) : Except ReadFault (Token × Reader) := do
  let reader ← reader.skipGap
  match reader.ahead with
  | [] => return (.eof, reader)
  | c :: _ =>
    match reader.matchSymbol with
    | some found => return found
    | none =>
      if isLetter c then
        let (word, after) := reader.readWhile isLetter
        return (⟨Kind.ofWord word, word⟩, after)
      else if c.isDigit then
        let (digits, after) := reader.readWhile Char.isDigit
        return (⟨.int, digits⟩, after)
      else
        return (.illegal, reader.advance 1)

/-- All tokens up to the end of the text and the reader at the end. -/
def remainingTokens (reader : Reader) : Except ReadFault (List Token × Reader) := do
  let reader ← reader.skipGap
  return (tokenize reader.ahead, ⟨reader.source, max reader.position reader.source.length⟩)

/-- The text from the position on, to be scanned on demand. -/
def lexer (reader : Reader) : Except ReadFault Lexer := do
  let reader ← reader.skipGap
  return ⟨reader.ahead⟩

end Reader

end ExprLang
