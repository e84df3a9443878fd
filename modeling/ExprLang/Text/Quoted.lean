import ExprLang.Text.Hex
import ExprLang.Text.Printable

/-!
# Quoted text

A text between quotation marks with everything escaped that would not show. The mark is the single
quotation mark, unless the text holds one and holds no double quotation mark.
-/

namespace ExprLang.Text

/-- The quotation mark that surrounds `text`. -/
def quotationMark (text : List Char) : Char :=
  if '\x27' ∈ text ∧ '\x22' ∉ text then '\x22' else '\x27'

/-- A code point by number: two, four or eight hexadecimal digits, whichever first suffices. -/
def numericEscape (c : Char) : List Char :=
  if c.toNat < 0x100 then '\x5c' :: 'x' :: hexDigits 2 c.toNat
  else if c.toNat < 0x10000 then '\x5c' :: 'u' :: hexDigits 4 c.toNat
  else '\x5c' :: 'U' :: hexDigits 8 c.toNat

/-- One character as it stands between quotation marks `mark`. -/
def escapeWithin (mark c : Char) : List Char :=
  if c = mark ∨ c = '\x5c' then ['\x5c', c]
  else if c = '\t' then ['\x5c', 't']
  else if c = '\n' then ['\x5c', 'n']
  else if c = '\r' then ['\x5c', 'r']
  else if isPrintable c then [c]
  else numericEscape c

/-- `text` between quotation marks. -/
def quoted (text : String) : String :=
  let mark := quotationMark text.toList
  String.ofList (mark :: text.toList.flatMap (escapeWithin mark) ++ [mark])

end ExprLang.Text
