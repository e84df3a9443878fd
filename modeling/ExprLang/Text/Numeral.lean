/-!
# Decimal numerals

A numeral is a run of at most 4300 digits, leading zeros counted. What it stands for is kept only
if it is within the signed 64-bit range.
-/

namespace ExprLang.Text

/-- The most digits a numeral may have. -/
def maxDigits : Nat := 4300

/-- The greatest number a numeral may stand for, one less than the 63rd power of two. -/
def maxInteger : Nat := 9223372036854775807

/-- The number that `text` stands for, if it is a numeral within the range. -/
def integerOf? (text : String) : Option Nat :=
  let digits := text.toList
  if digits.isEmpty ∨ ¬ digits.all Char.isDigit ∨ maxDigits < digits.length then none
  else
    let value := Nat.ofDigitChars 10 digits 0
    if value ≤ maxInteger then some value else none

end ExprLang.Text
