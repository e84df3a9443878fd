/-!
# Hexadecimal digits

Fixed-width lower-case hexadecimal, as escapes and byte values are written.
-/

namespace ExprLang.Text

/-- The low `width` hexadecimal digits of `value`, most significant first. -/
def hexDigits : (width : Nat) → (value : Nat) → List Char
  | 0, _ => []
  | width + 1, value => hexDigits width (value / 16) ++ [(value % 16).digitChar]

end ExprLang.Text
