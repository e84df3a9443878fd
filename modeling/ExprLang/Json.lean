import ExprLang.Text.Hex

/-!
# JSON values

Values with ordered records and whole numbers, and their layout over several lines: each item and
each field stands on a line of its own, two columns further in than what holds it.
-/

namespace ExprLang

/-- A JSON value without fractions. The fields of a record keep their order. -/
inductive Json where
  | null
  | boolean (value : Bool)
  | integer (value : Int)
  | text (value : String)
  | list (items : List Json)
  | record (fields : List (String × Json))

namespace Json

/-- A sixteen-bit unit by number. -/
def unitEscape (unit : Nat) : List Char :=
  '\x5c' :: 'u' :: Text.hexDigits 4 unit

/-- One character as it stands in a JSON text. Whatever is not printable ASCII is written by number,
above U+FFFF as a pair of surrogates. -/
def escape (c : Char) : List Char :=
  if c = '\x22' ∨ c = '\x5c' then ['\x5c', c]
  else if c = '\n' then ['\x5c', 'n']
  else if c = '\r' then ['\x5c', 'r']
  else if c = '\t' then ['\x5c', 't']
  else if c = '\x08' then ['\x5c', 'b']
  else if c = '\x0c' then ['\x5c', 'f']
  else if ' ' ≤ c ∧ c ≤ '~' then [c]
  else if c.toNat < 0x10000 then unitEscape c.toNat
  else
    unitEscape (0xd800 + (c.toNat - 0x10000) / 0x400) ++
      unitEscape (0xdc00 + (c.toNat - 0x10000) % 0x400)

/-- A text in double quotation marks. -/
def quoted (text : String) : String :=
  String.ofList ('\x22' :: text.toList.flatMap escape ++ ['\x22'])

/-- The start of a line that is `depth` levels in. -/
def newLine (depth : Nat) : String :=
  "\n" ++ String.ofList (List.replicate (2 * depth) ' ')

mutual

/-- The layout of a value that stands `depth` levels in. -/
def layoutAt (depth : Nat) : Json → String
  | .null => "null"
  | .boolean value => if value then "true" else "false"
  | .integer value => toString value
  | .text value => quoted value
  | .list [] => "[]"
  | .list (item :: items) =>
    "[" ++ ",".intercalate (layoutItems (depth + 1) (item :: items)) ++ newLine depth ++ "]"
  | .record [] => "\x7b\x7d"
  | .record (field :: fields) =>
    "\x7b" ++ ",".intercalate (layoutFields (depth + 1) (field :: fields)) ++ newLine depth ++ "\x7d"

/-- The lines of the items of a list. -/
def layoutItems (depth : Nat) : List Json → List String
  | [] => []
  | item :: items => (newLine depth ++ layoutAt depth item) :: layoutItems depth items

/-- The lines of the fields of a record. -/
def layoutFields (depth : Nat) : List (String × Json) → List String
  | [] => []
  | (name, value) :: fields =>
    (newLine depth ++ quoted name ++ ": " ++ layoutAt depth value) :: layoutFields depth fields

end

/-- The layout of a value. -/
def layout (value : Json) : String :=
  layoutAt 0 value

end Json

end ExprLang
