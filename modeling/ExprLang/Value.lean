/-!
# Runtime values

What an expression may stand for when it is evaluated: an integer, a truth value, or null. The bare
value is none of these and has neither a kind nor a text.
-/

namespace ExprLang

/-- The kinds of runtime values. -/
inductive ValueKind where
  | integer
  | boolean
  | null
  deriving DecidableEq, Repr

/-- The name of a kind of values. -/
def ValueKind.name : ValueKind → String
  | integer => "INTEGER"
  | boolean => "BOOLEAN"
  | null => "NULL"

/-- A runtime value. -/
inductive Value where
  | bare
  | integer (value : Int)
  | boolean (value : Bool)
  | null
  deriving DecidableEq, Repr

namespace Value

/-- The kind of a value. -/
def kind? : Value → Option ValueKind
  | bare => none
  | integer _ => some .integer
  | boolean _ => some .boolean
  | null => some .null

/-- The text of a value. -/
def inspect? : Value → Option String
  | bare => none
  | integer value => some (toString value)
  | boolean value => some (if value then "true" else "false")
  | null => some "null"

/-- The form of a value. -/
def form : Value → String
  | bare => "Object"
  | integer _ => "Integer"
  | boolean _ => "Boolean"
  | null => "Null"

/-- The form of a value with its text. -/
def describe? (value : Value) : Option String :=
  value.inspect?.map fun text => value.form ++ "(" ++ text ++ ")"

/-- The values of a list that are of some kind. -/
def ofSomeKind (values : List Value) : List Value :=
  values.filter fun value => value.kind?.isSome

/-- How many different values a list holds. -/
def countDistinct (values : List Value) : Nat :=
  values.eraseDups.length

end Value

end ExprLang
