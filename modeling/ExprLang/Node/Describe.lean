import ExprLang.Node.Basic
import ExprLang.Text.Quoted

/-!
# Description of a tree

The form of every node with each of its parts by name, as a tree is shown to someone who inspects
it.
-/

namespace ExprLang.Node

/-- A list of descriptions in brackets. -/
def bracketed (items : List String) : String :=
  "[" ++ ", ".intercalate items ++ "]"

/-- A truth value in a description. -/
def describeTruth (value : Bool) : String :=
  if value then "True" else "False"

mutual

/-- The description of a node. -/
def describe : Node → String
  | .bare => "Node()"
  | .identifier name => "Identifier(name=" ++ Text.quoted name ++ ")"
  | .integer value => "IntegerLiteral(value=" ++ toString value ++ ")"
  | .boolean value => "BooleanLiteral(value=" ++ describeTruth value ++ ")"
  | .unary operator right =>
    "Prefix(operator=" ++ Text.quoted operator ++ ", right=" ++ describe right ++ ")"
  | .binary left operator right =>
    "Infix(left=" ++ describe left ++ ", operator=" ++ Text.quoted operator ++
      ", right=" ++ describe right ++ ")"
  | .conditional condition consequence alternative =>
    "If(condition=" ++ describe condition ++ ", consequence=" ++ describe consequence ++
      ", alternative=" ++ describeOption alternative ++ ")"
  | .function parameters body =>
    "FunctionLiteral(parameters=" ++ bracketed (describeEach parameters) ++
      ", body=" ++ describe body ++ ")"
  | .call callee arguments =>
    "Call(function=" ++ describe callee ++
      ", arguments=" ++ bracketed (describeEach arguments) ++ ")"
  | .letStatement name value =>
    "Let(name=" ++ describe name ++ ", value=" ++ describe value ++ ")"
  | .returnStatement value => "Return(value=" ++ describe value ++ ")"
  | .expressionStatement value => "ExpressionStatement(value=" ++ describe value ++ ")"
  | .block statements => "Block(statements=" ++ bracketed (describeEach statements) ++ ")"
  | .program statements => "Program(statements=" ++ bracketed (describeEach statements) ++ ")"

/-- The description of an optional node. -/
def describeOption : Option Node → String
  | none => "None"
  | some node => describe node

/-- The descriptions of a list of nodes. -/
def describeEach : List Node → List String
  | [] => []
  | node :: nodes => describe node :: describeEach nodes

end

end ExprLang.Node
