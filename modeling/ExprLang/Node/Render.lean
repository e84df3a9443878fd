import ExprLang.Node.Basic

/-!
# Canonical text of a tree

Unary and binary expressions stand in parentheses, so the text shows how operators group, whatever
their levels. Statements are separated by a semicolon and a space.
-/

namespace ExprLang.Node

mutual

/-- The canonical text of a node. -/
def render : Node → String
  | .bare => "Node()"
  | .identifier name => name
  | .integer value => toString value
  | .boolean value => if value then "true" else "false"
  | .unary operator right => "(" ++ operator ++ render right ++ ")"
  | .binary left operator right =>
    "(" ++ render left ++ " " ++ operator ++ " " ++ render right ++ ")"
  | .conditional condition consequence alternative =>
    "if (" ++ render condition ++ ") " ++ render consequence ++ renderElse alternative
  | .function parameters body =>
    "fn(" ++ ", ".intercalate (renderEach parameters) ++ ") " ++ render body
  | .call callee arguments => render callee ++ "(" ++ ", ".intercalate (renderEach arguments) ++ ")"
  | .letStatement name value => "let " ++ render name ++ " = " ++ render value
  | .returnStatement value => "return " ++ render value
  | .expressionStatement value => render value
  | .block [] => "\x7b \x7d"
  | .block (statement :: statements) =>
    "\x7b " ++ "; ".intercalate (renderEach (statement :: statements)) ++ " \x7d"
  | .program statements => "; ".intercalate (renderEach statements)

/-- The second branch of a choice, if there is one. -/
def renderElse : Option Node → String
  | none => ""
  | some alternative => " else " ++ render alternative

/-- The canonical texts of a list of nodes. -/
def renderEach : List Node → List String
  | [] => []
  | node :: nodes => render node :: renderEach nodes

end

end ExprLang.Node
