import ExprLang.Json
import ExprLang.Node.Basic

/-!
# Trees as JSON records

A node is a record of its form and its parts, in a fixed order.
-/

namespace ExprLang.Node

mutual

/-- The record of a node. -/
def toJson : Node → Json
  | .bare => .record [("kind", .text "node")]
  | .identifier name => .record [("kind", .text "identifier"), ("name", .text name)]
  | .integer value => .record [("kind", .text "integer"), ("value", .integer value)]
  | .boolean value => .record [("kind", .text "boolean"), ("value", .boolean value)]
  | .unary operator right =>
    .record [("kind", .text "prefix"), ("operator", .text operator), ("right", toJson right)]
  | .binary left operator right =>
    .record [("kind", .text "infix"), ("left", toJson left), ("operator", .text operator),
      ("right", toJson right)]
  | .conditional condition consequence alternative =>
    .record [("kind", .text "if"), ("condition", toJson condition),
      ("consequence", toJson consequence), ("alternative", toJsonOption alternative)]
  | .function parameters body =>
    .record [("kind", .text "function"), ("parameters", .list (toJsonEach parameters)),
      ("body", toJson body)]
  | .call callee arguments =>
    .record [("kind", .text "call"), ("function", toJson callee),
      ("arguments", .list (toJsonEach arguments))]
  | .letStatement name value =>
    .record [("kind", .text "let"), ("name", toJson name), ("value", toJson value)]
  | .returnStatement value => .record [("kind", .text "return"), ("value", toJson value)]
  | .expressionStatement value => .record [("kind", .text "expression"), ("value", toJson value)]
  | .block statements =>
    .record [("kind", .text "block"), ("statements", .list (toJsonEach statements))]
  | .program statements =>
    .record [("kind", .text "program"), ("statements", .list (toJsonEach statements))]

/-- The record of an optional node, or null. -/
def toJsonOption : Option Node → Json
  | none => .null
  | some node => toJson node

/-- The records of a list of nodes. -/
def toJsonEach : List Node → List Json
  | [] => []
  | node :: nodes => toJson node :: toJsonEach nodes

end

/-- The record of a node begins with the form of the node. -/
theorem exists_toJson_eq_record (node : Node) :
    ∃ parts, node.toJson = .record (("kind", .text node.tag) :: parts) := by
  cases node <;> exact ⟨_, rfl⟩

end ExprLang.Node
