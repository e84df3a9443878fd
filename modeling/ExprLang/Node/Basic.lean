/-!
# Syntax trees

One type for expressions, statements, blocks and whole programs. Any node may stand in any place of
another one; which trees are those of a program is a property of trees and not of this type.
-/

namespace ExprLang

/-- A node of a syntax tree. -/
inductive Node where
  /-- The bare node, which is no construct of the language. -/
  | bare
  | identifier (name : String)
  | integer (value : Int)
  | boolean (value : Bool)
  /-- An operator before its operand. -/
  | unary (operator : String) (right : Node)
  /-- An operator between its operands. -/
  | binary (left : Node) (operator : String) (right : Node)
  /-- A choice between two blocks, the second of which may be absent. -/
  | conditional (condition consequence : Node) (alternative : Option Node)
  | function (parameters : List Node) (body : Node)
  | call (callee : Node) (arguments : List Node)
  | letStatement (name value : Node)
  | returnStatement (value : Node)
  | expressionStatement (value : Node)
  | block (statements : List Node)
  | program (statements : List Node)

namespace Node

instance : Inhabited Node := ⟨bare⟩

/-- The word that names the form of a node. -/
def tag : Node → String
  | bare => "node"
  | identifier _ => "identifier"
  | integer _ => "integer"
  | boolean _ => "boolean"
  | unary _ _ => "prefix"
  | binary _ _ _ => "infix"
  | conditional _ _ _ => "if"
  | function _ _ => "function"
  | call _ _ => "call"
  | letStatement _ _ => "let"
  | returnStatement _ => "return"
  | expressionStatement _ => "expression"
  | block _ => "block"
  | program _ => "program"

mutual

/-- Two nodes are the same when they have one form and the same parts. -/
def same : Node → Node → Bool
  | .bare, .bare => true
  | .identifier name, .identifier name' => name == name'
  | .integer value, .integer value' => value == value'
  | .boolean value, .boolean value' => value == value'
  | .unary operator right, .unary operator' right' => operator == operator' && same right right'
  | .binary left operator right, .binary left' operator' right' =>
    same left left' && operator == operator' && same right right'
  | .conditional condition consequence alternative,
    .conditional condition' consequence' alternative' =>
    same condition condition' && same consequence consequence' &&
      sameOption alternative alternative'
  | .function parameters body, .function parameters' body' =>
    sameEach parameters parameters' && same body body'
  | .call callee arguments, .call callee' arguments' =>
    same callee callee' && sameEach arguments arguments'
  | .letStatement name value, .letStatement name' value' => same name name' && same value value'
  | .returnStatement value, .returnStatement value' => same value value'
  | .expressionStatement value, .expressionStatement value' => same value value'
  | .block statements, .block statements' => sameEach statements statements'
  | .program statements, .program statements' => sameEach statements statements'
  | _, _ => false

/-- Two optional nodes are the same when both are absent or both are the same node. -/
def sameOption : Option Node → Option Node → Bool
  | none, none => true
  | some node, some node' => same node node'
  | _, _ => false

/-- Two lists of nodes are the same when they have the same nodes in the same order. -/
def sameEach : List Node → List Node → Bool
  | [], [] => true
  | node :: nodes, node' :: nodes' => same node node' && sameEach nodes nodes'
  | _, _ => false

end

instance : BEq Node := ⟨same⟩

mutual

/-- Two nodes are the same exactly if they are equal. -/
theorem same_iff_eq : ∀ a b : Node, same a b = true ↔ a = b
  | .bare, b => by cases b <;> simp [same]
  | .identifier _, b => by cases b <;> simp [same]
  | .integer _, b => by cases b <;> simp [same]
  | .boolean _, b => by cases b <;> simp [same]
  | .unary _ right, b => by cases b <;> simp [same, same_iff_eq right]
  | .binary left _ right, b => by
    cases b <;> simp [same, same_iff_eq left, same_iff_eq right, and_assoc]
  | .conditional condition consequence alternative, b => by
    cases b <;> simp [same, same_iff_eq condition, same_iff_eq consequence,
      sameOption_iff_eq alternative, and_assoc]
  | .function parameters body, b => by
    cases b <;> simp [same, sameEach_iff_eq parameters, same_iff_eq body]
  | .call callee arguments, b => by
    cases b <;> simp [same, same_iff_eq callee, sameEach_iff_eq arguments]
  | .letStatement name value, b => by
    cases b <;> simp [same, same_iff_eq name, same_iff_eq value]
  | .returnStatement value, b => by cases b <;> simp [same, same_iff_eq value]
  | .expressionStatement value, b => by cases b <;> simp [same, same_iff_eq value]
  | .block statements, b => by cases b <;> simp [same, sameEach_iff_eq statements]
  | .program statements, b => by cases b <;> simp [same, sameEach_iff_eq statements]

/-- Two optional nodes are the same exactly if they are equal. -/
theorem sameOption_iff_eq : ∀ a b : Option Node, sameOption a b = true ↔ a = b
  | none, b => by cases b <;> simp [sameOption]
  | some node, b => by cases b <;> simp [sameOption, same_iff_eq node]

/-- Two lists of nodes are the same exactly if they are equal. -/
theorem sameEach_iff_eq : ∀ a b : List Node, sameEach a b = true ↔ a = b
  | [], b => by cases b <;> simp [sameEach]
  | node :: nodes, b => by
    cases b <;> simp [sameEach, same_iff_eq node, sameEach_iff_eq nodes]

end

instance : LawfulBEq Node where
  eq_of_beq {a b} := (same_iff_eq a b).1
  rfl {a} := (same_iff_eq a a).2 rfl

instance : DecidableEq Node :=
  fun a b => decidable_of_iff (same a b = true) (same_iff_eq a b)

mutual

/-- Whether a tree is at most `limit` levels high. -/
def fits : (limit : Nat) → Node → Bool
  | 0, _ => false
  | _ + 1, .bare | _ + 1, .identifier _ | _ + 1, .integer _ | _ + 1, .boolean _ => true
  | limit + 1, .unary _ right => fits limit right
  | limit + 1, .binary left _ right => fits limit left && fits limit right
  | limit + 1, .conditional condition consequence alternative =>
    fits limit condition && fits limit consequence && fitsOption limit alternative
  | limit + 1, .function parameters body => fitsEach limit parameters && fits limit body
  | limit + 1, .call callee arguments => fits limit callee && fitsEach limit arguments
  | limit + 1, .letStatement name value => fits limit name && fits limit value
  | limit + 1, .returnStatement value => fits limit value
  | limit + 1, .expressionStatement value => fits limit value
  | limit + 1, .block statements => fitsEach limit statements
  | limit + 1, .program statements => fitsEach limit statements

/-- Whether an optional tree is at most `limit` levels high. -/
def fitsOption (limit : Nat) : Option Node → Bool
  | none => true
  | some node => fits limit node

/-- Whether every tree of a list is at most `limit` levels high. -/
def fitsEach (limit : Nat) : List Node → Bool
  | [] => true
  | node :: nodes => fits limit node && fitsEach limit nodes

end

end Node

end ExprLang
