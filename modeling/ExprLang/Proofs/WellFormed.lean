import ExprLang.Proofs.Phrase
import ExprLang.Proofs.Spelling

/-!
# Well-formed trees

Which trees are those of a program: every node stands where its form belongs, names and operators
are spelled as the language spells them, and integers are in range. A phrase of well-spelled tokens
has a well-formed tree, in the exact grammar and in the lenient one.
-/

namespace ExprLang

/-- The spellings of the operators that stand between two operands. -/
def binaryOperators : List String :=
  ["+", "-", "*", "/", "<", ">", "==", "!="]

namespace Node

/-- A name in a tree. -/
def isNameNode : Node → Bool
  | .identifier name => isName name
  | _ => false

mutual

/-- Whether a tree is an expression. -/
def isExpression : Node → Bool
  | .identifier name => isName name
  | .integer value => decide (0 ≤ value ∧ value ≤ 0x7fffffffffffffff)
  | .boolean _ => true
  | .unary operator right => ["!", "-"].contains operator && isExpression right
  | .binary left operator right =>
    isExpression left && binaryOperators.contains operator && isExpression right
  | .conditional condition consequence alternative =>
    isExpression condition && isBlock consequence && isAlternative alternative
  | .function parameters body => parameters.all isNameNode && isBlock body
  | .call callee arguments => isExpression callee && areExpressions arguments
  | _ => false

/-- Whether every tree of a list is an expression. -/
def areExpressions : List Node → Bool
  | [] => true
  | node :: nodes => isExpression node && areExpressions nodes

/-- Whether a tree is a block of statements. -/
def isBlock : Node → Bool
  | .block statements => areStatements statements
  | _ => false

/-- Whether a second branch, if there is one, is a block of statements. -/
def isAlternative : Option Node → Bool
  | none => true
  | some node => isBlock node

/-- Whether a tree is a statement. A block is none. -/
def isStatement : Node → Bool
  | .letStatement name value => isNameNode name && isExpression value
  | .returnStatement value => isExpression value
  | .expressionStatement value => isExpression value
  | _ => false

/-- Whether every tree of a list is a statement. -/
def areStatements : List Node → Bool
  | [] => true
  | node :: nodes => isStatement node && areStatements nodes

end

/-- Whether a tree is that of a whole program. -/
def isProgram : Node → Bool
  | .program statements => areStatements statements
  | _ => false

end Node

/-- The tokens of a list are well spelled. -/
def Spelled (tokens : List Token) : Prop :=
  ∀ token ∈ tokens, token.isSpelled = true

/-- An end of a list of well-spelled tokens is one as well. -/
theorem Spelled.of_suffix {tokens rest : List Token} (h : Spelled tokens)
    (hrest : rest <:+ tokens) : Spelled rest :=
  fun token hmem => h token (hrest.subset hmem)

/-- The first token of a list is well spelled. -/
theorem Spelled.head {token : Token} {rest : List Token} (h : Spelled (token :: rest)) :
    token.isSpelled = true :=
  h token List.mem_cons_self

/-- The tokens after the first one are well spelled. -/
theorem Spelled.tail {token : Token} {rest : List Token} (h : Spelled (token :: rest)) :
    Spelled rest :=
  h.of_suffix (List.suffix_cons token rest)

/-- An identifier is spelled as a name. -/
theorem isName_of_isSpelled {token : Token} (h : token.isSpelled = true)
    (hkind : token.kind = .ident) : isName token.literal = true := by
  simpa [Token.isSpelled, hkind] using h

/-- An operator between operands is spelled as one of the eight. -/
theorem mem_binaryOperators {token : Token} (h : token.isSpelled = true) {level : Precedence}
    (hkind : token.kind ∈ level.operators) : token.literal ∈ binaryOperators := by
  have hspelled := h
  unfold Token.isSpelled at hspelled
  cases level
  all_goals
    simp only [Precedence.operators, List.mem_cons, List.not_mem_nil, or_false] at hkind
  all_goals
    rcases hkind with hkind | hkind
    all_goals
      rw [hkind] at hspelled
      simp [Kind.symbols, Kind.reserved] at hspelled
      simp [hspelled, binaryOperators]

/-- An operator before its operand is spelled as one of the two. -/
theorem literal_of_unary {token : Token} (h : token.isSpelled = true)
    (hkind : token.kind = .bang ∨ token.kind = .minus) : token.literal ∈ ["!", "-"] := by
  unfold Token.isSpelled at h
  rcases hkind with hkind | hkind
  all_goals
    rw [hkind] at h
    simp [Kind.symbols, Kind.reserved] at h
    simp [h]

namespace Phrase

/-- Parameters are names. -/
theorem ParametersFrom.all_isNameNode {tokens rest parameters}
    (h : ParametersFrom tokens rest parameters) (hspelled : Spelled tokens) :
    parameters.all Node.isNameNode = true := by
  induction h with
  | last hname _ => simpa [Node.isNameNode] using isName_of_isSpelled hspelled.head hname
  | more hname _ _ ih =>
    have hfirst := isName_of_isSpelled hspelled.head hname
    simp [Node.isNameNode, hfirst, ih hspelled.tail.tail]

/-- Parameters are names. -/
theorem Parameters.all_isNameNode {tokens rest parameters} (h : Parameters tokens rest parameters)
    (hspelled : Spelled tokens) : parameters.all Node.isNameNode = true := by
  cases h with
  | none _ => rfl
  | some hfrom => exact hfrom.all_isNameNode hspelled

variable {mode : Mode}

mutual

/-- The tree of an expression is an expression. -/
theorem Expression.isExpression {level tokens rest node} :
    Expression mode level tokens rest node → Spelled tokens → node.isExpression = true
  | .tighter h, hspelled => h.isExpression hspelled
  | .binary hkind hleft hright, hspelled => by
    have hmiddle := hspelled.of_suffix hleft.begins.suffix
    have hoperator := mem_binaryOperators hmiddle.head hkind
    simp [Node.isExpression, hleft.isExpression hspelled, hoperator,
      hright.isExpression hmiddle.tail]
  | .unary hkind hright, hspelled => by
    have hoperator := literal_of_unary hspelled.head hkind
    simpa [Node.isExpression, hright.isExpression hspelled.tail] using hoperator
  | .call _ hcallee harguments, hspelled => by
    have hmiddle := (hspelled.of_suffix hcallee.begins.suffix).tail
    simp [Node.isExpression, hcallee.isExpression hspelled, harguments.areExpressions hmiddle]
  | .primary h, hspelled => h.isExpression hspelled

/-- The tree of a primary expression is an expression. -/
theorem Primary.isExpression {tokens rest node} :
    Primary mode tokens rest node → Spelled tokens → node.isExpression = true
  | .identifier hname, hspelled => isName_of_isSpelled hspelled.head hname
  | .integer _ hnumeral, _ => by
    have := hnumeral.fits
    simp only [Node.isExpression, decide_eq_true_eq]
    omega
  | .true _, _ => rfl
  | .false _, _ => rfl
  | .grouped _ _ hinner, hspelled => hinner.isExpression hspelled.tail
  | .choice _ _ _ hcondition hconsequence, hspelled => by
    have htail := hspelled.tail.tail
    have hmiddle := (htail.of_suffix hcondition.begins.suffix).tail
    simp [Node.isExpression, Node.isAlternative, hcondition.isExpression htail,
      hconsequence.isBlock hmiddle]
  | .choiceElse _ _ _ _ hcondition hconsequence halternative, hspelled => by
    have htail := hspelled.tail.tail
    have hmiddle := (htail.of_suffix hcondition.begins.suffix).tail
    have hafter := (hmiddle.of_suffix hconsequence.suffix).tail
    simp [Node.isExpression, Node.isAlternative, hcondition.isExpression htail,
      hconsequence.isBlock hmiddle, halternative.isBlock hafter]
  | .function _ _ hparameters hbody, hspelled => by
    have htail := hspelled.tail.tail
    have hmiddle := htail.of_suffix hparameters.suffix
    simp only [Node.isExpression, hparameters.all_isNameNode htail, hbody.isBlock hmiddle,
      Bool.and_self]

/-- Arguments are expressions. -/
theorem Arguments.areExpressions {tokens rest arguments} :
    Arguments mode tokens rest arguments → Spelled tokens → Node.areExpressions arguments = true
  | .none _, _ => rfl
  | .some h, hspelled => h.areExpressions hspelled

/-- Arguments are expressions. -/
theorem ArgumentsFrom.areExpressions {tokens rest arguments} :
    ArgumentsFrom mode tokens rest arguments → Spelled tokens →
      Node.areExpressions arguments = true
  | .last _ hargument, hspelled => by
    simp [Node.areExpressions, hargument.isExpression hspelled]
  | .more _ hargument hmore, hspelled => by
    have hmiddle := (hspelled.of_suffix hargument.begins.suffix).tail
    simp [Node.areExpressions, hargument.isExpression hspelled, hmore.areExpressions hmiddle]

/-- The tree of a statement is a statement. -/
theorem Statement.isStatement {tokens rest node} :
    Statement mode tokens rest node → Spelled tokens → node.isStatement = true
  | .letStatement _ hname _ hvalue, hspelled => by
    have hletter := isName_of_isSpelled hspelled.tail.head hname
    simp [Node.isStatement, Node.isNameNode, hletter, hvalue.isExpression hspelled.tail.tail.tail]
  | .returnStatement _ hvalue, hspelled => hvalue.isExpression hspelled.tail
  | .expressionStatement hvalue, hspelled => hvalue.isExpression hspelled

/-- The trees of a sequence of statements are statements. -/
theorem Body.areStatements {tokens rest statements} :
    Body mode tokens rest statements → Spelled tokens → Node.areStatements statements = true
  | .nil, _ => rfl
  | .skip _ h, hspelled => h.areStatements hspelled.tail
  | .cons _ hstatement h, hspelled => by
    have hmiddle := hspelled.of_suffix hstatement.begins.suffix
    simp [Node.areStatements, hstatement.isStatement hspelled, h.areStatements hmiddle]

/-- The tree of a block is a block of statements. -/
theorem Block.isBlock {tokens rest node} :
    Block mode tokens rest node → Spelled tokens → node.isBlock = true
  | .closed _ _ h, hspelled => h.areStatements hspelled.tail
  | .unclosed _ _ h, hspelled => h.areStatements hspelled.tail

end

end Phrase

end ExprLang
