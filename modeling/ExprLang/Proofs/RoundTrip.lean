import ExprLang.Node.Render
import ExprLang.Proofs.Lexeme
import ExprLang.Proofs.Reading

/-!
# Canonical texts are read back

The canonical text of a well-formed program is read as that program. A piece of canonical text is
read as tokens that form its phrase, whatever follows it, so long as no letter and no digit does;
the pieces of a tree are put together as its nodes are. The parentheses around every operator make
its operands calls or primary expressions, so no level of precedence is ever confused with another.
-/

namespace ExprLang

open Phrase

/-- Before anything that separates, `text` is read as tokens that form a phrase, whatever tokens
come after them. -/
def Forms (text : String) (form : List Token → List Token → Prop) : Prop :=
  ∃ tokens, Lexes Separates text tokens ∧ ∀ rest, form (tokens ++ rest) rest

/-! ## Fixed pieces -/

/-- An opening parenthesis may stand before anything. -/
theorem lexes_lparen : Lexes Anything "(" [⟨.lparen, "("⟩] :=
  lexes_closed (by decide) (by decide)

/-- A closing parenthesis may stand after what separates, and before anything. -/
theorem Lexes.append_rparen {text : String} {tokens : List Token}
    (h : Lexes Separates text tokens) :
    Lexes Anything (text ++ ")") (tokens ++ [⟨.rparen, ")"⟩]) :=
  h.append (lexes_closed (by decide) (by decide)) ⟨')', [], rfl, by decide⟩

/-- A closing parenthesis and a space may stand after what separates, and before anything. -/
theorem Lexes.append_rparen_space {text : String} {tokens : List Token}
    (h : Lexes Separates text tokens) :
    Lexes Anything (text ++ ") ") (tokens ++ [⟨.rparen, ")"⟩]) := by
  have hclosing : Lexes Anything ")" [⟨.rparen, ")"⟩] := lexes_closed (by decide) (by decide)
  exact h.append (hclosing.append_space trivial) ⟨')', [' '], rfl, by decide⟩

/-- A comma and a space may stand before anything. -/
theorem lexes_comma : Lexes Anything ", " [⟨.comma, ","⟩] :=
  (@lexes_closed "," .comma (by decide) (by decide)).append_space trivial

/-- A reserved word and a space may stand before anything. -/
theorem lexes_reserved_space {text : String} {kind : Kind} (h : (text, kind) ∈ Kind.reserved) :
    Lexes Anything (text ++ " ") [⟨kind, text⟩] :=
  (lexes_reserved h).append_space (by decide)

/-- What may stand before anything may stand before what separates. -/
theorem Lexes.separates {text : String} {tokens : List Token} (h : Lexes Anything text tokens) :
    Lexes Separates text tokens :=
  h.mono fun _ _ => trivial

/-! ## Names, numerals and operators -/

/-- A name is read as an identifier before what separates. -/
theorem lexes_name_separates {text : String} (h : isName text = true) :
    Lexes Separates text [⟨.ident, text⟩] :=
  (lexes_name h).mono fun _ hseparates => hseparates.1

/-- The digits of a number within the range are a numeral that stands for it. -/
theorem numeral_toString {value : Nat} (h : value ≤ 0x7fffffffffffffff) :
    Text.Numeral (toString value) value := by
  have hshort : (Nat.toDigits 10 value).length ≤ 19 :=
    (Nat.length_toDigits_le_iff (by decide) (by decide)).mpr (by omega)
  constructor
  · rw [toList_toString]
    exact Nat.toDigits_ne_nil
  · rw [toList_toString]
    exact fun c hmem => Nat.isDigit_of_mem_toDigits (by decide) (by decide) hmem
  · rw [toList_toString]
    omega
  · rw [toList_toString]
    exact Nat.ofDigitChars_ten_toDigits
  · exact h

/-- A binary operator is a symbol of some level. -/
theorem exists_level_of_mem_binaryOperators {operator : String} (h : operator ∈ binaryOperators) :
    ∃ kind level, (operator, kind) ∈ Kind.symbols ∧ kind ∈ Precedence.operators level := by
  have hoperators : ∀ operator ∈ binaryOperators, ∃ entry ∈ Kind.symbols,
      entry.1 = operator ∧ entry.2.isBinary = true := by decide
  obtain ⟨⟨text, kind⟩, hmem, rfl, hbinary⟩ := hoperators operator h
  exact ⟨kind, kind.precedence, hmem, Precedence.mem_operators_iff.mpr ⟨hbinary, rfl⟩⟩

/-- A run of characters of a class begins with no character of another class. -/
theorem starts_of_forall {p : Char → Bool} {stranger : Char} {text : String}
    (hempty : text.toList ≠ []) (hclass : ∀ c ∈ text.toList, p c = true)
    (hstranger : p stranger = false) : Starts (· ≠ stranger) text := by
  obtain ⟨c, rest, htext⟩ := List.exists_cons_of_ne_nil hempty
  refine ⟨c, rest, htext, ?_⟩
  have hc : p c = true := hclass c (by rw [htext]; exact List.mem_cons_self)
  intro heq
  rw [heq, hstranger] at hc
  exact nomatch hc

/-- The canonical text of an expression does not begin with `=`, so it does not prolong a `!`. -/
theorem starts_render : ∀ {node : Node}, node.isExpression = true → Starts (· ≠ '=') node.render
  | .identifier name, h => by
    simp only [Node.isExpression, isName, Bool.and_eq_true, Bool.not_eq_true',
      List.isEmpty_eq_false_iff, List.all_eq_true] at h
    exact starts_of_forall h.1.1 h.1.2 (by decide)
  | .integer value, h => by
    simp only [Node.isExpression, decide_eq_true_eq] at h
    obtain ⟨value, rfl⟩ := Int.eq_ofNat_of_zero_le h.1
    have hnumeral : Text.Numeral (toString value) value := numeral_toString (by omega)
    exact starts_of_forall hnumeral.nonempty hnumeral.digits (by decide)
  | .boolean true, _ => ⟨'t', _, rfl, by decide⟩
  | .boolean false, _ => ⟨'f', _, rfl, by decide⟩
  | .unary operator right, _ => by
    have hopening : Starts (· ≠ '=') "(" := ⟨'(', [], rfl, by decide⟩
    exact ((hopening.append _).append _).append _
  | .binary left operator right, _ => by
    have hopening : Starts (· ≠ '=') "(" := ⟨'(', [], rfl, by decide⟩
    exact (((((hopening.append _).append _).append _).append _).append _).append _
  | .conditional condition consequence alternative, _ => by
    have hword : Starts (· ≠ '=') "if (" := ⟨'i', _, rfl, by decide⟩
    exact (((hword.append _).append _).append _).append _
  | .function parameters body, _ => by
    have hword : Starts (· ≠ '=') "fn(" := ⟨'f', _, rfl, by decide⟩
    exact ((hword.append _).append _).append _
  | .call callee arguments, h => by
    simp only [Node.isExpression, Bool.and_eq_true] at h
    exact (((starts_render h.1).append _).append _).append _

/-! ## Items in sequence -/

/-- Items with separators between them form a sequence, if the last item forms one and an item and a
separator in front of a sequence do. -/
theorem Forms.intercalate {separator : String} {token : Token}
    {item : Node → List Token → List Token → Prop}
    {sequence : List Node → List Token → List Token → Prop}
    (hseparator : Lexes Anything separator [token]) (hstart : Starts Separates separator)
    (hlast : ∀ {node tokens rest}, item node tokens rest → sequence [node] tokens rest)
    (hmore : ∀ {node next nodes tokens middle rest}, item node tokens (token :: middle) →
      sequence (next :: nodes) middle rest → sequence (node :: next :: nodes) tokens rest)
    {nodes : List Node} (hne : nodes ≠ [])
    (hitems : ∀ node ∈ nodes, Forms node.render (item node)) :
    Forms (separator.intercalate (Node.renderEach nodes)) (sequence nodes) := by
  induction nodes with
  | nil => exact absurd rfl hne
  | cons node nodes ih =>
    obtain ⟨tokens, hlexes, htokens⟩ := hitems node List.mem_cons_self
    cases nodes with
    | nil =>
      refine ⟨tokens, ?_, fun rest => hlast (htokens rest)⟩
      rw [Node.renderEach, Node.renderEach, String.intercalate_singleton]
      exact hlexes
    | cons next nodes =>
      obtain ⟨others, hlexesOthers, hothers⟩ :=
        ih (List.cons_ne_nil next nodes) fun node hmem => hitems node (List.mem_cons_of_mem _ hmem)
      refine ⟨tokens ++ [token] ++ others, ?_, fun rest => ?_⟩
      · rw [Node.renderEach, Node.renderEach, String.intercalate_cons_cons]
        exact (hlexes.append hseparator hstart).append_of_anything hlexesOthers
      · rw [List.append_assoc, List.append_assoc]
        exact hmore (htokens _) (hothers rest)

/-- Before a closing parenthesis, `tokens` form a list that ends after it. -/
def Enclosed (list : List Token → List Token → List Node → Prop) (nodes : List Node)
    (tokens rest : List Token) : Prop :=
  ∀ closing after, closing.kind = .rparen → rest = closing :: after → list tokens after nodes

/-- Items with commas between them form a list before a closing parenthesis. -/
theorem forms_enclosed {item : Node → List Token → List Token → Prop}
    {list : List Token → List Token → List Node → Prop}
    (hnone : ∀ {closing rest}, closing.kind = .rparen → list (closing :: rest) rest [])
    (hlast : ∀ {closing node tokens rest}, closing.kind = .rparen →
      item node tokens (closing :: rest) → list tokens rest [node])
    (hmore : ∀ {comma node next nodes tokens middle rest}, comma.kind = .comma →
      item node tokens (comma :: middle) → list middle rest (next :: nodes) →
        list tokens rest (node :: next :: nodes))
    {nodes : List Node} (hitems : ∀ node ∈ nodes, Forms node.render (item node)) :
    Forms (", ".intercalate (Node.renderEach nodes)) (Enclosed list nodes) := by
  by_cases hempty : nodes = []
  · subst hempty
    refine ⟨[], fun after _ => rfl, fun rest closing after hclosing heq => ?_⟩
    exact heq ▸ hnone hclosing
  · refine Forms.intercalate lexes_comma ⟨',', [' '], rfl, by decide⟩ ?_ ?_ hempty hitems
    · intro node tokens rest hitem closing after hclosing heq
      exact hlast hclosing (heq ▸ hitem)
    · intro node next nodes tokens middle rest hitem hnodes closing after hclosing heq
      exact hmore rfl hitem (hnodes closing after hclosing heq)

/-- A node is the name in a token. -/
def IsName (node : Node) (tokens rest : List Token) : Prop :=
  ∃ name : Token, name.kind = .ident ∧ node = .identifier name.literal ∧ tokens = name :: rest

/-- Names with commas between them form parameters. -/
theorem forms_parameters {parameters : List Node} (h : parameters.all Node.isNameNode = true) :
    Forms (", ".intercalate (Node.renderEach parameters)) (Enclosed Parameters parameters) := by
  have hitems : ∀ node ∈ parameters, Forms node.render (IsName node) := by
    intro node hmem
    have hnode := List.all_eq_true.mp h node hmem
    cases node with
    | identifier name =>
      exact ⟨[⟨.ident, name⟩], lexes_name_separates hnode, fun rest => ⟨_, rfl, rfl, rfl⟩⟩
    | _ => exact nomatch hnode
  refine forms_enclosed .none ?_ ?_ hitems
  · intro closing node tokens rest hclosing hitem
    obtain ⟨name, hname, rfl, rfl⟩ := hitem
    exact .some (.last hname hclosing)
  · intro comma node next nodes tokens middle rest hcomma hitem hlist
    obtain ⟨name, hname, rfl, rfl⟩ := hitem
    cases hlist with
    | some hfrom => exact .some (.more hname hcomma hfrom)

/-- `tokens` form an expression of a level. -/
def IsExpression (level : Precedence) (node : Node) (tokens rest : List Token) : Prop :=
  Expression .exact level tokens rest node

/-- An expression of any level is one of the lowest. -/
theorem IsExpression.lowest {level : Precedence} {node : Node} {tokens rest : List Token}
    (h : IsExpression level node tokens rest) : Expression .exact .lowest tokens rest node :=
  Expression.loosen h (Nat.zero_le _)

/-- Expressions with commas between them form arguments. -/
theorem forms_arguments {arguments : List Node}
    (h : ∀ node ∈ arguments, Forms node.render (IsExpression .call node)) :
    Forms (", ".intercalate (Node.renderEach arguments))
      (Enclosed (Arguments .exact) arguments) := by
  refine forms_enclosed .none ?_ ?_ h
  · intro closing node tokens rest hclosing hitem
    exact .some (.last hclosing hitem.lowest)
  · intro comma node next nodes tokens middle rest hcomma hitem hlist
    cases hlist with
    | some hfrom => exact .some (.more hcomma hitem.lowest hfrom)

/-- `tokens` form a statement. -/
def IsStatement (node : Node) (tokens rest : List Token) : Prop :=
  Statement .exact tokens rest node

/-- Before what closes a sequence of statements, `tokens` form one. -/
def Sequence (statements : List Node) (tokens rest : List Token) : Prop :=
  Closing rest → Body .exact tokens rest statements

/-- Statements with semicolons between them form a sequence. -/
theorem forms_body {statements : List Node} (hne : statements ≠ [])
    (h : ∀ node ∈ statements, Forms node.render (IsStatement node)) :
    Forms ("; ".intercalate (Node.renderEach statements)) (Sequence statements) := by
  have hsemicolon : Lexes Anything "; " [⟨.semicolon, ";"⟩] :=
    (@lexes_closed ";" .semicolon (by decide) (by decide)).append_space trivial
  refine Forms.intercalate hsemicolon ⟨';', [' '], rfl, by decide⟩ ?_ ?_ hne h
  · intro node tokens rest hstatement hclosing
    refine .cons (fun _ => ?_) hstatement .nil
    unfold Ended
    rcases hclosing with hclosing | hclosing <;> rw [hclosing] <;> decide
  · intro node next nodes tokens middle rest hstatement hbody hclosing
    have hended : Ended (⟨.semicolon, ";"⟩ :: middle) := by simp [Ended]
    exact .cons (fun _ => hended) hstatement (.skip (fun _ => rfl) (hbody hclosing))

/-! ## Trees -/

/-- An expression of any level in parentheses may stand anywhere. -/
theorem forms_grouped {level : Precedence} {node : Node} {text : String}
    (h : Forms text (IsExpression level node)) :
    Forms ("(" ++ text ++ ")") (IsExpression .call node) := by
  obtain ⟨tokens, hlexes, htokens⟩ := h
  refine ⟨[⟨.lparen, "("⟩] ++ tokens ++ [⟨.rparen, ")"⟩], ?_, fun rest => ?_⟩
  · exact (lexes_lparen.append_of_anything hlexes).append_rparen.separates
  · rw [List.append_assoc, List.append_assoc]
    exact .primary (.grouped rfl rfl (htokens _).lowest)

/-- A prefix operator and its operand form an expression. -/
theorem forms_unary {operator : String} {right : Node} (hoperator : operator ∈ ["!", "-"])
    (hstart : Starts (· ≠ '=') right.render) (h : Forms right.render (IsExpression .call right)) :
    Forms (operator ++ right.render) (IsExpression .unary (.unary operator right)) := by
  obtain ⟨tokens, hlexes, htokens⟩ := h
  obtain ⟨kind, hsymbol, hkind⟩ : ∃ kind, (operator, kind) ∈ Kind.symbols ∧
      (kind = .bang ∨ kind = .minus) := by
    rw [List.mem_cons, List.mem_singleton] at hoperator
    rcases hoperator with rfl | rfl
    · exact ⟨.bang, by decide, .inl rfl⟩
    · exact ⟨.minus, by decide, .inr rfl⟩
  obtain ⟨c, rest, htext, hc⟩ := hstart
  refine ⟨[⟨kind, operator⟩] ++ tokens, ?_, fun rest => ?_⟩
  · exact (lexes_symbol hsymbol).append hlexes ⟨c, rest, htext, fun _ => hc⟩
  · exact .unary hkind (.tighter (htokens rest))

/-- An operator between two operands forms an expression. -/
theorem forms_binary {left right : Node} {operator : String}
    (hoperator : operator ∈ binaryOperators)
    (hleft : Forms left.render (IsExpression .call left))
    (hright : Forms right.render (IsExpression .call right)) :
    ∃ level, Forms (left.render ++ " " ++ operator ++ " " ++ right.render)
      (IsExpression level (.binary left operator right)) := by
  obtain ⟨before, hlexesLeft, hbefore⟩ := hleft
  obtain ⟨after, hlexesRight, hafter⟩ := hright
  obtain ⟨kind, level, hsymbol, hkind⟩ := exists_level_of_mem_binaryOperators hoperator
  refine ⟨level, before ++ [⟨kind, operator⟩] ++ after, ?_, fun rest => ?_⟩
  · have hfirst := hlexesLeft.append_space (by decide)
    have hmiddle := hfirst.append_of_anything (lexes_symbol hsymbol)
    exact (hmiddle.append_space fun _ => by decide).append_of_anything hlexesRight
  · have hfirst : Expression .exact .call _ _ left := hbefore (⟨kind, operator⟩ :: (after ++ rest))
    have hlast : Expression .exact .call _ _ right := hafter rest
    rw [List.append_assoc, List.append_assoc]
    exact .binary hkind (hfirst.loosen level.rank_le) (hlast.loosen level.tighter.rank_le)

/-- `tokens` form a block. -/
def IsBlock (node : Node) (tokens rest : List Token) : Prop :=
  Block .exact tokens rest node

/-- A condition and one or two blocks form a choice. -/
theorem forms_conditional {condition consequence : Node} {alternative : Option Node}
    (hcondition : Forms condition.render (IsExpression .call condition))
    (hconsequence : Forms consequence.render (IsBlock consequence))
    (halternative : ∀ node ∈ alternative, Forms node.render (IsBlock node)) :
    Forms (Node.conditional condition consequence alternative).render
      (IsExpression .call (.conditional condition consequence alternative)) := by
  obtain ⟨test, hlexesTest, htest⟩ := hcondition
  obtain ⟨block, hlexesBlock, hblock⟩ := hconsequence
  have hword : Lexes Anything "if (" ([⟨.ifWord, "if"⟩] ++ [⟨.lparen, "("⟩]) :=
    (@lexes_reserved_space "if" .ifWord (by decide)).append_of_anything lexes_lparen
  have htested := (hword.append_of_anything hlexesTest).append_rparen_space
  have hlexes := htested.append_of_anything hlexesBlock
  cases alternative with
  | none =>
    refine ⟨[⟨.ifWord, "if"⟩] ++ [⟨.lparen, "("⟩] ++ test ++ [⟨.rparen, ")"⟩] ++ block, ?_,
      fun rest => ?_⟩
    · rw [Node.render, Node.renderElse, String.append_empty]
      exact hlexes
    · simp only [List.append_assoc]
      exact .primary (.choice rfl rfl rfl (htest _).lowest (hblock rest))
  | some node =>
    obtain ⟨other, hlexesOther, hother⟩ := halternative node rfl
    refine ⟨[⟨.ifWord, "if"⟩] ++ [⟨.lparen, "("⟩] ++ test ++ [⟨.rparen, ")"⟩] ++ block ++
      ([⟨.elseWord, "else"⟩] ++ other), ?_, fun rest => ?_⟩
    · have helse : Lexes Anything " else " [⟨.elseWord, "else"⟩] :=
        (@lexes_reserved_space "else" .elseWord (by decide)).space_append
      have hstart : Starts Separates " else " := ⟨' ', _, rfl, by decide⟩
      rw [Node.render, Node.renderElse]
      exact hlexes.append (helse.append_of_anything hlexesOther) (hstart.append _)
    · simp only [List.append_assoc]
      exact .primary (.choiceElse rfl rfl rfl rfl (htest _).lowest (hblock _) (hother rest))

/-- Parameters and a block form a function. -/
theorem forms_function {parameters : List Node} {body : Node}
    (hparameters : parameters.all Node.isNameNode = true)
    (hbody : Forms body.render (IsBlock body)) :
    Forms (Node.function parameters body).render
      (IsExpression .call (.function parameters body)) := by
  obtain ⟨names, hlexesNames, hnames⟩ := forms_parameters hparameters
  obtain ⟨block, hlexesBlock, hblock⟩ := hbody
  have hword : Lexes Anything "fn(" ([⟨.fnWord, "fn"⟩] ++ [⟨.lparen, "("⟩]) :=
    (@lexes_reserved "fn" .fnWord (by decide)).append lexes_lparen ⟨'(', [], rfl, by decide⟩
  refine ⟨[⟨.fnWord, "fn"⟩] ++ [⟨.lparen, "("⟩] ++ names ++ [⟨.rparen, ")"⟩] ++ block, ?_,
    fun rest => ?_⟩
  · have hnamed := (hword.append_of_anything hlexesNames).append_rparen_space
    exact hnamed.append_of_anything hlexesBlock
  · simp only [List.append_assoc]
    exact .primary (.function rfl rfl (hnames _ _ _ rfl rfl) (hblock rest))

/-- A callee and arguments form a call. -/
theorem forms_call {callee : Node} {arguments : List Node}
    (hcallee : Forms callee.render (IsExpression .call callee))
    (harguments : ∀ node ∈ arguments, Forms node.render (IsExpression .call node)) :
    Forms (Node.call callee arguments).render (IsExpression .call (.call callee arguments)) := by
  obtain ⟨before, hlexesCallee, hbefore⟩ := hcallee
  obtain ⟨values, hlexesValues, hvalues⟩ := forms_arguments harguments
  refine ⟨before ++ [⟨.lparen, "("⟩] ++ values ++ [⟨.rparen, ")"⟩], ?_, fun rest => ?_⟩
  · have hopened := hlexesCallee.append lexes_lparen ⟨'(', [], rfl, by decide⟩
    exact (hopened.append_of_anything hlexesValues).append_rparen.separates
  · simp only [List.append_assoc]
    exact .call rfl (hbefore _) (hvalues _ _ _ rfl rfl)

/-- Statements in braces form a block. -/
theorem forms_block {statements : List Node}
    (h : ∀ node ∈ statements, Forms node.render (IsStatement node)) :
    Forms (Node.block statements).render (IsBlock (.block statements)) := by
  have hopening : Lexes Anything "\x7b " [⟨.lbrace, "\x7b"⟩] :=
    (@lexes_closed "\x7b" .lbrace (by decide) (by decide)).append_space trivial
  have hclosing : Lexes Anything "\x7d" [⟨.rbrace, "\x7d"⟩] := lexes_closed (by decide) (by decide)
  cases statements with
  | nil =>
    refine ⟨[⟨.lbrace, "\x7b"⟩] ++ [⟨.rbrace, "\x7d"⟩], ?_, fun rest => ?_⟩
    · exact (hopening.append_of_anything hclosing).separates
    · exact .closed rfl rfl .nil
  | cons statement statements =>
    obtain ⟨tokens, hlexes, htokens⟩ := forms_body (List.cons_ne_nil statement statements) h
    refine ⟨[⟨.lbrace, "\x7b"⟩] ++ tokens ++ [⟨.rbrace, "\x7d"⟩], ?_, fun rest => ?_⟩
    · have hspaced : Lexes Anything " \x7d" [⟨.rbrace, "\x7d"⟩] := hclosing.space_append
      have hopened := hopening.append_of_anything hlexes
      exact (hopened.append hspaced ⟨' ', _, rfl, by decide⟩).separates
    · simp only [List.append_assoc]
      exact .closed rfl rfl (htokens _ (.inl rfl))

/-- A name and an expression form a `let` statement. -/
theorem forms_letStatement {name : String} {value : Node} (hname : isName name = true)
    (hvalue : Forms value.render (IsExpression .call value)) :
    Forms (Node.letStatement (.identifier name) value).render
      (IsStatement (.letStatement (.identifier name) value)) := by
  obtain ⟨tokens, hlexes, htokens⟩ := hvalue
  have hword : Lexes Anything "let " [⟨.letWord, "let"⟩] :=
    @lexes_reserved_space "let" .letWord (by decide)
  have hassign : Lexes Anything " = " [⟨.assign, "="⟩] :=
    (@lexes_symbol "=" .assign (by decide)).space_append.append_space (fun _ => by decide)
  refine ⟨[⟨.letWord, "let"⟩] ++ [⟨.ident, name⟩] ++ [⟨.assign, "="⟩] ++ tokens, ?_, fun rest => ?_⟩
  · have hnamed := hword.append_of_anything (lexes_name_separates hname)
    exact (hnamed.append hassign ⟨' ', _, rfl, by decide⟩).append_of_anything hlexes
  · exact .letStatement rfl rfl rfl (htokens rest).lowest

/-- An expression forms a `return` statement. -/
theorem forms_returnStatement {value : Node}
    (hvalue : Forms value.render (IsExpression .call value)) :
    Forms (Node.returnStatement value).render (IsStatement (.returnStatement value)) := by
  obtain ⟨tokens, hlexes, htokens⟩ := hvalue
  have hword : Lexes Anything "return " [⟨.returnWord, "return"⟩] :=
    @lexes_reserved_space "return" .returnWord (by decide)
  refine ⟨[⟨.returnWord, "return"⟩] ++ tokens, ?_, fun rest => ?_⟩
  · exact hword.append_of_anything hlexes
  · exact .returnStatement rfl (htokens rest).lowest

/-- An expression forms a statement by itself. -/
theorem forms_expressionStatement {value : Node}
    (hvalue : Forms value.render (IsExpression .call value)) :
    Forms (Node.expressionStatement value).render (IsStatement (.expressionStatement value)) := by
  obtain ⟨tokens, hlexes, htokens⟩ := hvalue
  exact ⟨tokens, hlexes, fun rest => .expressionStatement (htokens rest).lowest⟩

mutual

/-- The canonical text of an expression forms it. -/
theorem forms_expression : ∀ node : Node, node.isExpression = true →
    Forms node.render (IsExpression .call node)
  | .identifier name, h =>
    ⟨[⟨.ident, name⟩], lexes_name_separates h, fun _ => .primary (.identifier rfl)⟩
  | .integer value, h => by
    simp only [Node.isExpression, decide_eq_true_eq] at h
    obtain ⟨value, rfl⟩ := Int.eq_ofNat_of_zero_le h.1
    have hnumeral : Text.Numeral (toString value) value := numeral_toString (by omega)
    refine ⟨[⟨.int, toString value⟩], ?_, fun rest => .primary (.integer rfl hnumeral)⟩
    exact (lexes_numeral hnumeral.nonempty hnumeral.digits).mono fun c hseparates => hseparates.2
  | .boolean true, _ => by
    refine ⟨[⟨.trueWord, "true"⟩], ?_, fun rest => .primary (.true rfl)⟩
    exact (lexes_reserved (by decide)).mono fun c hseparates => hseparates.1
  | .boolean false, _ => by
    refine ⟨[⟨.falseWord, "false"⟩], ?_, fun rest => .primary (.false rfl)⟩
    exact (lexes_reserved (by decide)).mono fun c hseparates => hseparates.1
  | .unary operator right, h => by
    simp only [Node.isExpression, Bool.and_eq_true, List.contains_iff_mem] at h
    have hgrouped := forms_grouped
      (forms_unary h.1 (starts_render h.2) (forms_expression right h.2))
    rw [Node.render]
    simpa only [String.append_assoc] using hgrouped
  | .binary left operator right, h => by
    simp only [Node.isExpression, Bool.and_eq_true, List.contains_iff_mem] at h
    obtain ⟨⟨hleft, hoperator⟩, hright⟩ := h
    obtain ⟨level, hbinary⟩ :=
      forms_binary hoperator (forms_expression left hleft) (forms_expression right hright)
    have hgrouped := forms_grouped hbinary
    rw [Node.render]
    simpa only [String.append_assoc] using hgrouped
  | .conditional condition consequence none, h => by
    simp only [Node.isExpression, Bool.and_eq_true] at h
    exact forms_conditional (forms_expression condition h.1.1) (forms_isBlock consequence h.1.2)
      (fun _ hmem => nomatch hmem)
  | .conditional condition consequence (some alternative), h => by
    simp only [Node.isExpression, Node.isAlternative, Bool.and_eq_true] at h
    refine forms_conditional (forms_expression condition h.1.1) (forms_isBlock consequence h.1.2) ?_
    intro node hmem
    obtain rfl := Option.some.inj hmem
    exact forms_isBlock alternative h.2
  | .function parameters body, h => by
    simp only [Node.isExpression, Bool.and_eq_true] at h
    exact forms_function h.1 (forms_isBlock body h.2)
  | .call callee arguments, h => by
    simp only [Node.isExpression, Bool.and_eq_true] at h
    exact forms_call (forms_expression callee h.1) (forms_expressions arguments h.2)

/-- The canonical texts of expressions form them. -/
theorem forms_expressions : ∀ nodes : List Node, Node.areExpressions nodes = true →
    ∀ node ∈ nodes, Forms node.render (IsExpression .call node)
  | [], _, _, hmem => nomatch hmem
  | first :: nodes, h, node, hmem => by
    simp only [Node.areExpressions, Bool.and_eq_true] at h
    rcases List.mem_cons.mp hmem with heq | hmem
    · rw [heq]
      exact forms_expression first h.1
    · exact forms_expressions nodes h.2 node hmem

/-- The canonical text of a block forms it. -/
theorem forms_isBlock : ∀ node : Node, node.isBlock = true → Forms node.render (IsBlock node)
  | .block statements, h => forms_block (forms_statements statements h)

/-- The canonical text of a statement forms it. -/
theorem forms_statement : ∀ node : Node, node.isStatement = true →
    Forms node.render (IsStatement node)
  | .letStatement (.identifier name) value, h => by
    simp only [Node.isStatement, Bool.and_eq_true] at h
    exact forms_letStatement h.1 (forms_expression value h.2)
  | .returnStatement value, h => forms_returnStatement (forms_expression value h)
  | .expressionStatement value, h => forms_expressionStatement (forms_expression value h)

/-- The canonical texts of statements form them. -/
theorem forms_statements : ∀ nodes : List Node, Node.areStatements nodes = true →
    ∀ node ∈ nodes, Forms node.render (IsStatement node)
  | [], _, _, hmem => nomatch hmem
  | first :: nodes, h, node, hmem => by
    simp only [Node.areStatements, Bool.and_eq_true] at h
    rcases List.mem_cons.mp hmem with heq | hmem
    · rw [heq]
      exact forms_statement first h.1
    · exact forms_statements nodes h.2 node hmem

end

/-! ## Programs -/

/-- The canonical text of a program is in the exact grammar, with the statements of the program. -/
theorem body_render {statements : List Node} (h : Node.areStatements statements = true) :
    Body .exact (tokenize (Node.program statements).render.toList) [] statements := by
  rw [Node.render]
  by_cases hempty : statements = []
  · subst hempty
    have htokens : tokenize ("; ".intercalate (Node.renderEach [])).toList = [] := tokenize_nil
    rw [htokens]
    exact .nil
  · obtain ⟨tokens, hlexes, htokens⟩ := forms_body hempty (forms_statements statements h)
    have hread := hlexes [] (fun _ hmem => nomatch hmem)
    rw [List.append_nil, tokenize_nil] at hread
    rw [hread]
    exact htokens [] (.inr rfl)

/-- The canonical text of a well-formed program is read as that program, without a fault: certainly
once the limit on the nesting exceeds the length of the text, and within every limit as nothing
else. -/
theorem parseWithin_render {program : Node} (h : program.isProgram = true) (nesting : Nat) :
    (program.render.length < nesting →
        parseWithin nesting program.render = some ⟨program, []⟩) ∧
      ∀ parsed, parseWithin nesting program.render = some parsed → parsed = ⟨program, []⟩ := by
  cases program with
  | program statements =>
    have hbody := body_render h
    exact ⟨parseWithin_of_body hbody, fun _ hparsed => eq_of_parseWithin hbody hparsed⟩
  | _ => exact nomatch h

/-- A function that is called, a choice that is called, and a prefix operator before a call. -/
theorem parseWithin_render_calls :
    (Node.program
      [.expressionStatement (.call (.function [.identifier "x"] (.block
        [.returnStatement (.unary "!" (.call (.identifier "x") []))])) [.boolean true]),
      .letStatement (.identifier "y") (.call (.conditional (.binary (.integer 0) "!=" (.integer 1))
        (.block []) (some (.block [.expressionStatement (.integer 2)]))) [])]).isProgram = true ∧
    parseWithin 80
        "fn(x) \x7b return (!x()) \x7d(true); let y = if ((0 != 1)) \x7b \x7d else \x7b 2 \x7d()" =
      some ⟨.program
        [.expressionStatement (.call (.function [.identifier "x"] (.block
          [.returnStatement (.unary "!" (.call (.identifier "x") []))])) [.boolean true]),
        .letStatement (.identifier "y") (.call (.conditional
          (.binary (.integer 0) "!=" (.integer 1)) (.block [])
          (some (.block [.expressionStatement (.integer 2)]))) [])], []⟩ :=
  ⟨rfl, (@parseWithin_render (.program
    [.expressionStatement (.call (.function [.identifier "x"] (.block
      [.returnStatement (.unary "!" (.call (.identifier "x") []))])) [.boolean true]),
    .letStatement (.identifier "y") (.call (.conditional (.binary (.integer 0) "!=" (.integer 1))
      (.block []) (some (.block [.expressionStatement (.integer 2)]))) [])]) rfl 80).1 (by decide)⟩

end ExprLang
