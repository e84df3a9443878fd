import ExprLang.Node.Basic
import ExprLang.Proofs.Cursor
import ExprLang.Text.Numeral
import ExprLang.Token.Precedence

/-!
# The grammar of the language

What the tokens of a text may form, said without any parser. A phrase reaches from a list of tokens
up to the rest of that list after it, so that phrases in sequence share the list between them. The
expressions are in layers, one for each level of precedence: a binary operator has an operand of its
own level on the left and one of the next tighter level on the right, and parentheses leave no trace
in the tree.

The lenient grammar differs from the exact one in the bodies of blocks only: tokens may be passed
over between statements, and the closing brace may be missing at the end of the text.
-/

namespace ExprLang

namespace Text

/-- `text` is a numeral that stands for `value`: a run of at most 4300 digits, read in base ten,
with a value that fits a signed 64-bit integer. -/
structure Numeral (text : String) (value : Nat) : Prop where
  nonempty : text.toList ≠ []
  digits : ∀ c ∈ text.toList, c.isDigit = true
  short : text.toList.length ≤ 4300
  reads : Nat.ofDigitChars 10 text.toList 0 = value
  fits : value ≤ 0x7fffffffffffffff

/-- The numerals are exactly the texts that an integer is read from. -/
theorem integerOf?_eq_some_iff {text : String} {value : Nat} :
    integerOf? text = some value ↔ Numeral text value := by
  constructor
  · intro h
    simp only [integerOf?, Option.ite_none_left_eq_some, Option.ite_none_right_eq_some,
      not_or, Decidable.not_not, Option.some.injEq] at h
    obtain ⟨⟨hempty, hdigits, hshort⟩, hfits, rfl⟩ := h
    exact ⟨by simpa using hempty, by simpa using hdigits, by simpa [maxDigits] using hshort, rfl,
      by simpa [maxInteger] using hfits⟩
  · intro h
    have hdigits : text.toList.all Char.isDigit = true := by simpa using h.digits
    have hempty : text.toList.isEmpty = false := by simpa using h.nonempty
    have hshort : ¬ maxDigits < text.toList.length := Nat.not_lt.mpr h.short
    have hfits : value ≤ maxInteger := h.fits
    simp only [integerOf?, hdigits, hempty, hshort, h.reads, Bool.false_eq_true, not_true, or_self,
      if_false, if_pos hfits]

end Text

namespace Precedence

/-- The level of the operands of a level: the next tighter one. Nothing is tighter than a call. -/
def tighter : Precedence → Precedence
  | lowest => equality
  | equality => comparison
  | comparison => sum
  | sum => product
  | product => unary
  | unary => call
  | call => call

/-- No level comes after that of a call. -/
theorem rank_le (level : Precedence) : level.rank ≤ 6 := by
  cases level <;> decide

/-- The next tighter level comes directly after a level. -/
theorem rank_tighter {level : Precedence} (h : level.rank < 6) :
    level.tighter.rank = level.rank + 1 := by
  cases level with
  | call => exact absurd h (by decide)
  | _ => rfl

/-- The binary operators of a level. -/
def operators : Precedence → List Kind
  | equality => [.eq, .ne]
  | comparison => [.lt, .gt]
  | sum => [.plus, .minus]
  | product => [.asterisk, .slash]
  | _ => []

/-- An operator of a level is a binary operator with that precedence, and there are no others. -/
theorem mem_operators_iff {level : Precedence} {kind : Kind} :
    kind ∈ level.operators ↔ kind.isBinary = true ∧ kind.precedence = level := by
  cases level <;> cases kind <;> decide

/-- The level of what is read above a floor. -/
def operand : Precedence → Precedence
  | unary => unary
  | level => level.tighter

/-- What binds tighter than a floor is at the level above it or tighter. -/
theorem operand_rank_le {level tight : Precedence} (h : level.rank < tight.rank) :
    level.operand.rank ≤ tight.rank := by
  cases level with
  | unary => exact Nat.le_of_lt h
  | call => exact absurd tight.rank_le (Nat.not_le.mpr h)
  | _ => exact h

/-- What is read above a floor binds no looser than the floor. -/
theorem rank_le_operand (level : Precedence) : level.rank ≤ level.operand.rank := by
  cases level <;> decide

/-- Above the level of a binary operator stands the next tighter one. -/
theorem operand_of_mem_operators {level : Precedence} {kind : Kind} (h : kind ∈ level.operators) :
    level.operand = level.tighter := by
  cases level with
  | unary => exact nomatch h
  | _ => rfl

/-- An operator at the level above a floor or tighter binds tighter than the floor. -/
theorem rank_lt_of_mem_operators {floor level : Precedence} {kind : Kind}
    (h : kind ∈ level.operators) (hfloor : floor.operand.rank ≤ level.rank) :
    floor.rank < level.rank := by
  have hlevel : level.rank ≤ 4 := by
    cases level with
    | unary => exact nomatch h
    | call => exact nomatch h
    | _ => decide
  cases floor with
  | unary => exact absurd (Nat.le_trans hfloor hlevel) (by decide)
  | call => exact absurd (Nat.le_trans hfloor hlevel) (by decide)
  | _ => exact hfloor

/-- No operator between two operands is at the level of a call. -/
theorem ne_call_of_mem_operators {level : Precedence} {kind : Kind} (h : kind ∈ level.operators) :
    level ≠ call := by
  intro hcall
  subst hcall
  exact nomatch h

end Precedence

namespace Node

mutual

/-- Whether there is a block in a tree. -/
def hasBlock : Node → Bool
  | .bare | .identifier _ | .integer _ | .boolean _ => false
  | .unary _ right => hasBlock right
  | .binary left _ right => hasBlock left || hasBlock right
  | .conditional condition consequence alternative =>
    hasBlock condition || hasBlock consequence || hasBlockOption alternative
  | .function parameters body => hasBlockEach parameters || hasBlock body
  | .call callee arguments => hasBlock callee || hasBlockEach arguments
  | .letStatement name value => hasBlock name || hasBlock value
  | .returnStatement value => hasBlock value
  | .expressionStatement value => hasBlock value
  | .block _ => true
  | .program statements => hasBlockEach statements

/-- Whether there is a block in an optional tree. -/
def hasBlockOption : Option Node → Bool
  | none => false
  | some node => hasBlock node

/-- Whether there is a block in a tree of a list. -/
def hasBlockEach : List Node → Bool
  | [] => false
  | node :: nodes => hasBlock node || hasBlockEach nodes

end

/-- A block in a tree of a list is one in a tree before or after a cut of the list. -/
theorem hasBlockEach_append (nodes more : List Node) :
    hasBlockEach (nodes ++ more) = (hasBlockEach nodes || hasBlockEach more) := by
  induction nodes with
  | nil => rfl
  | cons node nodes ih => rw [List.cons_append, hasBlockEach, hasBlockEach, ih, Bool.or_assoc]

end Node

namespace Phrase

/-- How strictly the bodies of blocks follow the grammar. -/
inductive Mode where
  /-- Only semicolons may stand between statements. -/
  | exact
  /-- Any tokens may be passed over, and the last braces may be missing. -/
  | lenient
  deriving DecidableEq

/-- One name or more with commas between them, up to and with the closing parenthesis. -/
inductive ParametersFrom : List Token → List Token → List Node → Prop where
  | last {name closing rest} : name.kind = .ident → closing.kind = .rparen →
      ParametersFrom (name :: closing :: rest) rest [.identifier name.literal]
  | more {name comma tokens rest parameters} : name.kind = .ident → comma.kind = .comma →
      ParametersFrom tokens rest parameters →
      ParametersFrom (name :: comma :: tokens) rest (.identifier name.literal :: parameters)

/-- The parameters after an opening parenthesis, up to and with the closing one. -/
inductive Parameters : List Token → List Token → List Node → Prop where
  | none {closing rest} : closing.kind = .rparen → Parameters (closing :: rest) rest []
  | some {tokens rest parameters} : ParametersFrom tokens rest parameters →
      Parameters tokens rest parameters

/-- Where a statement may end without a semicolon: not before a token that would carry its
expression on. -/
def Ended (rest : List Token) : Prop :=
  headKind rest ≠ .minus ∧ headKind rest ≠ .lparen

mutual

/-- The expressions of each level, from `tokens` up to `rest`. -/
inductive Expression (mode : Mode) : Precedence → List Token → List Token → Node → Prop where
  | tighter {level tokens rest node} : Expression mode level.tighter tokens rest node →
      Expression mode level tokens rest node
  /-- Operators of one level group from the left. -/
  | binary {level operator tokens middle rest left right} : operator.kind ∈ level.operators →
      Expression mode level tokens (operator :: middle) left →
      Expression mode level.tighter middle rest right →
      Expression mode level tokens rest (.binary left operator.literal right)
  | unary {operator tokens rest right} : operator.kind = .bang ∨ operator.kind = .minus →
      Expression mode .unary tokens rest right →
      Expression mode .unary (operator :: tokens) rest (.unary operator.literal right)
  | call {opening tokens middle rest callee arguments} : opening.kind = .lparen →
      Expression mode .call tokens (opening :: middle) callee →
      Arguments mode middle rest arguments →
      Expression mode .call tokens rest (.call callee arguments)
  | primary {tokens rest node} : Primary mode tokens rest node →
      Expression mode .call tokens rest node

/-- The expressions that no operator takes apart. -/
inductive Primary (mode : Mode) : List Token → List Token → Node → Prop where
  | identifier {name rest} : name.kind = .ident →
      Primary mode (name :: rest) rest (.identifier name.literal)
  | integer {numeral rest value} : numeral.kind = .int → Text.Numeral numeral.literal value →
      Primary mode (numeral :: rest) rest (.integer value)
  | true {word rest} : word.kind = .trueWord → Primary mode (word :: rest) rest (.boolean true)
  | false {word rest} : word.kind = .falseWord → Primary mode (word :: rest) rest (.boolean false)
  | grouped {opening closing tokens rest node} : opening.kind = .lparen → closing.kind = .rparen →
      Expression mode .lowest tokens (closing :: rest) node →
      Primary mode (opening :: tokens) rest node
  | choice {word opening closing tokens middle rest condition consequence} :
      word.kind = .ifWord → opening.kind = .lparen → closing.kind = .rparen →
      Expression mode .lowest tokens (closing :: middle) condition →
      Block mode middle rest consequence →
      Primary mode (word :: opening :: tokens) rest (.conditional condition consequence none)
  | choiceElse {word opening closing otherwise tokens middle after rest condition consequence
      alternative} :
      word.kind = .ifWord → opening.kind = .lparen → closing.kind = .rparen →
      otherwise.kind = .elseWord →
      Expression mode .lowest tokens (closing :: middle) condition →
      Block mode middle (otherwise :: after) consequence → Block mode after rest alternative →
      Primary mode (word :: opening :: tokens) rest
        (.conditional condition consequence (some alternative))
  | function {word opening tokens middle rest parameters body} :
      word.kind = .fnWord → opening.kind = .lparen → Parameters tokens middle parameters →
      Block mode middle rest body →
      Primary mode (word :: opening :: tokens) rest (.function parameters body)

/-- The arguments after an opening parenthesis, up to and with the closing one. -/
inductive Arguments (mode : Mode) : List Token → List Token → List Node → Prop where
  | none {closing rest} : closing.kind = .rparen → Arguments mode (closing :: rest) rest []
  | some {tokens rest arguments} : ArgumentsFrom mode tokens rest arguments →
      Arguments mode tokens rest arguments

/-- One argument or more with commas between them, up to and with the closing parenthesis. -/
inductive ArgumentsFrom (mode : Mode) : List Token → List Token → List Node → Prop where
  | last {closing tokens rest argument} : closing.kind = .rparen →
      Expression mode .lowest tokens (closing :: rest) argument →
      ArgumentsFrom mode tokens rest [argument]
  | more {comma tokens middle rest argument arguments} : comma.kind = .comma →
      Expression mode .lowest tokens (comma :: middle) argument →
      ArgumentsFrom mode middle rest arguments →
      ArgumentsFrom mode tokens rest (argument :: arguments)

/-- The statements; a semicolon after one is no part of it. -/
inductive Statement (mode : Mode) : List Token → List Token → Node → Prop where
  | letStatement {word name sign tokens rest value} :
      word.kind = .letWord → name.kind = .ident → sign.kind = .assign →
      Expression mode .lowest tokens rest value →
      Statement mode (word :: name :: sign :: tokens) rest
        (.letStatement (.identifier name.literal) value)
  | returnStatement {word tokens rest value} : word.kind = .returnWord →
      Expression mode .lowest tokens rest value →
      Statement mode (word :: tokens) rest (.returnStatement value)
  | expressionStatement {tokens rest value} : Expression mode .lowest tokens rest value →
      Statement mode tokens rest (.expressionStatement value)

/-- A sequence of statements from `tokens` up to `rest`. In the exact grammar any number of
semicolons stands before, between and after the statements, and where there is none the next
statement may not begin with a token that would carry the last one on. -/
inductive Body (mode : Mode) : List Token → List Token → List Node → Prop where
  | nil {rest} : Body mode rest rest []
  | skip {token tokens rest statements} : (mode = .exact → token.kind = .semicolon) →
      Body mode tokens rest statements → Body mode (token :: tokens) rest statements
  | cons {tokens middle rest statement statements} : (mode = .exact → Ended middle) →
      Statement mode tokens middle statement → Body mode middle rest statements →
      Body mode tokens rest (statement :: statements)

/-- Statements in braces. -/
inductive Block (mode : Mode) : List Token → List Token → Node → Prop where
  | closed {opening closing tokens rest statements} :
      opening.kind = .lbrace → closing.kind = .rbrace →
      Body mode tokens (closing :: rest) statements →
      Block mode (opening :: tokens) rest (.block statements)
  | unclosed {opening tokens statements} : mode = .lenient → opening.kind = .lbrace →
      Body mode tokens [] statements → Block mode (opening :: tokens) [] (.block statements)

end

/-! ## Where phrases begin and end -/

/-- The kinds of tokens that an expression begins with. -/
def startsExpression : Kind → Bool
  | .ident | .int | .trueWord | .falseWord | .bang | .minus | .lparen | .ifWord | .fnWord => true
  | _ => false

/-- The kinds of tokens that a statement begins with. -/
def startsStatement (kind : Kind) : Bool :=
  kind == .letWord || kind == .returnWord || startsExpression kind

/-- `tokens` begins with a token of a kind in `starts`, and `rest` is an end of what follows it. -/
def Begins (starts : Kind → Bool) (tokens rest : List Token) : Prop :=
  ∃ token ahead, tokens = token :: ahead ∧ starts token.kind = true ∧ rest <:+ ahead

/-- The rest after a first token and more is an end of the tokens. -/
theorem Begins.suffix {starts : Kind → Bool} {tokens rest : List Token}
    (h : Begins starts tokens rest) : rest <:+ tokens := by
  obtain ⟨token, ahead, rfl, -, hsuffix⟩ := h
  exact hsuffix.trans (List.suffix_cons token ahead)

/-- At least one token is taken. -/
theorem Begins.length_lt {starts : Kind → Bool} {tokens rest : List Token}
    (h : Begins starts tokens rest) : rest.length < tokens.length := by
  obtain ⟨token, ahead, rfl, -, hsuffix⟩ := h
  exact Nat.lt_succ_of_le hsuffix.length_le

/-- A shorter rest is an end of the same tokens. -/
theorem Begins.trans {starts : Kind → Bool} {tokens middle rest : List Token}
    (h : Begins starts tokens middle) (hrest : rest <:+ middle) : Begins starts tokens rest := by
  obtain ⟨token, ahead, heq, hstart, hsuffix⟩ := h
  exact ⟨token, ahead, heq, hstart, hrest.trans hsuffix⟩

/-- What begins with `token` begins at it. -/
theorem Begins.intro {starts : Kind → Bool} {token : Token} {ahead rest : List Token} {kind : Kind}
    (hkind : token.kind = kind) (hstart : starts kind = true) (hsuffix : rest <:+ ahead) :
    Begins starts (token :: ahead) rest :=
  ⟨token, ahead, rfl, hkind ▸ hstart, hsuffix⟩

/-- The tokens after the first one are an end of a list with more in front. -/
theorem suffix_of_cons_suffix {token : Token} {rest tokens : List Token}
    (h : token :: rest <:+ tokens) : rest <:+ tokens :=
  (List.suffix_cons token rest).trans h

/-- Parameters end at an end of the tokens. -/
theorem ParametersFrom.suffix {tokens rest parameters} (h : ParametersFrom tokens rest parameters) :
    rest <:+ tokens := by
  induction h with
  | @last name closing rest _ _ => exact ⟨[name, closing], rfl⟩
  | @more name comma tokens rest parameters _ _ _ ih => exact ih.trans ⟨[name, comma], rfl⟩

/-- Parameters end at an end of the tokens. -/
theorem Parameters.suffix {tokens rest parameters} (h : Parameters tokens rest parameters) :
    rest <:+ tokens := by
  cases h with
  | none _ => exact List.suffix_cons _ _
  | some hfrom => exact hfrom.suffix

variable {mode : Mode}

mutual

/-- An expression begins with a token that begins one, and ends at an end of the tokens. -/
theorem Expression.begins {level tokens rest node} :
    Expression mode level tokens rest node → Begins startsExpression tokens rest
  | .tighter h => h.begins
  | .binary _ hleft hright =>
    hleft.begins.trans (hright.begins.suffix.trans (List.suffix_cons _ _))
  | .unary hkind hright => by
    rcases hkind with hkind | hkind
    · exact Begins.intro hkind rfl hright.begins.suffix
    · exact Begins.intro hkind rfl hright.begins.suffix
  | .call _ hcallee harguments =>
    hcallee.begins.trans (harguments.suffix.trans (List.suffix_cons _ _))
  | .primary h => h.begins

/-- A primary expression begins with a token that begins an expression. -/
theorem Primary.begins {tokens rest node} :
    Primary mode tokens rest node → Begins startsExpression tokens rest
  | .identifier hkind | .true hkind | .false hkind | .integer hkind _ =>
    Begins.intro hkind rfl (List.suffix_refl _)
  | .grouped hkind _ hinner =>
    Begins.intro hkind rfl (suffix_of_cons_suffix hinner.begins.suffix)
  | .choice hkind _ _ hcondition hconsequence =>
    Begins.intro hkind rfl (hconsequence.suffix.trans
      ((suffix_of_cons_suffix hcondition.begins.suffix).trans (List.suffix_cons _ _)))
  | .choiceElse hkind _ _ _ hcondition hconsequence halternative =>
    Begins.intro hkind rfl (halternative.suffix.trans
      ((suffix_of_cons_suffix hconsequence.suffix).trans
        ((suffix_of_cons_suffix hcondition.begins.suffix).trans (List.suffix_cons _ _))))
  | .function hkind _ hparameters hbody =>
    Begins.intro hkind rfl
      (hbody.suffix.trans (hparameters.suffix.trans (List.suffix_cons _ _)))

/-- Arguments end at an end of the tokens. -/
theorem Arguments.suffix {tokens rest arguments} :
    Arguments mode tokens rest arguments → rest <:+ tokens
  | .none _ => List.suffix_cons _ _
  | .some h => h.suffix

/-- Arguments end at an end of the tokens. -/
theorem ArgumentsFrom.suffix {tokens rest arguments} :
    ArgumentsFrom mode tokens rest arguments → rest <:+ tokens
  | .last _ hargument => suffix_of_cons_suffix hargument.begins.suffix
  | .more _ hargument hmore =>
    hmore.suffix.trans (suffix_of_cons_suffix hargument.begins.suffix)

/-- A statement begins with a token that begins one, and ends at an end of the tokens. -/
theorem Statement.begins {tokens rest node} :
    Statement mode tokens rest node → Begins startsStatement tokens rest
  | .letStatement hkind _ _ hvalue =>
    Begins.intro hkind rfl (hvalue.begins.suffix.trans ⟨[_, _], rfl⟩)
  | .returnStatement hkind hvalue => Begins.intro hkind rfl hvalue.begins.suffix
  | .expressionStatement hvalue => by
    obtain ⟨token, ahead, heq, hstart, hsuffix⟩ := hvalue.begins
    exact ⟨token, ahead, heq, by simp [startsStatement, hstart], hsuffix⟩

/-- A sequence of statements ends at an end of the tokens. -/
theorem Body.suffix {tokens rest statements} :
    Body mode tokens rest statements → rest <:+ tokens
  | .nil => List.suffix_refl _
  | .skip _ h => h.suffix.trans (List.suffix_cons _ _)
  | .cons _ hstatement h => h.suffix.trans hstatement.begins.suffix

/-- A block ends at an end of the tokens. -/
theorem Block.suffix {tokens rest node} : Block mode tokens rest node → rest <:+ tokens
  | .closed _ _ h => (suffix_of_cons_suffix h.suffix).trans (List.suffix_cons _ _)
  | .unclosed _ _ _ => List.nil_suffix

end

/-- A block is read as one. -/
theorem Block.hasBlock {tokens rest node} (h : Block mode tokens rest node) :
    node.hasBlock = true := by
  cases h <;> rfl

/-- An expression of a tighter level is one of every looser level. -/
theorem Expression.loosen {loose tight : Precedence} {tokens rest node}
    (h : Expression mode tight tokens rest node) (hrank : loose.rank ≤ tight.rank) :
    Expression mode loose tokens rest node := by
  have hstep : ∀ distance level, level.rank + distance = tight.rank →
      Expression mode level tokens rest node := by
    intro distance
    induction distance with
    | zero =>
      intro level heq
      exact Precedence.rank_inj.mp heq ▸ h
    | succ distance ih =>
      intro level heq
      have hbound := tight.rank_le
      have hnext : level.tighter.rank = level.rank + 1 := Precedence.rank_tighter (by omega)
      exact .tighter (ih level.tighter (by omega))
  exact hstep (tight.rank - loose.rank) loose (by omega)

/-- In the lenient grammar tokens may be passed over before a sequence of statements. -/
theorem Body.of_suffix {rest middle after : List Token} {statements : List Node}
    (h : Body .lenient rest after statements) (hsuffix : rest <:+ middle) :
    Body .lenient middle after statements := by
  obtain ⟨passed, rfl⟩ := hsuffix
  induction passed with
  | nil => exact h
  | cons token passed ih => exact .skip (fun hmode => nomatch hmode) ih

end Phrase

end ExprLang
