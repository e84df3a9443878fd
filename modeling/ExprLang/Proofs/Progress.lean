import ExprLang.Parser.Call
import ExprLang.Proofs.Completeness

/-!
# Every rule comes to an end

From wherever a parser stands, a rule moves on through the tokens and never back, and it is
exhausted only if a limit is no greater than the number of tokens. Each statement that is begun on
the way takes a token of its own, so the statements begun and the tokens ahead never grow together.

A rule is judged from the tokens it faces or, if it begins with the token under examination, from
the tokens it stands at. What a rule does is put together from what its parts do; only the loops
need an induction, in which every round takes a token at least.
-/

namespace ExprLang

open Outcome

variable {σ α β : Type} [LawfulSource σ]

/-- The parser faces some end of `ahead`, and every statement begun since there were `begun` took a
token of its own. -/
def Parser.Onward (ahead : List Token) (begun : Nat) (parser : Parser σ) : Prop :=
  ∃ rest, parser.Faces rest ∧ rest <:+ ahead ∧ parser.begun + rest.length ≤ begun + ahead.length

/-- What is onward from further on is onward from before. -/
theorem Parser.Onward.mono {ahead middle : List Token} {begun begun' : Nat} {parser : Parser σ}
    (h : parser.Onward middle begun') (hmiddle : middle <:+ ahead)
    (hbegun : begun' + middle.length ≤ begun + ahead.length) : parser.Onward ahead begun := by
  obtain ⟨rest, hfaces, hrest, hcount⟩ := h
  exact ⟨rest, hfaces, hrest.trans hmiddle, Nat.le_trans hcount hbegun⟩

/-- A rule ends onward, however it ends, and is exhausted only if `cut` holds. -/
def Outcome.Proceeds (cut : Prop) (ahead : List Token) (begun : Nat) : Outcome σ α → Prop :=
  Meets cut (Parser.Onward ahead begun) fun _ => Parser.Onward ahead begun

/-- What proceeds from further on proceeds from before. -/
theorem Outcome.Proceeds.mono {cut : Prop} {ahead middle : List Token} {begun begun' : Nat}
    {outcome : Outcome σ α} (h : outcome.Proceeds cut middle begun') (hmiddle : middle <:+ ahead)
    (hbegun : begun' + middle.length ≤ begun + ahead.length) :
    outcome.Proceeds cut ahead begun :=
  Meets.mono h id (fun _ hfault => hfault.mono hmiddle hbegun)
    fun _ _ hpost => hpost.mono hmiddle hbegun

namespace Rule

variable {cut : Prop} {size : Nat}

/-- From wherever at most `size` tokens are faced, the rule proceeds. -/
def Advances (cut : Prop) (size : Nat) (rule : Rule σ α) : Prop :=
  ∀ (parser : Parser σ) rest, parser.Faces rest → rest.length ≤ size →
    (rule parser).Proceeds cut rest parser.begun

/-- From wherever a parser stands at no more than `size` tokens, the rule proceeds. -/
def Enters (cut : Prop) (size : Nat) (rule : Rule σ α) : Prop :=
  ∀ (parser : Parser σ) tokens, parser.StandsAt tokens → tokens.length ≤ size →
    (rule parser).Proceeds cut tokens.tail parser.begun

/-- A rule that proceeds from the tokens it faces does so from those it stands at. -/
theorem Advances.enters {rule : Rule σ α} (h : rule.Advances cut size) : rule.Enters cut size := by
  intro parser tokens hstand hsize
  have hlength := (List.tail_suffix tokens).length_le
  exact h parser tokens.tail hstand.faces (Nat.le_trans hlength hsize)

/-- What proceeds from more tokens proceeds from fewer. -/
theorem Enters.mono {rule : Rule σ α} {fewer : Nat} (h : rule.Enters cut size)
    (hfewer : fewer ≤ size) : rule.Enters cut fewer :=
  fun parser tokens hstand htokens => h parser tokens hstand (Nat.le_trans htokens hfewer)

/-- After a rule that proceeded, another one goes on from the tokens it faces then. -/
theorem proceeds_bind {rule : Rule σ α} {next : α → Rule σ β} {parser : Parser σ}
    {ahead : List Token} {begun : Nat} (h : (rule parser).Proceeds cut ahead begun)
    (hsize : ahead.length ≤ size) (hnext : ∀ value, (next value).Advances cut size) :
    ((rule >>= next) parser).Proceeds cut ahead begun := by
  refine Meets.bind h fun value parser' hpost => ?_
  obtain ⟨rest, hfaces, hrest, hcount⟩ := hpost
  exact (hnext value parser' rest hfaces (Nat.le_trans hrest.length_le hsize)).mono hrest hcount

/-- Rules in sequence proceed if each of them does. -/
theorem Advances.bind {rule : Rule σ α} {next : α → Rule σ β} (h : rule.Advances cut size)
    (hnext : ∀ value, (next value).Advances cut size) : (rule >>= next).Advances cut size :=
  fun parser rest hfaces hsize => proceeds_bind (h parser rest hfaces hsize) hsize hnext

/-- Rules in sequence proceed if each of them does. -/
theorem Enters.bind {rule : Rule σ α} {next : α → Rule σ β} (h : rule.Enters cut size)
    (hnext : ∀ value, (next value).Advances cut size) : (rule >>= next).Enters cut size := by
  intro parser tokens hstand hsize
  have hlength := (List.tail_suffix tokens).length_le
  exact proceeds_bind (h parser tokens hstand hsize) (Nat.le_trans hlength hsize) hnext

/-- To yield a value is to stay. -/
theorem Advances.pure (value : α) : (Pure.pure value : Rule σ α).Advances cut size :=
  fun _ rest hfaces _ => ⟨rest, hfaces, List.suffix_refl rest, Nat.le_refl _⟩

/-- To look at a token is to stay. -/
theorem Advances.current : (Rule.current : Rule σ Token).Advances cut size :=
  fun _ rest hfaces _ => ⟨rest, hfaces, List.suffix_refl rest, Nat.le_refl _⟩

/-- To look at the next token is to stay. -/
theorem Advances.peek : (Rule.peek : Rule σ Token).Advances cut size :=
  fun _ rest hfaces _ => ⟨rest, hfaces, List.suffix_refl rest, Nat.le_refl _⟩

/-- To report a fault is to stay. -/
theorem Advances.fail (fault : Diagnostic) : (Rule.fail fault : Rule σ α).Advances cut size :=
  fun _ rest hfaces _ => ⟨rest, hfaces.report fault, List.suffix_refl rest, Nat.le_refl _⟩

/-- To move on drops a token. -/
theorem onward_advance {parser : Parser σ} {rest : List Token} (hfaces : parser.Faces rest) :
    parser.advance.Onward rest parser.begun := by
  refine ⟨rest.tail, hfaces.advance.faces, List.tail_suffix rest, ?_⟩
  exact Nat.add_le_add_left (List.tail_suffix rest).length_le parser.begun

/-- To move on proceeds. -/
theorem Advances.advance : (Rule.advance : Rule σ Unit).Advances cut size :=
  fun _ _ hfaces _ => onward_advance hfaces

/-- To expect a token proceeds, be it there or not. -/
theorem Advances.expect (kind : Kind) : (Rule.expect kind : Rule σ Unit).Advances cut size := by
  intro parser rest hfaces _
  by_cases hkind : parser.peek.kind = kind
  · rw [expect_of_eq hkind]
    exact onward_advance hfaces
  · rw [expect_of_ne hkind]
    exact ⟨rest, hfaces.report _, List.suffix_refl rest, Nat.le_refl _⟩

/-- To accept a token proceeds, be it there or not. -/
theorem Advances.accept (kind : Kind) : (Rule.accept kind : Rule σ Unit).Advances cut size := by
  intro parser rest hfaces _
  unfold Rule.accept
  by_cases hkind : parser.peek.kind = kind
  · rw [if_pos hkind]
    exact onward_advance hfaces
  · rw [if_neg hkind]
    exact ⟨rest, hfaces, List.suffix_refl rest, Nat.le_refl _⟩

/-- After moving on, a rule begins with the token that was faced first. -/
theorem Enters.advance {next : Rule σ β} (h : next.Enters cut size) :
    (Rule.advance >>= fun _ => next).Advances cut size := by
  intro parser rest hfaces hsize
  refine (h parser.advance rest hfaces.advance hsize).mono (List.tail_suffix rest) ?_
  exact Nat.add_le_add_left (List.tail_suffix rest).length_le parser.begun

/-- What goes on after a token that is there goes on from fewer tokens. -/
theorem proceeds_take {next : Rule σ β} {parser : Parser σ} {rest : List Token}
    (hfaces : parser.Faces rest) (hproper : parser.peek.kind ≠ .eof)
    (hsize : rest.length ≤ size) (h : ∀ fewer, fewer < size → next.Advances cut fewer) :
    ((Rule.advance >>= fun _ => next) parser).Proceeds cut rest parser.begun := by
  rw [hfaces.peek_kind] at hproper
  obtain ⟨token, tail, rfl, -⟩ := exists_cons_of_headKind rfl hproper
  rw [List.length_cons] at hsize
  have hnext := h tail.length hsize parser.advance tail hfaces.advance.faces (Nat.le_refl _)
  refine hnext.mono (List.suffix_cons token tail) ?_
  rw [List.length_cons]
  exact Nat.le_succ _

/-- A loop that goes on after a token of a certain kind, and ends otherwise. -/
theorem Advances.take {kind : Kind} (hproper : kind ≠ .eof) {next other : Rule σ β}
    (hnext : ∀ fewer, fewer < size → next.Advances cut fewer) (hother : other.Advances cut size) :
    (Rule.peek >>= fun token =>
      if token.kind = kind then Rule.advance >>= fun _ => next else other).Advances cut size := by
  intro parser rest hfaces hsize
  rw [peek_bind_apply]
  by_cases hkind : parser.peek.kind = kind
  · rw [if_pos hkind]
    exact proceeds_take hfaces (hkind ▸ hproper) hsize hnext
  · rw [if_neg hkind]
    exact hother parser rest hfaces hsize

end Rule

namespace Grammar

open Rule

variable {cut : Prop} {size steps rounds : Nat} {nested : Int → Rule σ Node}

/-- Names proceed. -/
theorem identifier_advances : (identifier : Rule σ Node).Advances cut size :=
  Advances.current.bind fun _ => .pure _

/-- Integers proceed. -/
theorem integer_advances : (integer : Rule σ Node).Advances cut size := by
  refine Advances.current.bind fun token => ?_
  dsimp only
  split
  · exact .pure _
  · exact .fail _

/-- Truth values proceed. -/
theorem boolean_advances : (boolean : Rule σ Node).Advances cut size :=
  Advances.current.bind fun _ => .pure _

/-- The rest of a list of parameters proceeds. -/
theorem parametersFrom_advances (hrounds : size < rounds ∨ cut) (read : Array Node) :
    (parametersFrom rounds read : Rule σ (List Node)).Advances cut size := by
  induction rounds generalizing size read with
  | zero => exact fun _ _ _ _ => hrounds.resolve_left (Nat.not_lt_zero size)
  | succ rounds ih =>
    refine Advances.take (by decide) (fun fewer hfewer => ?_)
      ((Advances.expect _).bind fun _ => .pure _)
    have hrounds' : fewer < rounds ∨ cut := hrounds.imp_left (by omega)
    exact (Advances.expect _).bind fun _ => identifier_advances.bind fun parameter =>
      ih hrounds' (read.push parameter)

/-- Parameters proceed. -/
theorem parameters_advances (hsteps : size < steps ∨ cut) :
    (parameters steps : Rule σ (List Node)).Advances cut size := by
  refine Advances.peek.bind fun _ => ?_
  split
  · exact Advances.advance.bind fun _ => .pure _
  · exact (Advances.expect _).bind fun _ => identifier_advances.bind fun parameter =>
      parametersFrom_advances hsteps #[parameter]

section Nested

variable (hnested : ∀ floor, (nested floor).Enters cut size) (hsteps : size < steps ∨ cut)

include hnested

/-- The end of a statement proceeds. -/
theorem enters_accept (floor : Int) (form : Node → Node) :
    (do let value ← nested floor; accept .semicolon; return form value :
      Rule σ Node).Enters cut size :=
  (hnested floor).bind fun _ => (Advances.accept _).bind fun _ => .pure _

/-- Statements with `let` proceed. -/
theorem letStatement_advances : (letStatement nested).Advances cut size :=
  (Advances.expect _).bind fun _ => identifier_advances.bind fun name =>
    (Advances.expect _).bind fun _ => (enters_accept hnested _ (.letStatement name)).advance

/-- Statements with `return` proceed. -/
theorem returnStatement_advances : (returnStatement nested).Advances cut size :=
  (enters_accept hnested _ .returnStatement).advance

/-- Statements that are expressions proceed. -/
theorem expressionStatement_enters : (expressionStatement nested).Enters cut size :=
  enters_accept hnested _ .expressionStatement

/-- Statements proceed once they are begun. -/
theorem statement_proceeds {parser : Parser σ} {tokens : List Token}
    (hstand : parser.StandsAt tokens) (htokens : tokens.length ≤ size) :
    (statement nested parser).Proceeds cut tokens.tail (parser.begun + 1) := by
  have hbegun := hstand.beginStatement
  unfold statement
  dsimp only
  split
  · exact (letStatement_advances hnested).enters _ tokens hbegun htokens
  · exact (returnStatement_advances hnested).enters _ tokens hbegun htokens
  · exact expressionStatement_enters hnested _ tokens hbegun htokens

/-- Sequences of statements proceed up to a token that closes them. Each round takes a token at
least, and the statement begun in it has that token for its own. -/
theorem statementsUntil_meets_onward {closes : Kind → Bool} (hcloses : closes .eof = true)
    {fault : Parser σ → Prop} (read : Array Node) {parser : Parser σ} {tokens : List Token}
    (hstand : parser.StandsAt tokens) (htokens : tokens.length ≤ size)
    (hrounds : tokens.length < rounds ∨ cut) :
    (statementsUntil nested closes rounds read parser).Meets cut fault fun _ last =>
      ∃ rest, last.StandsAt rest ∧ rest <:+ tokens ∧ closes (headKind rest) = true ∧
        last.begun + rest.length ≤ parser.begun + tokens.length := by
  induction rounds generalizing read tokens parser with
  | zero => exact hrounds.resolve_left (Nat.not_lt_zero _)
  | succ rounds ih =>
    rw [statementsUntil, current_bind_apply]
    by_cases hclose : closes parser.current.kind = true
    · rw [if_pos hclose]
      exact ⟨tokens, hstand, List.suffix_refl tokens, hstand.current_kind ▸ hclose, Nat.le_refl _⟩
    · rw [if_neg hclose]
      -- the end closes every sequence, so there is a token to take
      cases tokens with
      | nil => exact absurd (by rw [hstand.current_kind]; exact hcloses) hclose
      | cons token tail =>
        have hstatement := statement_proceeds hnested hstand htokens
        refine Meets.bind (Meets.attempt hstatement) fun found after hafter => ?_
        have honward : after.Onward tail (parser.begun + 1) := by
          cases found with
          | none => exact hafter
          | some _ => exact hafter
        obtain ⟨rest, hfaces, hrest, hcount⟩ := honward
        have hlength := hrest.length_le
        simp only [List.length_cons] at htokens hrounds
        have hshorter : rest.length < rounds ∨ cut := hrounds.imp_left (by omega)
        rw [advance_bind_apply]
        have hround : ∀ read, (statementsUntil nested closes rounds read after.advance).Meets cut
            fault fun _ last => ∃ rest, last.StandsAt rest ∧ rest <:+ token :: tail ∧
              closes (headKind rest) = true ∧
                last.begun + rest.length ≤ parser.begun + (token :: tail).length := by
          intro read
          refine (ih read hfaces.advance (by omega) hshorter).mono id (fun _ h => h) ?_
          intro _ last hlast
          obtain ⟨rest', hstand', hrest', hclosed, hcount'⟩ := hlast
          refine ⟨rest', hstand', hrest'.trans (hrest.trans (List.suffix_cons token tail)),
            hclosed, Nat.le_trans hcount' ?_⟩
          rw [List.length_cons]
          change after.begun + rest.length ≤ _
          omega
        cases found with
        | none => exact hround read
        | some node => exact hround (read.push node)

include hsteps

/-- Blocks proceed. -/
theorem block_advances : (block steps nested).Advances cut size := by
  intro parser rest hfaces hsize
  rw [block, advance_bind_apply]
  have hrounds : rest.length < steps ∨ cut := hsteps.imp_left (Nat.lt_of_le_of_lt hsize)
  refine Meets.bind (statementsUntil_meets_onward hnested rfl #[] hfaces.advance hsize hrounds) ?_
  intro _ last hlast
  obtain ⟨after, hstand, hafter, -, hcount⟩ := hlast
  have hlength := (List.tail_suffix after).length_le
  refine ⟨after.tail, hstand.faces, (List.tail_suffix after).trans hafter, ?_⟩
  exact Nat.le_trans (Nat.add_le_add_left hlength last.begun) hcount

/-- Programs end at the end of the tokens, and each statement begun on the way took one of them. -/
theorem program_meets_onward {parser : Parser σ} {tokens : List Token}
    (hstand : parser.StandsAt tokens) (hsize : tokens.length ≤ size) :
    (program steps nested parser).Meets cut (fun _ => False) fun node last =>
      (∃ statements, node = .program statements) ∧ last.StandsAt [] ∧
        last.begun ≤ parser.begun + tokens.length := by
  have hrounds : tokens.length < steps ∨ cut := hsteps.imp_left (Nat.lt_of_le_of_lt hsize)
  refine Meets.bind (statementsUntil_meets_onward hnested rfl #[] hstand hsize hrounds) ?_
  intro statements last hlast
  obtain ⟨rest, hrest, -, hclosed, hcount⟩ := hlast
  obtain rfl := hrest.eq_nil (eq_of_beq hclosed)
  exact ⟨⟨statements, rfl⟩, hrest, hcount⟩

omit hsteps in
/-- Expressions in parentheses proceed. -/
theorem grouped_advances : (grouped nested).Advances cut size :=
  ((hnested _).bind fun _ => (Advances.expect _).bind fun _ => .pure _).advance

omit hsteps in
/-- Operators with their operands proceed. -/
theorem unary_advances : (unary nested).Advances cut size :=
  Advances.current.bind fun _ => ((hnested _).bind fun _ => .pure _).advance

omit hsteps in
/-- Operators with their right operands proceed. -/
theorem binary_advances (left : Node) : (binary nested left).Advances cut size :=
  Advances.current.bind fun _ => ((hnested _).bind fun _ => .pure _).advance

/-- Choices proceed. -/
theorem conditional_advances : (conditional steps nested).Advances cut size := by
  have hblock := block_advances hnested hsteps
  refine (Advances.expect _).bind fun _ => ((hnested _).bind fun _ => (Advances.expect _).bind
    fun _ => (Advances.expect _).bind fun _ => hblock.bind fun _ => Advances.peek.bind
      fun _ => ?_).advance
  split
  · exact Advances.advance.bind fun _ => (Advances.expect _).bind fun _ => hblock.bind fun _ =>
      .pure _
  · exact .pure _

/-- Functions proceed. -/
theorem function_advances : (function steps nested).Advances cut size :=
  (Advances.expect _).bind fun _ => (parameters_advances hsteps).bind fun _ =>
    (Advances.expect _).bind fun _ => (block_advances hnested hsteps).bind fun _ => .pure _

omit hsteps in
/-- The rest of a list of arguments proceeds. -/
theorem argumentsFrom_advances (hrounds : size < rounds ∨ cut) (read : Array Node) :
    (argumentsFrom nested rounds read).Advances cut size := by
  induction rounds generalizing size read with
  | zero => exact fun _ _ _ _ => hrounds.resolve_left (Nat.not_lt_zero size)
  | succ rounds ih =>
    refine Advances.take (by decide) (fun fewer hfewer => ?_)
      ((Advances.expect _).bind fun _ => .pure _)
    have hnested' : ∀ floor, (nested floor).Enters cut fewer :=
      fun floor => (hnested floor).mono (Nat.le_of_lt hfewer)
    have hrounds' : fewer < rounds ∨ cut := hrounds.imp_left (by omega)
    exact ((hnested' _).bind fun argument => ih hnested' hrounds' (read.push argument)).advance

/-- Arguments proceed. -/
theorem arguments_advances : (arguments steps nested).Advances cut size := by
  refine Advances.peek.bind fun _ => ?_
  split
  · exact Advances.advance.bind fun _ => .pure _
  · exact ((hnested _).bind fun argument =>
      argumentsFrom_advances hnested hsteps #[argument]).advance

/-- Calls proceed. -/
theorem call_advances (callee : Node) : (call steps nested callee).Advances cut size :=
  (arguments_advances hnested hsteps).bind fun _ => .pure _

/-- Operators and calls proceed. Each round takes the token that it begins with. -/
theorem climb_advances (hrounds : size < rounds ∨ cut) (floor : Int) (left : Node) :
    (climb steps nested floor rounds left).Advances cut size := by
  induction rounds generalizing size left with
  | zero => exact fun _ _ _ _ => hrounds.resolve_left (Nat.not_lt_zero size)
  | succ rounds ih =>
    intro parser rest hfaces hsize
    rw [climb, peek_bind_apply]
    have hstay : (Outcome.done left parser).Proceeds cut rest parser.begun :=
      Advances.pure left parser rest hfaces hsize
    have hround : ∀ fewer, fewer < size → (∀ floor, (nested floor).Enters cut fewer) ∧
        (fewer < steps ∨ cut) ∧ (fewer < rounds ∨ cut) := fun fewer hfewer =>
      ⟨fun floor => (hnested floor).mono (Nat.le_of_lt hfewer), hsteps.imp_left (by omega),
        hrounds.imp_left (by omega)⟩
    split
    · exact hstay
    · split
      · rename_i hbinary
        refine proceeds_take hfaces ?_ hsize fun fewer hfewer => ?_
        · exact fun hend => absurd (hend ▸ hbinary) (by decide)
        · obtain ⟨hnested', hsteps', hrounds'⟩ := hround fewer hfewer
          exact (binary_advances hnested' left).bind fun left => ih hnested' hsteps' hrounds' left
      · split
        · rename_i hparen
          refine proceeds_take hfaces ?_ hsize fun fewer hfewer => ?_
          · exact fun hend => absurd (hend ▸ hparen) (by decide)
          · obtain ⟨hnested', hsteps', hrounds'⟩ := hround fewer hfewer
            exact (call_advances hnested' hsteps' left).bind fun left =>
              ih hnested' hsteps' hrounds' left
        · exact hstay

end Nested

/-- Operands proceed. An operand begins with a token, so the expressions within it have fewer. -/
theorem operand_enters
    (hnested : ∀ fewer, fewer < size → ∀ floor, (nested floor).Enters cut fewer)
    (hsteps : size < steps ∨ cut) : (operand steps nested).Enters cut size := by
  intro parser tokens hstand hsize
  cases tokens with
  | nil =>
    have hrefused : Phrase.startsExpression parser.current.kind = false := by
      rw [hstand.current_kind]
      rfl
    rw [operand_refuses hrefused]
    exact ⟨[], hstand.faces, List.suffix_refl [], Nat.le_refl _⟩
  | cons token ahead =>
    rw [List.length_cons] at hsize
    have hinner := hnested ahead.length hsize
    have hsteps' : ahead.length < steps ∨ cut := hsteps.imp_left (by omega)
    have hfrom {rule : Rule σ Node} (h : rule.Advances cut ahead.length) :
        (rule parser).Proceeds cut ahead parser.begun := h parser ahead hstand.faces (Nat.le_refl _)
    unfold operand
    split
    · exact hfrom identifier_advances
    · exact hfrom integer_advances
    · exact hfrom boolean_advances
    · exact hfrom boolean_advances
    · exact hfrom (unary_advances hinner)
    · exact hfrom (unary_advances hinner)
    · exact hfrom (grouped_advances hinner)
    · exact hfrom (conditional_advances hinner hsteps')
    · exact hfrom (function_advances hinner hsteps')
    · exact ⟨ahead, hstand.faces, List.suffix_refl ahead, Nat.le_refl _⟩

/-- Expressions proceed. Each level of nesting begins with a token of its own. -/
theorem expressionWithin_enters {nesting : Nat} (hnesting : size < nesting ∨ cut)
    (hsteps : size < steps ∨ cut) (floor : Int) :
    (expressionWithin steps nesting floor : Rule σ Node).Enters cut size := by
  induction nesting generalizing size floor with
  | zero => exact fun _ _ _ _ => hnesting.resolve_left (Nat.not_lt_zero size)
  | succ nesting ih =>
    have hnested : ∀ fewer, fewer < size → ∀ floor,
        (expressionWithin steps nesting floor : Rule σ Node).Enters cut fewer :=
      fun fewer hfewer => ih (hnesting.imp_left (by omega)) (hsteps.imp_left (by omega))
    intro parser tokens hstand hsize
    have hoperand := operand_enters hnested hsteps parser tokens hstand hsize
    cases tokens with
    | nil =>
      have hrefused : Phrase.startsExpression parser.current.kind = false := by
        rw [hstand.current_kind]
        rfl
      rw [expressionWithin, bind_apply, operand_refuses hrefused]
      exact ⟨[], hstand.faces, List.suffix_refl [], Nat.le_refl _⟩
    | cons token ahead =>
      rw [List.length_cons] at hsize
      have hsteps' : ahead.length < steps ∨ cut := hsteps.imp_left (by omega)
      exact proceeds_bind hoperand (Nat.le_refl ahead.length) fun left =>
        climb_advances (hnested ahead.length hsize) hsteps' hsteps' floor left

/-- A program is read to the end of its tokens within limits that exceed their number. -/
theorem exists_program {nesting : Nat} {parser : Parser σ} {tokens : List Token}
    (hstand : parser.StandsAt tokens) (hsteps : tokens.length < steps)
    (hnesting : tokens.length < nesting) :
    ∃ statements last, program steps (expressionWithin steps nesting) parser =
      .done (.program statements) last ∧ last.StandsAt [] := by
  have hnested : ∀ floor, (expressionWithin steps nesting floor : Rule σ Node).Enters False
      tokens.length := expressionWithin_enters (.inl hnesting) (.inl hsteps)
  have hmeets := program_meets_onward hnested (.inl hsteps) hstand (Nat.le_refl _)
  cases houtcome : program steps (expressionWithin steps nesting) parser with
  | done node last =>
    rw [houtcome] at hmeets
    obtain ⟨⟨statements, rfl⟩, hend, -⟩ := hmeets
    exact ⟨statements, last, rfl, hend⟩
  | abandoned last =>
    rw [houtcome] at hmeets
    exact hmeets.elim
  | exhausted =>
    rw [houtcome] at hmeets
    exact hmeets.elim

end Grammar

omit [LawfulSource σ] in
/-- There is a reply for a rule that is not exhausted. -/
theorem Outcome.Meets.isSome_reply {fault : Parser σ → Prop} {post : α → Parser σ → Prop}
    {outcome : Outcome σ α} (h : outcome.Meets False fault post) (form : Option α → Reply) :
    (outcome.reply form).isSome = true := by
  cases outcome with
  | done value parser => rfl
  | abandoned parser => rfl
  | exhausted => exact h.elim

/-- Every step of a parser has a reply within limits that exceed the number of its tokens. -/
theorem Parser.isSome_perform {limits : Limits} {parser : Parser σ} {tokens : List Token}
    (hstand : parser.StandsAt tokens) (hnesting : tokens.length < limits.nesting)
    (hrounds : tokens.length < limits.rounds) (step : Call) :
    (parser.perform limits step).isSome = true := by
  have hsteps : tokens.length < limits.rounds ∨ False := .inl hrounds
  have hnested : ∀ floor, (limits.expression floor : Rule σ Node).Enters False tokens.length :=
    Grammar.expressionWithin_enters (.inl hnesting) hsteps
  have hreply {α : Type} {rule : Rule σ α} (h : rule.Enters False tokens.length)
      (form : Option α → Reply) : ((rule parser).reply form).isSome = true :=
    Meets.isSome_reply (h parser tokens hstand (Nat.le_refl _)) form
  cases step with
  | advance => rfl
  | currentIs kind => rfl
  | peekIs kind => rfl
  | expectPeek kind =>
    exact hreply (Rule.Advances.expect kind).enters fun found => .truth found.isSome
  | reportPeek kind => rfl
  | currentPrecedence => rfl
  | peekPrecedence => rfl
  | checkErrors =>
    rw [perform]
    split <;> rfl
  | program =>
    exact Meets.isSome_reply
      (Grammar.program_meets_onward hnested hsteps hstand (Nat.le_refl _)) _
  | block => exact hreply (Grammar.block_advances hnested hsteps).enters _
  | statement =>
    exact Meets.isSome_reply (Grammar.statement_proceeds hnested hstand (Nat.le_refl _)) _
  | letStatement => exact hreply (Grammar.letStatement_advances hnested).enters _
  | returnStatement => exact hreply (Grammar.returnStatement_advances hnested).enters _
  | expressionStatement => exact hreply (Grammar.expressionStatement_enters hnested) _
  | identifier => exact hreply Grammar.identifier_advances.enters _
  | integer => exact hreply Grammar.integer_advances.enters _
  | boolean => exact hreply Grammar.boolean_advances.enters _
  | unary => exact hreply (Grammar.unary_advances hnested).enters _
  | grouped => exact hreply (Grammar.grouped_advances hnested).enters _
  | conditional => exact hreply (Grammar.conditional_advances hnested hsteps).enters _
  | function => exact hreply (Grammar.function_advances hnested hsteps).enters _
  | parameters => exact hreply (Grammar.parameters_advances hsteps).enters _
  | arguments => exact hreply (Grammar.arguments_advances hnested hsteps).enters _
  | expression floor => exact hreply (hnested floor) _
  | binary left => exact hreply (Grammar.binary_advances hnested left).enters _
  | call callee => exact hreply (Grammar.call_advances hnested hsteps callee).enters _

end ExprLang
