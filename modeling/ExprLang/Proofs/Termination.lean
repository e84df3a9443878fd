import ExprLang.Proofs.Driving
import Mathlib.Logic.Relation

/-!
# Every step comes to an end

A parser may be started anywhere in a text and taken through any steps. Wherever that leads, every
further step comes to an end, and how it ends is decided by the tokens that are left: limits that
exceed their number neither cut the step short nor change its reply. Only the check for faults ever
rejects. A program that is read from there begins at most one statement for each token left, those
in blocks included.

The recursion is well-founded by the tokens left: each level of nesting and each round of a loop
takes one, which is what makes such limits suffice.
-/

namespace ExprLang

open Outcome

variable {σ α : Type}

/-! ## Replies and limits -/

/-- There is a reply if the rule is done or given up. -/
theorem Outcome.of_reply {outcome : Outcome σ α} {form : Option α → Reply} {reply : Reply}
    {last : Parser σ} (h : outcome.reply form = some (reply, last)) :
    (∃ value, outcome = .done value last ∧ reply = form (some value)) ∨
      outcome = .abandoned last ∧ reply = form none := by
  cases outcome with
  | done value _ =>
    obtain ⟨rfl, rfl⟩ := Prod.mk.inj (Option.some.inj h)
    exact .inl ⟨value, rfl, rfl⟩
  | abandoned _ =>
    obtain ⟨rfl, rfl⟩ := Prod.mk.inj (Option.some.inj h)
    exact .inr ⟨rfl, rfl⟩
  | exhausted => exact nomatch h

/-- A rule that is extended keeps its reply. -/
theorem Outcome.ExtendedBy.reply_eq [LawfulSource σ] {cut : Prop} {ahead : List Token}
    {outcome wide : Outcome σ α} (h : outcome.ExtendedBy cut ahead wide) (form : Option α → Reply)
    {result : Reply × Parser σ} (hreply : outcome.reply form = some result) :
    wide.reply form = some result := by
  cases h with
  | done _ _ => exact hreply
  | abandoned _ => exact hreply
  | exhausted => exact hreply
  | cut _ => exact nomatch hreply

namespace Parser

/-- A step that has a reply has the same one within all wider limits. -/
theorem perform_of_le [LawfulSource σ] {narrow wide : Limits} {parser : Parser σ}
    {tokens : List Token} {step : Call} {result : Reply × Parser σ}
    (h : parser.perform narrow step = some result) (hstand : parser.StandsAt tokens)
    (hnesting : narrow.nesting ≤ wide.nesting) (hrounds : narrow.rounds ≤ wide.rounds) :
    parser.perform wide step = some result := by
  have hsteps : tokens.length < narrow.rounds ∨ True := .inr trivial
  have hnested : ∀ floor, (narrow.expression floor : Rule σ Node).ExtendedBy True tokens.length
      (wide.expression floor) :=
    Grammar.expressionWithin_extended hrounds hsteps hnesting (.inr trivial)
  have hreply {α : Type} {rule wider : Rule σ α} {form : Option α → Reply}
      (hrule : rule.ExtendedBy True tokens.length wider)
      (h : (rule parser).reply form = some result) : (wider parser).reply form = some result :=
    (hrule parser tokens.tail hstand.faces (List.tail_suffix tokens).length_le).reply_eq form h
  cases step with
  | program =>
    exact (Grammar.program_extended hrounds hsteps hnesting (.inr trivial) hstand
      (Nat.le_refl _)).reply_eq _ h
  | block => exact hreply (Grammar.block_extended hnested hrounds hsteps) h
  | statement => exact hreply (Grammar.statement_extended hnested) h
  | letStatement => exact hreply (Grammar.letStatement_extended hnested) h
  | returnStatement => exact hreply (Grammar.returnStatement_extended hnested) h
  | expressionStatement => exact hreply (Grammar.expressionStatement_extended hnested) h
  | unary => exact hreply (Grammar.unary_extended hnested) h
  | grouped => exact hreply (Grammar.grouped_extended hnested) h
  | conditional => exact hreply (Grammar.conditional_extended hnested hrounds hsteps) h
  | function => exact hreply (Grammar.function_extended hnested hrounds hsteps) h
  | parameters => exact hreply (Grammar.parameters_extended hrounds hsteps) h
  | arguments => exact hreply (Grammar.arguments_extended hnested hrounds hsteps) h
  | expression floor => exact hreply (hnested floor) h
  | binary left => exact hreply (Grammar.binary_extended hnested left) h
  | call callee => exact hreply (Grammar.call_extended hnested hrounds hsteps callee) h
  | _ => exact h

/-- Within all limits that exceed the number of the tokens `left`, the step has the reply `reply`
and leads to `last`. -/
def Ends [TokenSource σ] (parser : Parser σ) (left : List Token) (step : Call) (reply : Reply)
    (last : Parser σ) : Prop :=
  ∀ limits : Limits, left.length < limits.nesting → left.length < limits.rounds →
    parser.perform limits step = some (reply, last)

/-- A step that comes to an end does so within limits that are just wide enough. -/
theorem Ends.perform [TokenSource σ] {parser last : Parser σ} {left : List Token} {step : Call}
    {reply : Reply} (h : parser.Ends left step reply last) :
    parser.perform ⟨left.length + 1, left.length + 1⟩ step = some (reply, last) :=
  h _ (Nat.lt_succ_self _) (Nat.lt_succ_self _)

/-- Every step comes to an end. -/
theorem StandsAt.exists_ends [LawfulSource σ] {parser : Parser σ} {tokens : List Token}
    (hstand : parser.StandsAt tokens) (step : Call) :
    ∃ reply last, parser.Ends tokens step reply last := by
  have hsome : (parser.perform ⟨tokens.length + 1, tokens.length + 1⟩ step).isSome = true :=
    isSome_perform hstand (Nat.lt_succ_self _) (Nat.lt_succ_self _) step
  obtain ⟨⟨reply, last⟩, hperform⟩ := Option.isSome_iff_exists.mp hsome
  exact ⟨reply, last, fun _ hnesting hrounds => perform_of_le hperform hstand hnesting hrounds⟩

/-- A step that has a reply within some limits comes to an end with that reply. -/
theorem StandsAt.ends_of_perform [LawfulSource σ] {parser last : Parser σ} {tokens : List Token}
    {narrow : Limits} {step : Call} {reply : Reply} (hstand : parser.StandsAt tokens)
    (h : parser.perform narrow step = some (reply, last)) :
    parser.Ends tokens step reply last := by
  obtain ⟨reply', last', hends⟩ := hstand.exists_ends step
  let wide : Limits :=
    ⟨max narrow.nesting (tokens.length + 1), max narrow.rounds (tokens.length + 1)⟩
  have hwide : parser.perform wide step = some (reply', last') :=
    hends wide (Nat.le_max_right ..) (Nat.le_max_right ..)
  have hnarrow : parser.perform wide step = some (reply, last) :=
    perform_of_le h hstand (Nat.le_max_left ..) (Nat.le_max_left ..)
  obtain ⟨rfl, rfl⟩ := Prod.mk.inj (Option.some.inj (hwide.symm.trans hnarrow))
  exact hends

/-- Only the check for faults rejects. -/
theorem eq_checkErrors_of_rejected [TokenSource σ] {limits : Limits} {parser last : Parser σ}
    {step : Call} {errors : List Diagnostic}
    (h : parser.perform limits step = some (.rejected errors, last)) : step = .checkErrors := by
  have hform {α : Type} {outcome : Outcome σ α} {form : Option α → Reply}
      (h : outcome.reply form = some (.rejected errors, last)) :
      ∃ found, form found = .rejected errors := by
    rcases Outcome.of_reply h with ⟨value, -, hreply⟩ | ⟨-, hreply⟩
    · exact ⟨some value, hreply.symm⟩
    · exact ⟨none, hreply.symm⟩
  unfold perform at h
  cases step with
  | checkErrors => rfl
  | advance | currentIs | peekIs | reportPeek | currentPrecedence | peekPrecedence =>
    exact nomatch h
  | _ =>
    obtain ⟨_, hfound⟩ := hform h
    exact nomatch hfound

/-- A program that is read from wherever a parser stands is read to the end of the tokens, and each
statement that is begun on the way takes a token of its own. -/
theorem StandsAt.exists_program_ends [LawfulSource σ] {parser : Parser σ} {tokens : List Token}
    (hstand : parser.StandsAt tokens) :
    ∃ statements last, parser.Ends tokens .program (.node (some (.program statements))) last ∧
      last.StandsAt [] ∧ last.begun ≤ parser.begun + tokens.length := by
  have hlimit : tokens.length < tokens.length + 1 := Nat.lt_succ_self _
  obtain ⟨statements, last, hdone, hend⟩ := Grammar.exists_program hstand hlimit hlimit
  have hread : parser.perform ⟨tokens.length + 1, tokens.length + 1⟩ .program =
      some (.node (some (.program statements)), last) := congrArg (Outcome.reply .node) hdone
  have hmeets : (Grammar.program (tokens.length + 1)
      (Grammar.expressionWithin (tokens.length + 1) (tokens.length + 1)) parser).Meets False _ _ :=
    Grammar.program_meets_onward (Grammar.expressionWithin_enters (.inl hlimit) (.inl hlimit))
      (.inl hlimit) hstand (Nat.le_refl _)
  rw [hdone] at hmeets
  exact ⟨statements, last,
    fun _ hnesting hrounds => perform_of_le hread hstand hnesting hrounds, hend, hmeets.2.2⟩

/-- Some step leads from the one parser to the other. -/
def StepsTo [TokenSource σ] (parser last : Parser σ) : Prop :=
  ∃ limits step reply, parser.perform limits step = some (reply, last)

/-- Steps in any number and any order lead from the one parser to the other. -/
def LeadsTo [TokenSource σ] : Parser σ → Parser σ → Prop :=
  Relation.ReflTransGen StepsTo

/-- Wherever steps lead, the parser stands at an end of the tokens at which it stood. -/
theorem StandsAt.exists_of_leadsTo [LawfulSource σ] {first parser : Parser σ} {tokens : List Token}
    (hstand : first.StandsAt tokens) (h : first.LeadsTo parser) :
    ∃ left, left <:+ tokens ∧ parser.StandsAt left := by
  have hreaches : parser.Reaches tokens 0 := by
    induction h with
    | refl => exact ⟨0, Nat.le_refl 0, hstand⟩
    | tail _ hstep ih =>
      obtain ⟨_, _, _, hperform⟩ := hstep
      exact (reaches_kept tokens 0).perform ih hperform
  obtain ⟨next, -, hnext⟩ := hreaches
  exact ⟨tokens.drop next, List.drop_suffix next tokens, hnext⟩

end Parser

/-! ## Where a text is begun -/

namespace Reader

/-- The reader at the start of the text, if its position is before it. -/
def fromStart (reader : Reader) : Reader :=
  ⟨reader.source, reader.position.toNat⟩

/-- What is ahead of a reader that is not before the start of the text. -/
theorem ahead_fromStart (reader : Reader) :
    reader.fromStart.ahead = reader.source.drop reader.position.toNat := by
  have hposition : ¬ reader.fromStart.position < 0 := Int.not_lt.mpr (Int.natCast_nonneg _)
  rw [ahead, if_neg hposition]
  rfl

variable {reader : Reader} (h : -(reader.source.length : Int) ≤ reader.position)

include h

/-- A gap that is skipped from before the start of the text reaches the start. -/
theorem skipGap_fromStart : reader.fromStart.skipGap = reader.skipGap := by
  by_cases hposition : reader.position < 0
  · have hstart : reader.fromStart = ⟨reader.source, 0⟩ := by
      rw [fromStart, Int.toNat_of_nonpos (Int.le_of_lt hposition)]
      rfl
    have hreach : ¬ reader.position + reader.source.length < 0 := by omega
    rw [hstart, skipGap_eq (Int.le_refl 0), skipGap, if_pos hposition, if_neg hreach]
  · rw [fromStart, Int.toNat_of_nonneg (Int.not_lt.mp hposition)]

/-- A reader before the start of the text hands out the tokens of the whole text. -/
theorem handsOut_of_neg_length_le :
    reader.HandsOut (tokenize (reader.source.drop reader.position.toNat)) := by
  have hnext : reader.fromStart.nextToken = reader.nextToken := by
    rw [nextToken, nextToken, skipGap_fromStart h]
  have hstart : reader.fromStart.HandsOut (tokenize reader.fromStart.ahead) :=
    handsOut_tokenize (Int.natCast_nonneg _)
  rw [← ahead_fromStart]
  generalize tokenize reader.fromStart.ahead = tokens at hstart ⊢
  cases hstart with
  | nil hend => exact .nil (hnext ▸ hend)
  | cons htoken hproper hrest => exact .cons (hnext ▸ htoken) hproper hrest

end Reader

/-- A parser may be started at any place of a text, and before its start as far as the text is
long. -/
theorem ofReader_standsAt_drop (reader : Reader)
    (h : -(reader.source.length : Int) ≤ reader.position) :
    ∃ parser, Parser.ofReader reader = .ok parser ∧
      parser.StandsAt (tokenize (reader.source.drop reader.position.toNat)) := by
  have hstart : Parser.ofReader reader.fromStart = Parser.ofReader reader := by
    rw [Parser.ofReader, Parser.ofReader, Reader.lexer, Reader.lexer, Reader.skipGap_fromStart h]
  have hposition : 0 ≤ reader.fromStart.position := Int.natCast_nonneg _
  obtain ⟨parser, hparser, hstand, -⟩ := ofReader_standsAt_ahead hposition
  exact ⟨parser, hstart ▸ hparser, reader.ahead_fromStart ▸ hstand⟩

/-- A parser may be started at any place of a text, or before its start as far as the text is long,
and the tokens are handed out there without a fault. Wherever steps lead from there, every further
step comes to an end within limits that exceed the number of tokens left, and its reply is one for
all of them. Only the check for faults rejects. A program is read to the end of the tokens, and each
statement that is begun on the way takes a token of its own. -/
theorem exists_ends_of_leadsTo (text : List Char) {position : Int}
    (h : -(text.length : Int) ≤ position) :
    (⟨text, position⟩ : Reader).HandsOut (tokenize (text.drop position.toNat)) ∧
      ∃ first, Parser.ofReader ⟨text, position⟩ = .ok first ∧
        first.StandsAt (tokenize (text.drop position.toNat)) ∧
        ∀ parser, first.LeadsTo parser →
          ∃ left, left <:+ tokenize (text.drop position.toNat) ∧ parser.StandsAt left ∧
            (∀ step, ∃ reply last, parser.Ends left step reply last ∧
              ∀ errors, reply = .rejected errors → step = .checkErrors) ∧
            ∃ statements last,
              parser.Ends left .program (.node (some (.program statements))) last ∧
                last.StandsAt [] ∧ last.begun ≤ parser.begun + left.length := by
  refine ⟨Reader.handsOut_of_neg_length_le h, ?_⟩
  obtain ⟨first, hfirst, hstand⟩ := ofReader_standsAt_drop ⟨text, position⟩ h
  refine ⟨first, hfirst, hstand, fun parser hleads => ?_⟩
  obtain ⟨left, hleft, hstand⟩ := hstand.exists_of_leadsTo hleads
  refine ⟨left, hleft, hstand, fun step => ?_, hstand.exists_program_ends⟩
  obtain ⟨reply, last, hends⟩ := hstand.exists_ends step
  refine ⟨reply, last, hends, fun errors hrejected => ?_⟩
  have hreply := hends ⟨left.length + 1, left.length + 1⟩ (Nat.lt_succ_self _) (Nat.lt_succ_self _)
  exact Parser.eq_checkErrors_of_rejected (hrejected ▸ hreply)

/-- From before the start of a faulty text, a step into the middle of its definition leaves nothing
that hangs: an operand at a floor below every level, and a program of at most four statements. -/
theorem exists_ends_of_leadsTo_faulty :
    (tokenize "let x ) 5".toList).length = 4 ∧
      ∃ first reply next, Parser.ofReader ⟨"let x ) 5".toList, -9⟩ = .ok first ∧
        first.perform ⟨5, 5⟩ .letStatement = some (reply, next) ∧
        (∃ reply last, next.perform ⟨5, 5⟩ (.expression (-1)) = some (reply, last)) ∧
        ∃ statements last,
          next.perform ⟨5, 5⟩ .program = some (.node (some (.program statements)), last) ∧
            last.begun ≤ next.begun + 4 := by
  have hlength : (tokenize "let x ) 5".toList).length = 4 := by decide +kernel
  obtain ⟨-, first, hfirst, -, hleads⟩ := exists_ends_of_leadsTo "let x ) 5".toList
    (show -("let x ) 5".toList.length : Int) ≤ -9 by decide)
  have hshort {left : List Token} (h : left <:+ tokenize "let x ) 5".toList) : left.length < 5 :=
    Nat.lt_succ_of_le (hlength ▸ h.length_le)
  obtain ⟨left, hleft, -, hends, -⟩ := hleads first .refl
  obtain ⟨reply, next, hstep, -⟩ := hends .letStatement
  have hstep := hstep ⟨5, 5⟩ (hshort hleft) (hshort hleft)
  obtain ⟨left, hleft, -, hends, statements, last, hprogram, -, hbegun⟩ :=
    hleads next (.single ⟨⟨5, 5⟩, .letStatement, reply, hstep⟩)
  obtain ⟨found, rest, hoperand, -⟩ := hends (.expression (-1))
  refine ⟨hlength, first, reply, next, hfirst, hstep,
    ⟨found, rest, hoperand ⟨5, 5⟩ (hshort hleft) (hshort hleft)⟩, statements, last,
    hprogram ⟨5, 5⟩ (hshort hleft) (hshort hleft), ?_⟩
  exact Nat.le_trans hbegun (Nat.add_le_add_left (Nat.lt_succ_iff.mp (hshort hleft)) _)

end ExprLang
