import ExprLang.Proofs.Result
import Mathlib.Data.List.Forall2
import Mathlib.Data.List.GetD
import Mathlib.Data.List.Nodup
import Mathlib.Data.List.Perm.Subperm

/-!
# What a fault is charged to

Only some constructs report faults of their own: definitions, groups, calls, choices, functions and
numerals. Such a construct reports at most once, as it is given up then, and a construct around it
that is given up with it reports nothing. Reading goes on after the token at which the parser was
left and never goes back, so no construct is begun twice. Each fault can thus be charged to the
token that its construct begins with, and no two faults to the same token.

While a rule runs, the constructs around it are not charged yet. The places of their first tokens
are kept free: a rule may charge the token that it begins with and those that it takes after that,
but none before.
-/

namespace ExprLang

open Outcome

namespace Kind

/-- The kinds of the tokens that a construct may miss, by the kind of the token it begins with. -/
def requires : Kind → List Kind
  | .letWord => [.ident, .assign]
  | .lparen => [.rparen]
  | .ifWord => [.lparen, .rparen, .lbrace]
  | .fnWord => [.lparen, .ident, .rparen, .lbrace]
  | _ => []

/-- A construct that begins with a token of the kind may report a fault of its own. -/
def mayFail : Kind → Bool
  | .letWord | .lparen | .ifWord | .fnWord | .int => true
  | _ => false

/-- Only what may report a fault misses a token. -/
theorem mayFail_of_mem_requires {kind expected : Kind} (h : expected ∈ kind.requires) :
    kind.mayFail = true := by
  cases kind <;> first | rfl | exact nomatch h

end Kind

/-- The fault may be one of the construct that begins at `place`: that construct misses the expected
token, another one is found further on, or it is a numeral that cannot be read. -/
def Diagnostic.IsChargedTo (tokens : List Token) (place : Nat) : Diagnostic → Prop
  | .unexpected expected found => ∃ token next, tokens[place]? = some token ∧
      expected ∈ token.kind.requires ∧ place < next ∧ found = headKind (tokens.drop next)
  | .unreadable literal => tokens[place]? = some ⟨.int, literal⟩

/-- A fault is charged to a token that may fail. -/
theorem Diagnostic.IsChargedTo.exists_token {tokens : List Token} {place : Nat} {fault : Diagnostic}
    (h : fault.IsChargedTo tokens place) :
    ∃ token, tokens[place]? = some token ∧ token.kind.mayFail = true := by
  cases fault with
  | unexpected expected found =>
    obtain ⟨token, _, htoken, hrequires, -⟩ := h
    exact ⟨token, htoken, Kind.mayFail_of_mem_requires hrequires⟩
  | unreadable literal => exact ⟨_, h, rfl⟩

/-- The faults are charged to different tokens before `place`, and none of them to one at the places
`free`. -/
def Charged (tokens : List Token) (free : List Nat) (place : Nat) (faults : List Diagnostic) :
    Prop :=
  ∃ places : List Nat, places.Nodup ∧ (∀ other ∈ places, other < place ∧ other ∉ free) ∧
    List.Forall₂ (fun fault other => fault.IsChargedTo tokens other) faults places

namespace Charged

variable {tokens : List Token} {free : List Nat} {place own : Nat} {faults : List Diagnostic}

/-- No more places have to be free, and the faults are further back. -/
theorem mono {free' : List Nat} {place' : Nat} (h : Charged tokens free place faults)
    (hfree : free' ⊆ free) (hplace : place ≤ place') : Charged tokens free' place' faults := by
  obtain ⟨places, hdistinct, hbefore, hcharged⟩ := h
  refine ⟨places, hdistinct, fun other hmem => ?_, hcharged⟩
  obtain ⟨hlt, hnot⟩ := hbefore other hmem
  exact ⟨Nat.lt_of_lt_of_le hlt hplace, fun hmem => hnot (hfree hmem)⟩

/-- One more fault is charged to a place that was free. -/
theorem concat (h : Charged tokens (own :: free) place faults) (hown : own < place)
    (hfree : own ∉ free) {fault : Diagnostic} (hfault : fault.IsChargedTo tokens own) :
    Charged tokens free place (faults ++ [fault]) := by
  obtain ⟨places, hdistinct, hbefore, hcharged⟩ := h
  have hnew : own ∉ places := fun hmem => (hbefore own hmem).2 List.mem_cons_self
  refine ⟨places ++ [own], ?_, fun other hmem => ?_, List.rel_append hcharged (.cons hfault .nil)⟩
  · exact List.nodup_append_comm.mp (List.nodup_cons.mpr ⟨hnew, hdistinct⟩)
  · rcases List.mem_append.mp hmem with hmem | hmem
    · obtain ⟨hlt, hnot⟩ := hbefore other hmem
      exact ⟨hlt, fun hmem => hnot (List.mem_cons_of_mem own hmem)⟩
    · obtain rfl := List.mem_singleton.mp hmem
      exact ⟨hown, hfree⟩

/-- There are no more faults than tokens that may fail. -/
theorem length_le (h : Charged tokens free place faults) :
    faults.length ≤ tokens.countP (·.kind.mayFail) := by
  obtain ⟨places, hdistinct, -, hcharged⟩ := h
  have hplaces : places ⊆
      (List.range tokens.length).filter fun other => (tokens.getD other .eof).kind.mayFail := by
    intro other hmem
    obtain ⟨index, hindex, rfl⟩ := List.getElem_of_mem hmem
    have hfault := hcharged.get (by rwa [hcharged.length_eq]) hindex
    obtain ⟨token, htoken, hfails⟩ := hfault.exists_token
    obtain ⟨hlt, -⟩ := List.getElem?_eq_some_iff.mp htoken
    refine List.mem_filter.mpr ⟨List.mem_range.mpr hlt, ?_⟩
    rw [List.getD_eq_getElem?_getD]
    exact htoken ▸ hfails
  have htokens : (List.range tokens.length).map (fun other => tokens.getD other .eof) = tokens :=
    List.ext_getElem (by simp) fun other _ hother => by
      rw [List.getElem_map, List.getElem_range, List.getD_eq_getElem tokens .eof hother]
  calc faults.length = places.length := hcharged.length_eq
    _ ≤ _ := (List.subperm_of_subset hdistinct hplaces).length_le
    _ = (List.range tokens.length).countP fun other => (tokens.getD other .eof).kind.mayFail :=
      List.countP_eq_length_filter.symm
    _ = tokens.countP (·.kind.mayFail) := by
      conv_rhs => rw [← htokens, List.countP_map]
      rfl

end Charged

variable {σ α β : Type} [LawfulSource σ] {tokens : List Token} {free kept lost : List Nat}
  {own : Nat}

namespace Parser

variable {parser : Parser σ}

/-- What is reported is charged to tokens before those that the parser faces, and the places `free`
are among them, but free. -/
def Charges (tokens : List Token) (free : List Nat) (parser : Parser σ) : Prop :=
  ∃ place, parser.Faces (tokens.drop place) ∧ (∀ other ∈ free, other < place) ∧
    Charged tokens free place parser.errors.toList

/-- What is reported is charged to tokens before those that the parser stands at, and the places
`free` are among them, but free. -/
def ChargesBefore (tokens : List Token) (free : List Nat) (parser : Parser σ) : Prop :=
  ∃ place, parser.StandsAt (tokens.drop place) ∧ (∀ other ∈ free, other < place) ∧
    Charged tokens free place parser.errors.toList

/-- No more places have to be free. -/
theorem Charges.mono (h : parser.Charges tokens kept) (hlost : lost ⊆ kept) :
    parser.Charges tokens lost := by
  obtain ⟨place, hfaces, hfree, hcharged⟩ := h
  exact ⟨place, hfaces, fun other hmem => hfree other (hlost hmem),
    hcharged.mono hlost (Nat.le_refl place)⟩

/-- A parser that moves on stands at the tokens that it faced. -/
theorem Charges.advance (h : parser.Charges tokens free) :
    parser.advance.ChargesBefore tokens free := by
  obtain ⟨place, hfaces, hfree, hcharged⟩ := h
  exact ⟨place, hfaces.advance, hfree, hcharged⟩

/-- The token under examination need not be free. -/
theorem ChargesBefore.charges (h : parser.ChargesBefore tokens free) :
    parser.Charges tokens free := by
  obtain ⟨place, hstand, hfree, hcharged⟩ := h
  refine ⟨place + 1, by rw [← List.tail_drop]; exact hstand.faces, fun other hmem => ?_,
    hcharged.mono (List.Subset.refl free) (Nat.le_succ place)⟩
  exact Nat.lt_succ_of_lt (hfree other hmem)

/-- The token under examination is not charged yet, so its place is one more that is free. -/
theorem ChargesBefore.exists_own (h : parser.ChargesBefore tokens free)
    (hproper : parser.current.kind ≠ .eof) :
    ∃ own, own ∉ free ∧ tokens[own]? = some parser.current ∧
      parser.Charges tokens (own :: free) := by
  obtain ⟨place, hstand, hfree, places, hdistinct, hbefore, hcharged⟩ := h
  refine ⟨place, fun hmem => Nat.lt_irrefl place (hfree place hmem), ?_, place + 1, ?_,
    fun other hmem => ?_, places, hdistinct, fun other hmem => ?_, hcharged⟩
  · have hcurrent := hstand.current
    rw [List.headD_eq_head?_getD, List.head?_drop] at hcurrent
    cases htoken : tokens[place]? with
    | none =>
      rw [htoken] at hcurrent
      exact absurd (congrArg Token.kind hcurrent) hproper
    | some token =>
      rw [htoken] at hcurrent
      exact congrArg some hcurrent.symm
  · rw [← List.tail_drop]
    exact hstand.faces
  · rcases List.mem_cons.mp hmem with rfl | hmem
    · exact Nat.lt_succ_self other
    · exact Nat.lt_succ_of_lt (hfree other hmem)
  · obtain ⟨hlt, hnot⟩ := hbefore other hmem
    refine ⟨Nat.lt_succ_of_lt hlt, fun hmem => ?_⟩
    rcases List.mem_cons.mp hmem with rfl | hmem
    · exact Nat.lt_irrefl other hlt
    · exact hnot hmem

end Parser

/-! ## Contracts on charges -/

namespace Rule

/-- From what a parser faces, the places `kept` stay free while the rule reads, and `lost` where it
is given up. -/
def Charges (tokens : List Token) (kept lost : List Nat) (rule : Rule σ α) : Prop :=
  ∀ parser : Parser σ, parser.Charges tokens kept →
    (rule parser).Meets True (Parser.Charges tokens lost) fun _ => Parser.Charges tokens kept

/-- From where a parser stands, the places `kept` stay free while the rule reads, and `lost` where
it is given up. -/
def ChargesFrom (tokens : List Token) (kept lost : List Nat) (rule : Rule σ α) : Prop :=
  ∀ parser : Parser σ, parser.ChargesBefore tokens kept →
    (rule parser).Meets True (Parser.Charges tokens lost) fun _ => Parser.Charges tokens kept

/-- The rule for a construct that begins with a token of the kind `kind` charges, of the places that
were free, the one of that token at most. -/
def ChargesOwn (tokens : List Token) (kind : Kind) (rule : Rule σ α) : Prop :=
  ∀ own free token, own ∉ free → tokens[own]? = some token → token.kind = kind →
    rule.Charges tokens (own :: free) free

/-- Rules in sequence keep what each of them keeps. -/
theorem Charges.bind {rule : Rule σ α} {next : α → Rule σ β} (h : rule.Charges tokens kept lost)
    (hnext : ∀ value, (next value).Charges tokens kept lost) :
    (rule >>= next).Charges tokens kept lost :=
  fun parser hparser => Meets.bind (h parser hparser) hnext

/-- Rules in sequence keep what each of them keeps. -/
theorem ChargesFrom.bind {rule : Rule σ α} {next : α → Rule σ β}
    (h : rule.ChargesFrom tokens kept lost)
    (hnext : ∀ value, (next value).Charges tokens kept lost) :
    (rule >>= next).ChargesFrom tokens kept lost :=
  fun parser hparser => Meets.bind (h parser hparser) hnext

/-- A rule may be given up with fewer places free. -/
theorem ChargesFrom.mono {rule : Rule σ α} {fewer : List Nat}
    (h : rule.ChargesFrom tokens kept lost) (hfewer : fewer ⊆ lost) :
    rule.ChargesFrom tokens kept fewer :=
  fun parser hparser => Meets.mono (h parser hparser) id (fun _ hfault => hfault.mono hfewer)
    fun _ _ hpost => hpost

/-- A rule may be given up with fewer places free. -/
theorem Charges.mono {rule : Rule σ α} {fewer : List Nat} (h : rule.Charges tokens kept lost)
    (hfewer : fewer ⊆ lost) : rule.Charges tokens kept fewer :=
  fun parser hparser => Meets.mono (h parser hparser) id (fun _ hfault => hfault.mono hfewer)
    fun _ _ hpost => hpost

/-- After moving on, a rule goes on from where the parser stands. -/
theorem ChargesFrom.advance {rule : Rule σ α} (h : rule.ChargesFrom tokens kept lost) :
    (Rule.advance >>= fun _ => rule).Charges tokens kept lost :=
  fun parser hparser => h parser.advance hparser.advance

/-- To yield a value is to charge nothing. -/
theorem Charges.pure (value : α) : (Pure.pure value : Rule σ α).Charges tokens kept lost :=
  fun _ hparser => hparser

/-- To look at a token is to charge nothing. -/
theorem Charges.current : (Rule.current : Rule σ Token).Charges tokens kept lost :=
  fun _ hparser => hparser

/-- To look at the next token is to charge nothing. -/
theorem Charges.peek : (Rule.peek : Rule σ Token).Charges tokens kept lost :=
  fun _ hparser => hparser

/-- To move on is to charge nothing. -/
theorem Charges.advance : (Rule.advance : Rule σ Unit).Charges tokens kept lost :=
  fun _ hparser => hparser.advance.charges

/-- To accept a token is to charge nothing, be it there or not. -/
theorem Charges.accept (kind : Kind) :
    (Rule.accept kind : Rule σ Unit).Charges tokens kept lost := by
  intro parser hparser
  unfold Rule.accept
  split
  · exact hparser.advance.charges
  · exact hparser

/-- To miss a token is to charge the token that the construct begins with. -/
theorem Charges.expect {token : Token} {kind : Kind} (hown : own ∉ free)
    (htoken : tokens[own]? = some token) (hkind : kind ∈ token.kind.requires) :
    (Rule.expect kind : Rule σ Unit).Charges tokens (own :: free) free := by
  intro parser hparser
  by_cases hpeek : parser.peek.kind = kind
  · rw [expect_of_eq hpeek]
    exact hparser.advance.charges
  · obtain ⟨place, hfaces, hfree, hcharged⟩ := hparser
    have hlt : own < place := hfree own List.mem_cons_self
    rw [expect_of_ne hpeek]
    refine ⟨place, hfaces.report _,
      fun other hmem => hfree other (List.mem_cons_of_mem own hmem), ?_⟩
    have herrors : (parser.reportPeek kind).errors.toList =
        parser.errors.toList ++ [.unexpected kind parser.peek.kind] := Array.toList_push
    rw [herrors]
    exact hcharged.concat hlt hown ⟨token, place, htoken, hkind, hlt, hfaces.peek_kind⟩

/-- From where a parser stands at the first token of a construct, every place stays free that was
free. -/
theorem ChargesOwn.meets {rule : Rule σ α} {kind : Kind} (h : rule.ChargesOwn tokens kind)
    (hproper : kind ≠ .eof) {parser : Parser σ} (hparser : parser.ChargesBefore tokens free)
    (hkind : parser.current.kind = kind) :
    (rule parser).Meets True (Parser.Charges tokens free) fun _ => Parser.Charges tokens free := by
  obtain ⟨own, hown, htoken, hcharges⟩ := hparser.exists_own (hkind ▸ hproper)
  exact Meets.mono (h own free _ hown htoken hkind parser hcharges) id (fun _ hfault => hfault)
    fun _ _ hpost => hpost.mono (List.subset_cons_self own free)

end Rule

namespace Grammar

open Rule

variable {steps : Nat} {nested : Int → Rule σ Node}

/-! ## Words, numerals and parameters -/

/-- A name charges nothing. -/
theorem identifier_charges : (identifier : Rule σ Node).Charges tokens kept lost :=
  fun _ hparser => hparser

/-- A truth value charges nothing. -/
theorem boolean_charges : (boolean : Rule σ Node).Charges tokens kept lost :=
  fun _ hparser => hparser

/-- A numeral charges itself at most. -/
theorem integer_meets_charges {parser : Parser σ} (hparser : parser.ChargesBefore tokens free)
    (hkind : parser.current.kind = .int) :
    (integer parser).Meets True (Parser.Charges tokens free) fun _ =>
      Parser.Charges tokens free := by
  rw [integer, current_bind_apply]
  cases hread : Text.integerOf? parser.current.literal with
  | some value => exact hparser.charges
  | none =>
    obtain ⟨own, hown, htoken, place, hfaces, hfree, hcharged⟩ :=
      hparser.exists_own (by rw [hkind]; decide)
    have hnumeral : tokens[own]? = some ⟨.int, parser.current.literal⟩ := by
      rw [htoken, ← hkind]
    have herrors : (parser.report (.unreadable parser.current.literal)).errors.toList =
        parser.errors.toList ++ [.unreadable parser.current.literal] := Array.toList_push
    refine ⟨place, hfaces.report _,
      fun other hmem => hfree other (List.mem_cons_of_mem own hmem), ?_⟩
    rw [herrors]
    exact hcharged.concat (hfree own List.mem_cons_self) hown hnumeral

/-- The rest of a list of parameters charges the function. -/
theorem parametersFrom_charges {token : Token} (hown : own ∉ free)
    (htoken : tokens[own]? = some token) (hkind : token.kind = .fnWord) (steps : Nat)
    (read : Array Node) :
    (parametersFrom steps read : Rule σ (List Node)).Charges tokens (own :: free) free := by
  have hexpect (kind : Kind) (hmem : kind ∈ Kind.requires .fnWord) :
      (Rule.expect kind : Rule σ Unit).Charges tokens (own :: free) free :=
    .expect hown htoken (hkind ▸ hmem)
  induction steps generalizing read with
  | zero => exact fun _ _ => trivial
  | succ steps ih =>
    refine Charges.peek.bind fun _ => ?_
    split
    · exact Charges.advance.bind fun _ => (hexpect .ident (by decide)).bind fun _ =>
        identifier_charges.bind fun parameter => ih (read.push parameter)
    · exact (hexpect .rparen (by decide)).bind fun _ => .pure _

/-- Parameters charge the function. -/
theorem parameters_charges {token : Token} (hown : own ∉ free)
    (htoken : tokens[own]? = some token) (hkind : token.kind = .fnWord) (steps : Nat) :
    (parameters steps : Rule σ (List Node)).Charges tokens (own :: free) free := by
  refine Charges.peek.bind fun _ => ?_
  split
  · exact Charges.advance.bind fun _ => .pure _
  · exact (Charges.expect hown htoken (by rw [hkind]; decide)).bind fun _ =>
      identifier_charges.bind fun parameter =>
        parametersFrom_charges hown htoken hkind steps #[parameter]

section Nested

variable (hnested : ∀ floor free, (nested floor).ChargesFrom tokens free free)

include hnested

/-- An expression within a construct leaves the token free that the construct begins with. -/
theorem nested_chargesFrom (floor : Int) (own : Nat) (free : List Nat) :
    (nested floor).ChargesFrom tokens (own :: free) free :=
  (hnested floor (own :: free)).mono (List.subset_cons_self own free)

/-! ## Statements -/

/-- The expression at the end of a statement charges nothing that is free. -/
theorem accept_chargesFrom (floor : Int) (form : Node → Node) :
    (do let value ← nested floor; accept .semicolon; return form value :
      Rule σ Node).ChargesFrom tokens free free :=
  (hnested floor free).bind fun _ => (Charges.accept _).bind fun _ => .pure _

/-- A definition charges itself. -/
theorem letStatement_charges : (letStatement nested).ChargesOwn tokens .letWord := by
  intro own free token hown htoken hkind
  have hexpect (kind : Kind) (hmem : kind ∈ Kind.requires .letWord) :
      (Rule.expect kind : Rule σ Unit).Charges tokens (own :: free) free :=
    .expect hown htoken (hkind ▸ hmem)
  refine (hexpect .ident (by decide)).bind fun _ => identifier_charges.bind fun name => ?_
  refine (hexpect .assign (by decide)).bind fun _ => ChargesFrom.advance ?_
  exact (accept_chargesFrom hnested _ (.letStatement name)).mono (List.subset_cons_self own free)

/-- A statement charges nothing that is free. -/
theorem statement_chargesFrom : (statement nested).ChargesFrom tokens free free := by
  intro parser hparser
  have hbegun : parser.beginStatement.ChargesBefore tokens free := by
    obtain ⟨place, hstand, hfree, hcharged⟩ := hparser
    exact ⟨place, hstand.beginStatement, hfree, hcharged⟩
  unfold statement
  dsimp only
  split
  next hlet => exact (letStatement_charges hnested).meets (by decide) hbegun hlet
  · exact (accept_chargesFrom hnested _ .returnStatement).advance _ hbegun.charges
  · exact accept_chargesFrom hnested _ .expressionStatement _ hbegun

/-- In a sequence of statements every place stays free that was free, as reading goes on after the
token at which a statement was given up. -/
theorem statementsUntil_meets_charges (closes : Kind → Bool) {fault : Parser σ → Prop} (steps : Nat)
    (read : Array Node) {parser : Parser σ} (hparser : parser.ChargesBefore tokens free) :
    (statementsUntil nested closes steps read parser).Meets True fault fun _ =>
      Parser.ChargesBefore tokens free := by
  induction steps generalizing parser read with
  | zero => trivial
  | succ steps ih =>
    rw [statementsUntil, current_bind_apply]
    split
    · exact hparser
    · have hstatement := statement_chargesFrom hnested parser hparser
      refine Meets.bind (Meets.attempt hstatement) fun found after hafter => ?_
      have hcharges : after.Charges tokens free := by
        cases found with
        | none => exact hafter
        | some _ => exact hafter
      rw [advance_bind_apply]
      cases found with
      | none => exact ih read hcharges.advance
      | some node => exact ih (read.push node) hcharges.advance

/-- A block charges nothing that is free. -/
theorem block_charges : (block steps nested).Charges tokens free free := by
  intro parser hparser
  rw [block, advance_bind_apply]
  exact Meets.bind (statementsUntil_meets_charges hnested _ steps #[] hparser.advance)
    fun _ _ hlast => hlast.charges

/-! ## Operands -/

/-- An operator and its operand charge nothing that is free. -/
theorem unary_charges : (unary nested).Charges tokens free free :=
  Charges.current.bind fun _ => ((hnested _ free).bind fun _ => .pure _).advance

/-- A group charges its opening parenthesis. -/
theorem grouped_charges : (grouped nested).ChargesOwn tokens .lparen := by
  intro own free token hown htoken hkind
  refine ((nested_chargesFrom hnested _ own free).bind fun _ => ?_).advance
  exact (Charges.expect hown htoken (by rw [hkind]; decide)).bind fun _ => .pure _

/-- A choice charges itself. -/
theorem conditional_charges : (conditional steps nested).ChargesOwn tokens .ifWord := by
  intro own free token hown htoken hkind
  have hexpect (kind : Kind) (hmem : kind ∈ Kind.requires .ifWord) :
      (Rule.expect kind : Rule σ Unit).Charges tokens (own :: free) free :=
    .expect hown htoken (hkind ▸ hmem)
  have hblock : (block steps nested).Charges tokens (own :: free) free :=
    (block_charges hnested).mono (List.subset_cons_self own free)
  refine (hexpect .lparen (by decide)).bind fun _ => ChargesFrom.advance ?_
  refine (nested_chargesFrom hnested _ own free).bind fun _ => ?_
  refine (hexpect .rparen (by decide)).bind fun _ => (hexpect .lbrace (by decide)).bind fun _ => ?_
  refine hblock.bind fun _ => Charges.peek.bind fun _ => ?_
  split
  · exact Charges.advance.bind fun _ => (hexpect .lbrace (by decide)).bind fun _ =>
      hblock.bind fun _ => .pure _
  · exact .pure _

/-- A function charges itself. -/
theorem function_charges : (function steps nested).ChargesOwn tokens .fnWord := by
  intro own free token hown htoken hkind
  have hexpect (kind : Kind) (hmem : kind ∈ Kind.requires .fnWord) :
      (Rule.expect kind : Rule σ Unit).Charges tokens (own :: free) free :=
    .expect hown htoken (hkind ▸ hmem)
  have hblock : (block steps nested).Charges tokens (own :: free) free :=
    (block_charges hnested).mono (List.subset_cons_self own free)
  refine (hexpect .lparen (by decide)).bind fun _ => ?_
  refine (parameters_charges hown htoken hkind steps).bind fun _ => ?_
  exact (hexpect .lbrace (by decide)).bind fun _ => hblock.bind fun _ => .pure _

/-- An operand charges the token that it begins with at most. -/
theorem operand_chargesFrom : (operand steps nested).ChargesFrom tokens free free := by
  intro parser hparser
  unfold operand
  split
  · exact identifier_charges parser hparser.charges
  next hint => exact integer_meets_charges hparser hint
  · exact boolean_charges parser hparser.charges
  · exact boolean_charges parser hparser.charges
  · exact unary_charges hnested parser hparser.charges
  · exact unary_charges hnested parser hparser.charges
  next hparen => exact (grouped_charges hnested).meets (by decide) hparser hparen
  next hif => exact (conditional_charges hnested).meets (by decide) hparser hif
  next hfn => exact (function_charges hnested).meets (by decide) hparser hfn
  · exact hparser.charges

/-! ## Operators -/

/-- An operator and its right operand charge nothing that is free. -/
theorem binary_charges (left : Node) : (binary nested left).Charges tokens free free :=
  Charges.current.bind fun _ => ((hnested _ free).bind fun _ => .pure _).advance

/-- The rest of a list of arguments charges the opening parenthesis. -/
theorem argumentsFrom_charges {token : Token} (hown : own ∉ free)
    (htoken : tokens[own]? = some token) (hkind : token.kind = .lparen) (steps : Nat)
    (read : Array Node) :
    (argumentsFrom nested steps read).Charges tokens (own :: free) free := by
  induction steps generalizing read with
  | zero => exact fun _ _ => trivial
  | succ steps ih =>
    refine Charges.peek.bind fun _ => ?_
    split
    · refine Charges.advance.bind fun _ => ChargesFrom.advance ?_
      exact (nested_chargesFrom hnested _ own free).bind fun argument => ih (read.push argument)
    · exact (Charges.expect hown htoken (by rw [hkind]; decide)).bind fun _ => .pure _

/-- A call charges its opening parenthesis. -/
theorem call_charges (callee : Node) : (call steps nested callee).ChargesOwn tokens .lparen := by
  intro own free token hown htoken hkind
  have harguments : (arguments steps nested).Charges tokens (own :: free) free := by
    refine Charges.peek.bind fun _ => ?_
    split
    · exact Charges.advance.bind fun _ => .pure _
    · exact ((nested_chargesFrom hnested _ own free).bind fun argument =>
        argumentsFrom_charges hnested hown htoken hkind steps #[argument]).advance
  exact harguments.bind fun _ => .pure _

/-- The operators and calls after an operand charge nothing that is free. -/
theorem climb_charges (floor : Int) (rounds : Nat) (left : Node) :
    (climb steps nested floor rounds left).Charges tokens free free := by
  induction rounds generalizing left with
  | zero => exact fun _ _ => trivial
  | succ rounds ih =>
    intro parser hparser
    rw [climb, peek_bind_apply]
    split
    · exact hparser
    · split
      · exact (Charges.advance.bind fun _ => (binary_charges hnested left).bind ih) parser hparser
      · split
        next hparen =>
          rw [advance_bind_apply]
          exact Meets.bind ((call_charges hnested left).meets (by decide) hparser.advance hparen) ih
        · exact hparser

end Nested

/-- An expression charges nothing that is free, at every floor and however deeply it nests. -/
theorem expressionWithin_chargesFrom (steps nesting : Nat) (floor : Int) (free : List Nat) :
    (expressionWithin steps nesting floor : Rule σ Node).ChargesFrom tokens free free := by
  induction nesting generalizing floor free with
  | zero => exact fun _ _ => trivial
  | succ nesting ih =>
    exact (operand_chargesFrom ih).bind fun left => climb_charges ih floor steps left

/-- A program leaves every place free that was free. -/
theorem program_charges {steps nesting : Nat} {parser last : Parser σ} {node : Node}
    (hparser : parser.ChargesBefore tokens free)
    (h : program steps (expressionWithin steps nesting) parser = .done node last) :
    last.ChargesBefore tokens free := by
  have hmeets : (program steps (expressionWithin steps nesting) parser).Meets True
      (fun _ => False) fun _ => Parser.ChargesBefore tokens free :=
    Meets.bind (statementsUntil_meets_charges (expressionWithin_chargesFrom steps nesting) _ steps
      #[] hparser) fun _ _ hlast => hlast
  rwa [h] at hmeets

end Grammar

/-! ## The faults of a text -/

/-- The faults of a text are charged to different tokens of it, each of which begins a construct
that may be faulty by itself. So there are no more faults than such tokens. -/
theorem parse_errors_charged (text : String) :
    (∃ places : List Nat, places.Nodup ∧ List.Forall₂
      (fun fault place => fault.IsChargedTo (tokenize text.toList) place)
      (parse text).errors places) ∧
    (parse text).errors.length ≤ (tokenize text.toList).countP (·.kind.mayFail) := by
  have hstand := start_lexer_standsAt text.toList
  have hstart : (Parser.start (⟨text.toList⟩ : Lexer)).ChargesBefore (tokenize text.toList) [] :=
    ⟨0, hstand, by simp, [], .nil, by simp, .nil⟩
  have hlimit := Nat.lt_succ_self (tokenize text.toList).length
  obtain ⟨statements, last, hlast, -⟩ := Grammar.exists_program hstand hlimit hlimit
  obtain ⟨place, -, -, hcharged⟩ := Grammar.program_charges hstart hlast
  rw [parse_of_program hlast]
  refine ⟨?_, hcharged.length_le⟩
  obtain ⟨places, hdistinct, -, hfaults⟩ := hcharged
  exact ⟨places, hdistinct, hfaults⟩

/-- As many faults as tokens that may fail: both definitions and the choice between them. -/
example :
    parse "let if let" = ⟨.program [], [.unexpected .ident .ifWord, .unexpected .lparen .letWord,
        .unexpected .ident .eof]⟩ ∧
      (tokenize "let if let".toList).countP (·.kind.mayFail) = 3 :=
  ⟨(@eq_parse 9 _ _ rfl).symm, by decide +kernel⟩

end ExprLang
