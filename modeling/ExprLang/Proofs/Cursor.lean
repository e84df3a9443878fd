import ExprLang.Parser.Rule

/-!
# Where a parser stands

A source with finitely many tokens to come hands them out in order and then the end again and
again. A parser over such a source stands at a list of tokens: the first is under examination, the
second is the next one, and the others are still in the source. Moving on drops the first token,
whatever the source is, so everything that a parser does is a matter of that list.
-/

namespace ExprLang

/-- A source that hands out the tokens of a finite list and after them only the end. -/
class LawfulSource (σ : Type) extends TokenSource σ where
  /-- The tokens that are still to come. -/
  pending : σ → List Token
  /-- The next token is the first one to come. -/
  nextOfList_pending : ∀ source, nextOfList (pending source) =
    ((TokenSource.next source).1, pending (TokenSource.next source).2)

instance : LawfulSource Lexer where
  pending := Lexer.pending
  nextOfList_pending := nextOfList_pending

instance : LawfulSource (List Token) where
  pending tokens := tokens
  nextOfList_pending _ := rfl

/-- The kind of the first token of a list, and that of the end for the empty list. -/
def headKind (tokens : List Token) : Kind :=
  (tokens.headD .eof).kind

@[simp] theorem headKind_nil : headKind [] = .eof := rfl

@[simp] theorem headKind_cons (token : Token) (rest : List Token) :
    headKind (token :: rest) = token.kind := rfl

/-- A list that begins with a token of a kind other than the end has a first token. -/
theorem exists_cons_of_headKind {tokens : List Token} {kind : Kind} (hkind : headKind tokens = kind)
    (hproper : kind ≠ .eof) : ∃ token rest, tokens = token :: rest ∧ token.kind = kind := by
  cases tokens with
  | nil => exact absurd hkind.symm hproper
  | cons token rest => exact ⟨token, rest, rfl, hkind⟩

namespace LawfulSource

variable {σ : Type} [LawfulSource σ]

/-- The token that a source hands out next. -/
theorem next_fst (source : σ) : (TokenSource.next source).1 = (pending source).headD .eof := by
  rw [← congrArg Prod.fst (nextOfList_pending source)]
  cases pending source <;> rfl

/-- The tokens to come after the next one. -/
theorem pending_next (source : σ) :
    pending (TokenSource.next source).2 = (pending source).tail := by
  have h : (nextOfList (pending source)).2 = pending (TokenSource.next source).2 :=
    congrArg Prod.snd (nextOfList_pending source)
  rw [← h]
  cases pending source <;> rfl

/-- A source is shorter by a token if the one that it hands out is not the end. -/
theorem length_pending_next_lt {source : σ}
    (h : (TokenSource.next source).1.kind ≠ .eof) :
    (pending (TokenSource.next source).2).length < (pending source).length := by
  rw [next_fst] at h
  rw [pending_next]
  cases hpending : pending source with
  | nil => rw [hpending] at h; exact absurd rfl h
  | cons token rest => exact Nat.lt_succ_self _

/-- A source is not longer after it has handed out a token. -/
theorem length_pending_next_le (source : σ) :
    (pending (TokenSource.next source).2).length ≤ (pending source).length := by
  rw [pending_next]
  exact (List.tail_suffix _).length_le

end LawfulSource

namespace Parser

variable {σ : Type} [LawfulSource σ] {parser : Parser σ} {tokens rest : List Token}

/-- The tokens after the one under examination are `rest`, none of which is the end. -/
structure Faces (parser : Parser σ) (rest : List Token) : Prop where
  peek : parser.peek = rest.headD .eof
  pending : LawfulSource.pending parser.source = rest.tail
  proper : ∀ token ∈ rest, token.kind ≠ .eof

/-- The token under examination and those after it are `tokens`, none of which is the end. -/
structure StandsAt (parser : Parser σ) (tokens : List Token) : Prop where
  current : parser.current = tokens.headD .eof
  faces : parser.Faces tokens.tail
  proper : ∀ token ∈ tokens, token.kind ≠ .eof

/-- The kind of the next token is that of the first one faced. -/
theorem Faces.peek_kind (h : parser.Faces rest) : parser.peek.kind = headKind rest := by
  rw [h.peek, headKind]

/-- The kind of the token under examination is that of the first one stood at. -/
theorem StandsAt.current_kind (h : parser.StandsAt tokens) :
    parser.current.kind = headKind tokens := by
  rw [h.current, headKind]

/-- The token under examination is the first one stood at. -/
theorem StandsAt.current_eq {token : Token} (h : parser.StandsAt (token :: rest)) :
    parser.current = token :=
  h.current

/-- A parser that moves on stands at the tokens that it faced. -/
theorem Faces.advance (h : parser.Faces rest) : parser.advance.StandsAt rest where
  current := h.peek
  faces :=
    { peek := (LawfulSource.next_fst parser.source).trans (by rw [h.pending])
      pending := (LawfulSource.pending_next parser.source).trans (by rw [h.pending])
      proper := fun token hmem => h.proper token (List.mem_of_mem_tail hmem) }
  proper := h.proper

/-- A report does not move a parser. -/
theorem Faces.report (h : parser.Faces rest) (fault : Diagnostic) :
    (parser.report fault).Faces rest :=
  ⟨h.peek, h.pending, h.proper⟩

/-- The count of statements does not move a parser. -/
theorem StandsAt.beginStatement (h : parser.StandsAt tokens) :
    parser.beginStatement.StandsAt tokens :=
  ⟨h.current, ⟨h.faces.peek, h.faces.pending, h.faces.proper⟩, h.proper⟩

/-- Only at the end is the token under examination that of the end. -/
theorem StandsAt.eq_nil (h : parser.StandsAt tokens) (hend : headKind tokens = .eof) :
    tokens = [] := by
  cases tokens with
  | nil => rfl
  | cons token rest => exact absurd hend (h.proper token List.mem_cons_self)

/-- Lists without the end are equal if they go on from the same token with the same rest. -/
theorem eq_of_headD_eq {other : List Token} (hrest : ∀ token ∈ rest, token.kind ≠ .eof)
    (hother : ∀ token ∈ other, token.kind ≠ .eof) (hhead : rest.headD .eof = other.headD .eof)
    (htail : rest.tail = other.tail) : rest = other := by
  cases rest with
  | nil =>
    cases other with
    | nil => rfl
    | cons token tail =>
      exact absurd (congrArg Token.kind hhead).symm (hother token List.mem_cons_self)
  | cons token tail =>
    cases other with
    | nil => exact absurd (congrArg Token.kind hhead) (hrest token List.mem_cons_self)
    | cons token' tail' =>
      obtain rfl : token = token' := hhead
      obtain rfl : tail = tail' := htail
      rfl

/-- A parser stands at one list of tokens only. -/
theorem StandsAt.unique {other : List Token} (h : parser.StandsAt tokens)
    (h' : parser.StandsAt other) : tokens = other := by
  have htail : tokens.tail = other.tail :=
    eq_of_headD_eq h.faces.proper h'.faces.proper (h.faces.peek.symm.trans h'.faces.peek)
      (h.faces.pending.symm.trans h'.faces.pending)
  exact eq_of_headD_eq h.proper h'.proper (h.current.symm.trans h'.current) htail

/-- A new parser has reported nothing. -/
theorem start_errors (source : σ) : (start source).errors = #[] := rfl

/-- A new parser stands at all the tokens of its source. -/
theorem start_standsAt {source : σ}
    (hproper : ∀ token ∈ LawfulSource.pending source, token.kind ≠ .eof) :
    (start source).StandsAt (LawfulSource.pending source) where
  current := LawfulSource.next_fst source
  faces :=
    { peek := (LawfulSource.next_fst (TokenSource.next source).2).trans
        (by rw [LawfulSource.pending_next])
      pending := (LawfulSource.pending_next (TokenSource.next source).2).trans
        (by rw [LawfulSource.pending_next])
      proper := fun token hmem => hproper token (List.mem_of_mem_tail hmem) }
  proper := hproper

end Parser

end ExprLang
