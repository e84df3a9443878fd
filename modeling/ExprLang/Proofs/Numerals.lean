import ExprLang.Proofs.Decomposition
import ExprLang.Proofs.Locating
import ExprLang.Proofs.Result
import ExprLang.Proofs.Sequence

/-!
# Numerals as programs

A text of digits alone is read as the number that it stands for in base ten, and never as another
one: a number that is too great for a signed 64-bit integer, or that is written with too many
digits, is not cut down to one that fits but reported, and nothing is read. What is read is written
again with the same digits except for zeros in front.
-/

namespace ExprLang

namespace Text

/-- A run of digits without the zeros in front. Of nothing but zeros one stays. -/
def trimZeros (digits : List Char) : List Char :=
  match digits.dropWhile (· == '0') with
  | [] => ['0']
  | first :: rest => first :: rest

/-- A digit is the one that is written for its value, which is less than ten. -/
theorem digitChar_value {c : Char} (h : c.isDigit = true) :
    (c.toNat - '0'.toNat).digitChar = c ∧ c.toNat - '0'.toNat < 10 := by
  simp only [Char.isDigit, Bool.and_eq_true, decide_eq_true_eq] at h
  have hlow : '0'.toNat ≤ c.toNat := h.1
  have hhigh : c.toNat ≤ '9'.toNat := h.2
  have hvalue : c.toNat - '0'.toNat < 10 := by
    change c.toNat - 48 < 10
    change c.toNat ≤ 57 at hhigh
    omega
  refine ⟨Char.toNat_inj.mp ?_, hvalue⟩
  rw [Nat.toNat_digitChar_of_lt_ten hvalue]
  exact Nat.add_sub_cancel' hlow

/-- Digits that come after a positive number are written again after the digits of that number. -/
theorem toDigits_ofDigitChars_of_pos {digits : List Char} (hdigits : ∀ c ∈ digits, c.isDigit = true)
    {n : Nat} (hn : 0 < n) :
    Nat.toDigits 10 (Nat.ofDigitChars 10 digits n) = Nat.toDigits 10 n ++ digits := by
  induction digits generalizing n with
  | nil => rw [Nat.ofDigitChars_nil, List.append_nil]
  | cons c digits ih =>
    obtain ⟨hchar, hvalue⟩ := digitChar_value (hdigits c List.mem_cons_self)
    have hpos : 0 < 10 * n + (c.toNat - '0'.toNat) := by omega
    calc Nat.toDigits 10 (Nat.ofDigitChars 10 (c :: digits) n)
        = Nat.toDigits 10 (10 * n + (c.toNat - '0'.toNat)) ++ digits := by
          rw [Nat.ofDigitChars_cons, ih (fun c hmem => hdigits c (.tail _ hmem)) hpos]
      _ = Nat.toDigits 10 n ++ [c] ++ digits := by
          rw [← Nat.toDigits_append_toDigits (by decide) hn hvalue, Nat.toDigits_of_lt_base hvalue,
            hchar]
      _ = Nat.toDigits 10 n ++ c :: digits := by rw [List.append_assoc]; rfl

/-- Zeros in front have no part in the value. -/
theorem ofDigitChars_dropWhile (digits : List Char) :
    Nat.ofDigitChars 10 (digits.dropWhile (· == '0')) 0 = Nat.ofDigitChars 10 digits 0 := by
  induction digits with
  | nil => rfl
  | cons c digits ih =>
    rw [List.dropWhile_cons]
    split
    next hzero =>
      rw [ih, eq_of_beq hzero, Nat.ofDigitChars_cons]
      rfl
    next => rfl

/-- The value of a run of digits is written as the run without the zeros in front. -/
theorem toDigits_ofDigitChars {digits : List Char} (hdigits : ∀ c ∈ digits, c.isDigit = true) :
    Nat.toDigits 10 (Nat.ofDigitChars 10 digits 0) = trimZeros digits := by
  rw [← ofDigitChars_dropWhile, trimZeros]
  cases hrest : digits.dropWhile (· == '0') with
  | nil => rfl
  | cons c rest =>
    have hmem {d : Char} (h : d ∈ c :: rest) : d.isDigit = true :=
      hdigits d ((hrest ▸ List.dropWhile_sublist _ : (c :: rest).Sublist digits).subset h)
    obtain ⟨hchar, hvalue⟩ := digitChar_value (hmem List.mem_cons_self)
    have hpos : 0 < c.toNat - '0'.toNat := by
      have hfirst : (c == '0') = false :=
        @eq_false_of_mem_head?_dropWhile (· == '0') digits c (by rw [hrest]; rfl)
      refine Nat.pos_of_ne_zero fun hzero => ne_of_beq_false hfirst ?_
      rw [← hchar, hzero]
      rfl
    rw [Nat.ofDigitChars_cons, Nat.mul_zero, Nat.zero_add,
      toDigits_ofDigitChars_of_pos (fun d h => hmem (.tail _ h)) hpos,
      Nat.toDigits_of_lt_base hvalue, hchar]
    rfl

end Text

open Grammar

/-- A text of digits is read as one token. -/
theorem tokenize_digits {text : String} (hempty : text.toList ≠ [])
    (hdigits : ∀ c ∈ text.toList, c.isDigit = true) : tokenize text.toList = [⟨.int, text⟩] := by
  have htokens := lexes_numeral hempty hdigits [] fun _ hc => nomatch hc
  rwa [tokenize_nil, List.append_nil, List.append_nil] at htokens

variable {text : String}

/-- A numeral is read as the integer that it stands for. -/
theorem parse_of_numeral {value : Nat} (h : Text.Numeral text value) :
    parse text = ⟨.program [.expressionStatement (.integer value)], []⟩ := by
  have hvalue : Phrase.Expression .exact .call [⟨.int, text⟩] [] (.integer value) :=
    .primary (.integer rfl h)
  have hbody : Phrase.Body .exact (tokenize text.toList) []
      [.expressionStatement (.integer value)] := by
    rw [tokenize_digits h.nonempty h.digits]
    exact .cons (fun _ => ⟨by decide, by decide⟩)
      (.expressionStatement (hvalue.loosen (Nat.zero_le _))) .nil
  exact (eq_parse (parseWithin_of_body hbody (Nat.lt_succ_self _))).symm

/-- Where no integer can be read from a numeral, a statement that begins with it is given up. -/
theorem Grammar.statement_unreadable {σ : Type} [LawfulSource σ] {parser : Parser σ}
    {rest : List Token} {steps nesting : Nat} (hstand : parser.StandsAt (⟨.int, text⟩ :: rest))
    (hread : Text.integerOf? text = none) :
    statement (expressionWithin steps (nesting + 1)) parser =
      .abandoned (parser.beginStatement.report (.unreadable text)) := by
  have hcurrent : parser.beginStatement.current = ⟨.int, text⟩ := hstand.current_eq
  have hoperand : operand steps (expressionWithin steps nesting) parser.beginStatement =
      .abandoned (parser.beginStatement.report (.unreadable text)) := by
    unfold operand
    rw [hcurrent]
    change integer parser.beginStatement = _
    rw [integer, Rule.current_bind_apply, hcurrent, hread]
    rfl
  unfold statement
  dsimp only
  rw [hcurrent]
  change expressionStatement _ parser.beginStatement = _
  rw [expressionStatement, Rule.bind_apply, expressionWithin, Rule.bind_apply, hoperand]

/-- A text of digits from which no integer can be read is reported, and nothing is read. -/
theorem parse_unreadable (hempty : text.toList ≠ [])
    (hdigits : ∀ c ∈ text.toList, c.isDigit = true) (hread : Text.integerOf? text = none) :
    parse text = ⟨.program [], [.unreadable text]⟩ := by
  have hstand := start_lexer_standsAt text.toList
  rw [tokenize_digits hempty hdigits] at hstand
  have hgiven := @statement_unreadable _ _ _ _ _ 2 1 hstand hread
  have hword := hstand.current_kind
  have hlast := (hstand.beginStatement.faces.report (.unreadable text)).advance
  have hend : Collects (expressionWithin 2 2) (· == .eof) _ [] _ :=
    .close (beq_of_eq hlast.current_kind)
  have hlimit : [(⟨.int, text⟩ : Token)].length < 2 := Nat.lt_succ_self 1
  obtain ⟨_, _, hall, -⟩ := exists_program hstand hlimit hlimit
  have hprogram := (Collects.drop (by rw [hword]; rfl) hgiven hend).program_eq
    (by rw [hall]; exact fun h => nomatch h)
  rw [parse_of_program hprogram]
  rfl

/-- The canonical text of a program that is a number alone is that of the number. -/
theorem render_integer (value : Nat) :
    (Node.program [.expressionStatement (.integer value)]).render = toString value := by
  simp only [Node.render, Node.renderEach]
  rfl

/-- A text of digits is read as the integer that it stands for, without a fault, exactly if it is not
oversized. The tree is then written as the same digits without the zeros in front. An oversized text
of digits is reported, and nothing is read. -/
theorem parse_digits (hempty : text ≠ "") (hdigits : ∀ c ∈ text.toList, c.isDigit = true) :
    (parse text = ⟨.program [.expressionStatement
        (.integer (Nat.ofDigitChars 10 text.toList 0))], []⟩ ↔ ¬ Text.Oversized text) ∧
      (¬ Text.Oversized text →
        (parse text).program.render = String.ofList (Text.trimZeros text.toList)) ∧
      (Text.Oversized text → (parse text).program = .program [] ∧
        (parse text).errors.map Diagnostic.message =
          ["could not parse " ++ text ++ " as integer"]) := by
  have hnonempty : text.toList ≠ [] := fun h => hempty (String.toList_eq_nil_iff.mp h)
  have hinteger := Text.integerOf?_digits hnonempty hdigits
  by_cases h : Text.Oversized text
  · rw [if_pos h] at hinteger
    rw [parse_unreadable hnonempty hdigits hinteger]
    exact ⟨iff_of_false (fun hparse => nomatch (Parsed.mk.inj hparse).2) (not_not_intro h),
      absurd h, fun _ => ⟨rfl, rfl⟩⟩
  · rw [if_neg h] at hinteger
    rw [parse_of_numeral (Text.integerOf?_eq_some_iff.mp hinteger), render_integer,
      Nat.toString_eq_ofList_toDigits, Text.toDigits_ofDigitChars hdigits]
    exact ⟨iff_of_true rfl h, fun _ => rfl, (absurd · h)⟩

/-- The greatest number with zeros in front, the next number, and zero with too many digits. -/
theorem parse_digits_bounds :
    parse "009223372036854775807" =
        ⟨.program [.expressionStatement (.integer 9223372036854775807)], []⟩ ∧
      (parse "009223372036854775807").program.render = "9223372036854775807" ∧
      (parse "9223372036854775808").errors.map Diagnostic.message =
        ["could not parse 9223372036854775808 as integer"] ∧
      (parse (String.ofList (List.replicate 4301 '0'))).program = .program [] := by
  have hgreatest : ∀ c ∈ "009223372036854775807".toList, c.isDigit = true :=
    List.all_eq_true.mp (by decide +kernel)
  have hnext : ∀ c ∈ "9223372036854775808".toList, c.isDigit = true :=
    List.all_eq_true.mp (by decide +kernel)
  have hzeros : (String.ofList (List.replicate 4301 '0')).toList = List.replicate 4301 '0' :=
    String.toList_ofList
  refine ⟨(parse_digits (by decide) hgreatest).1.mpr (by decide +kernel),
    (parse_digits (by decide) hgreatest).2.1 (by decide +kernel),
    ((parse_digits (by decide) hnext).2.2 (by decide +kernel)).2,
    ((parse_digits (fun h => ?_) fun c hc => ?_).2.2 (.inl ?_)).1⟩
  · rw [h] at hzeros
    exact nomatch hzeros
  · rw [hzeros] at hc
    rw [List.eq_of_mem_replicate hc]
    rfl
  · rw [hzeros, List.length_replicate]
    decide

end ExprLang
