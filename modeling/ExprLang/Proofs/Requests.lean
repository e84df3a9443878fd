import ExprLang.Proofs.Termination

/-!
# Requests from any position

A reader that is asked for a token takes one character after another, and each of them may fail to
be there. Looking at a character never fails: before the start of the text and past its end none is
seen, and where none is seen a gap goes on. So a gap that begins before the start of the text, but
not further from it than the text is long, is skipped up to the start exactly, and from there on
every character that is taken was seen before. A request then fails only where the first character
that it takes is out of range, and it has taken nothing by then. So it does what `nextToken` does.
-/

namespace ExprLang

/-! ## Taking characters -/

/-- What takes characters from a reader. Where it fails the reader is left. -/
abbrev Taking : Type → Type :=
  ExceptT ReadFault (StateM Reader)

namespace Taking

variable {α β : Type} {taking : Taking α} {next : α → Taking β} {reader after : Reader}

/-- Taking goes on where the first part of it succeeds. -/
theorem bind_of_ok {value : α} (h : taking reader = (.ok value, after)) :
    (taking >>= next) reader = next value after := by
  change (match taking reader with | (result, after) => ExceptT.bindCont next result after) = _
  rw [h]
  rfl

/-- Taking fails where the first part of it does. -/
theorem bind_of_error {fault : ReadFault} (h : taking reader = (.error fault, after)) :
    (taking >>= next) reader = (.error fault, after) := by
  change (match taking reader with | (result, after) => ExceptT.bindCont next result after) = _
  rw [h]
  rfl

end Taking

namespace Reader

variable {reader : Reader}

/-- A character that is taken is one that is left. -/
theorem remaining_lt_of_next {after : Reader} {c : Char} (h : reader.next = .ok (c, after)) :
    (after.source.length - after.position).toNat <
      (reader.source.length - reader.position).toNat := by
  unfold next at h
  split at h
  · exact nomatch h
  · rename_i hend
    cases hchar : reader.charAt with
    | error fault =>
      rw [hchar] at h
      exact nomatch h
    | ok c =>
      rw [hchar] at h
      obtain ⟨-, rfl⟩ := Prod.mk.inj (Except.ok.inj h)
      rw [atEnd, decide_eq_true_iff] at hend
      change (reader.source.length - (reader.position + (1 : Nat)) : Int).toNat < _
      omega

/-- Takes the next character. -/
def take : Taking Char := fun reader =>
  match reader.next with
  | .ok (c, after) => (.ok c, after)
  | .error fault => (.error fault, reader)

/-- Takes characters in a number that is known. -/
def takeEach : Nat → Taking Unit
  | 0 => return
  | count + 1 => do
    let _ ← take
    takeEach count

/-- Takes characters as long as what is seen of the next one is `wanted`. -/
def takeWhile (wanted : Option Char → Bool) (reader : Reader) :
    Except ReadFault (List Char) × Reader :=
  if reader.atEnd || !wanted (reader.peek 0) then (.ok [], reader)
  else
    match _h : reader.next with
    | .ok (c, after) =>
      let (taken, last) := takeWhile wanted after
      ((c :: ·) <$> taken, last)
    | .error fault => (.error fault, reader)
  termination_by (reader.source.length - reader.position).toNat
  decreasing_by exact remaining_lt_of_next _h

/-- The last symbol that is found while one more character is looked at in each round. -/
def symbolSeen (reader : Reader) : (rounds : Nat) → (seen : List Char) → Option Token →
    Option Token
  | 0, _, found => found
  | rounds + 1, seen, found =>
    match reader.peek seen.length with
    | none => found
    | some c => symbolSeen reader rounds (seen ++ [c]) ((symbolToken? (seen ++ [c])).or found)

/-- Asks for the token at the position. -/
def requestToken : Taking Token := do
  let reader : Reader ← get
  if reader.atEnd then
    return .eof
  -- from here on characters are taken with no look at the end
  match reader.symbolSeen 2 [] none with
  | some token =>
    takeEach token.literal.length
    return token
  | none =>
    if (reader.peek 0).any isLetter then
      let word := String.ofList (← takeWhile (·.any isLetter))
      return ⟨Kind.ofWord word, word⟩
    else if (reader.peek 0).any Char.isDigit then
      return ⟨.int, String.ofList (← takeWhile (·.any Char.isDigit))⟩
    else
      let _ ← take
      return .illegal

/-- Asks for the next token. -/
def request : Taking Token := do
  -- a gap goes on where no character is seen
  let _ ← takeWhile (·.all isGap)
  requestToken

/-! ## Single steps -/

/-- A reader that goes on by nothing stays. -/
theorem advance_zero (reader : Reader) : reader.advance 0 = reader := by
  rw [advance, Int.natCast_zero, Int.add_zero]

/-- A reader that goes on twice. -/
theorem advance_advance (reader : Reader) (count more : Nat) :
    (reader.advance count).advance more = reader.advance (count + more) := by
  rw [advance, advance, advance, Int.natCast_add, Int.add_assoc]

/-- A character is taken where there is a next one. -/
theorem take_of_ok {c : Char} {after : Reader} (h : reader.next = .ok (c, after)) :
    take reader = (.ok c, after) := by
  rw [take, h]

section Loop

variable {wanted : Option Char → Bool}

/-- Nothing is taken at the end and where the next character is not wanted. -/
theorem takeWhile_of_stop (h : (reader.atEnd || !wanted (reader.peek 0)) = true) :
    takeWhile wanted reader = (.ok [], reader) := by
  rw [takeWhile, if_pos h]

/-- A character that is wanted is taken before others are. -/
theorem takeWhile_of_ok {c : Char} {after : Reader}
    (h : ¬ (reader.atEnd || !wanted (reader.peek 0)) = true)
    (hnext : reader.next = .ok (c, after)) :
    takeWhile wanted reader =
      ((c :: ·) <$> (takeWhile wanted after).1, (takeWhile wanted after).2) := by
  rw [takeWhile, if_neg h]
  split
  · rename_i hnext'
    obtain ⟨rfl, rfl⟩ := Prod.mk.inj (Except.ok.inj (hnext.symm.trans hnext'))
    rfl
  · rename_i hnext'
    exact nomatch hnext.symm.trans hnext'

/-- Where no character is left to be taken one may still be wanted. -/
theorem takeWhile_of_error {fault : ReadFault}
    (h : ¬ (reader.atEnd || !wanted (reader.peek 0)) = true) (hnext : reader.next = .error fault) :
    takeWhile wanted reader = (.error fault, reader) := by
  rw [takeWhile, if_neg h]
  split
  · rename_i hnext'
    exact nomatch hnext.symm.trans hnext'
  · rename_i hnext'
    obtain rfl := Except.error.inj (hnext.symm.trans hnext')
    rfl

end Loop

/-! ## Characters that are ahead -/

section Ahead

variable (h : 0 ≤ reader.position)

include h

/-- What is seen is what is ahead. -/
theorem peek_eq (offset : Nat) : reader.peek offset = reader.ahead[offset]? := by
  have hindex : ¬ reader.position + offset < 0 := by omega
  have hnat : (reader.position + offset).toNat = reader.position.toNat + offset := by omega
  rw [peek, if_neg hindex, hnat, ahead, if_neg (Int.not_lt.mpr h), List.getElem?_drop]

/-- The end is where nothing is ahead. -/
theorem atEnd_iff : reader.atEnd = true ↔ reader.ahead = [] := by
  rw [atEnd, decide_eq_true_iff, ahead, if_neg (Int.not_lt.mpr h), List.drop_eq_nil_iff]
  omega

/-- Where a character is ahead the end is not. -/
theorem atEnd_of_cons {c : Char} {rest : List Char} (hahead : reader.ahead = c :: rest) :
    reader.atEnd = false :=
  Bool.eq_false_iff.mpr fun hend => nomatch hahead.symm.trans ((atEnd_iff h).mp hend)

/-- The next character is the first one ahead. -/
theorem next_eq {c : Char} {rest : List Char} (hahead : reader.ahead = c :: rest) :
    reader.next = .ok (c, reader.advance 1) := by
  have hfound : reader.source[reader.position.toNat]? = some c := by
    have hdrop : reader.ahead[0]? = some c := congrArg (·[0]?) hahead
    rwa [ahead, if_neg (Int.not_lt.mpr h), List.getElem?_drop, Nat.add_zero] at hdrop
  have hchar : reader.charAt = .ok c := by
    rw [charAt, if_neg (Int.not_lt.mpr h), if_neg (Int.not_lt.mpr h), hfound]
  rw [next, atEnd_of_cons h hahead, hchar]
  rfl

/-- As many characters are taken as are ahead. -/
theorem takeEach_eq {count : Nat} (hcount : count ≤ reader.ahead.length) :
    takeEach count reader = (.ok (), reader.advance count) := by
  induction count generalizing reader with
  | zero =>
    rw [advance_zero]
    rfl
  | succ count ih =>
    cases hahead : reader.ahead with
    | nil =>
      rw [hahead] at hcount
      exact absurd hcount (Nat.not_succ_le_zero count)
    | cons c rest =>
      obtain ⟨hnext, hrest⟩ := ahead_advance h 1
      have hshort : count ≤ (reader.advance 1).ahead.length := by
        rw [hrest, List.length_drop]
        omega
      rw [takeEach, Taking.bind_of_ok (take_of_ok (next_eq h hahead)), ih hnext hshort,
        advance_advance, Nat.add_comm]

/-- The characters that are taken are the run that is ahead. -/
theorem takeWhile_eq {wanted : Option Char → Bool} {allowed : Char → Bool}
    (hwanted : ∀ c, wanted (some c) = allowed c) :
    takeWhile wanted reader =
      (.ok (reader.ahead.takeWhile allowed), (reader.readWhile allowed).2) := by
  rw [readWhile]
  induction hahead : reader.ahead generalizing reader with
  | nil =>
    rw [takeWhile_of_stop (by rw [(atEnd_iff h).mpr hahead, Bool.true_or])]
    exact congrArg (Prod.mk _) (advance_zero reader).symm
  | cons c rest ih =>
    have hseen : reader.peek 0 = some c := (peek_eq h 0).trans (congrArg (·[0]?) hahead)
    have hstop : (reader.atEnd || !wanted (reader.peek 0)) = !allowed c := by
      rw [atEnd_of_cons h hahead, hseen, hwanted, Bool.false_or]
    by_cases hallowed : allowed c = true
    · obtain ⟨hnext, hrest⟩ := ahead_advance h 1
      rw [hahead, List.drop_one, List.tail_cons] at hrest
      rw [takeWhile_of_ok (by rw [hstop, hallowed]; decide) (next_eq h hahead), ih hnext hrest,
        List.takeWhile_cons_of_pos hallowed, List.length_cons, advance_advance, Nat.add_comm]
      rfl
    · rw [takeWhile_of_stop (by rw [hstop, Bool.eq_false_iff.mpr hallowed]; rfl),
        List.takeWhile_cons_of_neg hallowed]
      exact congrArg (Prod.mk _) (advance_zero reader).symm

/-- The symbol that is seen is the longest one ahead. -/
theorem symbolSeen_eq : reader.symbolSeen 2 [] none = longestSymbol? reader.ahead := by
  have hpeek (seen : List Char) : reader.peek seen.length = reader.ahead[seen.length]? :=
    peek_eq h seen.length
  rw [symbolSeen, hpeek, longestSymbol?]
  generalize reader.ahead = text at hpeek ⊢
  cases text with
  | nil => rfl
  | cons c rest =>
    dsimp only [List.length_nil, List.getElem?_cons_zero]
    rw [symbolSeen, hpeek]
    cases rest with
    | nil =>
      change (symbolToken? [c]).or none = (symbolToken? [c]).or (symbolToken? [c])
      rw [Option.or_none, Option.or_self]
    | cons d rest =>
      change (symbolToken? [c, d]).or ((symbolToken? [c]).or none) = _
      rw [Option.or_none]
      rfl

end Ahead

/-! ## Characters from before the start -/

section Before

variable {text : List Char} {position : Int}

/-- Before the start of the text no character is seen. -/
theorem peek_of_neg (h : reader.position < 0) : reader.peek 0 = none := by
  rw [peek, if_pos (by omega)]

/-- Before the start of the text the end is not reached. -/
theorem atEnd_of_neg (h : reader.position < 0) : reader.atEnd = false := by
  rw [atEnd, decide_eq_false_iff_not]
  omega

/-- What is wanted where no character is seen is wanted before the start of the text. -/
theorem wanted_of_neg {wanted : Option Char → Bool} (hwanted : wanted none = true)
    (h : reader.position < 0) : ¬ (reader.atEnd || !wanted (reader.peek 0)) = true := by
  rw [atEnd_of_neg h, peek_of_neg h, hwanted]
  decide

/-- Before the start of the text characters are taken from its end. -/
theorem next_of_neg (h : reader.position < 0)
    (hreach : -(reader.source.length : Int) ≤ reader.position) :
    ∃ c, reader.next = .ok (c, reader.advance 1) := by
  have hindex : (reader.position + reader.source.length).toNat < reader.source.length := by omega
  refine ⟨reader.source[(reader.position + reader.source.length).toNat], ?_⟩
  have hfrom : ¬ reader.position + reader.source.length < 0 := by omega
  rw [next, atEnd_of_neg h, if_neg Bool.false_ne_true, charAt, if_pos h, if_neg hfrom,
    List.getElem?_eq_getElem hindex]
  rfl

/-- Too far before the start of the text there is no character. -/
theorem next_of_lt (h : reader.position < -(reader.source.length : Int)) :
    reader.next = .error .outOfRange := by
  have hposition : reader.position < 0 := by omega
  have hfrom : reader.position + reader.source.length < 0 := by omega
  rw [next, atEnd_of_neg hposition, if_neg Bool.false_ne_true, charAt, if_pos hposition,
    if_pos hfrom]
  rfl

/-- What is wanted where no character is seen is taken from before the start of the text up to the
start exactly, and from there on as it is from the start. -/
theorem takeWhile_of_neg {wanted : Option Char → Bool} (hwanted : wanted none = true)
    {taken : List Char} {after : Reader} (hstart : takeWhile wanted ⟨text, 0⟩ = (.ok taken, after))
    {count : Nat} (hcount : count ≤ text.length) :
    ∃ more, takeWhile wanted ⟨text, -count⟩ = (.ok more, after) := by
  induction count with
  | zero => exact ⟨taken, hstart⟩
  | succ count ih =>
    obtain ⟨more, hmore⟩ := ih (Nat.le_of_succ_le hcount)
    have hposition : -((count + 1 : Nat) : Int) < 0 := by omega
    obtain ⟨c, hnext⟩ := @next_of_neg ⟨text, -((count + 1 : Nat) : Int)⟩ hposition
      (Int.neg_le_neg (Int.ofNat_le.mpr hcount))
    have hnat : -((count + 1 : Nat) : Int) + (1 : Nat) = -count := by omega
    have hadvance : (⟨text, -((count + 1 : Nat) : Int)⟩ : Reader).advance 1 = ⟨text, -count⟩ :=
      congrArg (Reader.mk text) hnat
    rw [hadvance] at hnext
    rw [takeWhile_of_ok (wanted_of_neg hwanted hposition) hnext, hmore]
    exact ⟨c :: more, rfl⟩

end Before

/-- The gap that a reader stands in is taken, or no character of it is. -/
theorem takeWhile_isGap (reader : Reader) :
    match reader.skipGap with
    | .ok after => ∃ gap, takeWhile (·.all isGap) reader = (.ok gap, after)
    | .error fault => takeWhile (·.all isGap) reader = (.error fault, reader) := by
  have hgap {reader : Reader} (h : 0 ≤ reader.position) :
      takeWhile (·.all isGap) reader =
        (.ok (reader.ahead.takeWhile isGap), (reader.readWhile isGap).2) :=
    takeWhile_eq h fun _ => rfl
  obtain ⟨text, position⟩ := reader
  rw [skipGap]
  by_cases hposition : position < 0
  · rw [if_pos hposition]
    by_cases hreach : position + text.length < 0
    · rw [if_pos hreach]
      exact takeWhile_of_error (wanted_of_neg rfl hposition)
        (next_of_lt (show position < -(text.length : Int) by omega))
    · rw [if_neg hreach]
      obtain ⟨count, hcount⟩ : ∃ count : Nat, position = -count :=
        ⟨position.natAbs, by omega⟩
      subst hcount
      exact takeWhile_of_neg rfl (hgap (Int.le_refl 0)) (by omega)
  · rw [if_neg hposition]
    exact ⟨_, hgap (Int.not_lt.mp hposition)⟩

/-! ## Requests -/

/-- The token at the start of a text, which begins with no gap, and how many characters it takes. -/
def tokenAhead : List Char → Token × Nat
  | [] => (.eof, 0)
  | c :: rest =>
    match longestSymbol? (c :: rest) with
    | some token => (token, token.literal.length)
    | none =>
      if isLetter c then
        let run := (c :: rest).takeWhile isLetter
        (⟨Kind.ofWord (String.ofList run), String.ofList run⟩, run.length)
      else if c.isDigit then
        let run := (c :: rest).takeWhile Char.isDigit
        (⟨.int, String.ofList run⟩, run.length)
      else (.illegal, 1)

/-- The token at the start of a text and what is left after it. -/
theorem tokenAt_eq (c : Char) (rest : List Char) :
    tokenAt c rest =
      ((tokenAhead (c :: rest)).1, (c :: rest).drop (tokenAhead (c :: rest)).2) := by
  have hrun (allowed : Char → Bool) : (c :: rest).drop ((c :: rest).takeWhile allowed).length =
      (c :: rest).dropWhile allowed := by
    have hdrop := @List.drop_left _ ((c :: rest).takeWhile allowed) ((c :: rest).dropWhile allowed)
    rwa [List.takeWhile_append_dropWhile] at hdrop
  rw [tokenAt, tokenAhead]
  cases longestSymbol? (c :: rest) with
  | some token => rfl
  | none =>
    dsimp only
    rw [← hrun isLetter, ← hrun Char.isDigit]
    split
    · rfl
    · split <;> rfl

/-- The next token is the one after the gap. -/
theorem nextToken_of_skipGap {after : Reader} (h : reader.skipGap = .ok after) :
    reader.nextToken =
      .ok ((tokenAhead after.ahead).1, after.advance (tokenAhead after.ahead).2) := by
  rw [nextToken, h]
  dsimp only [bind, Except.bind]
  rw [matchSymbol]
  cases hahead : after.ahead with
  | nil => exact congrArg (fun last => Except.ok (Token.eof, last)) (advance_zero after).symm
  | cons c rest =>
    rw [tokenAhead]
    cases longestSymbol? (c :: rest) with
    | some token => rfl
    | none =>
      dsimp only [Option.map_none]
      rw [readWhile, readWhile, hahead]
      split
      · rfl
      · split <;> rfl

/-- Each character that is asked for where a token stands was seen before. -/
theorem requestToken_eq (h : 0 ≤ reader.position) :
    requestToken reader =
      (.ok (tokenAhead reader.ahead).1, reader.advance (tokenAhead reader.ahead).2) := by
  have hget : (get : Taking Reader) reader = (.ok reader, reader) := rfl
  rw [requestToken, Taking.bind_of_ok hget]
  cases hahead : reader.ahead with
  | nil =>
    rw [(atEnd_iff h).mpr hahead]
    exact congrArg (Prod.mk _) (advance_zero reader).symm
  | cons c rest =>
    have hseen : reader.peek 0 = some c := (peek_eq h 0).trans (congrArg (·[0]?) hahead)
    rw [atEnd_of_cons h hahead, if_neg Bool.false_ne_true, symbolSeen_eq h, hahead, tokenAhead,
      hseen]
    cases hsymbol : longestSymbol? (c :: rest) with
    | some token =>
      have hcount : token.literal.length ≤ reader.ahead.length :=
        hahead ▸ (longestSymbol?_length hsymbol).2
      dsimp only
      rw [Taking.bind_of_ok (takeEach_eq h hcount)]
      rfl
    | none =>
      have hrun (allowed : Char → Bool) : takeWhile (·.any allowed) reader =
          (.ok ((c :: rest).takeWhile allowed),
            reader.advance ((c :: rest).takeWhile allowed).length) := by
        rw [← hahead]
        exact takeWhile_eq h fun _ => rfl
      dsimp only [Option.any_some]
      by_cases hletter : isLetter c = true
      · rw [if_pos hletter, if_pos hletter, Taking.bind_of_ok (hrun isLetter)]
        rfl
      · rw [if_neg hletter, if_neg hletter]
        by_cases hdigit : c.isDigit = true
        · rw [if_pos hdigit, if_pos hdigit, Taking.bind_of_ok (hrun Char.isDigit)]
          rfl
        · rw [if_neg hdigit, if_neg hdigit, Taking.bind_of_ok (take_of_ok (next_eq h hahead))]
          rfl

/-- After a gap a reader is not before the start of the text. -/
theorem position_of_skipGap {after : Reader} (h : reader.skipGap = .ok after) :
    0 ≤ after.position := by
  rw [skipGap] at h
  split at h
  · split at h
    · cases h
    · obtain rfl := Except.ok.inj h
      exact (ahead_readWhile (Int.le_refl 0) isGap).1
  · rename_i hposition
    obtain rfl := Except.ok.inj h
    exact (ahead_readWhile (Int.not_lt.mp hposition) isGap).1

/-- A request hands out the next token and goes on after it, or takes nothing and fails. -/
theorem request_eq (reader : Reader) :
    request reader =
      match reader.nextToken with
      | .ok (token, after) => (.ok token, after)
      | .error fault => (.error fault, reader) := by
  have hgap := takeWhile_isGap reader
  cases hskip : reader.skipGap with
  | error fault =>
    rw [hskip] at hgap
    rw [request, Taking.bind_of_error hgap, nextToken, hskip]
    rfl
  | ok after =>
    rw [hskip] at hgap
    obtain ⟨gap, hgap⟩ := hgap
    rw [request, Taking.bind_of_ok hgap, nextToken_of_skipGap hskip,
      requestToken_eq (position_of_skipGap hskip)]

/-! ## One request after the other -/

/-- What requests in a number end with, each with the position after it. -/
def requests : (count : Nat) → Reader → List (Except ReadFault Token × Int)
  | 0, _ => []
  | count + 1, reader =>
    let (result, after) := request reader
    (result, after.position) :: requests count after

/-- The next token and how far it is gone for it is a matter of what is ahead. -/
theorem exists_nextToken (text : List Char) :
    ∃ token count, ∀ reader : Reader, 0 ≤ reader.position → reader.ahead = text →
      reader.nextToken = .ok (token, reader.advance count) := by
  refine ⟨(tokenAhead (text.dropWhile isGap)).1,
    (text.takeWhile isGap).length + (tokenAhead (text.dropWhile isGap)).2,
    fun reader h hahead => ?_⟩
  rw [nextToken_of_skipGap (skipGap_eq h), (ahead_readWhile h isGap).2, hahead, readWhile, hahead,
    advance_advance]

/-- Readers with the same ahead of them have the same answers to requests, and they stay as far from
each other as they are. -/
theorem requests_shift {other : Reader} (h : 0 ≤ reader.position) (hother : 0 ≤ other.position)
    (hahead : other.ahead = reader.ahead) (count : Nat) :
    requests count other = (requests count reader).map fun entry =>
      (entry.1, entry.2 + (other.position - reader.position)) := by
  induction count generalizing reader other with
  | zero => rfl
  | succ count ih =>
    obtain ⟨token, length, hnext⟩ := exists_nextToken reader.ahead
    obtain ⟨hafter, hrest⟩ := ahead_advance h length
    obtain ⟨hafter', hrest'⟩ := ahead_advance hother length
    have hshift : (other.advance length).position - (reader.advance length).position =
        other.position - reader.position := by
      change other.position + length - (reader.position + length) = _
      omega
    have hmore := ih hafter hafter' (by rw [hrest, hrest', hahead])
    rw [hshift] at hmore
    rw [requests, requests, request_eq, request_eq, hnext reader h rfl, hnext other hother hahead]
    dsimp only
    rw [hmore, List.map_cons]
    congr 2
    change other.position + length = reader.position + length + _
    omega

/-- A reader that a request leaves where it is has the same answer to every request. -/
theorem requests_of_stays {result : Except ReadFault Token} (h : request reader = (result, reader))
    (count : Nat) : requests count reader = List.replicate count (result, reader.position) := by
  induction count with
  | zero => rfl
  | succ count ih =>
    rw [requests, h]
    dsimp only
    rw [ih, List.replicate_succ]

/-- Where nothing is ahead the end is handed out and the reader stays. -/
theorem request_of_ahead_eq_nil (h : 0 ≤ reader.position) (hahead : reader.ahead = []) :
    request reader = (.ok .eof, reader) := by
  have hgap : (reader.readWhile isGap).2 = reader := by
    rw [readWhile, hahead]
    exact advance_zero reader
  have hskip : reader.skipGap = .ok reader := (skipGap_eq h).trans (congrArg Except.ok hgap)
  rw [request_eq, nextToken_of_skipGap hskip, hahead]
  exact congrArg (Prod.mk _) (advance_zero reader)

/-- Too far before the start of the text a request fails and the reader stays. -/
theorem request_of_lt (h : reader.position < -(reader.source.length : Int)) :
    request reader = (.error .outOfRange, reader) := by
  have hposition : reader.position < 0 := by omega
  have hreach : reader.position + reader.source.length < 0 := by omega
  have hskip : reader.skipGap = .error .outOfRange := by
    rw [skipGap, if_pos hposition, if_pos hreach]
  rw [request_eq, nextToken, hskip]
  rfl

/-- Before the start of the text, as far as the text is long, a request does what it does at the
start. -/
theorem request_fromStart (h : -(reader.source.length : Int) ≤ reader.position) :
    request reader = request reader.fromStart := by
  have hnext : reader.fromStart.nextToken = reader.nextToken := by
    rw [nextToken, nextToken, skipGap_fromStart h]
  obtain ⟨token, count, hok⟩ := exists_nextToken reader.fromStart.ahead
  rw [request_eq, request_eq, ← hnext, hok reader.fromStart (Int.natCast_nonneg _) rfl]

/-- From before the start of the text the answers are those from the start. -/
theorem requests_fromStart (h : -(reader.source.length : Int) ≤ reader.position) (count : Nat) :
    requests count reader = requests count reader.fromStart := by
  cases count with
  | zero => rfl
  | succ count => rw [requests, requests, request_fromStart h]

/-- A reader that is not before the start of the text stays where it is. -/
theorem fromStart_of_nonneg {reader : Reader} (h : 0 ≤ reader.position) :
    reader.fromStart = reader := by
  rw [fromStart, Int.toNat_of_nonneg h]

/-- The first token of a text comes with the text that is left after it. -/
theorem nextOfList_tokenize (text : List Char) :
    nextOfList (tokenize text) =
      ((tokenAhead (text.dropWhile isGap)).1,
        tokenize ((text.dropWhile isGap).drop (tokenAhead (text.dropWhile isGap)).2)) := by
  rw [tokenize_eq, scan]
  cases text.dropWhile isGap with
  | nil =>
    change (Token.eof, ([] : List Token)) = (Token.eof, tokenize [])
    rw [tokenize_nil]
  | cons c rest =>
    dsimp only
    rw [tokenAt_eq]
    rfl

/-- From the start of the text on, or from before it as far as the text is long, a request hands out
the first token that is ahead and goes on after it. -/
theorem exists_request (h : -(reader.source.length : Int) ≤ reader.position) :
    ∃ token after, request reader = (.ok token, after) ∧ 0 ≤ after.position ∧
      nextOfList (tokenize reader.fromStart.ahead) = (token, tokenize after.ahead) := by
  have hstart : 0 ≤ reader.fromStart.position := Int.natCast_nonneg _
  obtain ⟨hgap, hahead⟩ := ahead_readWhile hstart isGap
  obtain ⟨hafter, hrest⟩ :=
    ahead_advance hgap (tokenAhead (reader.fromStart.ahead.dropWhile isGap)).2
  refine ⟨(tokenAhead (reader.fromStart.ahead.dropWhile isGap)).1, _, ?_, hafter, ?_⟩
  · rw [request_fromStart h, request_eq, nextToken_of_skipGap (skipGap_eq hstart), hahead]
  · rw [hrest, hahead, nextOfList_tokenize]

/-- From the start of the text on, or from before it as far as the text is long, every request has a
token for an answer. -/
theorem requests_ok (h : -(reader.source.length : Int) ≤ reader.position) (count : Nat) :
    ∀ entry ∈ requests count reader, ∃ token, entry.1 = .ok token := by
  induction count generalizing reader with
  | zero => exact fun _ hmem => nomatch hmem
  | succ count ih =>
    obtain ⟨token, after, hrequest, hposition, -⟩ := exists_request h
    rw [requests, hrequest]
    intro entry hmem
    rcases List.mem_cons.mp hmem with rfl | hmem
    · exact ⟨token, rfl⟩
    · exact ih (by omega) entry hmem

end Reader

/-! ## Parsers that ask a reader -/

/-- A reader that is asked for tokens, and the fault that a request ended with last, if any did. -/
structure Feed where
  reader : Reader
  fault : Option ReadFault

namespace Feed

/-- The next token, or that of the end where the request fails. -/
def next (feed : Feed) : Token × Feed :=
  match Reader.request feed.reader with
  | (.ok token, after) => (token, ⟨after, feed.fault⟩)
  | (.error fault, after) => (.eof, ⟨after, some fault⟩)

/-- The tokens that are handed out. -/
def pending (feed : Feed) : List Token :=
  if feed.reader.position < -(feed.reader.source.length : Int) then []
  else tokenize feed.reader.fromStart.ahead

instance : LawfulSource Feed where
  next := next
  pending := pending
  nextOfList_pending feed := by
    by_cases h : feed.reader.position < -(feed.reader.source.length : Int)
    · rw [next, Reader.request_of_lt h, pending, if_pos h, pending, if_pos h]
      rfl
    · obtain ⟨token, after, hrequest, hposition, hnext⟩ :=
        Reader.exists_request (Int.not_lt.mp h)
      have hafter : ¬ after.position < -(after.source.length : Int) := by omega
      rw [next, hrequest, pending, if_neg h, pending, if_neg hafter,
        Reader.fromStart_of_nonneg hposition]
      exact hnext

/-- No request of the feed failed, and its reader is not too far before the start of the text. -/
structure Sound (feed : Feed) : Prop where
  fault : feed.fault = none
  reach : -(feed.reader.source.length : Int) ≤ feed.reader.position

/-- A request of a sound feed does not fail, nor will a later one. -/
theorem Sound.next {feed : Feed} (h : feed.Sound) : feed.next.2.Sound := by
  obtain ⟨token, after, hrequest, hposition, -⟩ := Reader.exists_request h.reach
  rw [Feed.next, hrequest]
  exact ⟨h.fault, by dsimp only; omega⟩

/-- Whatever a parser does, it leaves a sound feed sound. -/
theorem sound_kept : Kept fun parser : Parser Feed => parser.source.Sound where
  advance h := h.next
  report h _ := h
  beginStatement h := h

end Feed

/-- What is kept holds wherever steps lead. -/
theorem Kept.leadsTo {σ : Type} [TokenSource σ] {holds : Parser σ → Prop} (hkept : Kept holds)
    {first parser : Parser σ} (h : holds first) (hleads : first.LeadsTo parser) : holds parser := by
  induction hleads with
  | refl => exact h
  | tail _ hstep ih =>
    obtain ⟨_, _, _, hperform⟩ := hstep
    exact hkept.perform ih hperform

section Parsers

variable {text : List Char} {position : Int}

/-- A parser that asks a reader stands at the tokens of the text that is left there, as one that
scans that text does. -/
theorem Feed.exists_mirrors (h : -(text.length : Int) ≤ position) :
    (Parser.start (⟨⟨text, position⟩, none⟩ : Feed)).StandsAt
        (tokenize (text.drop position.toNat)) ∧
      ∃ first, Parser.ofReader ⟨text, position⟩ = .ok first ∧
        Mirrors #[] (Parser.start (⟨⟨text, position⟩, none⟩ : Feed)) first := by
  have hpending : LawfulSource.pending (⟨⟨text, position⟩, none⟩ : Feed) =
      tokenize (text.drop position.toNat) := by
    change Feed.pending _ = _
    rw [Feed.pending, if_neg (Int.not_lt.mpr h), Reader.ahead_fromStart]
  have hstand : (Parser.start (⟨⟨text, position⟩, none⟩ : Feed)).StandsAt
      (tokenize (text.drop position.toNat)) := by
    rw [← hpending]
    refine Parser.start_standsAt fun token hmem => ?_
    exact kind_ne_eof_of_mem_tokenize (hpending ▸ hmem)
  obtain ⟨first, hfirst, hfirststand⟩ := ofReader_standsAt_drop ⟨text, position⟩ h
  refine ⟨hstand, first, hfirst, .of_standsAt hstand hfirststand ?_⟩
  rw [Parser.ofReader] at hfirst
  cases hlexer : (⟨text, position⟩ : Reader).lexer with
  | error fault =>
    rw [hlexer] at hfirst
    cases hfirst
  | ok lexer =>
    rw [hlexer] at hfirst
    obtain rfl : Parser.start lexer = first := Except.ok.inj hfirst
    rfl

/-- Where the first request fails there is no parser. -/
theorem Feed.start_of_lt (h : position < -(text.length : Int)) :
    Parser.ofReader ⟨text, position⟩ = .error .outOfRange ∧
      (Parser.start (⟨⟨text, position⟩, none⟩ : Feed)).source =
        ⟨⟨text, position⟩, some .outOfRange⟩ := by
  have hrequest : Reader.request ⟨text, position⟩ = (.error .outOfRange, ⟨text, position⟩) :=
    Reader.request_of_lt h
  constructor
  · have hposition : position < 0 := by omega
    have hreach : position + text.length < 0 := by omega
    rw [Parser.ofReader, Reader.lexer, Reader.skipGap, if_pos hposition, if_pos hreach]
    rfl
  · have hnext (fault : Option ReadFault) :
        Feed.next ⟨⟨text, position⟩, fault⟩ = (.eof, ⟨⟨text, position⟩, some .outOfRange⟩) := by
      rw [Feed.next, hrequest]
    change (Feed.next (Feed.next ⟨⟨text, position⟩, none⟩).2).2 = _
    rw [hnext, hnext]

/-- No parser that asks a reader meets a fault, wherever steps lead it, and it reads a program to
the end. -/
theorem Feed.exists_program_ends (h : -(text.length : Int) ≤ position) {parser : Parser Feed}
    (hleads : (Parser.start (⟨⟨text, position⟩, none⟩ : Feed)).LeadsTo parser) :
    parser.source.fault = none ∧
      ∃ left statements last, left <:+ tokenize (text.drop position.toNat) ∧
        parser.Ends left .program (.node (some (.program statements))) last ∧
        last.StandsAt [] ∧ last.source.fault = none := by
  have hstart : (Parser.start (⟨⟨text, position⟩, none⟩ : Feed)).source.Sound :=
    (Feed.Sound.next ⟨rfl, h⟩ : Feed.Sound _).next
  have hsound := Feed.sound_kept.leadsTo hstart hleads
  obtain ⟨left, hleft, hstand⟩ := (Feed.exists_mirrors h).1.exists_of_leadsTo hleads
  obtain ⟨statements, last, hends, hlast, -⟩ := hstand.exists_program_ends
  exact ⟨hsound.fault, left, statements, last, hleft, hends, hlast,
    (Feed.sound_kept.perform hsound hends.perform).fault⟩

end Parsers

/-- A request, which takes one character after another, does what `nextToken` does. From a position
in the text or after it the answers to requests are those from the start of the text that is left
there, with the positions moved by as much; past the end all of them are the end. From a position
before the start they are those from the start, if the position is not further from it than the text
is long. Otherwise every request fails, the first one of a new parser too, and the position stays.
Where it does not, no request ever fails, and no parser meets a fault, wherever steps lead it: a
program that is read from there has an end. -/
theorem requests_from (text : List Char) (position : Int) :
    (∀ reader : Reader, Reader.request reader =
      match reader.nextToken with
      | .ok (token, after) => (.ok token, after)
      | .error fault => (.error fault, reader)) ∧
    (0 ≤ position → ∀ count, Reader.requests count ⟨text, position⟩ =
      (Reader.requests count ⟨text.drop position.toNat, 0⟩).map fun entry =>
        (entry.1, entry.2 + position)) ∧
    (text.length ≤ position → ∀ count, Reader.requests count ⟨text, position⟩ =
      List.replicate count (.ok .eof, position)) ∧
    (-text.length ≤ position → position < 0 → ∀ count, Reader.requests count ⟨text, position⟩ =
      Reader.requests count ⟨text, 0⟩) ∧
    (position < -text.length →
      (∀ count, Reader.requests count ⟨text, position⟩ =
        List.replicate count (.error .outOfRange, position)) ∧
      Parser.ofReader ⟨text, position⟩ = .error .outOfRange ∧
      (Parser.start (⟨⟨text, position⟩, none⟩ : Feed)).source =
        ⟨⟨text, position⟩, some .outOfRange⟩) ∧
    (-text.length ≤ position →
      (∀ count, ∀ entry ∈ Reader.requests count ⟨text, position⟩, ∃ token, entry.1 = .ok token) ∧
      (∃ first, Parser.ofReader ⟨text, position⟩ = .ok first ∧
        Mirrors #[] (Parser.start (⟨⟨text, position⟩, none⟩ : Feed)) first) ∧
      ∀ parser, (Parser.start (⟨⟨text, position⟩, none⟩ : Feed)).LeadsTo parser →
        parser.source.fault = none ∧
        ∃ left statements last, left <:+ tokenize (text.drop position.toNat) ∧
          parser.Ends left .program (.node (some (.program statements))) last ∧
          last.StandsAt [] ∧ last.source.fault = none) := by
  refine ⟨Reader.request_eq, fun h count => ?_, fun h count => ?_, fun h hposition count => ?_,
    fun h => ?_, fun h => ?_⟩
  · have hahead : (⟨text, position⟩ : Reader).ahead =
        (⟨text.drop position.toNat, 0⟩ : Reader).ahead := by
      rw [Reader.ahead, if_neg (Int.not_lt.mpr h), Reader.ahead, if_neg (Int.lt_irrefl 0)]
      rfl
    have hshift := Reader.requests_shift (Int.le_refl 0) h hahead count
    rwa [Int.sub_zero] at hshift
  · have hposition : 0 ≤ position := by omega
    have hahead : (⟨text, position⟩ : Reader).ahead = [] := by
      rw [Reader.ahead, if_neg (Int.not_lt.mpr hposition), List.drop_eq_nil_iff]
      dsimp only
      omega
    exact Reader.requests_of_stays (Reader.request_of_ahead_eq_nil hposition hahead) count
  · have hstart : (⟨text, position⟩ : Reader).fromStart = ⟨text, 0⟩ :=
      congrArg (Reader.mk text ∘ Nat.cast) (Int.toNat_of_nonpos (Int.le_of_lt hposition))
    exact hstart ▸ Reader.requests_fromStart h count
  · exact ⟨Reader.requests_of_stays (Reader.request_of_lt h), Feed.start_of_lt h⟩
  · exact ⟨Reader.requests_ok h, (Feed.exists_mirrors h).2, fun _ => Feed.exists_program_ends h⟩

/-- A short text from within it, from the furthest position before it, from one after it and from
one that is too far before it. -/
theorem requests_from_each_side :
    Reader.requests 3 ⟨"a =1".toList, 2⟩ =
      [(.ok ⟨.assign, "="⟩, 3), (.ok ⟨.int, "1"⟩, 4), (.ok .eof, 4)] ∧
    Reader.requests 3 ⟨"a =1".toList, -4⟩ =
      [(.ok ⟨.ident, "a"⟩, 1), (.ok ⟨.assign, "="⟩, 3), (.ok ⟨.int, "1"⟩, 4)] ∧
    Reader.requests 2 ⟨"a =1".toList, 9⟩ = [(.ok .eof, 9), (.ok .eof, 9)] ∧
    Reader.requests 2 ⟨"a =1".toList, -5⟩ =
      [(.error .outOfRange, -5), (.error .outOfRange, -5)] ∧
    Parser.ofReader ⟨"a =1".toList, -5⟩ = .error .outOfRange ∧
    ∃ statements last,
      (Parser.start (⟨⟨"a =1".toList, -4⟩, none⟩ : Feed)).perform ⟨4, 4⟩ .program =
        some (.node (some (.program statements)), last) ∧ last.source.fault = none := by
  obtain ⟨-, hwithin, -, -, -, -⟩ := requests_from "a =1".toList 2
  obtain ⟨-, -, -, hbefore, -, hsafe⟩ := requests_from "a =1".toList (-4)
  obtain ⟨-, -, hafter, -, -, -⟩ := requests_from "a =1".toList 9
  obtain ⟨-, -, -, -, hfar, -⟩ := requests_from "a =1".toList (-5)
  obtain ⟨hfails, hparser, -⟩ := hfar (by decide)
  obtain ⟨-, -, hends⟩ := hsafe (by decide)
  obtain ⟨-, left, statements, last, hleft, hprogram, -, hfault⟩ := hends _ .refl
  have hlength : left.length < 4 :=
    Nat.lt_of_le_of_lt hleft.length_le (show (tokenize "a =1".toList).length < 4 by decide +kernel)
  refine ⟨(hwithin (by decide) 3).trans ?_, (hbefore (by decide) (by decide) 3).trans ?_,
    hafter (by decide) 2, hfails 2, hparser, statements, last,
    hprogram ⟨4, 4⟩ hlength hlength, hfault⟩
  · simp only [Reader.requests, Reader.request_eq]
    rfl
  · simp only [Reader.requests, Reader.request_eq]
    rfl

end ExprLang
