import ExprLang.Session
import Mathlib.Data.Nat.Bits

/-!
# Lines of a session are independent

A session reads on exactly until an input ends it, and what it shows for an input is what a fresh
session shows for it that is as verbose as the inputs before have left this one. All that they leave
is whether the listing of tokens has been turned an odd number of times. This holds whatever is
printed for the lines of the language, also where their evaluation fails.
-/

namespace ExprLang.Session

/-! ## What an input does to a session -/

/-- The line as a session takes it, without white space at its ends. -/
def trimmed (text : String) : String :=
  String.ofList (Text.trim text.toList)

/-- Whether the session is over with this input. -/
def Input.endsSession : Input → Bool
  | .interrupt => true
  | .line text => trimmed text = "exit" ∨ trimmed text = "quit"

/-- Whether the listing of tokens is turned on or off with this input. -/
def Input.turnsListing : Input → Bool
  | .interrupt => false
  | .line text => togglesListing (trimmed text)

/-- Whether tokens are listed after inputs none of which ends the session. -/
def verboseAfter (verbose : Bool) (inputs : List Input) : Bool :=
  verbose ^^ (inputs.countP Input.turnsListing).bodd

/-- No inputs leave the listing as it is. -/
theorem verboseAfter_nil (verbose : Bool) : verboseAfter verbose [] = verbose :=
  Bool.xor_false verbose

/-- An input turns the listing or not, and the inputs after it go on from there. -/
theorem verboseAfter_cons (verbose : Bool) (input : Input) (inputs : List Input) :
    verboseAfter verbose (input :: inputs) =
      verboseAfter (verbose ^^ input.turnsListing) inputs := by
  rw [verboseAfter, verboseAfter, List.countP_cons]
  cases input.turnsListing <;> simp

variable (answer : Bool → String → String)

/-- The reaction to a line is decided by the line without white space at its ends: an empty one is
passed over, two words end the session, one turns the listing, and all others are answered. -/
theorem reactWith_line (verbose : Bool) (text : String) :
    reactWith answer verbose (.line text) =
      if trimmed text = "" then .stay "" verbose
      else if trimmed text = "exit" ∨ trimmed text = "quit" then .leave farewell
      else if togglesListing (trimmed text) then
        .stay ("[mode] >>> Verbose mode " ++ (if verbose then "OFF" else "ON") ++ "\n") (!verbose)
      else .stay (answer verbose (trimmed text)) verbose :=
  rfl

/-- An input that ends a session does so with the same words whether or not tokens are listed. -/
theorem exists_leave {input : Input} (h : input.endsSession = true) :
    ∃ reply, ∀ verbose, reactWith answer verbose input = .leave reply := by
  cases input with
  | interrupt => exact ⟨abruptFarewell, fun _ => rfl⟩
  | line text =>
    have hword : trimmed text = "exit" ∨ trimmed text = "quit" := of_decide_eq_true h
    have hfull : trimmed text ≠ "" := by
      rintro hempty
      rw [hempty] at hword
      exact absurd hword (by decide)
    exact ⟨farewell, fun verbose => by rw [reactWith_line, if_neg hfull, if_pos hword]⟩

/-- Any other input is answered, and turns the listing or leaves it as it is. -/
theorem exists_stay {input : Input} (h : input.endsSession = false) (verbose : Bool) :
    ∃ reply, reactWith answer verbose input = .stay reply (verbose ^^ input.turnsListing) := by
  cases input with
  | interrupt => exact nomatch h
  | line text =>
    have hword : ¬ (trimmed text = "exit" ∨ trimmed text = "quit") := of_decide_eq_false h
    rw [reactWith_line, Input.turnsListing]
    -- The empty line is no word, so it leaves the listing as it is.
    by_cases hempty : trimmed text = ""
    · have hturn : togglesListing (trimmed text) = false := by rw [hempty]; decide
      rw [if_pos hempty, hturn, Bool.xor_false]
      exact ⟨_, rfl⟩
    · rw [if_neg hempty, if_neg hword]
      cases togglesListing (trimmed text) with
      | true =>
        rw [if_pos rfl, Bool.xor_true]
        exact ⟨_, rfl⟩
      | false =>
        rw [if_neg Bool.false_ne_true, Bool.xor_false]
        exact ⟨_, rfl⟩

/-! ## Sessions one after another -/

/-- A session over inputs is one over the first of them, as long as they do not end it, and then one
over the others that is as verbose as those have left it. -/
theorem transcriptWith_append {before : List Input}
    (h : ∀ input ∈ before, input.endsSession = false) (verbose : Bool) (after : List Input) :
    ∃ shown, shown.length = before.length ∧
      let rest := transcriptWith answer (verboseAfter verbose before) after
      transcriptWith answer verbose (before ++ after) = ⟨shown ++ rest.replies, rest.unread⟩ := by
  induction before generalizing verbose with
  | nil => exact ⟨[], rfl, by rw [verboseAfter_nil]; rfl⟩
  | cons input before ih =>
    obtain ⟨hinput, hbefore⟩ := List.forall_mem_cons.mp h
    obtain ⟨reply, hreact⟩ := exists_stay answer hinput verbose
    obtain ⟨shown, hlength, hrest⟩ := ih hbefore (verbose ^^ input.turnsListing)
    refine ⟨reply :: shown, congrArg Nat.succ hlength, ?_⟩
    rw [List.cons_append, transcriptWith, hreact, verboseAfter_cons]
    dsimp only
    rw [hrest]
    rfl

/-- A session over inputs the first of which ends it, or over none, asks for a line once. -/
theorem transcriptWith_of_ends {inputs : List Input}
    (h : ∀ input ∈ inputs.head?, input.endsSession = true) (verbose : Bool) :
    ∃ reply, transcriptWith answer verbose inputs = ⟨[reply], inputs.tail⟩ := by
  cases inputs with
  | nil => exact ⟨abruptFarewell, rfl⟩
  | cons input inputs =>
    obtain ⟨reply, hreact⟩ := exists_leave answer (h input rfl)
    exact ⟨reply, by rw [transcriptWith, hreact]; rfl⟩

/-- What a session shows first depends on the first input only. -/
theorem head?_transcriptWith (verbose : Bool) {inputs others : List Input}
    (h : inputs.head? = others.head?) :
    (transcriptWith answer verbose inputs).replies.head? =
      (transcriptWith answer verbose others).replies.head? := by
  have hhead (input : Input) (inputs others : List Input) :
      (transcriptWith answer verbose (input :: inputs)).replies.head? =
        (transcriptWith answer verbose (input :: others)).replies.head? := by
    rw [transcriptWith, transcriptWith]
    cases reactWith answer verbose input with
    | leave _ => rfl
    | stay _ _ => rfl
  cases inputs with
  | nil =>
    cases others with
    | nil => rfl
    | cons other others => exact nomatch h
  | cons input inputs =>
    cases others with
    | nil => exact nomatch h
    | cons other others =>
      obtain rfl : input = other := Option.some.inj h
      exact hhead input inputs others

/-- The inputs that a session reads before its last do not end it. -/
theorem not_endsSession_of_mem {input : Input} {inputs : List Input}
    (h : input ∈ inputs.takeWhile (!·.endsSession)) : input.endsSession = false := by
  simpa using List.all_eq_true.mp List.all_takeWhile input h

/-- A session asks for a line for each input before the first that ends it, or before the end of the
input, and then once more. -/
theorem exists_transcriptWith (verbose : Bool) (inputs : List Input) :
    ∃ shown reply, shown.length = (inputs.takeWhile (!·.endsSession)).length ∧
      transcriptWith answer verbose inputs =
        ⟨shown ++ [reply], (inputs.dropWhile (!·.endsSession)).tail⟩ := by
  have hends : ∀ input ∈ (inputs.dropWhile (!·.endsSession)).head?, input.endsSession = true := by
    intro input hinput
    have hnot := List.head?_dropWhile_not (!·.endsSession) inputs
    rw [Option.mem_def.mp hinput] at hnot
    simpa using hnot
  obtain ⟨shown, hshown, hsession⟩ := transcriptWith_append answer (fun _ => not_endsSession_of_mem)
    verbose (inputs.dropWhile (!·.endsSession))
  obtain ⟨reply, hlast⟩ := transcriptWith_of_ends answer hends
    (verboseAfter verbose (inputs.takeWhile (!·.endsSession)))
  rw [List.takeWhile_append_dropWhile, hlast] at hsession
  exact ⟨shown, reply, hshown, hsession⟩

/-- After inputs none of which ends the session, it shows what a session over the others shows
first. -/
theorem getElem?_transcriptWith {place : Nat} {inputs : List Input}
    (h : ∀ input ∈ inputs.take place, input.endsSession = false) (hplace : place ≤ inputs.length)
    (verbose : Bool) :
    (transcriptWith answer verbose inputs).replies[place]? =
      (transcriptWith answer (verboseAfter verbose (inputs.take place))
        (inputs.drop place)).replies.head? := by
  obtain ⟨shown, hshown, hsplit⟩ := transcriptWith_append answer h verbose (inputs.drop place)
  rw [List.length_take_of_le hplace] at hshown
  rw [List.take_append_drop] at hsplit
  rw [hsplit, List.getElem?_append_right (Nat.le_of_eq hshown), hshown, Nat.sub_self,
    List.head?_eq_getElem?]

/-- A session asks for lines up to the first input that ends it, or to the end of the input, and
leaves the others unread. Each time, it shows what any fresh session shows first that begins with
the same input, or with the end of the input, and is as verbose as an odd or even number of turns
has left this one. The session over lines of the language is the case of their own answers. -/
theorem transcriptWith_replies (verbose : Bool) (inputs : List Input) :
    let session := transcriptWith answer verbose inputs
    session.replies.length = (inputs.takeWhile (!·.endsSession)).length + 1 ∧
      session.unread = (inputs.dropWhile (!·.endsSession)).tail ∧
      ∀ place < session.replies.length, ∀ fresh : List Input, fresh.head? = inputs[place]? →
        session.replies[place]? =
          (transcriptWith answer (verboseAfter verbose (inputs.take place)) fresh).replies.head?
    := by
  intro session
  obtain ⟨shown, reply, hshown, hsession⟩ := exists_transcriptWith answer verbose inputs
  have hlength : session.replies.length = (inputs.takeWhile (!·.endsSession)).length + 1 := by
    rw [show session = _ from hsession, List.length_append, hshown]
    rfl
  refine ⟨hlength, congrArg Transcript.unread hsession, fun place hplace fresh hfresh => ?_⟩
  have hgoes : place ≤ (inputs.takeWhile (!·.endsSession)).length := by omega
  have hbefore : inputs.take place <+: inputs.takeWhile (!·.endsSession) :=
    List.prefix_of_prefix_length_le (List.take_prefix place inputs) (List.takeWhile_prefix _)
      (Nat.le_trans (List.length_take_le place inputs) hgoes)
  have hnone : ∀ input ∈ inputs.take place, input.endsSession = false :=
    fun _ hinput => not_endsSession_of_mem (hbefore.subset hinput)
  have hbound : place ≤ inputs.length :=
    Nat.le_trans hgoes (List.takeWhile_prefix _).length_le
  rw [head?_transcriptWith answer _ (hfresh.trans List.head?_drop.symm)]
  exact getElem?_transcriptWith answer hnone hbound verbose

/-- A line that nests too deeply, after the listing was turned on and before an interrupt, is
answered as in a fresh session that is verbose from the start. -/
theorem transcriptWith_replies_deep :
    let inputs : List Input :=
      [.line " ", .line "Verbose-Mode ", .line "(1)", .interrupt, .line "x"]
    (transcript 1 false inputs).replies.length = 4 ∧
      (transcript 1 false inputs).unread = [.line "x"] ∧
      (transcript 1 false inputs).replies[2]? = (transcript 1 true [.line "(1)"]).replies.head? ∧
      (transcript 1 true [.line "(1)"]).replies.head? =
        some ("[token] >>> Token(LParen, '(')\n[token] >>> Token(Int, '1')\n" ++
          "[token] >>> Token(RParen, ')')\n[error] >>>\n<traceback>") := by
  intro inputs
  obtain ⟨hlength, hunread, hreplies⟩ := transcriptWith_replies (answer 1) false inputs
  have hcount : (transcriptWith (answer 1) false inputs).replies.length = 4 :=
    hlength.trans (by decide +kernel)
  have hverbose : verboseAfter false (inputs.take 2) = true := by decide +kernel
  have hreply := hreplies 2 (hcount ▸ by decide) [.line "(1)"] rfl
  rw [hverbose] at hreply
  exact ⟨hcount, hunread.trans (by decide +kernel), hreply, by decide +kernel⟩

end ExprLang.Session
