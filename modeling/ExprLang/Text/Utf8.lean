import ExprLang.Text.Hex

/-!
# UTF-8

Decoding reports the first fault: where it starts, how many bytes it covers and what is wrong with
them. Overlong forms, surrogates and values above U+10FFFF are faults of the byte that makes them
so.
-/

namespace ExprLang.Text.Utf8

/-- What is wrong with the bytes of a fault. -/
inductive Reason where
  /-- The byte begins no character. -/
  | invalidStart
  /-- The bytes begin a character, and the text ends within it. -/
  | truncated
  /-- The bytes begin a character, and the byte after them does not continue it. -/
  | invalidContinuation
  deriving DecidableEq, Repr

/-- The wording of a reason. -/
def Reason.message : Reason → String
  | invalidStart => "invalid start byte"
  | truncated => "unexpected end of data"
  | invalidContinuation => "invalid continuation byte"

/-- The first bytes of a text that are no character. -/
structure Fault where
  /-- Where the faulty bytes start. -/
  start : Nat
  /-- The first of them. -/
  lead : UInt8
  /-- How many there are. -/
  size : Nat
  reason : Reason
  deriving DecidableEq, Repr

/-- The wording of a fault. -/
def Fault.message (fault : Fault) : String :=
  if fault.size = 1 then
    "'utf-8' codec can't decode byte 0x" ++ String.ofList (hexDigits 2 fault.lead.toNat) ++
      " in position " ++ toString fault.start ++ ": " ++ fault.reason.message
  else
    "'utf-8' codec can't decode bytes in position " ++ toString fault.start ++ "-" ++
      toString (fault.start + fault.size - 1) ++ ": " ++ fault.reason.message

/-- A character of which some bytes are read and at least one is missing. -/
structure Pending where
  /-- Where the character starts. -/
  start : Nat
  /-- Its first byte. -/
  lead : UInt8
  /-- How many of its bytes are read. -/
  size : Nat
  /-- The bits that these bytes carry. -/
  bits : Nat
  /-- How many bytes are missing after the next one. -/
  after : Nat
  /-- The least value the next byte may have. -/
  low : Nat
  /-- The greatest value the next byte may have. -/
  high : Nat
  deriving DecidableEq, Repr

/-- How a character begins: complete, pending, or not at all. -/
inductive Begun where
  | complete (c : Char)
  | pending (rest : Pending)
  | never
  deriving Repr

/-- What a first byte begins. The range of the second byte keeps out overlong forms, surrogates and
values above U+10FFFF. -/
def begin (start : Nat) (lead : UInt8) : Begun :=
  let value := lead.toNat
  if value < 0x80 then .complete (Char.ofNat value)
  else if value < 0xc2 then .never
  else if value < 0xe0 then .pending ⟨start, lead, 1, value - 0xc0, 0, 0x80, 0xbf⟩
  else if value = 0xe0 then .pending ⟨start, lead, 1, 0, 1, 0xa0, 0xbf⟩
  else if value = 0xed then .pending ⟨start, lead, 1, 0xd, 1, 0x80, 0x9f⟩
  else if value < 0xf0 then .pending ⟨start, lead, 1, value - 0xe0, 1, 0x80, 0xbf⟩
  else if value = 0xf0 then .pending ⟨start, lead, 1, 0, 2, 0x90, 0xbf⟩
  else if value < 0xf4 then .pending ⟨start, lead, 1, value - 0xf0, 2, 0x80, 0xbf⟩
  else if value = 0xf4 then .pending ⟨start, lead, 1, 4, 2, 0x80, 0x8f⟩
  else .never

/-- The fault that a character left pending is. -/
def Pending.fault (pending : Pending) (reason : Reason) : Fault :=
  ⟨pending.start, pending.lead, pending.size, reason⟩

/-- What one more byte makes of a pending character. -/
def Pending.extend (pending : Pending) (byte : UInt8) : Begun :=
  let value := byte.toNat
  if pending.low ≤ value ∧ value ≤ pending.high then
    let bits := pending.bits * 64 + (value - 0x80)
    match pending.after with
    | 0 => .complete (Char.ofNat bits)
    | after + 1 =>
      .pending ⟨pending.start, pending.lead, pending.size + 1, bits, after, 0x80, 0xbf⟩
  else .never

/-- `done` in reverse and then the characters of `bytes`, the first of which is at `position` and
belongs to the pending character if there is one. -/
def decodeOnto (done : List Char) (pending : Option Pending) (position : Nat) :
    (bytes : List UInt8) → Except Fault (List Char)
  | [] =>
    match pending with
    | none => .ok done.reverse
    | some pending => .error (pending.fault .truncated)
  | byte :: bytes =>
    match pending with
    | none =>
      match begin position byte with
      | .complete c => decodeOnto (c :: done) none (position + 1) bytes
      | .pending more => decodeOnto done (some more) (position + 1) bytes
      | .never => .error ⟨position, byte, 1, .invalidStart⟩
    | some pending =>
      match pending.extend byte with
      | .complete c => decodeOnto (c :: done) none (position + 1) bytes
      | .pending more => decodeOnto done (some more) (position + 1) bytes
      | .never => .error (pending.fault .invalidContinuation)

/-- The characters of a text in UTF-8. -/
def decode (bytes : List UInt8) : Except Fault (List Char) :=
  decodeOnto [] none 0 bytes

/-- One character in UTF-8. -/
def encodeChar (c : Char) : List UInt8 :=
  let n := c.toNat
  if n < 0x80 then [UInt8.ofNat n]
  else if n < 0x800 then [UInt8.ofNat (0xc0 + n / 64), UInt8.ofNat (0x80 + n % 64)]
  else if n < 0x10000 then
    [UInt8.ofNat (0xe0 + n / 4096), UInt8.ofNat (0x80 + n / 64 % 64), UInt8.ofNat (0x80 + n % 64)]
  else
    [UInt8.ofNat (0xf0 + n / 262144), UInt8.ofNat (0x80 + n / 4096 % 64),
      UInt8.ofNat (0x80 + n / 64 % 64), UInt8.ofNat (0x80 + n % 64)]

/-- A text in UTF-8. -/
def encode (text : List Char) : List UInt8 :=
  text.flatMap encodeChar

end ExprLang.Text.Utf8
