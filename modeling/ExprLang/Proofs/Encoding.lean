import ExprLang.Text.Utf8
import Mathlib.Algebra.Group.Nat.Defs

/-!
# What is encoded is decoded

Every text is read back from its bytes in UTF-8. The bytes after the first of a character carry six
bits of its value each; whatever number of them is still to come, the bits read so far are those
above them. The narrower range of a second byte is no obstacle, since a character has no shorter
form, is no surrogate and is at most U+10FFFF.
-/

namespace ExprLang.Text.Utf8

/-- The last `after + 1` bytes of a character of the value `n` with more bytes than that. -/
def continuation (n : Nat) : (after : Nat) → List UInt8
  | 0 => [UInt8.ofNat (0x80 + n % 64)]
  | after + 1 => UInt8.ofNat (0x80 + n / 64 ^ (after + 1) % 64) :: continuation n after

/-- The bytes that are read are the first ones of a character of the value `n`, and its next byte is
in range. -/
structure Pending.Awaits (pending : Pending) (n : Nat) : Prop where
  bits : pending.bits = n / 64 ^ (pending.after + 1)
  low : pending.low ≤ 0x80 + n / 64 ^ pending.after % 64
  high : 0x80 + n / 64 ^ pending.after % 64 ≤ pending.high

/-- The value of a byte that continues a character. -/
theorem toNat_continuation (n : Nat) : (UInt8.ofNat (0x80 + n % 64)).toNat = 0x80 + n % 64 :=
  UInt8.toNat_ofNat_of_lt' (show 0x80 + n % 64 < 256 by omega)

namespace Pending

variable {pending : Pending} {c : Char}

/-- The bits of a pending character with those of its next byte. -/
theorem Awaits.bits_next (h : pending.Awaits c.toNat) :
    pending.bits * 64 + (0x80 + c.toNat / 64 ^ pending.after % 64 - 0x80) =
      c.toNat / 64 ^ pending.after := by
  have hsplit : c.toNat / 64 ^ (pending.after + 1) = c.toNat / 64 ^ pending.after / 64 := by
    rw [Nat.pow_succ, Nat.div_div_eq_div_mul]
  rw [h.bits, hsplit]
  omega

/-- The last byte of a character completes it. -/
theorem Awaits.extend_last (h : pending.Awaits c.toNat) (hafter : pending.after = 0) :
    pending.extend (UInt8.ofNat (0x80 + c.toNat % 64)) = .complete c := by
  have hbits := h.bits_next
  have hlow := h.low
  have hhigh := h.high
  rw [hafter, Nat.pow_zero, Nat.div_one] at hbits hlow hhigh
  unfold extend
  rw [toNat_continuation]
  dsimp only
  rw [if_pos ⟨hlow, hhigh⟩, hafter, hbits]
  exact congrArg Begun.complete (Char.ofNat_toNat c)

/-- Any other byte leaves it pending, with one byte less to come. -/
theorem Awaits.extend (h : pending.Awaits c.toNat) {after : Nat}
    (hafter : pending.after = after + 1) :
    ∃ more, pending.extend (UInt8.ofNat (0x80 + c.toNat / 64 ^ (after + 1) % 64)) = .pending more ∧
      more.after = after ∧ more.Awaits c.toNat := by
  have hbits := h.bits_next
  have hlow := h.low
  have hhigh := h.high
  rw [hafter] at hbits hlow hhigh
  refine ⟨⟨pending.start, pending.lead, pending.size + 1, c.toNat / 64 ^ (after + 1), after, 0x80,
    0xbf⟩, ?_, rfl, rfl, Nat.le_add_right _ _, ?_⟩
  · unfold Pending.extend
    rw [toNat_continuation]
    dsimp only
    rw [if_pos ⟨hlow, hhigh⟩, hafter, hbits]
  · dsimp only
    omega

/-- A pending character is read to its end. -/
theorem Awaits.decodeOnto_continuation (h : pending.Awaits c.toNat) (done : List Char)
    (position : Nat) (bytes : List UInt8) :
    ∃ next, decodeOnto done (some pending) position
      (continuation c.toNat pending.after ++ bytes) = decodeOnto (c :: done) none next bytes := by
  generalize hafter : pending.after = after
  induction after generalizing pending position with
  | zero =>
    refine ⟨position + 1, ?_⟩
    rw [continuation, List.singleton_append, decodeOnto]
    rw [h.extend_last hafter]
  | succ after ih =>
    obtain ⟨more, hextend, hmore, hawaits⟩ := h.extend hafter
    obtain ⟨next, hnext⟩ := ih hawaits (position + 1) hmore
    refine ⟨next, ?_⟩
    rw [continuation, List.cons_append, decodeOnto]
    rw [hextend]
    exact hnext

end Pending

/-- The value of a character is in the range of Unicode and no surrogate. -/
theorem toNat_lt_or (c : Char) : c.toNat < 0xd800 ∨ 0xdfff < c.toNat ∧ c.toNat < 0x110000 :=
  c.valid

/-- A character of two bytes is pending after its first. -/
theorem exists_begin_two {n : Nat} (hlow : 0x80 ≤ n) (hhigh : n < 0x800) (start : Nat) :
    ∃ pending, begin start (UInt8.ofNat (0xc0 + n / 64)) = .pending pending ∧
      pending.after = 0 ∧ pending.Awaits n := by
  have hvalue : (UInt8.ofNat (0xc0 + n / 64)).toNat = 0xc0 + n / 64 :=
    UInt8.toNat_ofNat_of_lt' (show 0xc0 + n / 64 < 256 by omega)
  refine ⟨⟨start, UInt8.ofNat (0xc0 + n / 64), 1, n / 64, 0, 0x80, 0xbf⟩, ?_, rfl, ?_⟩
  · rw [begin, hvalue, if_neg (by omega), if_neg (by omega), if_pos (by omega),
      Nat.add_sub_cancel_left]
  · exact ⟨rfl, Nat.le_add_right _ _, by dsimp only; omega⟩

/-- A character of three bytes is pending after its first. -/
theorem exists_begin_three {c : Char} (hlow : 0x800 ≤ c.toNat) (hhigh : c.toNat < 0x10000)
    (start : Nat) :
    ∃ pending, begin start (UInt8.ofNat (0xe0 + c.toNat / 4096)) = .pending pending ∧
      pending.after = 1 ∧ pending.Awaits c.toNat := by
  have hvalid := toNat_lt_or c
  generalize c.toNat = n at hlow hhigh hvalid ⊢
  have hvalue : (UInt8.ofNat (0xe0 + n / 4096)).toNat = 0xe0 + n / 4096 :=
    UInt8.toNat_ofNat_of_lt' (show 0xe0 + n / 4096 < 256 by omega)
  rw [begin, hvalue, if_neg (by omega), if_neg (by omega), if_neg (by omega)]
  by_cases hfirst : 0xe0 + n / 4096 = 0xe0
  · refine ⟨_, if_pos hfirst, rfl, ?_, ?_, ?_⟩ <;> dsimp only <;> omega
  · rw [if_neg hfirst]
    by_cases hlast : 0xe0 + n / 4096 = 0xed
    · refine ⟨_, if_pos hlast, rfl, ?_, ?_, ?_⟩ <;> dsimp only <;> omega
    · rw [if_neg hlast]
      refine ⟨_, if_pos (by omega), rfl, ?_, ?_, ?_⟩ <;> dsimp only <;> omega

/-- A character of four bytes is pending after its first. -/
theorem exists_begin_four {n : Nat} (hlow : 0x10000 ≤ n) (hhigh : n < 0x110000) (start : Nat) :
    ∃ pending, begin start (UInt8.ofNat (0xf0 + n / 262144)) = .pending pending ∧
      pending.after = 2 ∧ pending.Awaits n := by
  have hvalue : (UInt8.ofNat (0xf0 + n / 262144)).toNat = 0xf0 + n / 262144 :=
    UInt8.toNat_ofNat_of_lt' (show 0xf0 + n / 262144 < 256 by omega)
  rw [begin, hvalue, if_neg (by omega), if_neg (by omega), if_neg (by omega), if_neg (by omega),
    if_neg (by omega), if_neg (by omega)]
  by_cases hfirst : 0xf0 + n / 262144 = 0xf0
  · refine ⟨_, if_pos hfirst, rfl, ?_, ?_, ?_⟩ <;> dsimp only <;> omega
  · rw [if_neg hfirst]
    by_cases hlast : 0xf0 + n / 262144 < 0xf4
    · refine ⟨_, if_pos hlast, rfl, ?_, ?_, ?_⟩ <;> dsimp only <;> omega
    · rw [if_neg hlast]
      refine ⟨_, if_pos (by omega), rfl, ?_, ?_, ?_⟩ <;> dsimp only <;> omega

/-- A character beyond ASCII is one that its first byte leaves pending, and the bytes after it. -/
theorem exists_pending {c : Char} (h : 0x80 ≤ c.toNat) (start : Nat) :
    ∃ lead pending, begin start lead = .pending pending ∧ pending.Awaits c.toNat ∧
      encodeChar c = lead :: continuation c.toNat pending.after := by
  have hvalid := toNat_lt_or c
  unfold encodeChar
  dsimp only
  rw [if_neg (Nat.not_lt.mpr h)]
  by_cases htwo : c.toNat < 0x800
  · obtain ⟨pending, hbegin, hafter, hawaits⟩ := exists_begin_two h htwo start
    exact ⟨_, pending, hbegin, hawaits, by rw [if_pos htwo, hafter]; rfl⟩
  · by_cases hthree : c.toNat < 0x10000
    · obtain ⟨pending, hbegin, hafter, hawaits⟩ :=
        exists_begin_three (Nat.not_lt.mp htwo) hthree start
      exact ⟨_, pending, hbegin, hawaits, by rw [if_neg htwo, if_pos hthree, hafter]; rfl⟩
    · obtain ⟨pending, hbegin, hafter, hawaits⟩ :=
        exists_begin_four (Nat.not_lt.mp hthree) (by omega) start
      exact ⟨_, pending, hbegin, hawaits, by rw [if_neg htwo, if_neg hthree, hafter]; rfl⟩

/-- A character is read from its bytes. -/
theorem decodeOnto_encodeChar (c : Char) (done : List Char) (position : Nat) (bytes : List UInt8) :
    ∃ next, decodeOnto done none position (encodeChar c ++ bytes) =
      decodeOnto (c :: done) none next bytes := by
  by_cases h : c.toNat < 0x80
  · refine ⟨position + 1, ?_⟩
    have hvalue : (UInt8.ofNat c.toNat).toNat = c.toNat :=
      UInt8.toNat_ofNat_of_lt' (show c.toNat < 256 by omega)
    have hbegin : begin position (UInt8.ofNat c.toNat) = .complete c := by
      rw [begin, hvalue, if_pos h, Char.ofNat_toNat]
    rw [encodeChar, if_pos h, List.singleton_append, decodeOnto]
    rw [hbegin]
  · obtain ⟨lead, pending, hbegin, hawaits, hbytes⟩ := exists_pending (Nat.not_lt.mp h) position
    obtain ⟨next, hnext⟩ := hawaits.decodeOnto_continuation done (position + 1) bytes
    refine ⟨next, ?_⟩
    rw [hbytes, List.cons_append, decodeOnto]
    rw [hbegin]
    exact hnext

/-- A text is read from its bytes, after what is already read. -/
theorem decodeOnto_encode (text done : List Char) (position : Nat) :
    decodeOnto done none position (encode text) = .ok (done.reverse ++ text) := by
  induction text generalizing done position with
  | nil => rw [List.append_nil]; rfl
  | cons c text ih =>
    obtain ⟨next, hnext⟩ := decodeOnto_encodeChar c done position (encode text)
    rw [encode, List.flatMap_cons, ← encode, hnext, ih, List.reverse_cons, List.append_assoc,
      List.singleton_append]

/-- Every text is read back from its bytes. -/
theorem decode_encode (text : List Char) : decode (encode text) = .ok text :=
  decodeOnto_encode text [] 0

end ExprLang.Text.Utf8
