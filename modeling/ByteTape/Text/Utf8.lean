/-!
# UTF-8 with replacement

Reading bytes as UTF-8 never fails: each maximal ill-formed subpart becomes one replacement
character. ASCII bytes stand for themselves wherever they occur.
-/

namespace ByteTape.Text

/-- What a lead byte promises: its own bits, the range of the byte after it, and the number of
bytes that follow. -/
structure Lead where
  bits : Nat
  low : Nat
  high : Nat
  more : Nat

/-- The promise of a byte beyond ASCII. The narrowed ranges exclude overlong forms, surrogates and
numbers past the last code point. -/
def lead? (b : Nat) : Option Lead :=
  if 0xc2 ≤ b ∧ b ≤ 0xdf then some ⟨b - 0xc0, 0x80, 0xbf, 1⟩
  else if b = 0xe0 then some ⟨0, 0xa0, 0xbf, 2⟩
  else if b = 0xed then some ⟨0xd, 0x80, 0x9f, 2⟩
  else if 0xe1 ≤ b ∧ b ≤ 0xef then some ⟨b - 0xe0, 0x80, 0xbf, 2⟩
  else if b = 0xf0 then some ⟨0, 0x90, 0xbf, 3⟩
  else if 0xf1 ≤ b ∧ b ≤ 0xf3 then some ⟨b - 0xf0, 0x80, 0xbf, 3⟩
  else if b = 0xf4 then some ⟨4, 0x80, 0x8f, 3⟩
  else none

/-- Read the bytes that follow a lead byte, as far as they are in range. The first component is the
code point, if all of them are. -/
def follow (bits low high : Nat) : (more : Nat) → List UInt8 → Option Nat × List UInt8
  | 0, rest => (some bits, rest)
  | _ + 1, [] => (none, [])
  | more + 1, b :: rest =>
    if low ≤ b.toNat ∧ b.toNat ≤ high then
      follow (bits * 64 + b.toNat % 64) 0x80 0xbf more rest
    else (none, b :: rest)

theorem length_follow_le (bits low high more : Nat) (bytes : List UInt8) :
    (follow bits low high more bytes).2.length ≤ bytes.length := by
  induction more generalizing bits low high bytes with
  | zero => simp [follow]
  | succ more ih =>
    cases bytes with
    | nil => simp [follow]
    | cons b rest =>
      unfold follow
      split
      · exact Nat.le_succ_of_le (ih ..)
      · simp

/-- The character that stands for an ill-formed subpart. -/
def replacement : Char := Char.ofNat 0xfffd

/-- The text of some bytes, with replacements for what is ill-formed. -/
def decodeUtf8 (bytes : List UInt8) : List Char :=
  match bytes with
  | [] => []
  | b :: rest =>
    if b.toNat < 0x80 then Char.ofNat b.toNat :: decodeUtf8 rest
    else
      match lead? b.toNat with
      | none => replacement :: decodeUtf8 rest
      | some lead =>
        let read := follow lead.bits lead.low lead.high lead.more rest
        (read.1.elim replacement Char.ofNat) :: decodeUtf8 read.2
termination_by bytes.length
decreasing_by
  all_goals simp only [List.length_cons]
  · omega
  · omega
  · have := length_follow_le lead.bits lead.low lead.high lead.more rest
    omega

/-- The bytes of a text. -/
def encodeUtf8 (text : String) : List UInt8 := text.toUTF8.data.toList

end ByteTape.Text
