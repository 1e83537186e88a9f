import ByteTape.Text.Numeral
import ByteTape.Text.Words
import Mathlib.Algebra.Ring.Nat
import Mathlib.Data.List.Basic

/-!
# Typing plainly

Words without quotes and escapes, with blanks between them, are split into what they are. A whole
number in decimal digits is read as itself, unless it has too many digits, and different numbers
have different digits.
-/

namespace ByteTape.Text

/-! ## Plain characters -/

theorem isBlank_of_isSeparator {c : Char} (h : isSeparator c = true) : isBlank c = true := by
  simp only [isSeparator, Bool.or_eq_true, beq_iff_eq] at h
  rcases h with ((rfl | rfl) | rfl) | rfl <;> decide

theorem isBlank_of_isPadding {c : Char} (h : isPadding c = true) : isBlank c = true := by
  simp only [isPadding, Bool.or_eq_true, beq_iff_eq] at h
  rcases h with rfl | h
  · decide
  · simp [isBlank, h]

/-- The character stands for itself in a word. -/
structure IsPlain (c : Char) : Prop where
  visible : isBlank c = false
  quote : isQuote c = false
  escape : isEscape c = false

instance : DecidablePred IsPlain := fun c =>
  decidable_of_iff (isBlank c = false ∧ isQuote c = false ∧ isEscape c = false)
    ⟨fun h => ⟨h.1, h.2.1, h.2.2⟩, fun h => ⟨h.visible, h.quote, h.escape⟩⟩

theorem IsPlain.isSeparator {c : Char} (h : IsPlain c) : isSeparator c = false :=
  Bool.eq_false_iff.2 fun blank => Bool.eq_false_iff.1 h.visible (isBlank_of_isSeparator blank)

theorem IsPlain.isPadding {c : Char} (h : IsPlain c) : isPadding c = false :=
  Bool.eq_false_iff.2 fun blank => Bool.eq_false_iff.1 h.visible (isBlank_of_isPadding blank)

/-- Nothing is trimmed where neither end is blank. -/
theorem trimBy_eq_self {blank : Char → Bool} {cs : List Char}
    (first : ∀ c ∈ cs.head?, blank c = false) (last : ∀ c ∈ cs.getLast?, blank c = false) :
    trimBy blank cs = cs := by
  have keeps (l : List Char) (h : ∀ c ∈ l.head?, blank c = false) : l.dropWhile blank = l := by
    cases l with
    | nil => rfl
    | cons c l => rw [List.dropWhile_cons_of_neg (by simp [h c rfl])]
  rw [trimBy, keeps cs first, keeps cs.reverse (by rwa [List.head?_reverse]), List.reverse_reverse]

/-! ## Words -/

variable {cs : List Char}

theorem wordsFrom_plain_append (plain : ∀ c ∈ cs, IsPlain c) (word rest : List Char) :
    wordsFrom .plain word (cs ++ rest) = wordsFrom .plain (cs.reverse ++ word) rest := by
  -- The word that has been begun grows with each character, in reverse.
  induction cs generalizing word with
  | nil => rfl
  | cons c cs ih =>
    obtain ⟨here, later⟩ := List.forall_mem_cons.1 plain
    simpa [wordsFrom, here.isSeparator, here.escape, here.quote] using ih later (c :: word)

theorem wordsFrom_between_append (filled : cs ≠ []) (plain : ∀ c ∈ cs, IsPlain c)
    (word rest : List Char) :
    wordsFrom .between word (cs ++ rest) = wordsFrom .plain cs.reverse rest := by
  cases cs with
  | nil => exact absurd rfl filled
  | cons c cs =>
    obtain ⟨here, later⟩ := List.forall_mem_cons.1 plain
    simpa [wordsFrom, here.isSeparator, here.escape, here.quote] using
      wordsFrom_plain_append later [c] rest

/-- Two plain words with a blank between them are split into what they are. -/
theorem wordsFrom_pair {name argument : List Char} (named : name ≠ []) (filled : argument ≠ [])
    (plainName : ∀ c ∈ name, IsPlain c) (plain : ∀ c ∈ argument, IsPlain c) (word : List Char) :
    wordsFrom .between word (name ++ ' ' :: argument) =
      .ok [String.ofList name, String.ofList argument] := by
  have second : wordsFrom .between [] argument = .ok [String.ofList argument] := by
    simpa [wordsFrom] using wordsFrom_between_append filled plain [] []
  rw [wordsFrom_between_append named plainName, wordsFrom, if_pos (by rfl), second,
    List.reverse_reverse]
  rfl

/-! ## Numerals -/

theorem readDigits_of_isDigit {afterDigit : Bool} (digits : ∀ c ∈ cs, c.isDigit)
    (filled : afterDigit ∨ cs ≠ []) (value : Nat) :
    readDigits value afterDigit cs = some (Nat.ofDigitChars 10 cs value) := by
  induction cs generalizing value afterDigit with
  | nil => simp [readDigits, filled.resolve_right (· rfl)]
  | cons c cs ih =>
    obtain ⟨digit, later⟩ := List.forall_mem_cons.1 digits
    have number : c ≠ '_' := by
      rintro rfl
      cases digit
    simpa [readDigits, number, digit, Nat.ofDigitChars_cons, Nat.mul_comm] using
      ih later (.inl rfl) (value * 10 + (c.toNat - 48))

theorem isDigit_of_mem_toDigits {c : Char} {n : Nat} (h : c ∈ Nat.toDigits 10 n) : c.isDigit :=
  Nat.isDigit_of_mem_toDigits (by decide) (by decide) h

theorem natural?_toDigits (n : Nat) :
    natural? (Nat.toDigits 10 n) = if n < 10 ^ maxDigits then some n else none := by
  have digits : ∀ c ∈ Nat.toDigits 10 n, c.isDigit := fun _ => isDigit_of_mem_toDigits
  have short : (Nat.toDigits 10 n).length ≤ maxDigits ↔ n < 10 ^ maxDigits :=
    Nat.length_toDigits_le_iff (by decide) (by decide)
  rw [natural?, List.filter_eq_self.2 digits,
    readDigits_of_isDigit digits (.inr Nat.toDigits_ne_nil), Nat.ofDigitChars_ten_toDigits]
  simp only [short]

/-- How a whole number is written. -/
theorem toList_toString_cases (n : Int) :
    (∃ k : Nat, n = k ∧ (toString n).toList = Nat.toDigits 10 k) ∨
      ∃ k : Nat, n = -k ∧ (toString n).toList = '-' :: Nat.toDigits 10 k := by
  cases n with
  | ofNat k => exact .inl ⟨k, rfl, Nat.toList_repr⟩
  | negSucc k =>
    refine .inr ⟨k + 1, rfl, ?_⟩
    rw [← Nat.toList_repr]
    exact String.toList_append

theorem toString_ne_empty (n : Int) : toString n ≠ "" := by
  intro empty
  rcases toList_toString_cases n with ⟨k, -, written⟩ | ⟨k, -, written⟩
  · exact Nat.toDigits_ne_nil (written.symm.trans (congrArg String.toList empty))
  · exact List.cons_ne_nil _ _ (written.symm.trans (congrArg String.toList empty))

theorem toDigits_injective {m n : Nat} (h : Nat.toDigits 10 m = Nat.toDigits 10 n) : m = n := by
  rw [← Nat.ofDigitChars_ten_toDigits (n := m), h, Nat.ofDigitChars_ten_toDigits]

/-- Different whole numbers are written differently. -/
theorem toString_injective {m n : Int} (h : toString m = toString n) : m = n := by
  have chars := congrArg String.toList h
  have unsigned (k l : Nat) : Nat.toDigits 10 k ≠ '-' :: Nat.toDigits 10 l := fun starts =>
    absurd (isDigit_of_mem_toDigits (starts ▸ List.mem_cons_self)) (by decide)
  rcases toList_toString_cases m with ⟨k, rfl, hk⟩ | ⟨k, rfl, hk⟩ <;>
    rcases toList_toString_cases n with ⟨l, rfl, hl⟩ | ⟨l, rfl, hl⟩ <;> rw [hk, hl] at chars
  · rw [toDigits_injective chars]
  · exact absurd chars (unsigned k l)
  · exact absurd chars.symm (unsigned l k)
  · rw [toDigits_injective (List.tail_eq_of_cons_eq chars)]

theorem toNat_of_isDigit {c : Char} (h : c.isDigit) : 48 ≤ c.toNat ∧ c.toNat ≤ 57 :=
  Char.isDigit_iff_toNat.1 h

theorem isPlain_of_isDigit {c : Char} (h : c.isDigit) : IsPlain c := by
  have range := toNat_of_isDigit h
  constructor
  · grind [isBlank]
  · grind [isQuote]
  · grind [isEscape]

theorem isDigit_or_of_mem_toString {n : Int} {c : Char} (h : c ∈ (toString n).toList) :
    c.isDigit ∨ c = '-' := by
  rcases toList_toString_cases n with ⟨k, -, written⟩ | ⟨k, -, written⟩
  · exact .inl (isDigit_of_mem_toDigits (written ▸ h))
  · rw [written, List.mem_cons] at h
    exact h.symm.imp_left isDigit_of_mem_toDigits

theorem isPlain_of_mem_toString {n : Int} {c : Char} (h : c ∈ (toString n).toList) : IsPlain c := by
  rcases isDigit_or_of_mem_toString h with digit | rfl
  · exact isPlain_of_isDigit digit
  · constructor <;> decide

theorem plainChar_of_mem_toString {n : Int} {c : Char} (h : c ∈ (toString n).toList) :
    plainChar c = c := by
  rcases isDigit_or_of_mem_toString h with digit | rfl
  · have range := toNat_of_isDigit digit
    rw [plainChar, if_pos (by omega)]
  · rfl

/-- A whole number is read as itself, unless it has too many digits. -/
theorem integer?_toString (n : Int) :
    integer? (toString n) = if n.natAbs < 10 ^ maxDigits then some n else none := by
  have kept : trimBy isPadding ((toString n).toList.map plainChar) = (toString n).toList := by
    rw [List.map_congr_left fun _ => plainChar_of_mem_toString, List.map_id']
    exact trimBy_eq_self
      (fun _ first => (isPlain_of_mem_toString (List.mem_of_head? first)).isPadding)
      (fun _ last => (isPlain_of_mem_toString (List.mem_of_getLast? last)).isPadding)
  rw [integer?, kept]
  rcases toList_toString_cases n with ⟨k, rfl, written⟩ | ⟨k, rfl, written⟩
  -- The numeral begins with a digit, so it is not taken for one with a sign.
  · have unsigned (c : Char) (rest : List Char) (sign : ¬ c.isDigit) :
        Nat.toDigits 10 k ≠ c :: rest := fun starts =>
      sign (isDigit_of_mem_toDigits (starts ▸ List.mem_cons_self))
    rw [written]
    split
    · exact absurd ‹_› (unsigned _ _ (by decide))
    · exact absurd ‹_› (unsigned _ _ (by decide))
    · rw [natural?_toDigits, Int.natAbs_natCast]
      split_ifs <;> rfl
  · simp only [written, natural?_toDigits, Int.natAbs_neg, Int.natAbs_natCast]
    split_ifs <;> rfl

end ByteTape.Text
