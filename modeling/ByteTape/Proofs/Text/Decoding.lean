import ByteTape.Text.Utf8
import Mathlib.Data.List.Basic
import Mathlib.Tactic.SplitIfs

/-!
# Decoding with replacement

What bytes denote, told without a decoder: characters by their encodings, and a replacement for
each maximal ill-formed subpart. The decoder reads from bytes exactly what they denote.

## Main definitions

* `IsSubpart`: the bytes in front of others are a maximal ill-formed subpart.
* `Denotes`: the texts that bytes denote.
-/

namespace ByteTape.Text

open String (utf8EncodeChar)

/-! ## Subparts and what they stand for -/

/-- With these bytes the encoding of some character starts. -/
def Begins (piece : List UInt8) : Prop := ∃ c, piece <+: utf8EncodeChar c

/-- A maximal ill-formed subpart. No character stands here; the piece is the longest with which the
encoding of one starts, or a single byte where none does. -/
structure IsSubpart (piece rest : List UInt8) : Prop where
  unreadable : ∀ c, ¬ utf8EncodeChar c <+: piece ++ rest
  begins : piece ≠ [] ∧ (piece.length = 1 ∨ Begins piece)
  longest : ∀ other, other <+: piece ++ rest → Begins other → other.length ≤ piece.length

/-- Bytes denote a text: front to back, a character by its encoding or a replacement by an
ill-formed subpart. -/
inductive Denotes : List UInt8 → List Char → Prop where
  | nil : Denotes [] []
  | char (c : Char) {rest : List UInt8} {text : List Char} (further : Denotes rest text) :
    Denotes (utf8EncodeChar c ++ rest) (c :: text)
  | subpart {piece rest : List UInt8} {text : List Char} (h : IsSubpart piece rest)
    (further : Denotes rest text) : Denotes (piece ++ rest) (replacement :: text)

/-- Where no character stands, there is only one ill-formed subpart. -/
theorem IsSubpart.unique {piece piece' rest rest' : List UInt8} (h : IsSubpart piece rest)
    (h' : IsSubpart piece' rest') (same : piece ++ rest = piece' ++ rest') :
    piece = piece' ∧ rest = rest' := by
  have le {p p' r r' : List UInt8} (h : IsSubpart p r) (h' : IsSubpart p' r')
      (same : p ++ r = p' ++ r') : p'.length ≤ p.length := by
    obtain ⟨filled, single | begins⟩ := h'.begins
    · rw [single]
      exact List.length_pos_of_ne_nil h.begins.1
    · exact h.longest p' (same ▸ List.prefix_append p' r') begins
  exact List.append_inj same (Nat.le_antisymm (le h' h same.symm) (le h h' same))

/-! ## The bytes after a lead byte -/

/-- The bytes are in range after a lead byte that promises `more`. There may be fewer. -/
def Fits (low high more : Nat) : List UInt8 → Prop
  | [] => True
  | b :: rest => 0 < more ∧ (low ≤ b.toNat ∧ b.toNat ≤ high) ∧ Fits 0x80 0xbf (more - 1) rest

/-- The code point that the bits of a lead byte and the bytes after it give. -/
def codeOf (bits : Nat) (tail : List UInt8) : Nat :=
  tail.foldl (fun n b => n * 64 + b.toNat % 64) bits

theorem toNat_ofNat_of_lt {n : Nat} (h : n < 256) : (UInt8.ofNat n).toNat = n := by
  rw [UInt8.toNat_ofNat', Nat.mod_eq_of_lt h]

theorem Fits.of_prefix {low high more : Nat} {piece tail : List UInt8}
    (fits : Fits low high more tail) (h : piece <+: tail) : Fits low high more piece := by
  induction tail generalizing low high more piece with
  | nil =>
    rw [List.prefix_nil.1 h]
    exact trivial
  | cons b rest ih =>
    cases piece with
    | nil => exact trivial
    | cons x piece =>
      obtain ⟨rfl, within⟩ := List.cons_prefix_cons.1 h
      exact ⟨fits.1, fits.2.1, ih fits.2.2 within⟩

/-- Bytes in range can be filled up to all that are promised. -/
theorem Fits.exists_whole {low high more : Nat} {piece : List UInt8}
    (fits : Fits low high more piece) (range : low ≤ high) (small : high ≤ 0xbf) :
    ∃ tail, piece <+: tail ∧ Fits low high more tail ∧ tail.length = more := by
  induction more generalizing low high piece with
  | zero =>
    cases piece with
    | nil => exact ⟨[], List.prefix_rfl, trivial, rfl⟩
    | cons => exact absurd fits.1 (Nat.lt_irrefl 0)
  | succ more ih =>
    cases piece with
    | nil =>
      obtain ⟨tail, -, later, size⟩ : ∃ tail, [] <+: tail ∧ Fits 0x80 0xbf more tail ∧
          tail.length = more := ih trivial (by decide) (Nat.le_refl _)
      have first : (UInt8.ofNat low).toNat = low := toNat_ofNat_of_lt (by omega)
      refine ⟨UInt8.ofNat low :: tail, List.nil_prefix, ⟨Nat.succ_pos _, ?_, later⟩,
        congrArg (· + 1) size⟩
      rw [first]
      exact ⟨Nat.le_refl _, range⟩
    | cons b piece =>
      obtain ⟨tail, h, later, size⟩ := ih fits.2.2 (by decide) (Nat.le_refl _)
      exact ⟨b :: tail, List.cons_prefix_cons.2 ⟨rfl, h⟩, ⟨fits.1, fits.2.1, later⟩,
        congrArg (· + 1) size⟩

theorem follow_of_fits {bits low high more : Nat} {tail : List UInt8} (rest : List UInt8)
    (fits : Fits low high more tail) (whole : tail.length = more) :
    follow bits low high more (tail ++ rest) = (some (codeOf bits tail), rest) := by
  induction tail generalizing bits low high more with
  | nil =>
    subst whole
    rfl
  | cons b tail ih =>
    subst whole
    rw [List.length_cons, List.cons_append, follow, if_pos fits.2.1]
    exact ih fits.2.2 rfl

/-- What is read behind a lead byte: all the bytes that it promises, or else the most that are in
range. -/
theorem exists_of_follow (bits low high more : Nat) (bytes : List UInt8) :
    ∃ read, bytes = read ++ (follow bits low high more bytes).2 ∧ Fits low high more read ∧
      (read.length = more ∧ (follow bits low high more bytes).1 = some (codeOf bits read) ∨
        (follow bits low high more bytes).1 = none ∧
          ∀ other, other <+: bytes → Fits low high more other → other.length ≤ read.length) := by
  fun_induction follow bits low high more bytes with
  | case1 bits low high rest => exact ⟨[], rfl, trivial, .inl ⟨rfl, rfl⟩⟩
  | case2 bits low high more =>
    refine ⟨[], rfl, trivial, .inr ⟨rfl, ?_⟩⟩
    intro other h _
    exact h.length_le
  | case3 bits low high more b rest inside ih =>
    obtain ⟨read, whole, fits, outcome⟩ := ih
    refine ⟨b :: read, congrArg (b :: ·) whole, ⟨Nat.succ_pos _, inside, fits⟩, ?_⟩
    refine outcome.imp (And.imp_left (congrArg (· + 1))) ?_
    rintro ⟨nothing, longest⟩
    refine ⟨nothing, ?_⟩
    intro other h fitsOther
    cases other with
    | nil => exact Nat.zero_le _
    | cons x other =>
      obtain ⟨rfl, within⟩ := List.cons_prefix_cons.1 h
      exact Nat.succ_le_succ (longest other within fitsOther.2.2)
  | case4 bits low high more b rest outside =>
    refine ⟨[], rfl, trivial, .inr ⟨rfl, ?_⟩⟩
    intro other h fits
    cases other with
    | nil => exact Nat.le_refl _
    | cons x other =>
      obtain ⟨rfl, -⟩ := List.cons_prefix_cons.1 h
      exact absurd fits.2.1 outside

/-! ## Lead bytes and the characters they begin -/

/-- The lead bytes by the number of bytes they promise. -/
theorem lead?_eq_some_iff {b : Nat} {lead : Lead} :
    lead? b = some lead ↔
      (0xc2 ≤ b ∧ b ≤ 0xdf) ∧ lead = ⟨b - 0xc0, 0x80, 0xbf, 1⟩ ∨
      (0xe0 ≤ b ∧ b ≤ 0xef) ∧ lead = ⟨b - 0xe0, if b = 0xe0 then 0xa0 else 0x80,
        if b = 0xed then 0x9f else 0xbf, 2⟩ ∨
      (0xf0 ≤ b ∧ b ≤ 0xf4) ∧ lead = ⟨b - 0xf0, if b = 0xf0 then 0x90 else 0x80,
        if b = 0xf4 then 0x8f else 0xbf, 3⟩ := by
  unfold lead?
  grind

theorem toNat_val_ofNat {n : Nat} (valid : n.isValidChar) : (Char.ofNat n).val.toNat = n := by
  rw [Char.ofNat, dif_pos valid]
  rfl

theorem ofNat_eq {n : Nat} {b : UInt8} (h : n = b.toNat) : UInt8.ofNat n = b := by
  rw [h, UInt8.ofNat_toNat]

/-- A lead byte and all the bytes that it promises encode the character they give. -/
theorem utf8EncodeChar_codeOf {b : UInt8} {lead : Lead} {tail : List UInt8}
    (h : lead? b.toNat = some lead) (fits : Fits lead.low lead.high lead.more tail)
    (whole : tail.length = lead.more) :
    utf8EncodeChar (Char.ofNat (codeOf lead.bits tail)) = b :: tail := by
  rcases lead?_eq_some_iff.1 h with ⟨range, rfl⟩ | ⟨range, rfl⟩ | ⟨range, rfl⟩
  · obtain ⟨x, rfl⟩ := List.length_eq_one_iff.1 whole
    obtain ⟨-, hx, -⟩ := fits
    dsimp only at hx ⊢
    have code : codeOf (b.toNat - 0xc0) [x] = (b.toNat - 0xc0) * 64 + x.toNat % 64 := rfl
    generalize codeOf _ [x] = n at code ⊢
    have valid : n.isValidChar := .inl (by omega)
    rw [utf8EncodeChar, toNat_val_ofNat valid, if_neg (by omega), if_pos (by omega)]
    rw [ofNat_eq (b := b) (by omega), ofNat_eq (b := x) (by omega)]
  · obtain ⟨x, y, rfl⟩ := List.length_eq_two.1 whole
    obtain ⟨-, hx, -, hy, -⟩ := fits
    have inside : 0x80 ≤ x.toNat ∧ x.toNat ≤ 0xbf ∧ (b.toNat = 0xe0 → 0xa0 ≤ x.toNat) ∧
        (b.toNat = 0xed → x.toNat ≤ 0x9f) := by grind
    have code : codeOf (b.toNat - 0xe0) [x, y] =
      ((b.toNat - 0xe0) * 64 + x.toNat % 64) * 64 + y.toNat % 64 := rfl
    generalize codeOf _ [x, y] = n at code ⊢
    have valid : n.isValidChar := by
      unfold Nat.isValidChar
      omega
    rw [utf8EncodeChar, toNat_val_ofNat valid, if_neg (by omega), if_neg (by omega),
      if_pos (by omega)]
    rw [ofNat_eq (b := b) (by omega), ofNat_eq (b := x) (by omega), ofNat_eq (b := y) (by omega)]
  · obtain ⟨x, y, z, rfl⟩ := List.length_eq_three.1 whole
    obtain ⟨-, hx, -, hy, -, hz, -⟩ := fits
    have inside : 0x80 ≤ x.toNat ∧ x.toNat ≤ 0xbf ∧ (b.toNat = 0xf0 → 0x90 ≤ x.toNat) ∧
        (b.toNat = 0xf4 → x.toNat ≤ 0x8f) := by grind
    have code : codeOf (b.toNat - 0xf0) [x, y, z] =
      (((b.toNat - 0xf0) * 64 + x.toNat % 64) * 64 + y.toNat % 64) * 64 + z.toNat % 64 := rfl
    generalize codeOf _ [x, y, z] = n at code ⊢
    have valid : n.isValidChar := by
      unfold Nat.isValidChar
      omega
    rw [utf8EncodeChar, toNat_val_ofNat valid, if_neg (by omega), if_neg (by omega),
      if_neg (by omega)]
    rw [ofNat_eq (b := b) (by omega), ofNat_eq (b := x) (by omega), ofNat_eq (b := y) (by omega),
      ofNat_eq (b := z) (by omega)]

theorem Fits.cons {low high more : Nat} {b : UInt8} {tail : List UInt8}
    (range : low ≤ b.toNat ∧ b.toNat ≤ high) (fits : Fits 0x80 0xbf more tail) :
    Fits low high (more + 1) (b :: tail) :=
  ⟨Nat.succ_pos _, range, fits⟩

/-- The encoding of a character beyond ASCII: a lead byte and all the bytes that it promises. -/
theorem exists_lead {c : Char} (beyond : 0x80 ≤ c.toNat) :
    ∃ b lead tail, utf8EncodeChar c = b :: tail ∧ lead? b.toNat = some lead ∧
      Fits lead.low lead.high lead.more tail ∧ tail.length = lead.more ∧
      codeOf lead.bits tail = c.toNat := by
  have valid : c.val.toNat < 0xd800 ∨ 0xdfff < c.val.toNat ∧ c.val.toNat < 0x110000 := c.valid
  change 0x80 ≤ c.val.toNat at beyond
  change ∃ b lead tail, _ ∧ _ ∧ _ ∧ _ ∧ _ = c.val.toNat
  unfold utf8EncodeChar
  generalize c.val.toNat = v at *
  have last (k : Nat) : (UInt8.ofNat (k % 64 + 128)).toNat = k % 64 + 128 :=
    toNat_ofNat_of_lt (by omega)
  by_cases two : v ≤ 0x7ff
  · rw [if_neg (by omega), if_pos two]
    have first : (UInt8.ofNat (v / 64 % 32 + 192)).toNat = v / 64 % 32 + 192 :=
      toNat_ofNat_of_lt (by omega)
    refine ⟨_, _, _, rfl, lead?_eq_some_iff.2 (.inl ⟨?_, rfl⟩), .cons ?_ trivial, rfl, ?_⟩
    · omega
    · dsimp only
      rw [last]
      omega
    · simp only [codeOf, List.foldl, first, last]
      omega
  rw [if_neg (by omega), if_neg two]
  by_cases three : v ≤ 0xffff
  · rw [if_pos three]
    have first : (UInt8.ofNat (v / 4096 % 16 + 224)).toNat = v / 4096 % 16 + 224 :=
      toNat_ofNat_of_lt (by omega)
    refine ⟨_, _, _, rfl, lead?_eq_some_iff.2 (.inr (.inl ⟨?_, rfl⟩)),
      .cons ?_ (.cons ?_ trivial), rfl, ?_⟩
    · omega
    · dsimp only
      rw [first, last]
      split_ifs <;> omega
    · rw [last]
      omega
    · simp only [codeOf, List.foldl, first, last]
      omega
  · rw [if_neg three]
    have first : (UInt8.ofNat (v / 262144 % 8 + 240)).toNat = v / 262144 % 8 + 240 :=
      toNat_ofNat_of_lt (by omega)
    refine ⟨_, _, _, rfl, lead?_eq_some_iff.2 (.inr (.inr ⟨?_, rfl⟩)),
      .cons ?_ (.cons ?_ (.cons ?_ trivial)), rfl, ?_⟩
    · omega
    · dsimp only
      rw [first, last]
      split_ifs <;> omega
    · rw [last]
      omega
    · rw [last]
      omega
    · simp only [codeOf, List.foldl, first, last]
      omega

/-! ## What the decoder reads -/

theorem utf8EncodeChar_of_lt {c : Char} (h : c.toNat < 0x80) :
    utf8EncodeChar c = [UInt8.ofNat c.toNat] := by
  change c.val.toNat < 0x80 at h
  rw [utf8EncodeChar, if_pos (by omega)]
  rfl

theorem utf8EncodeChar_ofNat_of_lt {b : UInt8} (h : b.toNat < 0x80) :
    utf8EncodeChar (Char.ofNat b.toNat) = [b] := by
  have value : (Char.ofNat b.toNat).toNat = b.toNat := toNat_val_ofNat (.inl (by omega))
  rw [utf8EncodeChar_of_lt (by omega), value, UInt8.ofNat_toNat]

/-- Which bytes beyond ASCII an encoding starts with. -/
theorem begins_cons_iff {b : UInt8} {tail : List UInt8} (beyond : 0x80 ≤ b.toNat) :
    Begins (b :: tail) ↔
      ∃ lead, lead? b.toNat = some lead ∧ Fits lead.low lead.high lead.more tail := by
  constructor
  · rintro ⟨c, h⟩
    by_cases ascii : c.toNat < 0x80
    · rw [utf8EncodeChar_of_lt ascii] at h
      obtain ⟨rfl, -⟩ := List.cons_prefix_cons.1 h
      rw [toNat_ofNat_of_lt (by omega)] at beyond
      omega
    · obtain ⟨b', lead, whole, bytes, promise, fits, -, -⟩ := exists_lead (Nat.not_lt.1 ascii)
      rw [bytes] at h
      obtain ⟨rfl, within⟩ := List.cons_prefix_cons.1 h
      exact ⟨lead, promise, fits.of_prefix within⟩
  · rintro ⟨lead, promise, fits⟩
    have range : lead.low ≤ lead.high ∧ lead.high ≤ 0xbf := by
      rcases lead?_eq_some_iff.1 promise with ⟨-, rfl⟩ | ⟨-, rfl⟩ | ⟨-, rfl⟩ <;> grind
    obtain ⟨whole, within, fitsWhole, size⟩ := fits.exists_whole range.1 range.2
    refine ⟨Char.ofNat (codeOf lead.bits whole), ?_⟩
    rw [utf8EncodeChar_codeOf promise fitsWhole size]
    exact List.cons_prefix_cons.2 ⟨rfl, within⟩

/-- The bytes of a character are read as that character. -/
theorem decodeUtf8_utf8EncodeChar_append (c : Char) (rest : List UInt8) :
    decodeUtf8 (utf8EncodeChar c ++ rest) = c :: decodeUtf8 rest := by
  by_cases ascii : c.toNat < 0x80
  · have value : (UInt8.ofNat c.toNat).toNat = c.toNat := toNat_ofNat_of_lt (by omega)
    rw [utf8EncodeChar_of_lt ascii, List.singleton_append, decodeUtf8, if_pos (by omega), value,
      Char.ofNat_toNat]
  · obtain ⟨b, lead, tail, bytes, promise, fits, size, value⟩ := exists_lead (Nat.not_lt.1 ascii)
    have beyond : ¬ b.toNat < 0x80 := by
      have := lead?_eq_some_iff.1 promise
      omega
    rw [bytes, List.cons_append, decodeUtf8, if_neg beyond]
    simp only [promise, follow_of_fits rest fits size, value, Option.elim, Char.ofNat_toNat]

/-- In front of bytes stands a character or an ill-formed subpart, and is read as such. -/
theorem decodeUtf8_cons_cases (b : UInt8) (rest : List UInt8) :
    (∃ c after, b :: rest = utf8EncodeChar c ++ after ∧
      decodeUtf8 (b :: rest) = c :: decodeUtf8 after) ∨
    ∃ piece after, b :: rest = piece ++ after ∧ IsSubpart piece after ∧
      decodeUtf8 (b :: rest) = replacement :: decodeUtf8 after := by
  by_cases readable : ∃ c, utf8EncodeChar c <+: b :: rest
  · obtain ⟨c, after, whole⟩ := readable
    refine .inl ⟨c, after, whole.symm, ?_⟩
    rw [← whole, decodeUtf8_utf8EncodeChar_append]
  have unreadable : ∀ c, ¬ utf8EncodeChar c <+: b :: rest := not_exists.1 readable
  have beyond : ¬ b.toNat < 0x80 := by
    intro ascii
    apply unreadable (Char.ofNat b.toNat)
    rw [utf8EncodeChar_ofNat_of_lt ascii]
    exact List.prefix_append [b] rest
  right
  cases promise : lead? b.toNat with
  | none =>
    refine ⟨[b], rest, rfl, ⟨unreadable, ⟨List.cons_ne_nil _ _, .inl rfl⟩, ?_⟩, ?_⟩
    · intro other h begins
      cases other with
      | nil => exact Nat.zero_le _
      | cons x tail =>
        obtain ⟨rfl, -⟩ := List.cons_prefix_cons.1 h
        obtain ⟨lead, found, -⟩ := (begins_cons_iff (Nat.not_lt.1 beyond)).1 begins
        cases promise.symm.trans found
    · rw [decodeUtf8, if_neg beyond]
      simp only [promise]
  | some lead =>
    obtain ⟨read, whole, fits, ⟨size, value⟩ | ⟨nothing, longest⟩⟩ :=
      exists_of_follow lead.bits lead.low lead.high lead.more rest
    · refine absurd ?_ (unreadable (Char.ofNat (codeOf lead.bits read)))
      rw [utf8EncodeChar_codeOf promise fits size, List.cons_prefix_cons]
      exact ⟨rfl, _, whole.symm⟩
    · refine ⟨b :: read, _, congrArg (b :: ·) whole, ⟨?_, ⟨List.cons_ne_nil _ _, .inr ?_⟩, ?_⟩, ?_⟩
      · rwa [List.cons_append, ← whole]
      · exact (begins_cons_iff (Nat.not_lt.1 beyond)).2 ⟨lead, promise, fits⟩
      · intro other h begins
        rw [List.cons_append, ← whole] at h
        cases other with
        | nil => exact Nat.zero_le _
        | cons x tail =>
          obtain ⟨rfl, within⟩ := List.cons_prefix_cons.1 h
          obtain ⟨_, found, fitsTail⟩ := (begins_cons_iff (Nat.not_lt.1 beyond)).1 begins
          cases promise.symm.trans found
          exact Nat.succ_le_succ (longest tail within fitsTail)
      · rw [decodeUtf8, if_neg beyond]
        simp only [promise, nothing, Option.elim]

/-- An ill-formed subpart is read as one replacement. -/
theorem decodeUtf8_subpart_append {piece rest : List UInt8} (h : IsSubpart piece rest) :
    decodeUtf8 (piece ++ rest) = replacement :: decodeUtf8 rest := by
  obtain ⟨b, tail, rfl⟩ := List.exists_cons_of_ne_nil h.begins.1
  rcases decodeUtf8_cons_cases b (tail ++ rest) with ⟨c, after, whole, -⟩ |
    ⟨piece', after, whole, h', read⟩
  · exact absurd ⟨after, whole.symm⟩ (h.unreadable c)
  · obtain ⟨-, rfl⟩ := h.unique h' whole
    exact read

/-- What the decoder makes of bytes is a text they denote. -/
theorem denotes_decodeUtf8 (bytes : List UInt8) : Denotes bytes (decodeUtf8 bytes) := by
  induction size : bytes.length using Nat.strongRecOn generalizing bytes with
  | ind n ih =>
    cases bytes with
    | nil =>
      rw [decodeUtf8]
      exact .nil
    | cons b rest =>
      rcases decodeUtf8_cons_cases b rest with ⟨c, after, whole, read⟩ |
        ⟨piece, after, whole, h, read⟩
      · have front := List.length_pos_of_ne_nil (String.utf8EncodeChar_ne_nil (c := c))
        rw [whole, List.length_append] at size
        rw [read, whole]
        exact .char c (ih after.length (by omega) after rfl)
      · have front := List.length_pos_of_ne_nil h.begins.1
        rw [whole, List.length_append] at size
        rw [read, whole]
        exact .subpart h (ih after.length (by omega) after rfl)

/-- Bytes denote what the decoder makes of them and nothing else. -/
theorem denotes_iff {bytes : List UInt8} {text : List Char} :
    Denotes bytes text ↔ text = decodeUtf8 bytes := by
  constructor
  · intro h
    induction h with
    | nil => rw [decodeUtf8]
    | char c _ ih => rw [decodeUtf8_utf8EncodeChar_append, ih]
    | subpart h _ ih => rw [decodeUtf8_subpart_append h, ih]
  · rintro rfl
    exact denotes_decodeUtf8 bytes

/-! ## Bytes of characters and of subparts -/

theorem Fits.le_of_mem {low high more : Nat} {tail : List UInt8} (fits : Fits low high more tail)
    (least : 0x80 ≤ low) {b : UInt8} (h : b ∈ tail) : 0x80 ≤ b.toNat := by
  induction tail generalizing low high more with
  | nil => cases h
  | cons x tail ih =>
    cases h with
    | head => exact Nat.le_trans least fits.2.1.1
    | tail _ h => exact ih fits.2.2 (Nat.le_refl _) h

/-- No byte of a character beyond ASCII is ASCII. -/
theorem le_of_mem_utf8EncodeChar {c : Char} (beyond : 0x80 ≤ c.toNat) {b : UInt8}
    (h : b ∈ utf8EncodeChar c) : 0x80 ≤ b.toNat := by
  obtain ⟨first, lead, tail, bytes, promise, fits, -, -⟩ := exists_lead beyond
  have range := lead?_eq_some_iff.1 promise
  rw [bytes] at h
  cases h with
  | head => omega
  | tail _ h =>
    refine fits.le_of_mem ?_ h
    rcases range with ⟨-, rfl⟩ | ⟨-, rfl⟩ | ⟨-, rfl⟩ <;> grind

/-- No byte of an ill-formed subpart is ASCII. -/
theorem IsSubpart.le_of_mem {piece rest : List UInt8} (h : IsSubpart piece rest) {b : UInt8}
    (hb : b ∈ piece) : 0x80 ≤ b.toNat := by
  obtain ⟨filled, single | ⟨c, begins⟩⟩ := h.begins
  · obtain ⟨x, rfl⟩ := List.length_eq_one_iff.1 single
    obtain rfl := List.mem_singleton.1 hb
    by_contra ascii
    apply h.unreadable (Char.ofNat b.toNat)
    rw [utf8EncodeChar_ofNat_of_lt (Nat.not_le.1 ascii)]
    exact List.prefix_append [b] rest
  · by_cases ascii : c.toNat < 0x80
    · rw [utf8EncodeChar_of_lt ascii] at begins
      have whole : piece = [UInt8.ofNat c.toNat] :=
        begins.eq_of_length_le (List.length_pos_of_ne_nil filled)
      refine absurd ?_ (h.unreadable c)
      rw [utf8EncodeChar_of_lt ascii, ← whole]
      exact List.prefix_append piece rest
    · exact le_of_mem_utf8EncodeChar (Nat.not_lt.1 ascii) (begins.subset hb)

/-- The bytes of a text are the encodings of its characters. -/
theorem encodeUtf8_ofList (text : List Char) :
    encodeUtf8 (String.ofList text) = text.flatMap utf8EncodeChar := by
  simp [encodeUtf8, List.utf8Encode]

end ByteTape.Text
