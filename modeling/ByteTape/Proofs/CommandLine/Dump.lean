import ByteTape.CommandLine.Run
import ByteTape.Proofs.Folding.Acceptance
import ByteTape.Proofs.Text.Decoding

/-!
# Commands and the bytes of a source file

Every symbol of a command is one ASCII byte, and no such byte is part of anything else: the commands
of a source file are those of its bytes that are symbols, whatever the others are. The listing of a
file as written is made of these bytes, and stands for the file.
-/

namespace ByteTape

open String (utf8EncodeChar)
open Text (encodeUtf8 decodeUtf8 Denotes)

namespace Command

/-- The command that a byte is the symbol of, if any. -/
def ofByte? (b : UInt8) : Option Command := ofSymbol? (Char.ofNat b.toNat)

/-- Whether a byte is one of the eight symbols. -/
def isSymbol (b : UInt8) : Bool := (ofByte? b).isSome

/-- The byte of a symbol. -/
def byte (c : Command) : UInt8 := UInt8.ofNat c.symbol.toNat

theorem symbol_lt (c : Command) : c.symbol.toNat < 0x80 := by
  rcases c with (_ | _ | _ | _) | _ | _ | _ | _ <;> decide

@[simp] theorem toNat_byte (c : Command) : c.byte.toNat = c.symbol.toNat :=
  Text.toNat_ofNat_of_lt (c.symbol_lt.trans (by decide))

theorem ofByte?_eq_some_iff {b : UInt8} {c : Command} : ofByte? b = some c ↔ b = c.byte := by
  have value : (Char.ofNat b.toNat).toNat = b.toNat := by
    have := b.toNat_lt
    exact Text.toNat_val_ofNat (.inl (by omega))
  rw [ofByte?, ofSymbol?_eq_some_iff]
  constructor
  · intro h
    rw [byte, ← h, value, UInt8.ofNat_toNat]
  · rintro rfl
    rw [toNat_byte, Char.ofNat_toNat]

theorem ofByte?_byte (c : Command) : ofByte? c.byte = some c := ofByte?_eq_some_iff.2 rfl

theorem ofByte?_of_le {b : UInt8} (beyond : 0x80 ≤ b.toNat) : ofByte? b = none := by
  rw [Option.eq_none_iff_forall_ne_some]
  intro c h
  rw [ofByte?_eq_some_iff.1 h, toNat_byte] at beyond
  exact Nat.not_lt.2 beyond c.symbol_lt

theorem ofSymbol?_of_le {s : Char} (beyond : 0x80 ≤ s.toNat) : ofSymbol? s = none := by
  rw [Option.eq_none_iff_forall_ne_some]
  intro c h
  rw [ofSymbol?_eq_some_iff.1 h] at beyond
  exact Nat.not_lt.2 beyond c.symbol_lt

theorem filterMap_utf8EncodeChar (s : Char) :
    (utf8EncodeChar s).filterMap ofByte? = (ofSymbol? s).toList := by
  by_cases ascii : s.toNat < 0x80
  · have value : (UInt8.ofNat s.toNat).toNat = s.toNat := Text.toNat_ofNat_of_lt (by omega)
    rw [Text.utf8EncodeChar_of_lt ascii, List.filterMap_cons, ofByte?, value, Char.ofNat_toNat]
    cases ofSymbol? s <;> rfl
  · rw [ofSymbol?_of_le (Nat.not_lt.1 ascii), Option.toList_none, List.filterMap_eq_nil_iff]
    intro b hb
    exact ofByte?_of_le (Text.le_of_mem_utf8EncodeChar (Nat.not_lt.1 ascii) hb)

/-- The commands of a text are those of the bytes that denote it. -/
theorem parse_of_denotes {bytes : List UInt8} {text : List Char} (h : Denotes bytes text) :
    parse text = bytes.filterMap ofByte? := by
  induction h with
  | nil => rfl
  | char s further ih =>
    rw [List.filterMap_append, filterMap_utf8EncodeChar, ← ih, parse, List.filterMap_cons]
    cases ofSymbol? s <;> rfl
  | subpart h further ih =>
    have silent := List.filterMap_eq_nil_iff.2 fun b hb => ofByte?_of_le (h.le_of_mem hb)
    rw [List.filterMap_append, silent, ← ih]
    rfl

/-- The bytes that are symbols are the bytes of the commands. -/
theorem map_byte_filterMap (bytes : List UInt8) :
    (bytes.filterMap ofByte?).map byte = bytes.filter isSymbol := by
  induction bytes with
  | nil => rfl
  | cons b bytes ih =>
    cases h : ofByte? b with
    | none => rw [List.filterMap_cons_none h, List.filter_cons_of_neg (by simp [isSymbol, h]), ih]
    | some c =>
      rw [List.filterMap_cons_some h, List.filter_cons_of_pos (by simp [isSymbol, h]),
        List.map_cons, ih, ofByte?_eq_some_iff.1 h]

theorem filterMap_map_byte (cs : List Command) : (cs.map byte).filterMap ofByte? = cs := by
  induction cs with
  | nil => rfl
  | cons c cs ih => rw [List.map_cons, List.filterMap_cons_some (ofByte?_byte c), ih]

theorem encodeUtf8_render (cs : List Command) :
    encodeUtf8 (String.ofList (render cs)) = cs.map byte := by
  rw [Text.encodeUtf8_ofList]
  induction cs with
  | nil => rfl
  | cons c cs ih =>
    rw [render, List.map_cons, List.flatMap_cons, Text.utf8EncodeChar_of_lt c.symbol_lt,
      List.map_cons]
    exact congrArg (c.byte :: ·) ih

end Command

namespace CommandLine

/-- The symbols among some bytes, with a line break after them if there are any. -/
def symbolLine (bytes : List UInt8) : List UInt8 :=
  match bytes.filter Command.isSymbol with
  | [] => []
  | symbols => symbols ++ [10]

@[simp] theorem parse_decodeUtf8 (bytes : List UInt8) :
    Command.parse (decodeUtf8 bytes) = bytes.filterMap Command.ofByte? :=
  Command.parse_of_denotes (Text.denotes_decodeUtf8 bytes)

@[simp] theorem filterMap_symbolLine (bytes : List UInt8) :
    (symbolLine bytes).filterMap Command.ofByte? = bytes.filterMap Command.ofByte? := by
  have kept : (bytes.filter Command.isSymbol).filterMap Command.ofByte? =
      bytes.filterMap Command.ofByte? := by
    rw [← Command.map_byte_filterMap, Command.filterMap_map_byte]
  unfold symbolLine
  split
  · rename_i nothing
    rw [← kept, nothing]
  · rw [List.filterMap_append, kept]
    exact List.append_nil _

theorem encodeUtf8_dump (bytes : List UInt8) :
    encodeUtf8 (dump (.raw (bytes.filterMap Command.ofByte?).toArray)) = symbolLine bytes := by
  unfold symbolLine
  rw [← Command.map_byte_filterMap bytes]
  cases bytes.filterMap Command.ofByte? with
  | nil => rfl
  | cons c cs =>
    have filled : (String.ofList (Command.render (c :: cs))).isEmpty = false := by
      simp [Command.render, String.isEmpty_eq_false_iff]
    have ends : encodeUtf8 "\n" = [10] := by decide
    have joined (s t : String) : encodeUtf8 (s ++ t) = encodeUtf8 s ++ encodeUtf8 t := by
      simp [encodeUtf8]
    simp only [dump, filled, joined, ends, Command.encodeUtf8_render,
      List.map_cons, Bool.false_eq_true, if_false]

theorem compile_congr {bytes bytes' : List UInt8}
    (same : bytes'.filterMap Command.ofByte? = bytes.filterMap Command.ofByte?) (optimize : Bool) :
    Program.compile (String.ofList (decodeUtf8 bytes')) optimize =
      Program.compile (String.ofList (decodeUtf8 bytes)) optimize := by
  simp only [Program.compile, String.toList_ofList, parse_decodeUtf8, same]

theorem planRun_congr {arguments : List String} {a : Arguments} {lookup lookup' : String → Entry}
    {bytes bytes' : List UInt8} (given : parse runSwitches true arguments = .ok a)
    (file : lookup (Source.normalPath (a.source.getD "")) = .file bytes)
    (file' : lookup' (Source.normalPath (a.source.getD "")) = .file bytes')
    (same : bytes'.filterMap Command.ofByte? = bytes.filterMap Command.ofByte?) :
    planRun arguments lookup' = planRun arguments lookup := by
  have log (optimize : Bool) : compileLog (String.ofList (decodeUtf8 bytes')) optimize =
      compileLog (String.ofList (decodeUtf8 bytes)) optimize := by
    simp only [compileLog, String.toList_ofList, parse_decodeUtf8, same]
  simp only [planRun, given, Source.read, file, file', compile_congr same, log]

theorem planRun_dump {arguments : List String} {a : Arguments} {lookup : String → Entry}
    {bytes : List UInt8} (given : parse runSwitches true arguments = .ok a)
    (file : lookup (Source.normalPath (a.source.getD "")) = .file bytes)
    (balanced : Bracket.Balanced Command.bracket (bytes.filterMap Command.ofByte?))
    (dumps : a.has "--dump" = true) (plain : a.has "--optimize" = false) :
    planRun arguments lookup = .stop {
      code := 0
      stdout := symbolLine bytes
      stderr := if a.has "--verbose" then
        compileLog (String.ofList (decodeUtf8 bytes)) false else "" } := by
  obtain ⟨p, hp⟩ := Program.exists_ofCommands_iff.2 (Bracket.balanced_iff.1 balanced)
  have compiled : Program.compile (String.ofList (decodeUtf8 bytes)) false = .ok p := by
    simp only [Program.compile, String.toList_ofList, parse_decodeUtf8, Bool.false_eq_true,
      if_false, hp]
  have code : p.code = .raw (bytes.filterMap Command.ofByte?).toArray := Program.ofCode_code hp
  simp only [planRun, given, Source.read, file, plain, compiled, dumps, if_true, code,
    encodeUtf8_dump]

/-- Decoding neither loses nor invents a command. The decoder reads what bytes denote, in which the
commands are those of the bytes that are symbols. So these bytes are the listing of a balanced file
as written, and as a file they have the same listing and the same program in either form. -/
theorem commands_of_source (bytes : List UInt8) :
    (∀ text, Denotes bytes text ↔ text = decodeUtf8 bytes) ∧
    Command.parse (decodeUtf8 bytes) = bytes.filterMap Command.ofByte? ∧
    (∀ (arguments : List String) (a : Arguments) (lookup : String → Entry),
      parse runSwitches true arguments = .ok a →
      lookup (Source.normalPath (a.source.getD "")) = .file bytes →
      Bracket.Balanced Command.bracket (bytes.filterMap Command.ofByte?) →
      a.has "--dump" = true → a.has "--optimize" = false →
      let log := if a.has "--verbose" then compileLog (String.ofList (decodeUtf8 bytes)) false
        else ""
      let exit : Exit := { code := 0, stdout := symbolLine bytes, stderr := log }
      (∀ stdin fuel, run arguments lookup stdin fuel = some exit) ∧
      ∀ lookup' : String → Entry,
        lookup' (Source.normalPath (a.source.getD "")) = .file (symbolLine bytes) →
        ∀ stdin fuel, run arguments lookup' stdin fuel = some exit) ∧
    ∀ optimize, Program.compile (String.ofList (decodeUtf8 (symbolLine bytes))) optimize =
      Program.compile (String.ofList (decodeUtf8 bytes)) optimize := by
  refine ⟨fun text => Text.denotes_iff, parse_decodeUtf8 bytes, ?_,
    compile_congr (filterMap_symbolLine bytes)⟩
  intro arguments a lookup given file balanced dumps plain log exit
  have plan : planRun arguments lookup = .stop exit :=
    planRun_dump given file balanced dumps plain
  constructor
  · intro stdin fuel
    rw [run, plan]
  · intro lookup' file' stdin fuel
    rw [run, planRun_congr given file file' (filterMap_symbolLine bytes), plan]

/-- The arguments that list a file as written. -/
theorem parse_dump : parse runSwitches true ["p.bf", "--dump"] =
    .ok { source := some "p.bf", given := [("--dump", none)] } := by
  have plain : readToken (helpSwitch :: runSwitches) "p.bf" = .ok (.plain "p.bf") := by decide
  have option : readToken (helpSwitch :: runSwitches) "--dump" =
      .ok (.option { long := "--dump" } false .nothing) := by decide
  have tokens : readTokens (helpSwitch :: runSwitches) ["p.bf", "--dump"] =
      .ok [.plain "p.bf", .option { long := "--dump" } false .nothing] := by
    simp [readTokens, plain, option]
  have collected : collect (helpSwitch :: runSwitches) true
      [.plain "p.bf", .option { long := "--dump" } false .nothing] {} =
      .ok { source := some "p.bf", given := [("--dump", none)] } := by
    simp [collect, bundle, Bundle.settings, takeValue, Parameter.takesValue, Arguments.note]
  simp [parse, tokens, collected, bind, Except.bind]

/-- Two bytes of three before `+`, a byte that begins nothing before `[`, one of two before `]` and
the first of a surrogate before `.`: none of them takes the command along. -/
theorem commands_of_source_cut :
    run ["p.bf", "--dump"]
      (fun _ => .file [0xe2, 0x82, 0x2b, 0xff, 0x5b, 0xc2, 0x5d, 0xed, 0xa0, 0x2e]) [] 0 =
      some { code := 0, stdout := [0x2b, 0x5b, 0x5d, 0x2e, 0x0a] } := by
  have balanced : Bracket.Balanced Command.bracket
      ([0xe2, 0x82, 0x2b, 0xff, 0x5b, 0xc2, 0x5d, 0xed, 0xa0, 0x2e].filterMap Command.ofByte?) := by
    rw [Bracket.balanced_iff]
    decide
  obtain ⟨-, -, listed, -⟩ := commands_of_source
    [0xe2, 0x82, 0x2b, 0xff, 0x5b, 0xc2, 0x5d, 0xed, 0xa0, 0x2e]
  exact (listed ["p.bf", "--dump"] _ (fun _ => .file _) parse_dump rfl balanced
    (by decide) (by decide)).1 [] 0

end CommandLine

end ByteTape
