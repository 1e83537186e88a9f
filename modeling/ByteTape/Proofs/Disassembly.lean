import ByteTape.Instruction
import ByteTape.Proofs.Text.Splitting
import ByteTape.Proofs.Text.Typing

/-!
# What a disassembly tells

A disassembly identifies the instructions that it lists. Its lines are found again at the line
breaks, the mnemonics at their places in the lines, and in a mnemonic the word and what stands
behind it: a word has letters only, and what follows begins with something else.
-/

namespace ByteTape

/-! ## Mnemonics -/

/-- The word for a command in mnemonics. -/
def Command.word : Command → String
  | motion m => Instruction.motionName m
  | output => "Output"
  | input => "Input"
  | loopStart => "LoopStart"
  | loopEnd => "LoopEnd"

theorem Command.word_injective {c d : Command} (h : c.word = d.word) : c = d := by
  rcases c with (_ | _ | _ | _) | _ | _ | _ | _ <;>
    rcases d with (_ | _ | _ | _) | _ | _ | _ | _ <;> first | rfl | exact absurd h (by decide)

theorem Command.isAlpha_of_mem_word (c : Command) : ∀ l ∈ c.word.toList, l.isAlpha := by
  rcases c with (_ | _ | _ | _) | _ | _ | _ | _ <;> simp [Command.word, Instruction.motionName]

namespace Instruction

/-- The command that an instruction stands for, once or several times. -/
def command : Instruction → Command
  | counted m _ => .motion m
  | output => .output
  | input => .input
  | loopStart _ => .loopStart
  | loopEnd _ => .loopEnd

/-- How the end of a loop is written, as far as it is known. -/
def stopText : Option Int → String
  | none => "?"
  | some stop => toString stop

/-- What a mnemonic has behind its word: a count in parentheses, or a target behind an arrow. -/
def argument : Instruction → String
  | counted _ n => "(" ++ toString n ++ ")"
  | output | input => ""
  | loopStart stop => "->" ++ stopText stop
  | loopEnd start => "->" ++ toString start

theorem mnemonic_eq (x : Instruction) : x.mnemonic = x.command.word ++ x.argument := by
  rcases x with ⟨m, n⟩ | _ | _ | ⟨_ | stop⟩ | start
  · simp [mnemonic, command, Command.word, argument, String.append_assoc]
    rfl
  · rfl
  · rfl
  · rfl
  · simp [mnemonic, command, Command.word, argument, stopText, ← String.append_assoc]
    rfl
  · rfl

theorem not_isAlpha_head?_argument (x : Instruction) :
    ∀ c ∈ x.argument.toList.head?, ¬ c.isAlpha := by
  cases x <;> simp [argument]

/-- The word of a mnemonic is all that it has of letters at its beginning. -/
theorem takeWhile_mnemonic (x : Instruction) :
    x.mnemonic.toList.takeWhile Char.isAlpha = x.command.word.toList := by
  have ends : x.argument.toList.takeWhile Char.isAlpha = [] := by
    cases argument : x.argument.toList with
    | nil => rfl
    | cons c cs =>
      exact List.takeWhile_cons_of_neg (x.not_isAlpha_head?_argument c (by rw [argument]; rfl))
  rw [mnemonic_eq, String.toList_append,
    List.takeWhile_append_of_pos x.command.isAlpha_of_mem_word, ends, List.append_nil]

theorem stopText_injective {stop stop' : Option Int} (h : stopText stop = stopText stop') :
    stop = stop' := by
  have number (target : Int) : toString target ≠ "?" := by
    intro same
    have mark : '?' ∈ (toString target).toList := by simp [same]
    rcases Text.isDigit_or_of_mem_toString mark with digit | sign
    · exact absurd digit (by decide)
    · exact absurd sign (by decide)
  cases stop with
  | none =>
    cases stop' with
    | none => rfl
    | some target => exact absurd h.symm (number target)
  | some target =>
    cases stop' with
    | none => exact absurd h (number target)
    | some target' => exact congrArg some (Text.toString_injective h)

theorem eq_of_command_of_argument {x y : Instruction} (command : x.command = y.command)
    (argument : x.argument = y.argument) : x = y := by
  cases x with
  | counted m n =>
    cases y with
    | counted k l =>
      obtain rfl : m = k := Command.motion.inj command
      have count : toString n = toString l :=
        (String.append_right_inj _).1 ((String.append_left_inj _).1 argument)
      rw [Int.ofNat_inj.1 (Text.toString_injective count)]
    | _ => cases command
  | output =>
    cases y with
    | output => rfl
    | _ => cases command
  | input =>
    cases y with
    | input => rfl
    | _ => cases command
  | loopStart stop =>
    cases y with
    | loopStart stop' => rw [stopText_injective ((String.append_right_inj _).1 argument)]
    | _ => cases command
  | loopEnd start =>
    cases y with
    | loopEnd start' => rw [Text.toString_injective ((String.append_right_inj _).1 argument)]
    | _ => cases command

/-- Instructions have different mnemonics. -/
theorem mnemonic_injective {x y : Instruction} (h : x.mnemonic = y.mnemonic) : x = y := by
  have command : x.command = y.command := by
    apply Command.word_injective
    rw [← String.toList_inj, ← takeWhile_mnemonic, h, takeWhile_mnemonic]
  rw [mnemonic_eq, mnemonic_eq, command] at h
  exact eq_of_command_of_argument command ((String.append_right_inj _).1 h)

theorem newline_not_mem_mnemonic (x : Instruction) : '\n' ∉ x.mnemonic.toList := by
  have number (n : Int) : '\n' ∉ (toString n).toList := fun inside =>
    absurd (Text.isPlain_of_mem_toString inside) (by decide)
  have word : '\n' ∉ x.command.word.toList := fun inside =>
    absurd (x.command.isAlpha_of_mem_word _ inside) (by decide)
  rw [mnemonic_eq, String.toList_append, List.mem_append, not_or]
  refine ⟨word, ?_⟩
  rcases x with ⟨m, n⟩ | _ | _ | ⟨_ | stop⟩ | start
  · have count : '\n' ∉ (toString n).toList := number n
    simpa [argument] using count
  · simp [argument]
  · simp [argument]
  · simp [argument, stopText]
  · simpa [argument, stopText] using number stop
  · simpa [argument] using number start

end Instruction

/-! ## Lines -/

theorem newline_not_mem_disassemblyLine (index : Nat) (x : Instruction) :
    '\n' ∉ (disassemblyLine index x).toList := by
  have number : '\n' ∉ (toString index).toList := fun inside =>
    absurd (Text.isPlain_of_mem_toString (n := index) inside) (by decide)
  have padded : '\n' ∉ (zeroPadded 4 index).toList := by
    rw [zeroPadded, String.toList_append, List.mem_append, String.toList_ofList, not_or]
    exact ⟨fun zero => absurd (List.eq_of_mem_replicate zero) (by decide), number⟩
  simp only [disassemblyLine, String.toList_append, List.mem_append, not_or]
  exact ⟨⟨padded, by decide⟩, x.newline_not_mem_mnemonic⟩

theorem disassemblyLine_ne_empty (index : Nat) (x : Instruction) :
    disassemblyLine index x ≠ "" := by
  intro empty
  have blank : ' ' ∈ (disassemblyLine index x).toList := by simp [disassemblyLine]
  simp [empty] at blank

/-- At one place in a disassembly, different instructions have different lines. -/
theorem disassemblyLine_injective {index : Nat} {x y : Instruction}
    (h : disassemblyLine index x = disassemblyLine index y) : x = y :=
  Instruction.mnemonic_injective ((String.append_right_inj _).1 h)

theorem disassemblyLines_injective {is js : List Instruction}
    (h : disassemblyLines is = disassemblyLines js) : is = js := by
  refine List.ext_getElem? fun i => ?_
  have line : is[i]?.map (disassemblyLine i) = js[i]?.map (disassemblyLine i) := by
    simpa [disassemblyLines] using congrArg (·[i]?) h
  exact Option.map_injective (fun _ _ => disassemblyLine_injective) line

/-- The lines of a disassembly are found again at the line breaks, if there are any lines. -/
theorem splitOn_disassemble {is : List Instruction} (filled : is ≠ []) :
    (disassemble is).splitOn "\n" = disassemblyLines is := by
  have lines : disassemblyLines is ≠ [] := by simpa [disassemblyLines] using filled
  have whole : ∀ line ∈ disassemblyLines is, '\n' ∉ line.toList := by
    intro line inside
    obtain ⟨i, hi, rfl⟩ := List.mem_mapIdx.1 inside
    exact newline_not_mem_disassemblyLine i _
  exact Text.splitOn_intercalate_singleton (c := '\n') lines whole

/-- No instructions and a single empty line are not confused, for no line is empty. -/
theorem disassemble_eq_empty_iff {is : List Instruction} : disassemble is = "" ↔ is = [] := by
  refine ⟨fun empty => ?_, fun none => none ▸ rfl⟩
  by_contra filled
  have single : ("\n".intercalate [""]).splitOn "\n" = [""] :=
    Text.splitOn_intercalate_singleton (c := '\n') (by simp) (by simp)
  have lines : disassemblyLines is = [""] := by
    rw [← splitOn_disassemble filled, empty]
    exact single
  obtain ⟨i, hi, line⟩ := List.mem_mapIdx.1 (lines ▸ List.mem_singleton_self "")
  exact disassemblyLine_ne_empty i _ line

/-- Two lists of instructions with one disassembly are the same, whatever their lengths, counts and
targets. -/
theorem disassemble_inj {is js : List Instruction} : disassemble is = disassemble js ↔ is = js := by
  refine ⟨fun same => ?_, congrArg disassemble⟩
  by_cases none : is = []
  · have empty := disassemble_eq_empty_iff.2 none
    rw [none, disassemble_eq_empty_iff.1 (same.symm.trans empty)]
  · have filled : js ≠ [] := fun other =>
      none (disassemble_eq_empty_iff.1 (same.trans (disassemble_eq_empty_iff.2 other)))
    apply disassemblyLines_injective
    rw [← splitOn_disassemble none, same, splitOn_disassemble filled]

end ByteTape
