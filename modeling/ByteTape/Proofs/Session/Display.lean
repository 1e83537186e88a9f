import ByteTape.Proofs.Session.History
import ByteTape.Proofs.Tape.Window
import ByteTape.Session.View

/-!
# What a display shows

The display of a state shows where the machine is. It lists the materialised cells near the head and
the entries of the code near the program counter, and in either list a single piece stands in
brackets: the active cell, and the next entry or the mark for the end. This holds of every state
that a session has noted since it was made, from the one that it begins with to the final one.
-/

namespace ByteTape

/-! ## Pieces -/

/-- A piece of a line stands in brackets. -/
def Marked (piece : String) : Prop := ∃ text, piece = "[" ++ text ++ "]"

/-- Only the piece at `k` stands in brackets, and what stands there is the text. -/
structure MarksOnly (pieces : List String) (k : Nat) (text : String) : Prop where
  here : pieces[k]? = some ("[" ++ text ++ "]")
  only : ∀ j piece, pieces[j]? = some piece → Marked piece → j = k

/-- A cell: its index, and its value with three digits at least. -/
def cellText (index : Nat) (value : UInt8) : String :=
  toString index ++ ":" ++ zeroPadded 3 value.toNat

/-- The cells of a tape from `radius` before the head to `radius` behind it, as far as they are
materialised. The active one stands in brackets, and the others between blanks. -/
def Tape.pieces (t : Tape) (radius : Nat) : List String :=
  let first := t.pointer - radius
  let last := min (t.length - 1) (t.pointer + radius)
  (List.range' first (last + 1 - first)).map fun i =>
    let text := cellText i (t.cells.getD i 0)
    if i = t.pointer then "[" ++ text ++ "]" else " " ++ text ++ " "

/-- The entries of some code from 16 before an index to 16 behind it, as far as there are any. The
one at the index stands in brackets. -/
def Code.entriesNear (c : Code) (pc : Nat) : List String :=
  let first := pc - 16
  let last := min (c.size - 1) (pc + 16)
  (List.range' first (last + 1 - first)).map fun i =>
    let text := c.listing.getD i ""
    if i = pc then "[" ++ text ++ "]" else text

/-- The same entries, and behind the last one of all a mark where the index is past it. -/
def Code.pieces (c : Code) (pc : Nat) : List String :=
  c.entriesNear pc ++ if pc = c.size then ["[END]"] else []

theorem not_marked_of_head? {piece : String} (h : piece.toList.head? ≠ some '[') :
    ¬ Marked piece := by
  rintro ⟨text, rfl⟩
  simp at h

/-- Of pieces for consecutive numbers only the one that is put in brackets is marked. -/
theorem marksOnly_map_range' {plain : Nat → String} (unmarked : ∀ k, ¬ Marked (plain k))
    (text : Nat → String) {first count i : Nat} (le : first ≤ i) (lt : i < first + count) :
    MarksOnly ((List.range' first count).map fun k =>
      if k = i then "[" ++ text k ++ "]" else plain k) (i - first) (text i) := by
  refine ⟨?_, fun j piece here marked => ?_⟩
  · rw [List.getElem?_map, List.getElem?_range' (by omega)]
    simp [Nat.add_sub_cancel' le]
  · rw [List.getElem?_map] at here
    obtain ⟨k, at_j, rfl⟩ := Option.map_eq_some_iff.1 here
    obtain ⟨inside, rfl⟩ := List.getElem?_eq_some_iff.1 at_j
    rw [List.getElem_range'] at marked
    split_ifs at marked with same
    · omega
    · exact absurd marked (unmarked _)

/-- A marked piece behind others that are not. -/
theorem marksOnly_concat {pieces : List String} (unmarked : ∀ piece ∈ pieces, ¬ Marked piece)
    (text : String) : MarksOnly (pieces ++ ["[" ++ text ++ "]"]) pieces.length text := by
  refine ⟨List.getElem?_concat_length, fun j piece here marked => ?_⟩
  rcases Nat.lt_trichotomy j pieces.length with before | rfl | beyond
  · rw [List.getElem?_append_left before] at here
    exact absurd marked (unmarked piece (List.mem_of_getElem? here))
  · rfl
  · have past : (pieces ++ ["[" ++ text ++ "]"]).length ≤ j := by
      rw [List.length_append, List.length_singleton]
      exact beyond
    rw [List.getElem?_eq_none past] at here
    cases here

/-! ## Cells -/

namespace Tape

variable {t : Tape}

theorem WellFormed.getD_cells_pointer (h : t.WellFormed) : t.cells.getD t.pointer 0 = t.read := by
  have head_lt := h.head_lt
  have origin_le := h.origin_le
  have stop_le := h.stop_le
  have place : t.origin + t.pointer = t.head := by
    unfold pointer
    omega
  have active : t.cells[t.pointer]? = t.buffer[t.head]? := by
    rw [cells, Array.getElem?_extract, if_pos (by omega), place]
  rw [read, Array.getD_eq_getD_getElem?, Array.getD_eq_getD_getElem?, active]

theorem WellFormed.marksOnly_pieces (h : t.WellFormed) (radius : Nat) :
    MarksOnly (t.pieces radius) (t.pointer - (t.pointer - radius)) (cellText t.pointer t.read) := by
  have inside := h.pointer_lt
  have spaced (k : Nat) : ¬ Marked (" " ++ cellText k (t.cells.getD k 0) ++ " ") :=
    not_marked_of_head? (by simp)
  have within : t.pointer < t.pointer - radius +
      (min (t.length - 1) (t.pointer + radius) + 1 - (t.pointer - radius)) := by omega
  have marks := marksOnly_map_range' spaced (fun k => cellText k (t.cells.getD k 0))
    (Nat.sub_le _ _) within
  rwa [h.getD_cells_pointer] at marks

end Tape

namespace Panel

theorem cellValue_natCast (n : Nat) : cellValue n = zeroPadded 3 n := by
  have natural : ¬ (n : Int) < 0 := not_lt.2 (Int.natCast_nonneg n)
  simp [cellValue, zeroPadded, natural]

theorem cell_natCast (pointer index : Nat) (value : UInt8) :
    cell pointer index (value.toNat : Int) =
      if index = pointer then "[" ++ cellText index value ++ "]"
      else " " ++ cellText index value ++ " " := by
  have number : toString (index : Int) = toString index := rfl
  simp only [cell, cellText, cellValue_natCast, bracketed, number, Int.natCast_inj]

/-- The tape line of a state lists the cells of the tape that are near the head. -/
theorem tapeLine_snapshot {m : Machine} (h : m.tape.WellFormed) (code : Code) (radius : Nat)
    (instruction : Option String) (written : List UInt8) :
    (m.snapshot code radius instruction written).panel.tapeLine =
      "tape=" ++ " ".intercalate (m.tape.pieces radius) := by
  have inside := h.pointer_lt
  have size := h.size_cells
  simp only [tapeLine, Snapshot.panel, Machine.snapshot, h.window_natCast]
  congr 2
  refine List.ext_getElem ?_ fun i hi hi' => ?_
  · simp only [List.length_mapIdx, List.length_map, Array.length_toList, Array.size_extract,
      Tape.pieces, List.length_range', size]
    omega
  · have last : m.tape.pointer - radius + i < m.tape.cells.size := by
      simp only [Tape.pieces, List.length_map, List.length_range'] at hi'
      omega
    have index : ((m.tape.pointer - radius : Nat) : Int) + i =
        (m.tape.pointer - radius + 1 * i : Nat) := by omega
    have value : m.tape.cells.getD (m.tape.pointer - radius + i) 0 =
        m.tape.cells[m.tape.pointer - radius + i] := by
      rw [Array.getD_eq_getD_getElem?, Array.getElem?_eq_getElem last, Option.getD_some]
    simp only [List.getElem_mapIdx, List.getElem_map, Array.getElem_toList, Array.getElem_extract,
      index, cell_natCast, Tape.pieces, List.getElem_range', Nat.one_mul, value]

end Panel

namespace Code

theorem not_marked_mnemonic (i : Instruction) : ¬ Marked i.mnemonic := by
  refine not_marked_of_head? ?_
  rcases i with ⟨_ | _ | _ | _, n⟩ | _ | _ | ⟨_ | stop⟩ | start <;>
    simp [Instruction.mnemonic, Instruction.motionName, toString]

theorem not_marked_symbol (c : Command) : ¬ Marked (String.singleton c.symbol) := by
  rintro ⟨text, same⟩
  simpa using congrArg String.toList same

/-- No entry of a listing looks as if it stood in brackets, though some are brackets. -/
theorem not_marked_listing (c : Code) (k : Nat) : ¬ Marked (c.listing.getD k "") := by
  have blank : ¬ Marked "" := not_marked_of_head? (by simp)
  cases c with
  | raw cs =>
    rw [listing, Array.getD_eq_getD_getElem?, Array.getElem?_map]
    cases cs[k]? with
    | none => exact blank
    | some c => exact not_marked_symbol c
  | folded is =>
    rw [listing, Array.getD_eq_getD_getElem?, Array.getElem?_map]
    cases is[k]? with
    | none => exact blank
    | some i => exact not_marked_mnemonic i

theorem size_listing (c : Code) : c.listing.size = c.size := by
  cases c with
  | raw cs => exact Array.size_map
  | folded is => exact Array.size_map

theorem isEmpty_listing (c : Code) : c.listing.isEmpty = decide (c.size = 0) := by
  rw [← c.size_listing]
  rfl

variable {c : Code} {pc : Nat} (nonempty : c.size ≠ 0) (inside : pc ≤ c.size)
include nonempty inside

/-- Of the entries that are shown only the one at the index is marked, or else the end. -/
theorem marksOnly_pieces :
    MarksOnly (c.pieces pc) (pc - (pc - 16)) (c.listing.getD pc "END") := by
  rcases Nat.lt_or_eq_of_le inside with before | rfl
  · have within : pc < pc - 16 + (min (c.size - 1) (pc + 16) + 1 - (pc - 16)) := by omega
    have marks := marksOnly_map_range' c.not_marked_listing (fun k => c.listing.getD k "")
      (Nat.sub_le _ _) within
    have entry : c.listing.getD pc "" = c.listing.getD pc "END" := by
      have listed : pc < c.listing.size := c.size_listing ▸ before
      simp [Array.getD_eq_getD_getElem?, listed]
    simp only [entry] at marks
    simpa [pieces, entriesNear, before.ne] using marks
  -- Behind the code no entry is at the index, and the mark is the last piece.
  · have ending : c.listing.getD c.size "END" = "END" := by
      simp [Array.getD_eq_getD_getElem?, c.size_listing]
    have length : (c.entriesNear c.size).length = c.size - (c.size - 16) := by
      rw [entriesNear, List.length_map, List.length_range']
      omega
    have unmarked : ∀ piece ∈ c.entriesNear c.size, ¬ Marked piece := by
      intro piece listed
      obtain ⟨k, near, rfl⟩ := List.mem_map.1 listed
      have before := (List.mem_range'_1.1 near).2
      rw [if_neg (by omega)]
      exact c.not_marked_listing k
    rw [pieces, if_pos rfl, ending, ← length]
    exact marksOnly_concat unmarked "END"

/-- The code line lists the entries near the index. -/
theorem codeWindow_eq (separator : String) :
    Panel.codeWindow c.listing pc Panel.codeRadius separator =
      separator.intercalate (c.pieces pc) := by
  have size := c.size_listing
  have first : (max 0 ((pc : Int) - 16)).toNat = pc - 16 := by omega
  have stop : (min (c.size : Int) (pc + 16 + 1)).toNat = min c.size (pc + 17) := by omega
  have filled : c.listing.isEmpty = false := by simpa [isEmpty_listing] using nonempty
  have past : (c.size : Int) ≤ pc ↔ pc = c.size := by omega
  simp only [Panel.codeWindow, Panel.codeRadius, filled, size, first, stop, past, pieces,
    entriesNear]
  rw [if_neg Bool.false_ne_true]
  congr 2
  refine List.ext_getElem ?_ fun i hi hi' => ?_
  · simp only [List.length_mapIdx, Array.length_toList, Array.size_extract, List.length_map,
      List.length_range', size]
    omega
  · have listed : pc - 16 + i < c.listing.size := by
      simp only [List.length_map, List.length_range'] at hi'
      omega
    have entry : c.listing.getD (pc - 16 + i) "" = c.listing[pc - 16 + i] := by
      rw [Array.getD_eq_getD_getElem?, Array.getElem?_eq_getElem listed, Option.getD_some]
    simp only [List.getElem_mapIdx, Array.getElem_toList, Array.getElem_extract, Panel.bracketed,
      Int.natCast_inj, List.getElem_map, List.getElem_range', Nat.one_mul, entry]

end Code

/-! ## States of a session -/

/-- The run that a session is set up for comes to a machine after some instructions. -/
def SessionOptions.ComesTo (o : SessionOptions) (code : Code) (n : Nat) (m : Machine) : Prop :=
  ∃ b, after (Buffers.device.next code o.limit) n ({}, ⟨o.input, []⟩) = .inl (m, b)

/-- A state shows a machine that the run comes to. -/
structure Snapshot.Exposes (code : Code) (o : SessionOptions) (x : Snapshot) (m : Machine) :
    Prop where
  run : o.ComesTo code x.step m
  snapshot : ∃ instruction written, x = m.snapshot code o.radius instruction written

/-- The state that a session begins with shows a machine that has not run. -/
theorem Snapshot.exposes_initial (code : Code) {o : SessionOptions} (wide : 0 ≤ o.radius) :
    (initial code).Exposes code o {} := by
  obtain ⟨radius, same⟩ := Int.eq_ofNat_of_zero_le wide
  have window : Tape.blank.window radius = ⟨0, #[0]⟩ := by
    rw [Tape.wellFormed_blank.window_natCast]
    simp [Tape.pointer, Tape.cells, Tape.blank]
  refine ⟨⟨_, rfl⟩, none, [], ?_⟩
  rw [Machine.snapshot, same, window]
  rfl

namespace Session

variable {code : Code} {o : SessionOptions} {s : Session} {w : Workspace} {log : List Snapshot}
  {x : Snapshot}

/-- After a call of the stepper the tape is that of the machine to which the run has come. A state
that is shown shows that machine. -/
theorem Tracks.exists_comesTo (h : s.Tracks code w) (unfinished : s.finished = false) :
    ∃ m, s.options.ComesTo code (s.hear (s.stepper.next code w)).current.step m ∧
      (s.stepper.next code w).workspace.tape = m.tape ∧
      ∀ x ∈ Reply.shown [(s.stepper.next code w).yield], x.Exposes code s.options m := by
  obtain ⟨y, turned, ⟨z, goesOn, next⟩ | ⟨f, last, next⟩⟩ := h.stands.next_cases unfinished
  · have further := turned_succ turned goesOn
    have count : z.1.steps = s.current.step + 1 := Buffers.steps_eq_of_after further
    have here : s.options.ComesTo code z.1.steps z.1 := ⟨z.2, count ▸ further⟩
    rw [next]
    refine ⟨z.1, ?_, rfl, fun x shown => ?_⟩
    · change s.options.ComesTo code (s.see _ _).current.step z.1
      rwa [current_see]
    · obtain rfl := List.mem_singleton.1 shown
      exact ⟨here, _, _, rfl⟩
  · have machine : f.machine = y.1 := (Device.ends_of_next last).machine_eq
    have count : y.1.steps = s.current.step := Buffers.steps_eq_of_after turned
    rw [next, machine]
    -- A step that fails shows no state, but the tape is still that of the run.
    cases f.result with
    | error e => exact ⟨y.1, ⟨y.2, turned⟩, rfl, nofun⟩
    | ok done =>
      have here : s.options.ComesTo code y.1.steps y.1 := ⟨y.2, count ▸ turned⟩
      refine ⟨y.1, ?_, rfl, fun x shown => ?_⟩
      · change s.options.ComesTo code (s.see _ _).current.step y.1
        rwa [current_see]
      · obtain rfl := List.mem_singleton.1 shown
        exact ⟨here, _, _, rfl⟩

/-- The states that have been noted all show machines of the run. The tape is that of the machine to
which the run has come, unless no step has been taken since the session was started. -/
structure Shown (code : Code) (o : SessionOptions) (s : Session) (w : Workspace)
    (log : List Snapshot) : Prop where
  states : ∀ x ∈ log, ∃ m, x.Exposes code o m
  tape : s.stepper.stage = .fresh ∨ ∃ m, o.ComesTo code s.current.step m ∧ w.tape = m.tape

theorem Logged.shown (h : Logged code o s w log) (wide : 0 ≤ o.radius) : s.Shown code o w log := by
  have initial : ∀ x ∈ [Snapshot.initial code], ∃ m, x.Exposes code o m :=
    List.forall_mem_singleton.2 ⟨_, Snapshot.exposes_initial code wide⟩
  induction h with
  | start w => exact ⟨initial, .inl rfl⟩
  | call before unfinished ih =>
    obtain ⟨m, comes, tape, exposes⟩ := before.faithful.tracks.exists_comesTo unfinished
    rw [before.faithful.options] at comes exposes
    have new := fun x noted => Exists.intro m (exposes x noted)
    exact ⟨List.forall_mem_append.2 ⟨ih.states, new⟩, .inr ⟨m, comes, tape⟩⟩
  | unhit before ih => exact ⟨ih.states, ih.tape⟩
  | breakpoints before b ih => exact ⟨ih.states, ih.tape⟩
  | restart before ih => exact ⟨List.forall_mem_append.2 ⟨ih.states, initial⟩, .inl rfl⟩

/-- Every state that a session has noted shows where its run was: after as many instructions, at
that place in the code, and with the head there. Its display lists, one after the other, the
materialised cells that are at most the radius away from the head, and the entries of the code that
are at most 16 away from the program counter. Among the cells only the active one stands in
brackets, and among the entries only the next one to be run, or the mark for the end behind the
last. The current state shows the tape of the program itself, unless no step has been taken since
the session was started. -/
theorem display_shows_machine {p : Program} (h : Logged p.code o s w log) {radius : Nat}
    (wide : o.radius = radius) (noted : x ∈ log) :
    ∃ m, o.ComesTo p.code x.step m ∧
      x.step = m.steps ∧ x.pc = m.pc ∧ x.pointer = m.tape.pointer ∧ m.pc ≤ p.code.size ∧
      x.panel.text p.code.listing p.code.separator =
        "\n".intercalate (x.panel.statusLine :: x.panel.outputLines ++
          ["tape=" ++ " ".intercalate (m.tape.pieces radius),
            "code=" ++ if p.code.size = 0 then "(empty)"
              else p.code.separator.intercalate (p.code.pieces m.pc)]) ∧
      MarksOnly (m.tape.pieces radius) (m.tape.pointer - (m.tape.pointer - radius))
        (cellText m.tape.pointer m.tape.read) ∧
      (p.code.size ≠ 0 →
        MarksOnly (p.code.pieces m.pc) (m.pc - (m.pc - 16)) (p.code.listing.getD m.pc "END")) ∧
      (x = s.current → s.stepper.stage = .fresh ∨ w.tape = m.tape) := by
  have shown := h.shown (wide ▸ Int.natCast_nonneg radius)
  obtain ⟨m, exposes⟩ := shown.states x noted
  obtain ⟨b, reached⟩ := exposes.run
  obtain ⟨instruction, written, rfl⟩ := exposes.snapshot
  have safe := Device.safe_of_after reached
  refine ⟨m, ⟨b, reached⟩, rfl, rfl, rfl, safe.pc_le, ?_, safe.wellFormed.marksOnly_pieces radius,
    fun filled => Code.marksOnly_pieces filled safe.pc_le, ?_⟩
  · have code : Panel.codeWindow p.code.listing m.pc Panel.codeRadius p.code.separator =
        if p.code.size = 0 then "(empty)"
          else p.code.separator.intercalate (p.code.pieces m.pc) := by
      split_ifs with empty
      · simp [Panel.codeWindow, p.code.isEmpty_listing, empty]
      · exact Code.codeWindow_eq empty safe.pc_le _
    rw [wide, Panel.text, Panel.lines, Panel.tapeLine_snapshot safe.wellFormed, ← code]
    rfl
  · rintro current
    refine shown.tape.imp_right fun there => ?_
    obtain ⟨m', ⟨b', reached'⟩, tape⟩ := there
    rw [← current] at reached'
    obtain ⟨rfl, -⟩ := Prod.mk.inj (Sum.inl.inj (reached'.symm.trans reached))
    exact tape

/-- Behind the last entry the mark for the end is shown, and the head on the cell to which it has
moved. -/
theorem display_shows_machine_at_end : ∃ p s w log x m,
    Program.ofCommands [.motion .left, .motion .increment] = .ok p ∧
      Logged p.code { radius := 1 } s w log ∧ x ∈ log ∧ x.instruction = none ∧
      SessionOptions.ComesTo { radius := 1 } p.code x.step m ∧ w.tape = m.tape ∧
      MarksOnly (m.tape.pieces 1) 0 "0:001" ∧ MarksOnly (p.code.pieces m.pc) 2 "END" := by
  obtain ⟨p, hp⟩ : ∃ p, Program.ofCommands [.motion .left, .motion .increment] = .ok p := ⟨_, rfl⟩
  have code := Program.ofCode_code hp
  obtain ⟨_, accepted⟩ := p
  subst code
  have begun : Logged (.raw #[.motion .left, .motion .increment]) { radius := 1 } _ _ _ := .start {}
  have ended := ((begun.call rfl).call rfl).call rfl
  have noted := List.mem_of_getLast? ended.faithful.current
  have wide : ({ radius := 1 } : SessionOptions).radius = (1 : Nat) := rfl
  obtain ⟨m, comes, -, pc, pointer, -, -, cell, entry, tape⟩ :=
    display_shows_machine (p := ⟨_, accepted⟩) ended wide noted
  have there := (tape rfl).resolve_left nofun
  refine ⟨_, _, _, _, _, m, hp, ended, noted, rfl, comes, there, ?_, ?_⟩
  · rw [← there] at cell ⊢
    exact cell
  · have place : m.pc = 2 := pc.symm.trans rfl
    rw [place] at entry ⊢
    simpa [Code.listing] using entry (Nat.succ_ne_zero 1)

end Session

end ByteTape
