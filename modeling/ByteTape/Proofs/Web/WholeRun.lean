import ByteTape.Proofs.Steady
import ByteTape.Proofs.Web.Standard

/-!
# Answers to whole runs

A request for a whole run says whether the code is to be folded first. Two requests that differ in
nothing else, and are both answered properly, are told the same output. The tapes may differ in
zeros at their ends, which the commands have visited for nothing, and the counts of steps differ.
-/

namespace ByteTape.Web

open Frontend

/-- The proper answer to a whole run. -/
def runAnswer (output tape : List UInt8) (pointer steps : Nat) : Answer :=
  ⟨200, some (.record
    [("output", bytesJson output), ("text", .text (String.ofList (Text.decodeUtf8 output))),
      ("tape", bytesJson tape), ("pointer", .nat pointer), ("steps", .nat steps)]), none⟩

theorem pointer_eq_of_runAnswer_eq {output output' tape tape' : List UInt8}
    {pointer pointer' steps steps' : Nat}
    (h : runAnswer output tape pointer steps = runAnswer output' tape' pointer' steps') :
    pointer = pointer' := by
  simp only [runAnswer, Json.record, Json.nat] at h
  grind

/-- A run is answered properly if it returns. -/
theorem exists_output_of_status {r : Report} (h : (reportAnswer r).status = 200) :
    ∃ output, r.result = .ok output ∧ reportAnswer r = runAnswer output
      r.workspace.tape.cells.toList r.workspace.tape.pointer r.workspace.steps := by
  cases result : r.result with
  | error e => simp [reportAnswer, result, Answer.conflict, Answer.fault] at h
  | ok output => exact ⟨output, rfl, by rw [reportAnswer, result]; rfl⟩

/-- A whole run is answered properly if its code makes a program, its input can be encoded, and the
program returns. -/
theorem exists_report_of_executeProgram {w : WholeRun} {fuel : Nat} {a : Answer}
    (h : executeProgram w fuel = some a) (proper : a.status = 200) :
    ∃ p input r output, Program.compile w.code.characters w.optimize = .ok p ∧
      w.input.encode = .ok input ∧ p.Reports input w.limit r ∧ r.result = .ok output ∧
      a = runAnswer output r.workspace.tape.cells.toList r.workspace.tape.pointer
        r.workspace.steps := by
  unfold executeProgram at h
  split at h
  · obtain rfl := Option.some.inj h
    cases proper
  · obtain rfl := Option.some.inj h
    cases proper
  · rename_i p input compiled encoded
    obtain ⟨r, hr, rfl⟩ := Option.map_eq_some_iff.1 h
    obtain ⟨output, done, same⟩ := exists_output_of_status proper
    exact ⟨p, input, r, output, compiled, encoded, ⟨fuel, hr⟩, done, same⟩

/-- A request for a whole run whose body can be read is answered with the run. -/
theorem Frontend.Lawful.handle_run {f : Frontend} (lawful : f.Lawful) {store : Store} {q : Request}
    {w : WholeRun} (method : q.method = "POST") (path : q.path = "/api/run")
    (read : f.read .wholeRun q.body = .ok w) (fuel : Nat) :
    f.handle store q fuel = (executeProgram w fuel).map fun a => (a, store) := by
  have leads : f.locate "POST" "/api/run" = .ok .execute :=
    lawful.locate_path (r := .execute) (by decide)
  rw [handle, method, path, leads]
  simp only [serve, withBody, read]

/-- Two requests for whole runs of the same code, over the same input and with the same step limit,
of which the second asks to fold the code. If both are answered properly, the answers tell the same
output and the same text. The tape told first is the one told second with zeros added at both ends,
and its pointer stands at the same cell. Where no moves of the head cancel in the code there are no
such zeros, and the answers differ in the count of steps alone. -/
theorem run_answers_alike {f : Frontend} (lawful : f.Lawful) {code input : JsonText}
    {limit : Option Int} {store store' s s' : Store} {q q' : Request} {fuel fuel' : Nat}
    {a a' : Answer}
    (method : q.method = "POST") (path : q.path = "/api/run")
    (method' : q'.method = "POST") (path' : q'.path = "/api/run")
    (read : f.read .wholeRun q.body = .ok ⟨code, input, false, limit⟩)
    (read' : f.read .wholeRun q'.body = .ok ⟨code, input, true, limit⟩)
    (answer : f.handle store q fuel = some (a, s))
    (answer' : f.handle store' q' fuel' = some (a', s'))
    (proper : a.status = 200) (proper' : a'.status = 200) :
    ∃ (output tape : List UInt8) (pointer steps steps' i k : Nat),
      a = runAnswer output (List.replicate i 0 ++ tape ++ List.replicate k 0) (i + pointer) steps ∧
      a' = runAnswer output tape pointer steps' ∧
      (Command.Steady (Command.parse code.characters.toList) → i = 0 ∧ k = 0) := by
  rw [lawful.handle_run method path read] at answer
  rw [lawful.handle_run method' path' read'] at answer'
  obtain ⟨a, ran, same⟩ := Option.map_eq_some_iff.1 answer
  obtain ⟨a', ran', same'⟩ := Option.map_eq_some_iff.1 answer'
  obtain ⟨rfl, rfl⟩ := Prod.mk.inj same
  obtain ⟨rfl, rfl⟩ := Prod.mk.inj same'
  obtain ⟨p, bytes, r, output, compiled, encoded, reported, done, rfl⟩ :=
    exists_report_of_executeProgram ran proper
  obtain ⟨p', bytes', r', output', compiled', encoded', reported', done', rfl⟩ :=
    exists_report_of_executeProgram ran' proper'
  obtain rfl : bytes = bytes' := Except.ok.inj (encoded.symm.trans encoded')
  obtain ⟨rfl, i, k, cells, pointer, steady⟩ :=
    reported.exists_margins compiled compiled' reported' done done'
  refine ⟨output, r'.workspace.tape.cells.toList, r'.workspace.tape.pointer, r.workspace.steps,
    r'.workspace.steps, i, k, ?_, rfl, steady⟩
  rw [cells, pointer]
  simp

/-- A request to run some code over no input, with the step limit that is set by default. -/
def runRequest (code : String) (optimize : Bool) : Request where
  method := "POST"
  path := "/api/run"
  body := Text.encodeUtf8 (Json.record [("code", .text code), ("optimize", .bool optimize)]).print
  newId := ""

/-- No moves of the head cancel in `<<+.`, so its two answers differ in the count of steps alone. -/
theorem run_answers_alike_steady :
    let a := runAnswer [1] [1, 0, 0] 0 4
    let a' := runAnswer [1] [1, 0, 0] 0 3
    standard.handle {} (runRequest "<<+." false) 5 = some (a, {}) ∧
      standard.handle {} (runRequest "<<+." true) 4 = some (a', {}) ∧
      ∃ output tape pointer steps steps',
        a = runAnswer output tape pointer steps ∧ a' = runAnswer output tape pointer steps' := by
  intro a a'
  have read : standard.read .wholeRun (runRequest "<<+." false).body =
      .ok ⟨.plain "<<+.", .plain "", false, some 1000000⟩ :=
    toOption_eq_some_iff.1 (by decide +kernel)
  have read' : standard.read .wholeRun (runRequest "<<+." true).body =
      .ok ⟨.plain "<<+.", .plain "", true, some 1000000⟩ :=
    toOption_eq_some_iff.1 (by decide +kernel)
  have answer : standard.handle {} (runRequest "<<+." false) 5 = some (a, {}) := by
    rw [lawful_standard.handle_run rfl rfl read]
    rfl
  have answer' : standard.handle {} (runRequest "<<+." true) 4 = some (a', {}) := by
    rw [lawful_standard.handle_run rfl rfl read']
    rfl
  have apart : [.motion .left, .motion .left, .motion .increment, .output].IsChain Command.Apart :=
    by simp [Command.Apart, Motion.opposite]
  obtain ⟨output, tape, pointer, steps, steps', i, k, same, same', margins⟩ :=
    run_answers_alike lawful_standard rfl rfl rfl rfl read read' answer answer' rfl rfl
  obtain ⟨rfl, rfl⟩ := margins (Command.steady_of_isChain apart)
  exact ⟨answer, answer', output, tape, pointer, steps, steps', by simpa using same, same'⟩

/-- The commands `<>` visit a cell for nothing, and their folding does not. The two answers tell
different tapes and different pointers. -/
theorem run_answers_differ :
    let a := runAnswer [] [0, 0] 1 2
    let a' := runAnswer [] [0] 0 0
    standard.read .wholeRun (runRequest "<>" false).body =
        .ok ⟨.plain "<>", .plain "", false, some 1000000⟩ ∧
      standard.read .wholeRun (runRequest "<>" true).body =
        .ok ⟨.plain "<>", .plain "", true, some 1000000⟩ ∧
      standard.handle {} (runRequest "<>" false) 3 = some (a, {}) ∧
      standard.handle {} (runRequest "<>" true) 3 = some (a', {}) ∧
      ∀ output tape pointer steps steps',
        ¬ (a = runAnswer output tape pointer steps ∧
          a' = runAnswer output tape pointer steps') := by
  intro a a'
  have read : standard.read .wholeRun (runRequest "<>" false).body =
      .ok ⟨.plain "<>", .plain "", false, some 1000000⟩ :=
    toOption_eq_some_iff.1 (by decide +kernel)
  have read' : standard.read .wholeRun (runRequest "<>" true).body =
      .ok ⟨.plain "<>", .plain "", true, some 1000000⟩ :=
    toOption_eq_some_iff.1 (by decide +kernel)
  refine ⟨read, read', ?_, ?_, ?_⟩
  · rw [lawful_standard.handle_run rfl rfl read]
    rfl
  · rw [lawful_standard.handle_run rfl rfl read']
    rfl
  · rintro output tape pointer steps steps' ⟨same, same'⟩
    cases (pointer_eq_of_runAnswer_eq same).trans (pointer_eq_of_runAnswer_eq same').symm

end ByteTape.Web
