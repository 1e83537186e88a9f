import ByteTape.Text.Numeral

/-!
# Options of a command line

Reading the arguments of a command: at most one plain argument, the source, and options. A long
option may be cut to a beginning that only it has, and takes its value after an equals sign or as
the next argument. Short options may be joined behind one dash. Two dashes end the options, and
after an equals sign they are no value: the option is given nothing. An argument that looks like a
negative number or holds a space is a plain one.
-/

namespace ByteTape.CommandLine

/-- What an option is given: nothing, a request for help, or a value of some kind. -/
inductive Parameter where
  | flag
  | help
  | text
  | integer
  | oneOf (choices : List String)
  deriving DecidableEq, Repr

namespace Parameter

def takesValue : Parameter → Bool
  | flag | help => false
  | _ => true

/-- Whether a value is of the kind asked for. -/
def accepts : Parameter → String → Bool
  | integer, value => (Text.integer? value).isSome
  | oneOf choices, value => choices.contains value
  | _, _ => true

end Parameter

/-- An option by its names, dashes included. -/
structure Switch where
  long : String
  short : Option String := none
  parameter : Parameter := .flag
  deriving DecidableEq, Repr

/-- The option that every command has. -/
def helpSwitch : Switch := { long := "--help", short := some "-h", parameter := .help }

def Switch.isNamed (s : Switch) (name : String) : Bool := s.long == name || s.short == some name

/-- Why a command is not run: help was asked for, or the arguments are wrong. -/
inductive Usage where
  | help
  | wrong
  deriving DecidableEq, Repr

/-- The value an option brings along in its own argument: none, or one that is joined to its short
name or stands after an equals sign. -/
inductive Attached where
  | nothing
  | given (text : String)
  deriving DecidableEq, Repr

/-- How one argument reads. -/
inductive Token where
  | plain (text : String)
  | terminator
  | option (s : Switch) (short : Bool) (attached : Attached)
  /-- What looks like an option and is none. -/
  | stray
  deriving DecidableEq, Repr

/-- Whether an argument looks like a negative number, with or without a fraction. -/
def looksNegative (text : List Char) : Bool :=
  let isDigit (c : Char) := (Text.digitValue? c).isSome
  match text with
  | '-' :: rest =>
    let number := if rest.getLast? = some '\n' then rest.dropLast else rest
    match number.dropWhile isDigit with
    | [] => !number.isEmpty
    | '.' :: fraction => !fraction.isEmpty && fraction.all isDigit
    | _ => false
  | _ => false

/-- A text cut at its first equals sign, if it has one. -/
def assignment? (text : String) : Option (String × String) :=
  let cs := text.toList
  let name := cs.takeWhile (· != '=')
  if name.length < cs.length then
    some (String.ofList name, String.ofList (cs.drop (name.length + 1)))
  else none

/-- The readings of an argument that starts with a dash and is no full option name: a long option
cut short, or a short option with more joined to it. -/
def abbreviations (switches : List Switch) (text : String) : List Token :=
  match text.toList with
  | '-' :: '-' :: _ =>
    let (name, attached) : String × Attached := match assignment? text with
      | some (name, value) => (name, .given value)
      | none => (text, .nothing)
    (switches.filter fun s => name.toList.isPrefixOf s.long.toList).map fun s =>
      .option s false attached
  | '-' :: c :: rest =>
    (switches.filter fun s => s.short == some (String.ofList ['-', c])).map fun s =>
      .option s true (.given (String.ofList rest))
  | _ => []

/-- Read one argument. Two readings are refused. -/
def readToken (switches : List Switch) (text : String) : Except Usage Token :=
  let find (name : String) := switches.find? (·.isNamed name)
  let named (name : String) (attached : Attached) : Option Token :=
    (find name).map fun s => .option s (s.short == some name) attached
  if text.toList.head? ≠ some '-' then .ok (.plain text)
  else
    match named text .nothing with
    | some token => .ok token
    | none =>
      if text = "-" then .ok (.plain text)
      else
        match (assignment? text).bind fun a => named a.1 (.given a.2) with
        | some token => .ok token
        | none =>
          match abbreviations switches text with
          | [token] => .ok token
          | _ :: _ :: _ => .error .wrong
          | [] =>
            if looksNegative text.toList || text.toList.contains ' ' then .ok (.plain text)
            else .ok .stray

/-- Read the arguments up to two dashes; all after them is plain. -/
def readTokens (switches : List Switch) : List String → Except Usage (List Token)
  | [] => .ok []
  | text :: rest =>
    if text = "--" then .ok (.terminator :: rest.map .plain)
    else
      match readToken switches text, readTokens switches rest with
      | .ok token, .ok tokens => .ok (token :: tokens)
      | _, _ => .error .wrong

/-- The options in one argument: flags, and then one option with what is attached to it. -/
structure Bundle where
  flags : List Switch := []
  last : Switch
  attached : Attached := .nothing

/-- Take apart the text attached to a short option. A flag cannot have a value: what follows it are
the letters of more options. -/
def unbundle (switches : List Switch) (s : Switch) : List Char → Except Usage Bundle
  | [] => .ok { last := s }
  | c :: rest =>
    if s.parameter.takesValue then
      .ok { last := s, attached := .given (String.ofList (c :: rest)) }
    else
      match switches.find? (·.short == some (String.ofList ['-', c])) with
      | none => .error .wrong
      | some next => (unbundle switches next rest).map fun b => { b with flags := s :: b.flags }

/-- The options in one argument. -/
def bundle (switches : List Switch) (s : Switch) (short : Bool) (attached : Attached) :
    Except Usage Bundle :=
  match attached, short with
  | .given text, true =>
    if text.isEmpty then .ok { last := s, attached := .given "" }
    else unbundle switches s text.toList
  | attached, _ => .ok { last := s, attached := attached }

/-- An option with the value given to it, if it was given one. -/
abbrev Setting := Switch × Option String

/-- The value of an option, and the tokens after it. An option that takes a value and brings none
along takes the plain argument after it. -/
def takeValue (s : Switch) (attached : Attached) (rest : List Token) :
    Except Usage (Option String × List Token) :=
  match s.parameter.takesValue, attached, rest with
  | true, .given value, rest => .ok (if value = "--" then none else some value, rest)
  | true, .nothing, .plain value :: rest => .ok (some value, rest)
  | false, .nothing, rest => .ok (none, rest)
  | _, _, _ => .error .wrong

/-- The options in one argument with their values, and the tokens after them. -/
def Bundle.settings (b : Bundle) (rest : List Token) :
    Except Usage (List Setting × List Token) :=
  match takeValue b.last b.attached rest with
  | .error e => .error e
  | .ok (value, rest) => .ok (b.flags.map (·, none) ++ [(b.last, value)], rest)

theorem length_takeValue_le {s : Switch} {attached : Attached} {rest after : List Token}
    {value : Option String} (h : takeValue s attached rest = .ok (value, after)) :
    after.length ≤ rest.length := by
  unfold takeValue at h
  split at h <;> cases h <;> simp

theorem length_settings_le {b : Bundle} {rest after : List Token} {given : List Setting}
    (h : b.settings rest = .ok (given, after)) : after.length ≤ rest.length := by
  unfold Bundle.settings at h
  split at h
  · cases h
  · rename_i hv
    cases h
    exact length_takeValue_le hv

/-- The arguments of a command, in the order given. Options go by their long names. -/
structure Arguments where
  source : Option String := none
  given : List (String × Option String) := []
  /-- Whether something was given that the command has no use for. -/
  leftover : Bool := false
  deriving DecidableEq, Repr

namespace Arguments

/-- What an option was given last, if it was used at all. -/
def value? (a : Arguments) (long : String) : Option (Option String) :=
  (a.given.reverse.find? (·.1 == long)).map Prod.snd

def has (a : Arguments) (long : String) : Bool := (a.value? long).isSome

/-- What an option that takes a whole number was given last. -/
def integer? (a : Arguments) (long : String) : Option (Option Int) :=
  (a.value? long).map (·.bind Text.integer?)

/-- Note an option with its value. A request for help stops the reading at once, as does a value of
the wrong kind. -/
def note (a : Arguments) (setting : Setting) : Except Usage Arguments :=
  match setting.1.parameter with
  | .help => .error .help
  | parameter =>
    if setting.2.all parameter.accepts then
      .ok { a with given := a.given ++ [(setting.1.long, setting.2)] }
    else .error .wrong

end Arguments

/-- Take in tokens. With `wantsSource` the first plain one is the source, and two dashes beside it
are skipped; whatever has no use is left over. -/
def collect (switches : List Switch) (wantsSource : Bool) (tokens : List Token) (a : Arguments) :
    Except Usage Arguments :=
  match tokens with
  | [] => .ok a
  | .stray :: rest => collect switches wantsSource rest { a with leftover := true }
  | .terminator :: .plain text :: rest =>
    if wantsSource && a.source.isNone then
      collect switches wantsSource rest { a with source := some text }
    else .ok { a with leftover := true }
  | .terminator :: _ => .ok { a with leftover := true }
  | .plain text :: rest =>
    if wantsSource && a.source.isNone then
      let a := { a with source := some text }
      match rest with
      | .terminator :: rest => collect switches wantsSource rest a
      | rest => collect switches wantsSource rest a
    else collect switches wantsSource rest { a with leftover := true }
  | .option s short attached :: rest =>
    match bundle switches s short attached with
    | .error e => .error e
    | .ok b =>
      match h : b.settings rest with
      | .error e => .error e
      | .ok (given, after) =>
        match given.foldlM Arguments.note a with
        | .error e => .error e
        | .ok a =>
          have := length_settings_le h
          collect switches wantsSource after a
termination_by tokens.length

/-- Read the arguments of a command. The source, if wanted, has to be there, and nothing may be left
over. -/
def parse (switches : List Switch) (wantsSource : Bool) (arguments : List String) :
    Except Usage Arguments :=
  let switches := helpSwitch :: switches
  match readTokens switches arguments >>= (collect switches wantsSource · {}) with
  | .error e => .error e
  | .ok a => if a.leftover || (wantsSource && a.source.isNone) then .error .wrong else .ok a

/-- The exit code for arguments that do not make a command. -/
def Usage.exitCode : Usage → Nat
  | help => 0
  | wrong => 2

end ByteTape.CommandLine
