/-!
# Missing settings

A command line can name a setting and give it nothing. The command goes on until it needs the
setting, and ends there.
-/

namespace ByteTape

/-- A setting that was given nothing. -/
inductive MissingSetting where
  | input
  | stepLimit
  | tapeRadius
  | historyLimit
  deriving DecidableEq, Repr

/-- What is said where a setting is needed. -/
def MissingSetting.message : MissingSetting → String
  | input => "'list' object has no attribute 'encode'"
  | stepLimit => "'>=' not supported between instances of 'int' and 'list'"
  | tapeRadius => "unsupported operand type(s) for -: 'int' and 'list'"
  | historyLimit => "'>' not supported between instances of 'int' and 'list'"

end ByteTape
