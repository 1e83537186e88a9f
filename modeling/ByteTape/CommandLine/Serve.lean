import ByteTape.CommandLine.Options

/-!
# The serve command

Settings of the HTTP interface.
-/

namespace ByteTape.CommandLine

/-- Where and how the interface is served. A setting that was given nothing is missing. -/
structure ServerSettings where
  title : String := "foldbf API"
  host : Option String := some "127.0.0.1"
  port : Option Int := some 8000
  logLevel : Option String := some "info"
  deriving DecidableEq, Repr

def logLevels : List String := ["critical", "error", "warning", "info", "debug"]

def serveSwitches : List Switch :=
  [{ long := "--host", parameter := .text },
    { long := "--port", parameter := .integer },
    { long := "--log-level", parameter := .oneOf logLevels }]

/-- The settings that the arguments of the serve command ask for. -/
def planServe (arguments : List String) : Except Usage ServerSettings :=
  (parse serveSwitches false arguments).map fun a =>
    let defaults : ServerSettings := {}
    { host := (a.value? "--host").getD defaults.host
      port := (a.integer? "--port").getD defaults.port
      logLevel := (a.value? "--log-level").getD defaults.logLevel }

end ByteTape.CommandLine
