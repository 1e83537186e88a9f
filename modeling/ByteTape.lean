import ByteTape.Text.Ascii
import ByteTape.Text.Blank
import ByteTape.Text.CodePoint
import ByteTape.Text.Digit
import ByteTape.Text.Numeral
import ByteTape.Text.Printable
import ByteTape.Text.Quoted
import ByteTape.Text.Utf8
import ByteTape.Text.Words
import ByteTape.Command
import ByteTape.Tape.Basic
import ByteTape.Tape.Geometry
import ByteTape.Instruction
import ByteTape.Loop
import ByteTape.Folding
import ByteTape.Program
import ByteTape.Detail
import ByteTape.Device
import ByteTape.Machine
import ByteTape.MissingSetting
import ByteTape.Stepper
import ByteTape.Session.Basic
import ByteTape.Session.Breakpoints
import ByteTape.Session.View
import ByteTape.Source.Basic
import ByteTape.Source.Folder
import ByteTape.Debugger.Basic
import ByteTape.Debugger.Request
import ByteTape.Json.Basic
import ByteTape.Json.Binary
import ByteTape.Json.Encoding
import ByteTape.Json.Printer
import ByteTape.Json.Reader
import ByteTape.Json.Shortest
import ByteTape.CommandLine.Debug
import ByteTape.CommandLine.Options
import ByteTape.CommandLine.Run
import ByteTape.CommandLine.Serve
import ByteTape.Web.Api
import ByteTape.Web.Body
import ByteTape.Web.Exchange
import ByteTape.Web.Field
import ByteTape.Web.Form
import ByteTape.Web.Frontend
import ByteTape.Web.Message
import ByteTape.Web.Route
import ByteTape.Web.Standard
import ByteTape.Web.Store
import ByteTape.Main
import ByteTape.Proofs.Except
import ByteTape.Proofs.Nesting
import ByteTape.Proofs.Folding.Step
import ByteTape.Proofs.Folding.Layout
import ByteTape.Proofs.Folding.Compact
import ByteTape.Proofs.Folding.Targets
import ByteTape.Proofs.Cancellation
import ByteTape.Proofs.Folding.Canonical
import ByteTape.Proofs.Folding.Acceptance
import ByteTape.Proofs.Simulation
import ByteTape.Proofs.Subrun
import ByteTape.Proofs.Block
import ByteTape.Proofs.Tape.Strip
import ByteTape.Proofs.Tape.Cover
import ByteTape.Proofs.Walk
import ByteTape.Proofs.Turns
import ByteTape.Proofs.Partner
import ByteTape.Proofs.Evaluation
import ByteTape.Proofs.Structured
import ByteTape.Proofs.Condensing
import ByteTape.Proofs.Unrolling
import ByteTape.Proofs.Calls
import ByteTape.Proofs.Equivalence
import ByteTape.Proofs.Matching
import ByteTape.Proofs.Tape.Refinement
import ByteTape.Proofs.Trail
import ByteTape.Proofs.MatchedTargets
import ByteTape.Proofs.Expansion
import ByteTape.Proofs.Budget
import ByteTape.Proofs.Stepping
import ByteTape.Proofs.FoldedSteps
import ByteTape.Proofs.Paired
import ByteTape.Proofs.Safety
import ByteTape.Proofs.Closing
import ByteTape.Proofs.Crossing
import ByteTape.Proofs.Tracing
import ByteTape.Proofs.Dealings
import ByteTape.Proofs.Faults
import ByteTape.Proofs.Scripted
import ByteTape.Proofs.Steady
import ByteTape.Proofs.Web.WholeRun
import ByteTape.Proofs.Session.Playing
import ByteTape.Proofs.Session.Renewal
import ByteTape.Proofs.Session.Limit
import ByteTape.Proofs.Text.Splitting
import ByteTape.Proofs.Web.SessionRequest
import ByteTape.Proofs.Web.Addresses
import ByteTape.Proofs.Web.Standard
import ByteTape.Proofs.Web.Serving
import ByteTape.Proofs.Web.Alike
import ByteTape.Proofs.Web.Separation
import ByteTape.Proofs.Web.Restart
import ByteTape.Proofs.Web.Failure
import ByteTape.Proofs.Debugger.Dialogue
import ByteTape.Proofs.Folding.Normal
import ByteTape.Proofs.Text.Decoding
import ByteTape.Proofs.CommandLine.Dump
import ByteTape.Proofs.CommandLine.Run
import ByteTape.Proofs.Web.TotalSteps
import ByteTape.Proofs.Folding.Partners
import ByteTape.Proofs.Truncation
import ByteTape.Proofs.Session.Breaking
import ByteTape.Proofs.Session.Chunking
import ByteTape.Proofs.Session.Calling
import ByteTape.Proofs.Session.History
import ByteTape.Proofs.Session.Sharing
import ByteTape.Proofs.Session.Restarting
import ByteTape.Proofs.Web.Ignoring
import ByteTape.Proofs.Verdict
import ByteTape.Proofs.Tape.Window
import ByteTape.Proofs.Session.Display
import ByteTape.Proofs.Debugger.Recent
import ByteTape.Proofs.Disassembly
import ByteTape.Proofs.Tape.Growth
import ByteTape.Proofs.Session.Allowance
import ByteTape.Proofs.Folding.Coherent
