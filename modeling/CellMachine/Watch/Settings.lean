import CellMachine.Machine.Notice

/-!
Settings of watchers.
-/

namespace CellMachine

/-- How important a trace line is. -/
inductive Level where
  | error | warn | info | debug | trace
  deriving Repr, DecidableEq, Inhabited

namespace Level

def all : List Level := [error, warn, info, debug, trace]

def name : Level → String
  | error => "ERROR"
  | warn => "WARN"
  | info => "INFO"
  | debug => "DEBUG"
  | trace => "TRACE"

def details : Level → String
  | error => "Level(Error)"
  | warn => "Level(Warn)"
  | info => "Level(Info)"
  | debug => "Level(Debug)"
  | trace => "Level(Trace)"

end Level

structure WatchSettings where
  /-- How many events a recorder keeps. -/
  historySize : Nat := 1000
  /-- The level of messages, starts and returns. -/
  eventLevel : Level := .debug
  /-- The level of failures. -/
  errorLevel : Level := .warn
  /-- Whether single opcodes are watched too. -/
  opcodeEvents : Bool := false
  deriving Repr, DecidableEq, Inhabited

namespace WatchSettings

def attention (s : WatchSettings) : Attention := if s.opcodeEvents then .opcodes else .calls

def verbose : WatchSettings := ⟨10000, .trace, .debug, true⟩

def details (s : WatchSettings) : String :=
  "DebugConfig \x7b history_size: " ++ toString s.historySize ++ ", event_level: " ++
    s.eventLevel.details ++ ", error_level: " ++ s.errorLevel.details ++ ", opcode_events: " ++
    (if s.opcodeEvents then "true" else "false") ++ " \x7d"

end WatchSettings

end CellMachine
