import CellMachine.Machine.Notice

/-!
Events: what a watcher keeps of a notice.
-/

namespace CellMachine

inductive Event where
  | log (message : String) (params : Params)
  | error (p : Problem)
  | functionStarted (source : Option Position)
  /-- The kind of the value, if there is one. -/
  | functionReturned (source : Option Position) (kind : Option String)
  | opcodeStarted (index : Nat) (opcode : String)
  | opcodeResolved (index : Nat) (opcode : String) (value : String)

namespace Event

def ofNotice : Notice → Event
  | .log message params => log message params
  | .failed p => error p
  | .started f => functionStarted f.source
  | .returned f kind => functionReturned f.source kind
  | .opcodeStarted _ index cell => opcodeStarted index cell.label
  | .opcodeResolved _ index cell value =>
    opcodeResolved index cell.label ((value.map Tree.render).getD "<pending>")

def type : Event → String
  | log .. => "log"
  | error _ => "error"
  | functionStarted _ => "function-started"
  | functionReturned .. => "function-returned"
  | opcodeStarted .. => "opcode-started"
  | opcodeResolved .. => "opcode-resolved"

def problem? : Event → Option Problem
  | error p => some p
  | _ => none

/-- Parameters with the kind of each. -/
def renderParams (params : Params) : String :=
  let param (e : String × Param) : String :=
    Text.quoted e.1 ++ ": " ++
      match e.2 with
      | .text s => "Str(" ++ Text.quoted s ++ ")"
      | .number x => "Num(" ++ Native.format.render x ++ ")"
  "\x7b" ++ Text.joined ", " (params.map param) ++ "\x7d"

def place (source : Option Position) : String := (source.map Position.text).getD "<unknown>"

/-- The event on one line. -/
def text : Event → String
  | log message [] => "log: " ++ message
  | log message params => "log: " ++ message ++ " " ++ renderParams params
  | error p => "error: " ++ p.message
  | functionStarted source => "call " ++ place source
  | functionReturned source kind =>
    "return " ++ place source ++ " (" ++ kind.getD "pending" ++ ")"
  | opcodeStarted index opcode => "  [" ++ toString index ++ "] " ++ opcode
  | opcodeResolved index opcode value =>
    "  [" ++ toString index ++ "] " ++ opcode ++ " = " ++ value

end Event

end CellMachine
