import CellMachine.Watch.Buffer
import CellMachine.Watch.Settings

/-!
Watchers. A recorder keeps events with the depth of calls at which they happened; a tracer turns each
notice into a line of a trace.
-/

namespace CellMachine

/-- Whether a notice is about a single opcode. -/
def Notice.isOpcode : Notice → Bool
  | opcodeStarted .. => true
  | opcodeResolved .. => true
  | _ => false

structure Recorder where
  settings : WatchSettings := {}
  buffer : Buffer := {}
  /-- How many functions were started and have not returned. -/
  depth : Nat := 0

namespace Recorder

def ofSettings (settings : WatchSettings) : Recorder where
  settings
  buffer := { capacity := settings.historySize }

def push (r : Recorder) (event : Event) : Recorder :=
  { r with buffer := (r.buffer.push r.depth event).2 }

/-- Records a notice. A start is recorded outside of the function it starts, and so is a return. -/
def observe (r : Recorder) (n : Notice) : Recorder :=
  match n with
  | .started _ =>
    let r := r.push (.ofNotice n)
    { r with depth := r.depth + 1 }
  | .returned .. => { r with depth := r.depth - 1 }.push (.ofNotice n)
  | n => if n.isOpcode && !r.settings.opcodeEvents then r else r.push (.ofNotice n)

def eventTypes (r : Recorder) : List String := r.buffer.records.map fun e => e.event.type

/-- The recorded failures, the oldest first. -/
def errors (r : Recorder) : List Problem := r.buffer.records.filterMap fun e => e.event.problem?

def clear (r : Recorder) : Recorder := { r with buffer := r.buffer.clear }

end Recorder

/-- A line of a trace: its level, and texts by name. -/
structure TraceLine where
  level : Level
  fields : KeyMap String String

namespace TraceLine

def ofEvent (level : Level) (message : String) (n : Notice) : TraceLine :=
  ⟨level, [("event", (Event.ofNotice n).text), ("message", message)]⟩

/-- The line for a notice, unless it is about an opcode and these are not watched. -/
def ofNotice (s : WatchSettings) (n : Notice) : Option TraceLine :=
  match n with
  | .log message params =>
    some ⟨s.eventLevel, [("message", message), ("parameters", Event.renderParams params)]⟩
  | .failed p =>
    some ⟨s.errorLevel,
      [("id", p.cause.name), ("message", "generated error"), ("problem", p.message)]⟩
  | .started _ => some (ofEvent s.eventLevel "function started" n)
  | .returned .. => some (ofEvent s.eventLevel "function returned" n)
  | .opcodeStarted .. => if s.opcodeEvents then some (ofEvent .trace "opcode started" n) else none
  | .opcodeResolved .. => if s.opcodeEvents then some (ofEvent .trace "opcode resolved" n) else none

end TraceLine

/-- Whoever watches a script. -/
inductive Watcher where
  | recorder (r : Recorder)
  /-- A tracer with the lines so far, the newest first. -/
  | tracer (settings : WatchSettings) (lines : List TraceLine)

namespace Watcher

def observe (w : Watcher) (n : Notice) : Watcher :=
  match w with
  | recorder r => recorder (r.observe n)
  | tracer s lines => tracer s ((TraceLine.ofNotice s n).toList ++ lines)

def observeAll (w : Watcher) (notices : List Notice) : Watcher := notices.foldl observe w

def clear : Watcher → Watcher
  | recorder r => recorder r.clear
  | tracer s _ => tracer s []

end Watcher

end CellMachine
