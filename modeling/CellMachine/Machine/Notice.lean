import CellMachine.Problem.Basic
import CellMachine.Value

/-!
What a machine tells whoever watches it. Values are told as they are at that moment. Parts of a value
may be shared, so that writing it out can take far longer than computing it: of what a function
returns only the kind is told, and values of single opcodes are told only to those who want to hear
of them.
-/

namespace CellMachine

/-- What a watcher wants to hear of. -/
inductive Attention where
  | nothing
  /-- Failures, and starts and returns of functions. -/
  | calls
  /-- Single opcodes too. -/
  | opcodes
  deriving Repr, DecidableEq, Inhabited

inductive Notice where
  /-- A free-form message. -/
  | log (message : String) (params : Params)
  /-- A run failed. -/
  | failed (p : Problem)
  | started (function : Callable)
  /-- A function returned; the kind of the value is told, if there is one. -/
  | returned (function : Callable) (kind : Option String)
  /-- An opcode is about to run for a cell, or for a step of a reduction outside of any function. -/
  | opcodeStarted (function : Option Callable) (index : Nat) (cell : Cell)
  | opcodeResolved (function : Option Callable) (index : Nat) (cell : Cell) (value : Option Tree)

end CellMachine
