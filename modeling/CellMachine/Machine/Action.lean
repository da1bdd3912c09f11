import CellMachine.Machine.Basic

/-!
Actions: work that waits for the results of other actions. The machine keeps actions on a stack of its
own, so that calls may nest as deep as memory allows.
-/

namespace CellMachine

/-- How far a slot is to be evaluated. -/
inductive Depth where
  /-- The value itself. -/
  | shallow
  /-- The value and all its members. -/
  | deep
  deriving Repr, DecidableEq, Inhabited

/-- What a piece of work comes to: an end, or further work. -/
inductive Step (α : Type) where
  | value (a : Address)
  | error (p : Problem)
  | action (next : α)

/-- The application of an opcode for a cell. -/
structure Invocation where
  opcode : Opcode
  args : List Address
  bindings : KeyMap String Ty
  cell : Cell
  /-- The function that the cell belongs to. -/
  function : Option Callable
  index : Nat
  /-- The slot that gets the value. -/
  target : Address

/-- How two terms of a reduction become one. -/
inductive Combiner where
  | opcode (op : Opcode) (context : Option Address) (type : Ty)
  | function (function : Address) (first second : String) (context : Option (String × Address))
      (argumentType : Ty)

/-- What an action does with the results it waited for. -/
inductive Work (α : Type) where
  /-- Comes to a given slot. -/
  | value (a : Address)
  /-- Evaluates a given slot. -/
  | evaluate (a : Address) (depth : Depth)
  /-- Gives the result's value to a slot. -/
  | settle (target : Address)
  /-- Evaluates the members of the result. -/
  | deepen
  /-- Calls the result. -/
  | call (argument target : Address)
  /-- Ends a call: gives the result's value to a slot. -/
  | leave (target : Address) (function : Callable)
  | invoke (i : Invocation)
  /-- Ends an invocation that had to wait: gives the result's value to its slot. -/
  | conclude (i : Invocation)
  /-- Reduces the elements of the result. -/
  | reduce (c : Combiner) (initial : Address)
  /-- Combines the result with the first of the terms that are left. -/
  | combine (c : Combiner) (rest : List Address)
  /-- Combines neighbours among the results and a term left over. -/
  | combineLevel (c : Combiner) (carry : Option Address)
  /-- Whatever else a host wants done. -/
  | custom (run : List Address → Machine → Step α × Machine)

inductive Action where
  | mk (dependencies : List Action) (work : Work Action)

namespace Action

def dependencies : Action → List Action
  | mk ds _ => ds

def work : Action → Work Action
  | mk _ w => w

def value (a : Address) : Action := mk [] (.value a)

def evaluate (a : Address) (depth : Depth) : Action := mk [] (.evaluate a depth)

def andThen (a : Action) (w : Work Action) : Action := mk [a] w

def describe (a : Action) : String :=
  "RuntimeAction \x7b dependencies: " ++ toString a.dependencies.length ++ ", .. \x7d"

end Action

end CellMachine
