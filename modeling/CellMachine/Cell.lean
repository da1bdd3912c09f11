import CellMachine.Ty.Basic

/-!
Cells: how a value comes about. The cells of a callable refer to each other by number; cell 0 gives
the callable's result and cell 1 is its argument.
-/

namespace CellMachine

inductive CellKind where
  /-- Given from outside. -/
  | external (name : String)
  /-- A constant of a module. -/
  | constant (moduleName name : String)
  /-- An opcode applied to other cells, with the types its generics are bound to. -/
  | opcode (mnemonic : String) (arguments : List Nat) (bindings : KeyMap String Ty)
  /-- A callable applied to an argument. -/
  | call (callable argument : Nat)
  | structured (members : KeyMap String Nat)
  | iterable (items : List Nat)

namespace CellKind

def name : CellKind → String
  | external _ => "external"
  | constant .. => "constant"
  | opcode .. => "opcode"
  | call .. => "calling"
  | structured _ => "structured"
  | iterable _ => "iterable"

def references : CellKind → List Nat
  | external _ => []
  | constant .. => []
  | opcode _ arguments _ => arguments
  | call callable argument => [callable, argument]
  | structured members => members.values
  | iterable items => items

end CellKind

structure Cell where
  kind : CellKind
  type : Ty
  source : Option Position := none

namespace Cell

def external (name : String) (type : Ty) : Cell := ⟨.external name, type, none⟩

def constant (moduleName name : String) (type : Ty) : Cell := ⟨.constant moduleName name, type, none⟩

/-- Binds a generic of an opcode cell; other cells have none. -/
def bind (c : Cell) (id : String) (type : Ty) : Cell :=
  match c.kind with
  | .opcode mnemonic arguments bindings =>
    { c with kind := .opcode mnemonic arguments (bindings.insert id type) }
  | _ => c

/-- Its own place, or else that of its type. -/
def bestSource (c : Cell) : Option Position := c.source <|> c.type.source

def part (c : Cell) (name : String) (type : Ty) : Cell :=
  let kind := match c.kind with
    | .constant m n => .constant m (n ++ "." ++ name)
    | .external n => .external (n ++ "." ++ name)
    | other => .external (other.name ++ "." ++ name)
  { c with kind, type }

/-- The mnemonic of an opcode cell, the kind of any other. -/
def label (c : Cell) : String :=
  match c.kind with
  | .opcode mnemonic .. => mnemonic
  | other => other.name

end Cell

/-- A function as a graph of cells. -/
structure Callable where
  cells : KeyMap Nat Cell
  source : Option Position := none

namespace Callable

/-- The number of the cell that gives the result. -/
def resultCell : Nat := 0

/-- The number of the cell that stands for the argument. -/
def argumentCell : Nat := 1

def cell? (c : Callable) (index : Nat) : Option Cell := c.cells.get? index

end Callable

end CellMachine
