import CellMachine.Ty.Basic

/-!
What an opcode declares: its mnemonic, its arguments and how far each is evaluated before the opcode
runs, its generics and where their bindings come from, and the type of its result.
-/

namespace CellMachine

/-- How far an argument is evaluated before the opcode runs. -/
inductive Evaluation where
  /-- With all its members. -/
  | evaluated
  /-- Not at all. -/
  | lazy
  /-- Without its members. -/
  | shallow
  deriving Repr, DecidableEq, Inhabited

def Evaluation.name : Evaluation → String
  | evaluated => "evaluated"
  | lazy => "lazy"
  | shallow => "shallow_evaluation"

structure Argument where
  name : Option String
  type : TyRef
  evaluation : Evaluation := .evaluated

def Argument.displayName (a : Argument) : String := a.name.getD "<unset>"

/-- A generic of an opcode. -/
structure Generic where
  id : String
  hint : Hint := .any
  /-- The argument whose value, a type, it is bound to. -/
  fromArgument : Option Nat := none
  /-- The argument whose value, a key, names the member whose type it is bound to. -/
  keyedBy : Option Nat := none
  deriving Repr, DecidableEq, Inhabited

structure Signature where
  mnemonic : String
  source : Position
  generics : List Generic := []
  arguments : List Argument := []
  result : TyRef

namespace Signature

/-- The first declaration of a generic. -/
def generic? (s : Signature) (id : String) : Option Generic := s.generics.find? fun g => g.id == id

/-- The declared types, the result last. -/
def declared (s : Signature) : List TyRef := s.arguments.map Argument.type ++ [s.result]

end Signature

end CellMachine
