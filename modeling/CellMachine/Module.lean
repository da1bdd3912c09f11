import CellMachine.Cell
import CellMachine.Native

/-!
Modules as they are given to the loader: named constants, each with a type and a stored value.
-/

namespace CellMachine

/-- A constant's value before it is converted. -/
inductive Stored where
  | native (n : Native)
  | key (k : String)
  | callable (c : Callable)
  | list (items : List Stored)
  | record (members : List (String × Stored))

def Stored.shape : Stored → String
  | native _ => "native"
  | key _ => "key"
  | callable _ => "callable"
  | list _ => "list"
  | record _ => "record"

structure Constant where
  type : Ty
  value : Stored
  source : Option Position := none

structure Module where
  name : String
  constants : KeyMap String Constant
  source : Option Position := none

end CellMachine
