import CellMachine.Standard.Access
import CellMachine.Standard.Arithmetic

/-!
The standard opcodes.
-/

namespace CellMachine.Standard

def opcodes : List Opcode :=
  [addIntegers, addNumbers, sumIntegers, sumNumbers, concatStrings, peek, slice, getKey, loadConst]

end CellMachine.Standard
