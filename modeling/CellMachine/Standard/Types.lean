import CellMachine.Ty.Basic

/-!
The types that the standard opcodes are declared with.
-/

namespace CellMachine.Standard

def integer : Ty := .native "int" (some (.core "types.integer")) "integer" (NativeView.is .int)

def number : Ty := .native "number" (some (.core "types.number")) "number" (NativeView.is .number)

def string : Ty := .native "str" (some (.core "types.string")) "string" (NativeView.is .string)

/-- The structure without members, which every structure matches. -/
def anyStruct : Ty := .structured "any-struct" (some (.core "types.any-struct")) []

/-- The native types that a host has to bring for the standard opcodes. -/
def natives : List Ty := [integer, number, string]

def genericT : TyRef := .generic "T" .any

def genericS : TyRef := .generic "S" .structured

def genericR : TyRef := .generic "R" .any

/-- An iterable of whatever `T` is bound to. -/
def iterableOfT : Ty := .iterable "iterable" (some (.core "types.iterable")) genericT .irrelevant

/-- A key of the structure that `S` is bound to. -/
def keyOfS : Ty := .keyOf "keyof" (some (.core "types.generic-struct")) genericS

end CellMachine.Standard
