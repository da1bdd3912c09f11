import CellMachine.Text.Quoted

/-!
Causes of problems. Each cause has a stable number, whose high digits say who is at fault.
-/

namespace CellMachine

/-- Why something was refused or failed. -/
inductive Cause where
  | structureCorrupt | typeConfusion
  | instructionOrderViolation | cancelled | stepLimitExceeded
  | unknownPrimaryType | nonEvaluatedValue | badSpliceRange
  | moduleNotFound | constNotFound | typeMismatch | unknownType | indexOutOfRange
  | duplicateType | duplicateOpcodes | duplicateModuleNames | genericBindingDeep
  | genericBindingIndex | genericBindingState | genericBindingFromType | genericBindingKeyedType
  | duplicateGenericBinding | unboundGeneric | argumentEvalShallowSimple | argumentRuntimeType
  | argumentRequiresStructBinding | missingNativeType | missingDeclaredType | conflictingTypes
  | typeValueMismatch | constantGenericType | unknownTypeCategory | noSuchConstant | notCallable
  | invalidReturnCell | invalidArgumentCell | wrongValueType | unknownOpcode | bindHintMismatch
  | debuggerAlreadySet
  | argumentCount | argumentType | argumentRef | argumentValue
  /-- A number that no other cause has. -/
  | unlisted (code : UInt32)
  deriving Repr, DecidableEq, Inhabited

/-- Who is at fault. -/
inductive Family where
  | vm | user | implementation | validation | unknown
  deriving Repr, DecidableEq, Inhabited

namespace Family

def name : Family → String
  | vm => "Vm"
  | user => "User"
  | implementation => "Implementation"
  | validation => "Validation"
  | unknown => "Unknown"

end Family

namespace Cause

def listed : List Cause :=
  [structureCorrupt, typeConfusion, instructionOrderViolation, cancelled, stepLimitExceeded,
   unknownPrimaryType, nonEvaluatedValue, badSpliceRange, moduleNotFound, constNotFound,
   typeMismatch, unknownType, indexOutOfRange, duplicateType, duplicateOpcodes,
   duplicateModuleNames, genericBindingDeep, genericBindingIndex, genericBindingState,
   genericBindingFromType, genericBindingKeyedType, duplicateGenericBinding, unboundGeneric,
   argumentEvalShallowSimple, argumentRuntimeType, argumentRequiresStructBinding,
   missingNativeType, missingDeclaredType, conflictingTypes, typeValueMismatch,
   constantGenericType, unknownTypeCategory, noSuchConstant, notCallable, invalidReturnCell,
   invalidArgumentCell, wrongValueType, unknownOpcode, bindHintMismatch, debuggerAlreadySet,
   argumentCount, argumentType, argumentRef, argumentValue]

def code : Cause → UInt32
  | structureCorrupt => 0x110001
  | typeConfusion => 0x110002
  | instructionOrderViolation => 0x120001
  | cancelled => 0x120002
  | stepLimitExceeded => 0x120003
  | unknownPrimaryType => 0x1f0001
  | nonEvaluatedValue => 0x1f0002
  | badSpliceRange => 0x1f0003
  | moduleNotFound => 0x210001
  | constNotFound => 0x210002
  | typeMismatch => 0x210003
  | unknownType => 0x210004
  | indexOutOfRange => 0x210005
  | duplicateType => 0x410001
  | duplicateOpcodes => 0x410002
  | duplicateModuleNames => 0x410003
  | genericBindingDeep => 0x410004
  | genericBindingIndex => 0x410005
  | genericBindingState => 0x410006
  | genericBindingFromType => 0x410007
  | genericBindingKeyedType => 0x410008
  | duplicateGenericBinding => 0x410009
  | unboundGeneric => 0x41000a
  | argumentEvalShallowSimple => 0x41000b
  | argumentRuntimeType => 0x41000c
  | argumentRequiresStructBinding => 0x41000d
  | missingNativeType => 0x41000e
  | missingDeclaredType => 0x41000f
  | conflictingTypes => 0x410010
  | typeValueMismatch => 0x410011
  | constantGenericType => 0x410012
  | unknownTypeCategory => 0x410013
  | noSuchConstant => 0x410014
  | notCallable => 0x410015
  | invalidReturnCell => 0x410016
  | invalidArgumentCell => 0x410017
  | wrongValueType => 0x410018
  | unknownOpcode => 0x410019
  | bindHintMismatch => 0x41001a
  | debuggerAlreadySet => 0x41001b
  | argumentCount => 0x810001
  | argumentType => 0x810002
  | argumentRef => 0x810003
  | argumentValue => 0x810004
  | unlisted code => code

def name : Cause → String
  | structureCorrupt => "STRUCTURE_CORRUPT"
  | typeConfusion => "TYPE_CONFUSION"
  | instructionOrderViolation => "INSTRUCTION_ORDER_VIOLATION"
  | cancelled => "CANCELLED"
  | stepLimitExceeded => "STEP_LIMIT_EXCEEDED"
  | unknownPrimaryType => "UNKNOWN_PRIMARY_TYPE"
  | nonEvaluatedValue => "NON_EVALUATED_VALUE"
  | badSpliceRange => "BAD_SPLICE_RANGE"
  | moduleNotFound => "MODULE_NOT_FOUND"
  | constNotFound => "CONST_NOT_FOUND"
  | typeMismatch => "TYPE_MISMATCH"
  | unknownType => "UNKNOWN_TYPE"
  | indexOutOfRange => "INDEX_OUT_OF_RANGE"
  | duplicateType => "DUPLICATE_TYPE"
  | duplicateOpcodes => "DUPLICATE_OPCODES"
  | duplicateModuleNames => "DUPLICATE_MODULE_NAMES"
  | genericBindingDeep => "GENERIC_BINDING_DEEP"
  | genericBindingIndex => "GENERIC_BINDING_INDEX"
  | genericBindingState => "GENERIC_BINDING_STATE"
  | genericBindingFromType => "GENERIC_BINDING_FROM_TYPE"
  | genericBindingKeyedType => "GENERIC_BINDING_KEYED_TYPE"
  | duplicateGenericBinding => "DUPLICATE_GENERIC_BINDING"
  | unboundGeneric => "UNBOUND_GENERIC"
  | argumentEvalShallowSimple => "ARGUMENT_EVAL_SHALLOW_SIMPLE"
  | argumentRuntimeType => "ARGUMENT_RUNTIME_TYPE"
  | argumentRequiresStructBinding => "ARGUMENT_REQUIRES_STRUCT_BINDING"
  | missingNativeType => "MISSING_NATIVE_TYPE"
  | missingDeclaredType => "MISSING_DECLARED_TYPE"
  | conflictingTypes => "CONFLICTING_TYPES"
  | typeValueMismatch => "TYPE_VALUE_MISMATCH"
  | constantGenericType => "CONSTANT_GENERIC_TYPE"
  | unknownTypeCategory => "UNKNOWN_TYPE_CATEGORY"
  | noSuchConstant => "NO_SUCH_CONSTANT"
  | notCallable => "NOT_CALLABLE"
  | invalidReturnCell => "INVALID_RETURN_CELL"
  | invalidArgumentCell => "INVALID_ARGUMENT_CELL"
  | wrongValueType => "WRONG_VALUE_TYPE"
  | unknownOpcode => "UNKNOWN_OPCODE"
  | bindHintMismatch => "BIND_HINT_MISMATCH"
  | debuggerAlreadySet => "DEBUGGER_ALREADY_SET"
  | argumentCount => "ARGUMENT_COUNT"
  | argumentType => "ARGUMENT_TYPE"
  | argumentRef => "ARGUMENT_REF"
  | argumentValue => "ARGUMENT_VALUE"
  | unlisted _ => "UNKNOWN"

def ofCode (code : UInt32) : Cause :=
  (listed.find? fun c => c.code == code).getD (unlisted code)

def family (c : Cause) : Family :=
  let digits := c.code &&& 0xf00000
  if digits == 0x100000 then .vm
  else if digits == 0x200000 then .user
  else if digits == 0x400000 then .implementation
  else if digits == 0x800000 then .validation
  else .unknown

/-- Whether the script's author is at fault. -/
def isUser (c : Cause) : Bool := c.family = .user

/-- Whether only a defect of the machine itself can be at fault. -/
def isVmBug (c : Cause) : Bool := c.code &&& 0xff0000 == 0x1f0000

/-- The name with the number, in at least six hexadecimal digits. -/
def details (c : Cause) : String :=
  let digits := Text.hex c.code.toNat
  c.name ++ "(0x" ++ String.ofList (List.replicate (6 - digits.length) '0') ++ digits ++ ")"

end Cause

end CellMachine
