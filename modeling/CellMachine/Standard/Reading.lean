import CellMachine.Opcode.Basic
import CellMachine.Standard.Types

/-!
Reading of native arguments. A cell of an open type is accepted when its value is.
-/

namespace CellMachine.Standard

/-- What is wrong with an argument that should be of a native type. When no evaluation is required,
an argument without a value is taken on trust. -/
def checkNative (f : Frame) (m : Memory) (index : Nat) (evaluated : Bool) (expected : Ty) :
    Option Problem :=
  match expected.tag? with
  | none => some ((f.problem .unknownPrimaryType).set "type" expected.name)
  | some tag =>
    match f.args[index]? with
    | none =>
      some (((f.problem .argumentCount).set "index" index).set "actual" f.args.length)
    | some a =>
      let type := m.typeOf a
      let confusion :=
        (((f.problem .typeConfusion).set "index" index).set "expected" expected.name).set "actual"
          type.name
      if type.isRuntimeDetermined || type.tag? == some tag then
        match m.value? a with
        | none =>
          if evaluated then some ((f.problem .nonEvaluatedValue).set "index" index) else none
        | some (.native n) => if expected.admits n then none else some confusion
        | some _ => some confusion
      else some confusion

def checkNatives (f : Frame) (m : Memory) (indices : List Nat) (evaluated : Bool) (expected : Ty) :
    List Problem :=
  indices.filterMap fun i => checkNative f m i evaluated expected

def nativesCheck (indices : List Nat) (evaluated : Bool) (expected : Ty) (f : Frame) : Check :=
  fun m => pure (checkNatives f m indices evaluated expected)

def intArg (f : Frame) (m : Memory) (index : Nat) : Option Int64 :=
  (f.value? m index).bind Value.asInt?

def numberArg (f : Frame) (m : Memory) (index : Nat) : Option Float :=
  (f.value? m index).bind Value.asNumber?

def stringArg (f : Frame) (m : Memory) (index : Nat) : Option String :=
  (f.value? m index).bind Value.asString?

/-- The first problem, or else that a value does not do. -/
def refuse (f : Frame) (problems : List Problem) : Result :=
  .error (problems.head?.getD (f.problem .argumentValue))

end CellMachine.Standard
