import CellMachine.Memory.Store
import CellMachine.Module
import CellMachine.Opcode.Signature

/-!
Opcodes: a signature, checks, and an evaluation. The checks made when a script is loaded see values of
constant arguments only; those made before an evaluation see every argument evaluated as declared.
-/

namespace CellMachine

/-- What an opcode sees of the cell it is applied for. -/
structure Frame where
  source : Option Position
  args : List Address
  resultType : Ty
  bindings : KeyMap String Ty
  /-- The modules of the script. -/
  modules : KeyMap String Module

namespace Frame

def problem (f : Frame) (cause : Cause) : Problem := ⟨cause, f.source, []⟩

def value? (f : Frame) (m : Memory) (index : Nat) : Option Value :=
  f.args[index]?.bind fun a => m.value? a

/-- Tells a problem what is known of the frame: every argument, every bound type and the type of
the result. -/
def explain (f : Frame) (m : Memory) (p : Problem) : Problem :=
  let args := f.args.zipIdx.map fun e => ("arg" ++ toString e.2, m.describe e.1)
  let bound := f.bindings.map fun e => ("bound." ++ e.1, e.2.name)
  (args ++ bound ++ [("return", f.resultType.name)]).foldl (fun p e => p.set e.1 (.text e.2)) p

def describe (f : Frame) (m : Memory) : String :=
  let source := match f.source with
    | some p => "Some(" ++ p.details ++ ")"
    | none => "None"
  "OpcodeFrame \x7b source: " ++ source ++ ", args: [" ++
    Text.joined ", " (f.args.map m.describe) ++ "], return_type: " ++
    Text.quoted f.resultType.name ++ ", bound_types: [" ++
    Text.joined ", " (f.bindings.keys.map Text.quoted) ++ "], .. \x7d"

end Frame

/-- A fold over the elements of a slot. -/
inductive Reducer where
  | opcode (mnemonic : String) (context : Option Address) (iterable initial : Address)
  /-- The function gets a record with the two terms, and the context, under the given keys. -/
  | function (function : Address) (first second : String) (contextKey : Option String)
      (context : Option Address) (iterable initial : Address)

namespace Reducer

/-- The slot of the elements, and that of the initial term. -/
def terms : Reducer → Address × Address
  | opcode _ _ iterable initial => (iterable, initial)
  | function _ _ _ _ _ iterable initial => (iterable, initial)

def mnemonic? : Reducer → Option String
  | opcode mnemonic .. => some mnemonic
  | function .. => none

def context? : Reducer → Option Address
  | opcode _ context _ _ => context
  | function _ _ _ _ context _ _ => context

end Reducer

/-- What an evaluation comes to. -/
inductive Result where
  | value (v : Value)
  | error (p : Problem)
  /-- The value of another slot. -/
  | lazy (a : Address)
  | reduce (r : Reducer)

def Result.ofOutcome : Outcome Value → Result
  | .ok v => value v
  | .error p => error p

/-- A check reads memory and may leave verdicts in the registry. -/
abbrev Check := Memory → StateM Registry (List Problem)

structure Opcode where
  signature : Signature
  staticCheck : Frame → Check := fun _ _ => pure []
  runtimeCheck : Frame → Check := fun _ _ => pure []
  evaluate : Frame → StoreM Result
  resultCheck : Frame → Value → Check := fun _ _ _ => pure []

namespace Opcode

def mnemonic (o : Opcode) : String := o.signature.mnemonic

def describe (o : Opcode) : String := "Opcode(" ++ o.mnemonic ++ ")"

end Opcode

abbrev Opcodes := KeyMap String Opcode

def Opcodes.ofList (l : List Opcode) : Opcodes := KeyMap.ofList (l.map fun o => (o.mnemonic, o))

def StoreM.check (c : Check) : StoreM (List Problem) := fun s =>
  let (problems, types) := c s.memory s.types
  (problems, { s with types })

end CellMachine
