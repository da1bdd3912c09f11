import CellMachine.Standard.Reading

/-!
Addition, sums and joined text.
-/

namespace CellMachine.Standard

def binarySignature (mnemonic place : String) (type : Ty) : Signature where
  mnemonic
  source := .core place
  arguments := [⟨some "first", .inline type, .evaluated⟩, ⟨some "second", .inline type, .evaluated⟩]
  result := .inline type

def binary (mnemonic place : String) (type : Ty) (read : Frame → Memory → Nat → Option α)
    (combine : α → α → Value) : Opcode where
  signature := binarySignature mnemonic place type
  staticCheck := nativesCheck [0, 1] false type
  runtimeCheck := nativesCheck [0, 1] true type
  evaluate := fun f => do
    let m ← StoreM.memory
    match read f m 0, read f m 1 with
    | some a, some b => pure (.value (combine a b))
    | _, _ => pure (refuse f (checkNatives f m [0, 1] true type))

/-- Adds two integers; what does not fit wraps around. -/
def addIntegers : Opcode := binary "iadd" "core.integers.add" integer intArg fun a b => .int (a + b)

def addNumbers : Opcode :=
  binary "nadd" "core.numbers.add" number numberArg fun a b => .number (a + b)

def concatStrings : Opcode :=
  binary "concat" "core.strings.concat" string stringArg fun a b => .string (a ++ b)

def sum (mnemonic place adding : String) (type : Ty) : Opcode where
  signature :=
    { mnemonic, source := .core place, result := .inline type
      arguments :=
        [⟨some "items", .inline (.iterable ("finite-" ++ type.name ++ "-list") (some (.core place))
          (.inline type) .finite), .lazy⟩,
         ⟨some "initial", .inline type, .lazy⟩] }
  evaluate := fun f =>
    match f.args with
    | items :: initial :: _ => pure (.reduce (.opcode adding none items initial))
    | _ =>
      pure (.error (((f.problem .argumentCount).set "expected" (2 : Nat)).set "actual"
        f.args.length))

def sumIntegers : Opcode := sum "isum" "core.integers.sum" "iadd" integer

def sumNumbers : Opcode := sum "nsum" "core.numbers.sum" "nadd" number

end CellMachine.Standard
