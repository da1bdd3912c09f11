import CellMachine.Memory.Building
import CellMachine.Standard.Reading

/-!
Access to the parts of values, and to constants by names that are only known during a run.
-/

namespace CellMachine.Standard

/-- The first argument is not what it should be. -/
def wrongFirst (f : Frame) (m : Memory) (expected : String) : Result :=
  let actual := match f.args[0]? with
    | some a => (m.typeOf a).name
    | none => "missing"
  .error ((((f.problem .wrongValueType).set "index" (0 : Nat)).set "expected" expected).set "actual"
    actual)

/-- The first element of an iterable, or a default when there is none. -/
def peek : Opcode where
  signature :=
    { mnemonic := "peek", source := .core "core.iterable.peek", generics := [{ id := "T" }]
      arguments := [⟨some "iterable", .inline iterableOfT, .shallow⟩,
        ⟨some "default", genericT, .lazy⟩]
      result := genericT }
  evaluate := fun f => do
    let m ← StoreM.memory
    match (f.value? m 0).bind Value.asIterable? with
    | none => pure (wrongFirst f m "iterable")
    | some items =>
      match items.get? 0 <|> f.args[1]? with
      | some a => pure (.lazy a)
      | none => pure (.error (f.problem .argumentCount))

def checkBounds (f : Frame) (m : Memory) (evaluated : Bool) : List Problem :=
  match checkNatives f m [1, 2] evaluated integer with
  | [] =>
    let refusal (value : Int64) (reason : String) : Problem :=
      ((f.problem .argumentValue).set "value" (Param.ofInt value.toInt)).set "reason" reason
    (match intArg f m 1 with
      | some start => if start.toInt < 0 then [refusal start "start cannot be negative"] else []
      | none => []) ++
    (match intArg f m 1, intArg f m 2 with
      | some start, some stop =>
        if 0 ≤ stop.toInt ∧ stop.toInt < start.toInt then [refusal stop "end is before start"]
        else []
      | _, _ => [])
  | problems => problems

/-- The elements between two bounds. What lies past the end is left out; a negative second bound
counts back from the end. -/
def slice : Opcode where
  signature :=
    { mnemonic := "slice", source := .core "core.iterable.slice", generics := [{ id := "T" }]
      arguments := [⟨some "iterable", .inline iterableOfT, .shallow⟩,
        ⟨some "start", .inline integer, .evaluated⟩, ⟨some "end", .inline integer, .evaluated⟩]
      result := .inline iterableOfT }
  staticCheck := fun f m => pure (checkBounds f m false)
  runtimeCheck := fun f m => pure (checkBounds f m true)
  evaluate := fun f => do
    let m ← StoreM.memory
    match f.args[0]?, (f.value? m 0).bind Value.asIterable? with
    | some list, some items =>
      match intArg f m 1, intArg f m 2 with
      | some start, some stop =>
        if start.toInt < 0 then pure (refuse f (checkBounds f m true))
        else
          match Span.resolve ⟨some start.toNatClampNeg, some stop⟩ items.size with
          | some (low, high) => return .ofOutcome (← (Build.sub list low high).run)
          | none => pure (.value (Build.ofMembers []))
      | _, _ => pure (refuse f (checkBounds f m true))
    | _, _ => pure (wrongFirst f m "iterable")

def getKey : Opcode where
  signature :=
    { mnemonic := "kload", source := .core "core.structures"
      generics := [{ id := "S", hint := .structured }, { id := "R", keyedBy := some 1 }]
      arguments := [⟨some "structure", genericS, .shallow⟩,
        ⟨some "key", .inline keyOfS, .evaluated⟩]
      result := genericR }
  evaluate := fun f => do
    let m ← StoreM.memory
    match (f.value? m 0).bind Value.asStructured? with
    | none => pure (wrongFirst f m "structured")
    | some members =>
      match (f.value? m 1).bind fun v => v.asKey? <|> v.asString? with
      | none =>
        pure (.error (((f.problem .typeConfusion).set "index" (1 : Nat)).set "expected" "keyof"))
      | some key =>
        match members.get? key with
        | some a => pure (.lazy a)
        | none =>
          pure (.error (((f.problem .argumentValue).set "key" key).set "reason" "no such key"))

/-! ### Constants by name -/

def noModule (f : Frame) (moduleName : String) : Problem :=
  (f.problem .moduleNotFound).set "module" moduleName

def noConstant (f : Frame) (moduleName name : String) : Problem :=
  ((f.problem .constNotFound).set "module" moduleName).set "constant" name

/-- Finds a constant that fits the type of the cell it is loaded for. -/
def findConstant (f : Frame) (moduleName name : String) : StateM Registry (Outcome Unit) := fun types =>
  match f.modules.get? moduleName with
  | none => (.error (noModule f moduleName), types)
  | some m =>
    match m.constants.get? name with
    | none => (.error (noConstant f moduleName name), types)
    | some c =>
      if f.resultType.isRuntimeDetermined then (.ok (), types)
      else
        match types.matchTypes f.source c.type (some f.resultType) with
        | (.ok _, types) => (.ok (), types)
        | (.error p, types) =>
          (.error ((p.add "module" moduleName).add "constant" name), types)

def checkNames (f : Frame) : Check := fun m => do
  match checkNatives f m [0, 1] true string with
  | [] =>
    match stringArg f m 0, stringArg f m 1 with
    | some moduleName, some name =>
      match ← findConstant f moduleName name with
      | .ok _ => pure []
      | .error p => pure [p]
    | _, _ => pure [f.problem .nonEvaluatedValue]
  | problems => pure problems

def checkModuleName (f : Frame) (m : Memory) : List Problem :=
  match checkNative f m 0 true string with
  | some p => [p]
  | none =>
    match stringArg f m 0 with
    | some moduleName =>
      if f.modules.contains moduleName then [] else [noModule f moduleName]
    | none => []

/-- A constant of a module, found by names that may be computed. -/
def loadConst : Opcode where
  signature :=
    { mnemonic := "cload", source := .core "core.const-lookup"
      arguments := [⟨some "module-name", .inline string, .evaluated⟩,
        ⟨some "constant-name", .inline string, .evaluated⟩]
      result := .inline .runtimeDetermined }
  staticCheck := fun f m =>
    match f.value? m 0, f.value? m 1 with
    | some _, some _ => checkNames f m
    | some _, none => pure (checkModuleName f m)
    | none, _ => pure []
  runtimeCheck := checkNames
  evaluate := fun f => do
    let m ← StoreM.memory
    match stringArg f m 0, stringArg f m 1 with
    | some moduleName, some name =>
      let found : Outcome Unit ← fun s =>
        let (found, types) := findConstant f moduleName name s.types
        (found, { s with types })
      match found with
      | .error p => pure (.error p)
      | .ok _ =>
        match (m.lookup moduleName name).bind m.address? with
        | some a => pure (.lazy a)
        | none => pure (.error (noConstant f moduleName name))
    | _, _ =>
      let problems ← StoreM.check (checkNames f)
      pure (.error (problems.head?.getD (f.problem .nonEvaluatedValue)))

end CellMachine.Standard
