import CellMachine.Call.Binding
import CellMachine.Call.Graph

/-!
Compilation of callables. The cells that the result needs are checked once and become the nodes of a
compiled call, each with its opcode found, its generics bound and its constants looked up. Every
problem is reported, not only the first.
-/

namespace CellMachine

/-- What a node does. -/
inductive NodeOp where
  /-- The argument of the call. -/
  | argument
  /-- The slot of a constant. -/
  | constant (a : Address)
  | structured (members : KeyMap String Nat)
  | iterable (items : List Nat)
  | opcode (op : Opcode) (arguments : List Nat) (bindings : KeyMap String Ty)
  | call (callable argument : Nat)

structure Node where
  cell : Cell
  op : NodeOp

structure CompiledCall where
  /-- The index of the slot that was compiled. -/
  index : Option Nat
  callable : Callable
  argumentType : Ty
  resultType : Ty
  nodes : KeyMap Nat Node

/-- What a compilation reads. -/
structure CompileEnv where
  opcodes : Opcodes
  modules : KeyMap String Module
  memory : Memory
  callable : Callable

/-- What a compilation changes: the registry's verdicts, and the problems so far. -/
structure CompileState where
  types : Registry
  problems : List Problem := []

abbrev CompileM := StateM CompileState

namespace Compile

def report (p : Problem) : CompileM Unit :=
  modify fun s => { s with problems := s.problems ++ [p] }

def matchTypes (source : Option Position) (actual expected : Ty) : CompileM (Outcome Unit) := fun s =>
  let (result, types) := s.types.matchTypes source actual (some expected)
  (result, { s with types })

/-- One type must match another, unless one of them is open. -/
def checkType (source : Option Position) (actual expected : Ty) (place : String) : CompileM Unit := do
  if actual.isRuntimeDetermined || expected.isRuntimeDetermined then pure ()
  else
    match ← matchTypes source actual expected with
    | .ok _ => pure ()
    | .error p => report (p.add "at" place)

def checkMember (env : CompileEnv) (source : Option Position) (child : Nat) (expected : TyRef)
    (place : String) : CompileM Unit := do
  if expected.isGeneric then pure ()
  else
    match env.callable.cell? child with
    -- The walk reported the reference.
    | none => pure ()
    | some cell =>
      match (← get).types.resolve expected with
      | .ok expected => checkType source cell.type expected place
      | .error p => report ((p.orAt source).add "at" place)

def wrongKind (cell : Cell) (expected : String) : Problem :=
  (((Problem.mk .wrongValueType cell.bestSource []).set "expected" expected).set "actual"
    cell.type.category.name).set "type" cell.type.name

/-- A structure cell has exactly the keys of its type, with matching members. -/
def checkStructure (env : CompileEnv) (cell : Cell) (members : KeyMap String Nat) :
    CompileM Unit := do
  if cell.type.isRuntimeDetermined then pure ()
  else
    match cell.type with
    | .structured _ _ stores =>
      let mismatch := (Problem.mk .typeMismatch cell.bestSource []).set "type" cell.type.name
      stores.forM fun e =>
        match members.get? e.1 with
        | some child => checkMember env cell.bestSource child e.2 e.1
        | none => report (mismatch.set "missing_key" e.1)
      members.forM fun e =>
        if KeyMap.contains stores e.1 then pure ()
        else report (mismatch.set "unexpected_key" e.1)
    | _ => report (wrongKind cell "structured")

def checkIterable (env : CompileEnv) (cell : Cell) (items : List Nat) : CompileM Unit := do
  if cell.type.isRuntimeDetermined then pure ()
  else
    match cell.type with
    | .iterable _ _ element _ =>
      items.zipIdx.forM fun e => checkMember env cell.bestSource e.1 element (toString e.2)
    | _ => report (wrongKind cell "iterable")

def checkCall (env : CompileEnv) (cell : Cell) (callable argument : Nat) : CompileM Unit := do
  match env.callable.cell? callable with
  | none => pure ()
  | some function =>
    if function.type.isRuntimeDetermined then pure ()
    else
      match function.type with
      | .callable _ _ expected result =>
        checkMember env cell.bestSource argument expected "argument"
        if result.isGeneric then pure ()
        else
          match (← get).types.resolve result with
          | .ok t => checkType cell.bestSource t cell.type "return"
          | .error p => report (p.orAt cell.bestSource)
      | _ => report (wrongKind function "callable")

def opcodeProblem (cell : Cell) (mnemonic : String) (index : Nat) (cause : Cause) : Problem :=
  ((Problem.mk cause cell.bestSource []).set "opcode" mnemonic).set "cell" index

def constantAt (nodes : KeyMap Nat Node) (index : Nat) : Option Address :=
  match (nodes.get? index).map Node.op with
  | some (.constant a) => some a
  | _ => none

/-- The arguments must match their declared types. The answer tells whether they do. -/
def checkArguments (cell : Cell) (mnemonic : String) (index : Nat) (bound : KeyMap String Ty) :
    List ((Argument × Cell) × Nat) → CompileM Bool
  | [] => pure true
  | ((declared, actual), position) :: rest => do
    let here ← do
      match Binding.substitute (← get).types declared.type bound with
      | .error p =>
        report ((p.orAt cell.bestSource).add "opcode" mnemonic)
        pure false
      | .ok expected =>
        if expected.isRuntimeDetermined || actual.type.isRuntimeDetermined then pure true
        else
          match ← matchTypes cell.bestSource actual.type expected with
          | .ok _ => pure true
          | .error p =>
            report ((((opcodeProblem cell mnemonic index .argumentType).set "argIndex"
              position).set "argName" declared.displayName).addAll p.params)
            pure false
    -- The others are looked at even if this one does not match.
    let others ← checkArguments cell mnemonic index bound rest
    pure (here && others)

/-- The result must match the type of the cell. The answer tells whether it does. -/
def checkResult (cell : Cell) (mnemonic : String) (bound : KeyMap String Ty) (declared : TyRef) :
    CompileM Bool := do
  match Binding.substitute (← get).types declared bound with
  | .error p =>
    report ((p.orAt cell.bestSource).add "opcode" mnemonic)
    pure false
  | .ok t =>
    if t.isRuntimeDetermined || cell.type.isRuntimeDetermined then pure true
    else
      match ← matchTypes cell.bestSource t cell.type with
      | .ok _ => pure true
      | .error p =>
        report ((p.add "opcode" mnemonic).add "position" "return")
        pure false

/-- The slots that an opcode's own check sees: those of constants, and for every other argument a
slot without a value. -/
def checkSlots (m : Memory) : List (Option Address × Cell) → List Address × Memory
  | [] => ([], m)
  | (some a, _) :: rest =>
    let (as, m) := checkSlots m rest
    (a :: as, m)
  | (none, cell) :: rest =>
    let (a, m) := m.allocateLoose cell none
    let (as, m) := checkSlots m rest
    (a :: as, m)

def staticCheck (env : CompileEnv) (op : Opcode) (cell : Cell) (bound : KeyMap String Ty)
    (arguments : List (Option Address × Cell)) : CompileM (List Problem) := fun s =>
  let (args, memory) := checkSlots env.memory arguments
  let frame : Frame := ⟨cell.bestSource, args, cell.type, bound, env.modules⟩
  let (problems, types) := op.staticCheck frame memory s.types
  (problems, { s with types })

/-- Compiles an opcode cell whose opcode is known and whose arguments exist. -/
def applyOpcode (env : CompileEnv) (index : Nat) (cell : Cell) (op : Opcode) (arguments : List Nat)
    (explicit : KeyMap String Ty) (cells : List Cell) (nodes : KeyMap Nat Node) :
    CompileM (Option NodeOp) := do
  let signature := op.signature
  let mnemonic := signature.mnemonic
  let constants := arguments.map (constantAt nodes)
  let site : Binding.Site :=
    { types := (← get).types, signature, cell, explicit, arguments := cells
      constants := constants.map fun a => a.bind env.memory.value? }
  match Binding.misfit site signature.generics [] with
  | [] =>
    let bound := Binding.all site signature.generics []
    let argumentsFit ←
      checkArguments cell mnemonic index bound (signature.arguments.zip cells).zipIdx
    let resultFits ← checkResult cell mnemonic bound signature.result
    if argumentsFit && resultFits then
      match ← staticCheck env op cell bound (constants.zip cells) with
      | [] => pure (some (.opcode op arguments bound))
      | found =>
        found.forM fun p =>
          report (((p.orAt cell.bestSource).add "opcode" mnemonic).add "cell" index)
        pure none
    else pure none
  | bad =>
    bad.forM fun e =>
      report ((((opcodeProblem cell mnemonic index .bindHintMismatch).set "genericId" e.1.id).set
        "hint" e.1.hint.name).set "type" e.2.name)
    pure none

def compileOpcode (env : CompileEnv) (index : Nat) (cell : Cell) (mnemonic : String)
    (arguments : List Nat) (explicit : KeyMap String Ty) (nodes : KeyMap Nat Node) :
    CompileM (Option NodeOp) := do
  match env.opcodes.get? mnemonic with
  | none =>
    report (opcodeProblem cell mnemonic index .unknownOpcode)
    pure none
  | some op =>
    let expected := op.signature.arguments.length
    if arguments.length ≠ expected then
      report (((opcodeProblem cell mnemonic index .argumentCount).set "expected" expected).set
        "actual" arguments.length)
      pure none
    else
      let cells := arguments.filterMap env.callable.cell?
      -- Arguments without a cell were reported by the walk.
      if cells.length ≠ arguments.length then pure none
      else applyOpcode env index cell op arguments explicit cells nodes

def compileNode (env : CompileEnv) (index : Nat) (cell : Cell) (nodes : KeyMap Nat Node) :
    CompileM (Option NodeOp) := do
  match cell.kind with
  | .external name =>
    if index = Callable.argumentCell then pure (some .argument)
    else
      report (((Problem.mk .invalidArgumentCell cell.bestSource []).set "cell" index).set "name"
        name)
      pure none
  | .constant moduleName name =>
    match (env.memory.lookup moduleName name).bind env.memory.address? with
    | none =>
      report (((Problem.mk .noSuchConstant cell.bestSource []).set "module" moduleName).set
        "constant" name)
      pure none
    | some a =>
      checkType cell.bestSource (env.memory.typeOf a) cell.type name
      pure (some (.constant a))
  | .structured members =>
    checkStructure env cell members
    pure (some (.structured members))
  | .iterable items =>
    checkIterable env cell items
    pure (some (.iterable items))
  | .opcode mnemonic arguments explicit =>
    compileOpcode env index cell mnemonic arguments explicit nodes
  | .call callable argument =>
    checkCall env cell callable argument
    pure (some (.call callable argument))

def compileNodes (env : CompileEnv) : List Nat → KeyMap Nat Node → CompileM (KeyMap Nat Node)
  | [], nodes => pure nodes
  | index :: rest, nodes => do
    match env.callable.cell? index with
    | none => compileNodes env rest nodes
    | some cell =>
      match ← compileNode env index cell nodes with
      | none => compileNodes env rest nodes
      | some op => compileNodes env rest (nodes.insert index ⟨cell, op⟩)

/-- The argument cell must be external and accept the callable's argument. -/
def checkArgumentCell (env : CompileEnv) (argumentType : Ty) : CompileM Unit :=
  match env.callable.cell? Callable.argumentCell with
  | some cell =>
    match cell.kind with
    | .external _ => checkType cell.bestSource argumentType cell.type "argument"
    | kind =>
      report (((Problem.mk .invalidArgumentCell cell.bestSource []).set "cell"
        Callable.argumentCell).set "kind" kind.name)
  | none =>
    report (((Problem.mk .invalidArgumentCell env.callable.source []).set "cell"
      Callable.argumentCell).set "reason" "missing")

def build (env : CompileEnv) (argumentType resultType : Ty) : CompileM (KeyMap Nat Node) := do
  match env.callable.cell? Callable.resultCell with
  | none =>
    report ((Problem.mk .invalidReturnCell env.callable.source []).set "reason" "missing")
    pure []
  | some result =>
    match result.kind with
    | .external _ =>
      report ((Problem.mk .invalidReturnCell result.bestSource []).set "kind" result.kind.name)
      pure []
    | _ =>
      checkType result.bestSource result.type resultType "return"
      checkArgumentCell env argumentType
      let (order, problems) := env.callable.reachable
      problems.forM report
      compileNodes env order []

end Compile

abbrev Compilation := Except (List Problem) CompiledCall

def CompileEnv.compile (env : CompileEnv) (index : Option Nat) (argumentType resultType : Ty) :
    StateM Registry Compilation := fun types =>
  let (nodes, s) := Compile.build env argumentType resultType { types }
  let compiled : CompiledCall := ⟨index, env.callable, argumentType, resultType, nodes⟩
  (unlessProblems s.problems compiled, s.types)

def compileSlot (opcodes : Opcodes) (modules : KeyMap String Module) (memory : Memory) (a : Address) :
    StateM Registry Compilation := do
  let source := memory.sourceOf a
  match memory.typeOf a, memory.value? a with
  | .callable _ _ argument result, some (.callable c) =>
    let types ← get
    let at_ := c.source <|> source
    match types.resolve argument, types.resolve result with
    | .ok argumentType, .ok resultType =>
      (CompileEnv.mk opcodes modules memory c).compile a.index? argumentType resultType
    | .error p, .ok _ => pure (.error [p.orAt at_])
    | .ok _, .error p => pure (.error [p.orAt at_])
    | .error p, .error q => pure (.error [p.orAt at_, q.orAt at_])
  | t, _ => pure (.error [(Problem.mk .notCallable source []).set "type" t.name])

end CellMachine
