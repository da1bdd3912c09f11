import CellMachine.Machine.Action
import CellMachine.Memory.Building

/-!
How slots get their values. A slot that is a cell of an activation gets it from its node, a deferred
call by calling; every slot gets a value at most once.
-/

namespace CellMachine

def orderViolation (reason : String) : Problem :=
  (Problem.mk .instructionOrderViolation none []).set "reason" reason

namespace Invocation

/-- Evaluates the arguments as declared, then applies the opcode. -/
def action (i : Invocation) : Action :=
  .mk ((i.opcode.signature.arguments.zip i.args).filterMap fun e =>
    match e.1.evaluation with
    | .evaluated => some (.evaluate e.2 .deep)
    | .shallow => some (.evaluate e.2 .shallow)
    | .lazy => none) (.invoke i)

def failure (i : Invocation) (p : Problem) : Step Action :=
  .error ((p.add "opcode" i.opcode.mnemonic).orAt i.cell.bestSource)

def resolved (i : Invocation) : RunM Unit :=
  RunM.tellOpcode fun m => .opcodeResolved i.function i.index i.cell (m.treeAt i.target)

/-- The position of the first argument that should have a value and has none. -/
def unready (i : Invocation) (m : Memory) : Option Nat :=
  (i.opcode.signature.arguments.zip i.args).findIdx? fun e =>
    e.1.evaluation != .lazy && !m.isEvaluated e.2

end Invocation

namespace Machine

abbrev Stepped := RunM (Step Action)

def unevaluated (m : Memory) (a : Address) : Problem :=
  (Problem.mk .nonEvaluatedValue (m.sourceOf a) []).set "type" (m.typeOf a).name

def settle (target produced : Address) : Stepped := do
  match ← RunM.value? produced with
  | some v =>
    RunM.store (StoreM.memoize target v)
    pure (.value target)
  | none => pure (.error (unevaluated (← RunM.memory) produced))

def openMembers (m : Memory) (v : Value) : List Address :=
  v.members.filter fun a =>
    match m.value? a with
    | none => true
    | some (.iterable _) => true
    | some (.structured _) => true
    | some _ => false

def deepen (a : Address) (v : Value) : Stepped := do
  match openMembers (← RunM.memory) v with
  | [] => pure (.value a)
  | as => pure (.action (.mk (as.map fun a => .evaluate a .deep) (.value a)))

/-! ### Nodes -/

def corrupt (p : Pending) : Problem :=
  ((Problem.mk .structureCorrupt p.activation.call.callable.source []).set "reason"
    "unknown compiled cell").set "cell" p.node

def slotsOf (activation : Activation) (indices : List Nat) : Option (List Address) :=
  indices.mapM activation.slots.get?

/-- The work that gives a node's slot its value. -/
def nodeAction (p : Pending) : RunM (Outcome Action) := do
  match p.activation.call.nodes.get? p.node, p.activation.slots.get? p.node with
  | some node, some slot =>
    match node.op with
    | .argument => pure (.ok (.value slot))
    | .constant _ => pure (.ok (.value slot))
    | .structured members =>
      match slotsOf p.activation members.values with
      | none => pure (.error (corrupt p))
      | some as =>
        let entries := members.keys.zip as
        RunM.store (StoreM.memoize slot (.structured (.ofLayer (.ofList entries) node.cell.type)))
        pure (.ok (.value slot))
    | .iterable items =>
      match slotsOf p.activation items with
      | none => pure (.error (corrupt p))
      | some as =>
        RunM.store (StoreM.memoize slot (.iterable (.rope (.ofList as))))
        pure (.ok (.value slot))
    | .opcode op arguments bindings =>
      match slotsOf p.activation arguments with
      | none => pure (.error (corrupt p))
      | some args =>
        pure (.ok (Invocation.action
          ⟨op, args, bindings, node.cell, some p.activation.call.callable, p.node, slot⟩))
    | .call callable argument =>
      match slotsOf p.activation [callable, argument] with
      | some [f, x] => pure (.ok ((Action.evaluate f .shallow).andThen (.call x slot)))
      | _ => pure (.error (corrupt p))
  | _, _ => pure (.error (corrupt p))

def resolve (a : Address) : RunM (Outcome Action) := do
  let memory ← RunM.memory
  match a.index?, memory.get? a with
  | some index, some slot =>
    match (← get).pending.get? index with
    | some p => nodeAction p
    | none =>
      -- The slot belongs to no activation, so only a deferred call can give it a value.
      match slot.cell.kind with
      | .call callable argument =>
        let missing (at_ : Nat) : Problem :=
          ((Problem.mk .structureCorrupt slot.cell.source []).set "reason"
            "call refers to missing memory").set "index" at_
        match memory.address? callable, memory.address? argument with
        | some f, some x => pure (.ok ((Action.evaluate f .shallow).andThen (.call x a)))
        | none, _ => pure (.error (missing callable))
        | some _, none => pure (.error (missing argument))
      | kind => pure (.error ((unevaluated memory a).set "kind" kind.name))
  | _, some slot => pure (.error ((unevaluated memory a).set "kind" slot.cell.kind.name))
  | _, none => pure (.error (unevaluated memory a))

def force (a : Address) (depth : Depth) : Stepped := do
  match ← RunM.value? a with
  | some v =>
    match depth with
    | .shallow => pure (.value a)
    | .deep => deepen a v
  | none =>
    match ← resolve a with
    | .error p => pure (.error p)
    | .ok action =>
      let settled := action.andThen (.settle a)
      match depth with
      | .shallow => pure (.action settled)
      | .deep => pure (.action (settled.andThen .deepen))

/-! ### Calls -/

def construct (call : CompiledCall) (argument : Address) : RunM (Outcome Action) := do
  let memory ← RunM.memory
  let type := memory.typeOf argument
  let accepted ←
    if type.isRuntimeDetermined then pure (.ok ())
    else RunM.store (StoreM.matchTypes (memory.sourceOf argument) type (some call.argumentType))
  match accepted with
  | .error p => pure (.error (p.add "position" "argument"))
  | .ok _ =>
    let slots ← RunM.store (activate argument call.nodes)
    match slots.get? Callable.resultCell with
    | none =>
      pure (.error ((Problem.mk .structureCorrupt call.callable.source []).set "reason"
        "compiled call has no return cell"))
    | some result =>
      modify fun m => { m with pending := enterSlots ⟨call, slots⟩ call.nodes m.pending }
      pure (.ok (.evaluate result .shallow))

def call (function argument target : Address) : Stepped := do
  let memory ← RunM.memory
  -- The compilation of a constant is kept for later calls.
  let compilation ← match function with
    | .at index => if index < memory.constants then compileAt index else compile function
    | .loose _ => compile function
  match compilation with
  | .error problems =>
    pure (.error ((firstOf problems).getD ⟨.notCallable, memory.sourceOf function, []⟩))
  | .ok compiled =>
    match ← construct compiled argument with
    | .error p => pure (.error p)
    | .ok action =>
      RunM.tell fun _ => .started compiled.callable
      pure (.action (action.andThen (.leave target compiled.callable)))

def leave (target : Address) (function : Callable) (produced : Address) : Stepped := do
  match ← settle target produced with
  | .value a =>
    RunM.tell fun m => .returned function (m.kindAt a)
    pure (.value a)
  | step => pure step

/-! ### Reductions -/

def reduceCell (type : Ty) : Cell := ⟨.external "reduce", type, some (.internal "reduce")⟩

def combine (c : Combiner) (left right : Address) : RunM (Outcome Action) := do
  match c with
  | .opcode op context type =>
    -- A combination belongs to no function, and its cell to no callable.
    let cell := reduceCell type
    let target ← RunM.store (StoreM.allocate cell none)
    pure (.ok (Invocation.action
      ⟨op, left :: right :: context.toList, [], cell, none, target.index?.getD 0, target⟩))
  | .function f first second context argumentType =>
    let entries := (first, left) :: (second, right) :: context.toList
    RunM.attempt do
      let record ← Build.recordOfMembers entries argumentType
      let argument ← StoreM.allocate (reduceCell argumentType) (some record)
      let deferred ← Build.call f argument
      pure (.evaluate deferred .shallow)

/-- Combines the first term with the next one, and so on. -/
def sequential (c : Combiner) (term : Address) : List Address → Stepped
  | [] => force term .shallow
  | next :: rest => do
    match ← combine c term next with
    | .error p => pure (.error p)
    | .ok action => pure (.action (action.andThen (.combine c rest)))

/-- The work that combines neighbouring terms, and the term left over. -/
def pairUp (c : Combiner) : List Address → RunM (Outcome (List Action × Option Address))
  | [] => pure (.ok ([], none))
  | [term] => pure (.ok ([], some term))
  | left :: right :: rest => do
    match ← combine c left right with
    | .error p => pure (.error p)
    | .ok action =>
      match ← pairUp c rest with
      | .error p => pure (.error p)
      | .ok (actions, carry) => pure (.ok (action :: actions, carry))

/-- Combines neighbouring terms until one is left. -/
def pairwise (c : Combiner) (terms : List Address) : Stepped := do
  match terms with
  | [] => pure (.error (orderViolation "empty fold"))
  | [term] => force term .shallow
  | terms =>
    match ← pairUp c terms with
    | .error p => pure (.error p)
    | .ok (actions, carry) => pure (.action (.mk actions (.combineLevel c carry)))

def reduceElements (c : Combiner) (initial iterable : Address) : Stepped := do
  let memory ← RunM.memory
  match memory.value? iterable with
  | some (.iterable items) =>
    match (← RunM.setting).config.reduceStrategy with
    | .sequential => sequential c initial items.toList
    | .pairwise => pairwise c (initial :: items.toList)
  | _ =>
    pure (.error (Build.wrongKind (memory.sourceOf iterable) "iterable"
      (memory.typeOf iterable).category.name))

def combinerOf (r : Reducer) (type : Ty) (m : Machine) : Outcome Combiner :=
  let memory := m.store.memory
  match r with
  | .opcode mnemonic context iterable _ =>
    match m.setting.opcodes.get? mnemonic with
    | some op => .ok (.opcode op context type)
    | none =>
      .error (((Problem.mk .unknownOpcode (memory.sourceOf iterable) []).set "opcode"
        mnemonic).set "reason" "reducer")
  | .function f first second contextKey context _ _ =>
    match memory.typeOf f with
    | .callable _ _ argument _ =>
      match m.store.types.resolve argument with
      | .error p => .error (p.orAt (memory.sourceOf f))
      | .ok t =>
        let keyed := contextKey.bind fun k => context.map fun a => (k, a)
        .ok (.function f first second keyed t)
    | other => .error (Build.wrongKind (memory.sourceOf f) "callable" other.category.name)

/-! ### Opcodes -/

def conclude (i : Invocation) (produced : Address) : Stepped := do
  match ← settle i.target produced with
  | .value a =>
    i.resolved
    pure (.value a)
  | step => pure step

def proceed (i : Invocation) (frame : Frame) : Result → Stepped
  | .value v => do
    let found ←
      if (← RunM.setting).config.validateReturns then
        RunM.store (StoreM.check (i.opcode.resultCheck frame v))
      else pure []
    match firstOf found with
    | some p => pure (i.failure p)
    | none =>
      RunM.store (StoreM.memoize i.target v)
      i.resolved
      pure (.value i.target)
  | .error p => pure (i.failure p)
  | .lazy a => pure (.action ((Action.evaluate a .shallow).andThen (.conclude i)))
  | .reduce r => do
    match combinerOf r i.cell.type (← get) with
    | .error p => pure (i.failure p)
    | .ok c =>
      let (iterable, initial) := r.terms
      pure (.action (((Action.evaluate iterable .shallow).andThen (.reduce c initial)).andThen
        (.conclude i)))

/-- Applies an opcode. -/
def invoke (i : Invocation) : Stepped := do
  match i.unready (← RunM.memory) with
  | some position =>
    pure (.error ((((orderViolation "argument not evaluated").set "opcode"
      i.opcode.mnemonic).set "argIndex" position).orAt i.cell.bestSource))
  | none =>
    let setting ← RunM.setting
    let frame : Frame := ⟨i.cell.bestSource, i.args, i.cell.type, i.bindings, setting.modules⟩
    RunM.tellOpcode fun _ => .opcodeStarted i.function i.index i.cell
    let found ←
      if setting.config.runtimeValidation then
        RunM.store (StoreM.check (i.opcode.runtimeCheck frame))
      else pure []
    match firstOf found with
    | some p => pure (i.failure p)
    | none => proceed i frame (← RunM.store (i.opcode.evaluate frame))

/-! ### Work -/

/-- Does something with the result of the only action that was waited for. -/
def withResult (results : List Address) (f : Address → Stepped) : Stepped :=
  match results.getLast? with
  | some a => f a
  | none => pure (.error (orderViolation "missing dependency result"))

/-- Does the work of an action with the results it waited for. -/
def perform (work : Work Action) (results : List Address) : Stepped :=
  match work with
  | .value a => pure (.value a)
  | .evaluate a depth => force a depth
  | .settle target => withResult results fun a => settle target a
  | .deepen => withResult results fun a => force a .deep
  | .call argument target => withResult results fun f => call f argument target
  | .leave target function => withResult results fun a => leave target function a
  | .invoke i => invoke i
  | .conclude i => withResult results fun a => conclude i a
  | .reduce c initial => withResult results fun a => reduceElements c initial a
  | .combine c rest => withResult results fun a => sequential c a rest
  | .combineLevel c carry => pairwise c (results ++ carry.toList)
  | .custom run => run results

end Machine

end CellMachine
