import Mathlib.Tactic
import CellMachine.Machine.Execution

/-!
How the machine's own work is put together. The work for a cell of an activation is read off its node, and
that for any other slot off its own cell; a call compiles its function, judges the argument and sets up
slots; an opcode is applied between two looks for problems. What holds of all work is shown part by part.
-/

namespace CellMachine

namespace RunM

variable {α β : Type}

lemma run_bind (x : RunM α) (f : α → RunM β) (m : Machine) :
    (x >>= f) m = f (x m).1 (x m).2 := rfl

lemma run_pure (a : α) (m : Machine) : (pure a : RunM α) m = (a, m) := rfl

lemma run_get (m : Machine) : (get : RunM Machine) m = (m, m) := rfl

lemma run_memory (m : Machine) : RunM.memory m = (m.store.memory, m) := rfl

lemma run_setting (m : Machine) : RunM.setting m = (m.setting, m) := rfl

lemma run_value? (a : Address) (m : Machine) : RunM.value? a m = (m.store.memory.value? a, m) := rfl

lemma run_store (x : StoreM α) (m : Machine) :
    RunM.store x m = ((x m.store).1, { m with store := (x m.store).2 }) := rfl

/-- Looks for problems, if the configuration asks for that. -/
def checking (asked : Config → Bool) (x : StoreM (List Problem)) : RunM (List Problem) := fun m =>
  if asked m.setting.config then RunM.store x m else ([], m)

end RunM

namespace Machine

/-! ### Cells of activations -/

section Nodes

variable {p : Pending} {node : Node} {slot : Address} {as : List Address}

/-- The work for a cell of an activation, by what its node does. -/
inductive CellWork (p : Pending) : RunM (Outcome Action) → Prop
  | given {node : Node} {slot : Address} (hnode : p.activation.call.nodes.get? p.node = some node)
    (hslot : p.activation.slots.get? p.node = some slot)
    (hop : node.op = .argument ∨ ∃ a, node.op = .constant a) : CellWork p (pure (.ok (.value slot)))
  | structured {node : Node} {slot : Address} {members : KeyMap String Nat} {as : List Address}
    (hnode : p.activation.call.nodes.get? p.node = some node)
    (hslot : p.activation.slots.get? p.node = some slot) (hop : node.op = .structured members)
    (has : slotsOf p.activation members.values = some as) :
    CellWork p (do
      RunM.store (StoreM.memoize slot
        (.structured (.ofLayer (.ofList (members.keys.zip as)) node.cell.type)))
      pure (.ok (.value slot)))
  | iterable {node : Node} {slot : Address} {items : List Nat} {as : List Address}
    (hnode : p.activation.call.nodes.get? p.node = some node)
    (hslot : p.activation.slots.get? p.node = some slot) (hop : node.op = .iterable items)
    (has : slotsOf p.activation items = some as) :
    CellWork p (do
      RunM.store (StoreM.memoize slot (.iterable (.rope (.ofList as))))
      pure (.ok (.value slot)))
  | opcode {node : Node} {slot : Address} {op : Opcode} {arguments : List Nat}
    {bindings : KeyMap String Ty} {as : List Address}
    (hnode : p.activation.call.nodes.get? p.node = some node)
    (hslot : p.activation.slots.get? p.node = some slot)
    (hop : node.op = .opcode op arguments bindings)
    (has : slotsOf p.activation arguments = some as) :
    CellWork p (pure (.ok (Invocation.action
      ⟨op, as, bindings, node.cell, some p.activation.call.callable, p.node, slot⟩)))
  | call {node : Node} {slot : Address} {callable argument : Nat} {f x : Address}
    (hnode : p.activation.call.nodes.get? p.node = some node)
    (hslot : p.activation.slots.get? p.node = some slot) (hop : node.op = .call callable argument)
    (has : slotsOf p.activation [callable, argument] = some [f, x]) :
    CellWork p (pure (.ok ((Action.evaluate f .shallow).andThen (.call x slot))))
  | corrupt : CellWork p (pure (.error (corrupt p)))

/-- **What a cell needs** is read off its node, unless slots are missing. -/
lemma cellWork_nodeAction (p : Pending) : CellWork p (nodeAction p) := by
  unfold nodeAction
  split
  · next node slot hnode hslot =>
    split
    · next hop => exact .given hnode hslot (.inl hop)
    · next a hop => exact .given hnode hslot (.inr ⟨a, hop⟩)
    · next members hop =>
      split
      · exact .corrupt
      · next as has => exact .structured hnode hslot hop has
    · next items hop =>
      split
      · exact .corrupt
      · next as has => exact .iterable hnode hslot hop has
    · next op arguments bindings hop =>
      split
      · exact .corrupt
      · next as has => exact .opcode hnode hslot hop has
    · next callable argument hop =>
      split
      · next f x has => exact .call hnode hslot hop has
      · exact .corrupt
  · exact .corrupt

variable (hnode : p.activation.call.nodes.get? p.node = some node)
  (hslot : p.activation.slots.get? p.node = some slot)

include hnode hslot

lemma nodeAction_given (hop : node.op = .argument ∨ ∃ a, node.op = .constant a) :
    nodeAction p = pure (.ok (.value slot)) := by
  obtain hop | ⟨a, hop⟩ := hop <;> simp only [nodeAction, hnode, hslot, hop]

lemma nodeAction_structured {members : KeyMap String Nat} (hop : node.op = .structured members)
    (has : slotsOf p.activation members.values = some as) :
    nodeAction p = (do
      RunM.store (StoreM.memoize slot
        (.structured (.ofLayer (.ofList (members.keys.zip as)) node.cell.type)))
      pure (.ok (.value slot))) := by
  simp only [nodeAction, hnode, hslot, hop, has]

lemma nodeAction_iterable {items : List Nat} (hop : node.op = .iterable items)
    (has : slotsOf p.activation items = some as) :
    nodeAction p = (do
      RunM.store (StoreM.memoize slot (.iterable (.rope (.ofList as))))
      pure (.ok (.value slot))) := by
  simp only [nodeAction, hnode, hslot, hop, has]

lemma nodeAction_opcode {op : Opcode} {arguments : List Nat} {bindings : KeyMap String Ty}
    (hop : node.op = .opcode op arguments bindings) (has : slotsOf p.activation arguments = some as) :
    nodeAction p = pure (.ok (Invocation.action
      ⟨op, as, bindings, node.cell, some p.activation.call.callable, p.node, slot⟩)) := by
  simp only [nodeAction, hnode, hslot, hop, has]

lemma nodeAction_call {callable argument : Nat} {f x : Address}
    (hop : node.op = .call callable argument)
    (has : slotsOf p.activation [callable, argument] = some [f, x]) :
    nodeAction p = pure (.ok ((Action.evaluate f .shallow).andThen (.call x slot))) := by
  simp only [nodeAction, hnode, hslot, hop, has]

end Nodes

/-! ### Slots -/

/-- What comes of asking for the work for a slot. -/
inductive SlotWork (m : Machine) (a : Address) : Outcome Action × Machine → Prop
  | pending {index : Nat} {p : Pending} (hindex : a = .at index)
    (hsome : (m.store.memory.get? a).isSome = true) (hp : m.pending.get? index = some p) :
    SlotWork m a (nodeAction p m)
  | deferred {slot : Slot} {callable argument : Nat} {f x : Address}
    (hslot : m.store.memory.get? a = some slot) (hkind : slot.cell.kind = .call callable argument)
    (hf : m.store.memory.address? callable = some f)
    (hx : m.store.memory.address? argument = some x) :
    SlotWork m a (.ok ((Action.evaluate f .shallow).andThen (.call x a)), m)
  | unresolved (q : Problem) : SlotWork m a (.error q, m)

/-- **What a slot needs** is the work for the cell of an activation, or a call that was deferred. -/
lemma slotWork_resolve (m : Machine) (a : Address) : SlotWork m a (resolve a m) := by
  unfold resolve
  rw [RunM.run_bind, RunM.run_memory]
  dsimp only
  cases hslot : m.store.memory.get? a with
  | none => cases a <;> exact .unresolved _
  | some slot =>
    cases a with
    | loose k => exact .unresolved _
    | «at» index =>
      dsimp only [Address.index?]
      rw [RunM.run_bind, RunM.run_get]
      cases hp : m.pending.get? index with
      | some p =>
        have hsome : (m.store.memory.get? (.at index)).isSome = true := by rw [hslot]; rfl
        exact .pending rfl hsome hp
      | none =>
        cases hkind : slot.cell.kind with
        | call callable argument =>
          dsimp only
          cases hf : m.store.memory.address? callable with
          | none => exact .unresolved _
          | some f =>
            cases hx : m.store.memory.address? argument with
            | none => exact .unresolved _
            | some x => exact .deferred hslot hkind hf hx
        | _ => exact .unresolved _

lemma resolve_of_pending {m : Machine} {i : Nat} {p : Pending} (hi : i < m.store.memory.slots.size)
    (hp : m.pending.get? i = some p) : resolve (.at i) m = nodeAction p m := by
  obtain ⟨slot, hslot⟩ : ∃ slot, m.store.memory.get? (.at i) = some slot :=
    ⟨_, Array.getElem?_eq_getElem hi⟩
  simp only [resolve, RunM.run_bind, RunM.run_memory, RunM.run_get, Address.index?, hslot, hp]

/-! ### Calls -/

/-- Judges the type of a call's argument, if that was known beforehand. -/
def accept (call : CompiledCall) (argument : Address) : RunM (Outcome Unit) := fun m =>
  let type := m.store.memory.typeOf argument
  if type.isRuntimeDetermined then (.ok (), m)
  else
    RunM.store (StoreM.matchTypes (m.store.memory.sourceOf argument) type
      (some call.argumentType)) m

/-- What a call does once its argument is accepted. -/
def setUp (call : CompiledCall) (argument : Address) : RunM (Outcome Action) := do
  let slots ← RunM.store (activate argument call.nodes)
  match slots.get? Callable.resultCell with
  | none =>
    pure (.error ((Problem.mk .structureCorrupt call.callable.source []).set "reason"
      "compiled call has no return cell"))
  | some result =>
    modify fun m => { m with pending := enterSlots ⟨call, slots⟩ call.nodes m.pending }
    pure (.ok (.evaluate result .shallow))

lemma construct_eq (call : CompiledCall) (argument : Address) :
    construct call argument = (accept call argument >>= fun o =>
      match o with
      | .error p => pure (.error (p.add "position" "argument"))
      | .ok _ => setUp call argument) := by
  funext m
  rw [RunM.run_bind]
  unfold construct accept
  rw [RunM.run_bind, RunM.run_memory]
  dsimp only
  by_cases hopen : (m.store.memory.typeOf argument).isRuntimeDetermined = true
  · rw [if_pos hopen, if_pos hopen]
    rfl
  · rw [if_neg hopen, if_neg hopen]
    rfl

/-- The compilation that a call starts with: that of a constant may have been made before. -/
def compileFunction (i : Nat) : RunM Compilation := fun m =>
  if i < m.store.memory.constants then compileAt i m else compile (.at i) m

/-- The compilation that a call starts with. -/
def compilation : Address → RunM Compilation
  | .at i => compileFunction i
  | .loose k => compile (.loose k)

/-- What a call does once its function is compiled. -/
def callCompiled (call : CompiledCall) (argument target : Address) : Stepped := do
  match ← construct call argument with
  | .error p => pure (.error p)
  | .ok action =>
    RunM.tell fun _ => .started call.callable
    pure (.action (action.andThen (.leave target call.callable)))

lemma call_eq (function argument target : Address) :
    call function argument target = (RunM.memory >>= fun memory =>
      compilation function >>= fun c =>
      match c with
      | .error problems =>
        pure (.error ((firstOf problems).getD ⟨.notCallable, memory.sourceOf function, []⟩))
      | .ok compiled => callCompiled compiled argument target) := by
  funext m
  rw [RunM.run_bind, RunM.run_memory, RunM.run_bind]
  cases function with
  | loose k => rfl
  | «at» i =>
    unfold call
    show (if i < m.store.memory.constants then _ else _ : Stepped) m = _
    rw [compilation, compileFunction]
    by_cases hi : i < m.store.memory.constants
    · rw [if_pos hi, if_pos hi]
      rfl
    · rw [if_neg hi, if_neg hi]
      rfl

/-! ### Opcodes -/

/-- What an opcode sees of an invocation. -/
def frameOf (i : Invocation) (m : Machine) : Frame :=
  ⟨i.cell.bestSource, i.args, i.cell.type, i.bindings, m.setting.modules⟩

/-- What an opcode finds wrong with a value that it gave, if it is asked. -/
def flaws (i : Invocation) (frame : Frame) (v : Value) : RunM (List Problem) :=
  RunM.checking Config.validateReturns (StoreM.check (i.opcode.resultCheck frame v))

/-- Gives an invocation's slot a value, unless something is found wrong with that. -/
def confer (i : Invocation) (frame : Frame) (v : Value) : Stepped := do
  match firstOf (← flaws i frame v) with
  | some p => pure (i.failure p)
  | none =>
    RunM.store (StoreM.memoize i.target v)
    i.resolved
    pure (.value i.target)

lemma proceed_value_eq (i : Invocation) (frame : Frame) (v : Value) :
    proceed i frame (.value v) = confer i frame v := by
  funext m
  show (if m.setting.config.validateReturns = true then _ else _ : Stepped) m = _
  rw [confer, RunM.run_bind, flaws, RunM.checking]
  by_cases hasked : m.setting.config.validateReturns = true
  · rw [if_pos hasked, if_pos hasked]
    rfl
  · rw [if_neg hasked, if_neg hasked]
    rfl

lemma proceed_of_no_flaws {i : Invocation} {frame : Frame} {v : Value} {m m₁ : Machine}
    (h : flaws i frame v m = ([], m₁)) :
    proceed i frame (.value v) m = (.value i.target, (i.resolved { m₁ with store := { m₁.store with
      memory := m₁.store.memory.memoize i.target v } }).2) := by
  rw [proceed_value_eq, confer, RunM.run_bind, h]
  rfl

/-- What an opcode finds before it runs, if it is asked. -/
def findings (i : Invocation) (frame : Frame) : RunM (List Problem) :=
  RunM.checking Config.runtimeValidation (StoreM.check (i.opcode.runtimeCheck frame))

/-- Applies an opcode, unless something is found wrong beforehand. -/
def apply (i : Invocation) (frame : Frame) : Stepped := do
  match firstOf (← findings i frame) with
  | some p => pure (i.failure p)
  | none => proceed i frame (← RunM.store (i.opcode.evaluate frame))

/-- The failure of an invocation that an argument is missing for. -/
def unreadyFailure (i : Invocation) (position : Nat) : Problem :=
  (((orderViolation "argument not evaluated").set "opcode" i.opcode.mnemonic).set "argIndex"
    position).orAt i.cell.bestSource

lemma invoke_eq (i : Invocation) : invoke i = (get >>= fun m =>
    match i.unready m.store.memory with
    | some position => pure (.error (unreadyFailure i position))
    | none =>
      RunM.tellOpcode (fun _ => .opcodeStarted i.function i.index i.cell) >>= fun _ =>
      apply i (frameOf i m)) := by
  funext m
  let m₁ := (RunM.tellOpcode (fun _ => .opcodeStarted i.function i.index i.cell) m).2
  have hsetting : m₁.setting = m.setting := by
    dsimp only [m₁, RunM.tellOpcode]
    split <;> rfl
  unfold invoke
  rw [RunM.run_bind, RunM.run_memory, RunM.run_bind, RunM.run_get]
  dsimp only
  cases i.unready m.store.memory with
  | some position => rfl
  | none =>
    show (if m.setting.config.runtimeValidation = true then _ else _ : Stepped) m₁ =
      apply i (frameOf i m) m₁
    rw [apply, RunM.run_bind, findings, RunM.checking, hsetting]
    by_cases hasked : m.setting.config.runtimeValidation = true
    · rw [if_pos hasked, if_pos hasked]
      rfl
    · rw [if_neg hasked, if_neg hasked]
      rfl

lemma invoke_of_unready {i : Invocation} {m : Machine} {position : Nat}
    (h : i.unready m.store.memory = some position) :
    invoke i m = (.error (unreadyFailure i position), m) := by
  rw [invoke_eq, RunM.run_bind, RunM.run_get]
  dsimp only
  rw [h]
  rfl

lemma invoke_eq_of_ready {i : Invocation} {m : Machine} (hready : i.unready m.store.memory = none) :
    let m₁ := (RunM.tellOpcode (fun _ => .opcodeStarted i.function i.index i.cell) m).2
    let found := findings i (frameOf i m) m₁
    invoke i m = match firstOf found.1 with
      | some q => (i.failure q, found.2)
      | none => proceed i (frameOf i m) (i.opcode.evaluate (frameOf i m) found.2.store).1
          { found.2 with store := (i.opcode.evaluate (frameOf i m) found.2.store).2 } := by
  intro m₁ found
  have happly : invoke i m = apply i (frameOf i m) m₁ := by
    rw [invoke_eq, RunM.run_bind, RunM.run_get]
    dsimp only
    rw [hready]
    rfl
  rw [happly, apply, RunM.run_bind]
  show (match firstOf found.1 with
    | some q => pure (i.failure q)
    | none => RunM.store (i.opcode.evaluate (frameOf i m)) >>= proceed i (frameOf i m) : Stepped)
      found.2 = _
  cases firstOf found.1 <;> rfl

end Machine

end CellMachine
