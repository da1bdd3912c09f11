import Std.Data.TreeMap
import CellMachine.Call.Compiled
import CellMachine.Config
import CellMachine.Machine.Notice

/-!
The state of a run: the store, the calls compiled so far, which slots are cells of which activation,
and how many steps were taken.
-/

namespace CellMachine

/-- What stays the same during a run. -/
structure Setting where
  opcodes : Opcodes := []
  modules : KeyMap String Module := []
  config : Config := {}
  /-- The token whose cancellation ends the run, if there is one. -/
  token : Option String := none
  attention : Attention := .nothing

/-- One application of a compiled call: the slots of its nodes. -/
structure Activation where
  call : CompiledCall
  slots : KeyMap Nat Address

/-- The cell that a slot belongs to. -/
structure Pending where
  activation : Activation
  node : Nat

structure Machine where
  setting : Setting := {}
  store : Store := {}
  /-- Compilations of constants, by index. -/
  compiled : KeyMap Nat Compilation := []
  /-- The cells of activations, by the index of their slots. -/
  pending : Std.TreeMap Nat Pending := {}
  steps : Nat := 0
  notices : List Notice := []

abbrev RunM := StateM Machine

namespace RunM

def store (x : StoreM α) : RunM α := fun m =>
  let (a, s) := x m.store
  (a, { m with store := s })

def attempt (x : Attempt α) : RunM (Outcome α) := store x.run

def memory : RunM Memory := fun m => (m.store.memory, m)

def setting : RunM Setting := fun m => (m.setting, m)

def value? (a : Address) : RunM (Option Value) := fun m => (m.store.memory.value? a, m)

/-- Tells something, if anybody watches. -/
def tell (f : Memory → Notice) : RunM Unit := fun m =>
  if m.setting.attention = .nothing then ((), m)
  else ((), { m with notices := f m.store.memory :: m.notices })

/-- Tells something about an opcode, if anybody wants to hear of it. -/
def tellOpcode (f : Memory → Notice) : RunM Unit := fun m =>
  if m.setting.attention = .opcodes then
    ((), { m with notices := f m.store.memory :: m.notices })
  else ((), m)

end RunM

namespace Memory

def kindAt (m : Memory) (a : Address) : Option String := (m.value? a).map Value.kindName

def treeAt (m : Memory) (a : Address) : Option Tree := (m.value? a).map m.tree

end Memory

namespace Machine

def describe (m : Machine) : String :=
  "Runtime \x7b local: " ++ toString m.store.memory.localSize ++ ", pending: " ++
    toString m.pending.size ++ ", steps: " ++ toString m.steps ++ ", .. \x7d"

def compile (a : Address) : RunM Compilation := fun m =>
  let (c, types) := compileSlot m.setting.opcodes m.setting.modules m.store.memory a m.store.types
  (c, { m with store := { m.store with types } })

/-- Compiles the callable at an index, unless that was done before. -/
def compileAt (index : Nat) : RunM Compilation := fun m =>
  match m.compiled.get? index with
  | some c => (c, m)
  | none =>
    let (c, m) := match m.store.memory.address? index with
      | some a => compile a m
      | none => (.error [(Problem.mk .noSuchConstant none []).set "index" index], m)
    (c, { m with compiled := m.compiled.insert index c })

/-- The slots of an activation: the argument and constants have theirs, other nodes get new ones. -/
def activate (argument : Address) : List (Nat × Node) → StoreM (KeyMap Nat Address)
  | [] => pure []
  | (index, node) :: rest => do
    let a ← match node.op with
      | .argument => pure argument
      | .constant a => pure a
      | _ => StoreM.allocate node.cell none
    let others ← activate argument rest
    pure ((index, a) :: others)

def enterSlots (activation : Activation) :
    List (Nat × Node) → Std.TreeMap Nat Pending → Std.TreeMap Nat Pending
  | [], pending => pending
  | (index, node) :: rest, pending =>
    let pending := match node.op with
      | .argument => pending
      | .constant _ => pending
      | _ =>
        match (activation.slots.get? index).bind Address.index? with
        | some i => pending.insert i ⟨activation, index⟩
        | none => pending
    enterSlots activation rest pending

end Machine

end CellMachine
