import CellMachine.Value

/-!
Memory: slots by index. A slot pairs a cell with its value, which is written at most once. The slots
of constants come first and outlive a run; those that a run allocates follow. Slots outside of memory
have no index and are only reached through the values that hold them.
-/

namespace CellMachine

structure Slot where
  cell : Cell
  value : Option Value := none

/-- Writes the value of a slot unless it has one. -/
def Slot.fill (v : Value) (s : Slot) : Slot := { s with value := s.value <|> some v }

structure Memory where
  slots : Array Slot := #[]
  /-- How many of the slots belong to constants. -/
  constants : Nat := 0
  /-- Where the constants of the modules are. -/
  directory : KeyMap String Nat := []
  /-- Slots outside of memory. -/
  loose : Array Slot := #[]

namespace Memory

def constantId (moduleName name : String) : String := moduleName ++ "!" ++ name

def size (m : Memory) : Nat := m.slots.size

def localSize (m : Memory) : Nat := m.slots.size - m.constants

def get? (m : Memory) : Address → Option Slot
  | .at i => m.slots[i]?
  | .loose n => m.loose[n]?

def address? (m : Memory) (index : Nat) : Option Address :=
  if index < m.slots.size then some (.at index) else none

def value? (m : Memory) (a : Address) : Option Value := (m.get? a).bind Slot.value

def isEvaluated (m : Memory) (a : Address) : Bool := (m.value? a).isSome

def lookup (m : Memory) (moduleName name : String) : Option Nat :=
  m.directory.get? (constantId moduleName name)

/-- The indices of the constants of the modules, ascending. -/
def constantIndices (m : Memory) : List Nat := m.directory.values.mergeSort

def allocate (m : Memory) (cell : Cell) (value : Option Value) : Address × Memory :=
  (.at m.slots.size, { m with slots := m.slots.push ⟨cell, value⟩ })

/-- Adds a slot outside of memory. -/
def allocateLoose (m : Memory) (cell : Cell) (value : Option Value) : Address × Memory :=
  (.loose m.loose.size, { m with loose := m.loose.push ⟨cell, value⟩ })

/-- Writes the value of the slot at an address unless it has one. -/
def memoize (m : Memory) (a : Address) (v : Value) : Memory :=
  match a with
  | .at i => { m with slots := m.slots.modify i (Slot.fill v) }
  | .loose n => { m with loose := m.loose.modify n (Slot.fill v) }

/-- The type of the slot at an address; nothing is known of an address without one. -/
def typeOf (m : Memory) (a : Address) : Ty :=
  match m.get? a with
  | some s => s.cell.type
  | none => .runtimeDetermined

def sourceOf (m : Memory) (a : Address) : Option Position :=
  (m.get? a).bind fun s => s.cell.source

/-- Which parts of a slot have values, a digit for each: the members of a sequence in brackets, those
of a record in braces, and a slot of any other kind by itself. -/
def readiness (m : Memory) (a : Address) : String :=
  let digits (as : List Address) : String :=
    String.ofList (as.map fun a => if m.isEvaluated a then '1' else '0')
  match m.value? a with
  | some (.iterable items) => "[" ++ digits items.toList ++ "]"
  | some (.structured r) => "\x7b" ++ digits (r.toList.map Prod.snd) ++ "\x7d"
  | _ => digits [a]

/-- Follows addresses at most `fuel` deep. -/
def expand (m : Memory) : Nat → Value → Tree
  | _, .native n => .native n
  | _, .key k => .key k
  | _, .callable c => .callable c
  | 0, .iterable items => .list (items.toList.map fun _ => none)
  | 0, .structured r => .record (r.toList.map fun e => (e.1, none))
  | fuel + 1, .iterable items =>
    .list (items.toList.map fun a => (m.value? a).map fun v => expand m fuel v)
  | fuel + 1, .structured r =>
    .record (r.toList.map fun e => (e.1, (m.value? e.2).map fun v => expand m fuel v))

/-- A value with its members written out. No chain of members is longer than there are slots. -/
def tree (m : Memory) (v : Value) : Tree := m.expand (m.slots.size + m.loose.size + 1) v

def render (m : Memory) (v : Value) : String := (m.tree v).render

def describe (m : Memory) (a : Address) : String :=
  match m.get? a with
  | none => ""
  | some s =>
    let index := match a.index? with
      | some i => "Some(" ++ toString i ++ ")"
      | none => "None"
    let value := match s.value with
      | some v => m.render v
      | none => "\"<unevaluated>\""
    "MemoryValue \x7b index: " ++ index ++ ", kind: " ++ Text.quoted s.cell.kind.name ++
      ", type: " ++ Text.quoted s.cell.type.name ++ ", value: " ++ value ++ " \x7d"

end Memory

end CellMachine
