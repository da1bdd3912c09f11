import CellMachine.Cell
import CellMachine.Native
import CellMachine.Record
import CellMachine.Sequence.Basic

/-!
Values. A sequence or a record holds addresses of slots, so that members may be left unevaluated and
are shared; a tree is what a reader sees when every address is followed.
-/

namespace CellMachine

/-- Where a slot is: at an index of memory, or outside of it. -/
inductive Address where
  | at (index : Nat)
  | loose (number : Nat)
  deriving Repr, DecidableEq, Inhabited

def Address.index? : Address → Option Nat
  | .at i => some i
  | loose _ => none

inductive Value where
  | native (n : Native)
  | key (k : String)
  | iterable (items : Sequence Address)
  | structured (members : Record Address)
  | callable (c : Callable)

namespace Value

def int (i : Int64) : Value := native (.int i)

def number (x : Float) : Value := native (.number x)

def string (s : String) : Value := native (.string s)

def kindName : Value → String
  | native _ => "native"
  | key _ => "key"
  | iterable _ => "iterable"
  | structured _ => "structured"
  | callable _ => "callable"

def asNative? : Value → Option Native
  | native n => some n
  | _ => none

def asInt? (v : Value) : Option Int64 := v.asNative?.bind Native.asInt?

def asNumber? (v : Value) : Option Float := v.asNative?.bind Native.asNumber?

def asString? (v : Value) : Option String := v.asNative?.bind Native.asString?

def asKey? : Value → Option String
  | key k => some k
  | _ => none

def asIterable? : Value → Option (Sequence Address)
  | iterable items => some items
  | _ => none

def asStructured? : Value → Option (Record Address)
  | structured members => some members
  | _ => none

def asCallable? : Value → Option Callable
  | callable c => some c
  | _ => none

/-- The members of a value: the elements of a sequence, the members shown by a record. -/
def members : Value → List Address
  | iterable items => items.toList
  | structured r => r.toList.map Prod.snd
  | _ => []

end Value

/-- A value with its members written out; `none` stands for a member without a value. -/
inductive Tree where
  | native (n : Native)
  | key (k : String)
  | list (items : List (Option Tree))
  | record (members : List (String × Option Tree))
  | callable (c : Callable)

mutual

def Tree.render : Tree → String
  | .native n => n.render
  | .key k => "key " ++ Text.quoted k
  | .list items => "[" ++ Text.joined ", " (renderItems items) ++ "]"
  | .record members => "\x7b" ++ Text.joined ", " (renderMembers members) ++ "\x7d"
  | .callable c => "<callable with " ++ toString c.cells.length ++ " cells>"

def renderMember : Option Tree → String
  | none => "\"<unevaluated>\""
  | some t => t.render

def renderItems : List (Option Tree) → List String
  | [] => []
  | t :: rest => renderMember t :: renderItems rest

def renderMembers : List (String × Option Tree) → List String
  | [] => []
  | (key, t) :: rest => (Text.quoted key ++ ": " ++ renderMember t) :: renderMembers rest

end

end CellMachine
