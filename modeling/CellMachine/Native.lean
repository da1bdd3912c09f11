import CellMachine.Text.Decimal
import CellMachine.Ty.Basic

/-!
Native values: scalars of the host, types as values, and handles of host objects.
-/

namespace CellMachine

inductive Native where
  | bool (b : Bool)
  | int (i : Int64)
  | number (x : Float)
  | string (s : String)
  | type (t : Ty)
  /-- A host object, known by its identity. -/
  | handle (id : Nat)

namespace Native

/-- The value as the host is shown it. -/
def view : Native → NativeView
  | bool b => .bool b
  | int i => .int i
  | number x => .number x
  | string s => .string s
  | type t => .type t.view
  | handle id => .handle id

def kind (n : Native) : NativeKind := n.view.kind

def asInt? : Native → Option Int64
  | int i => some i
  | _ => none

/-- Integers are numbers too, rounded to the nearest one. -/
def asNumber? : Native → Option Float
  | number x => some x
  | int i => some i.toFloat
  | _ => none

def asString? : Native → Option String
  | string s => some s
  | _ => none

def asBool? : Native → Option Bool
  | bool b => some b
  | _ => none

def asType? : Native → Option Ty
  | type t => some t
  | _ => none

/-- Types are equal by name and handles by identity; a number that is not a number equals nothing. -/
def same : Native → Native → Bool
  | bool a, bool b => a == b
  | int a, int b => a == b
  | number x, number y => x == y
  | string s, string t => s == t
  | type t, type u => t.name == u.name
  | handle i, handle j => i == j
  | _, _ => false

/-- Whole numbers carry `.0`; an exponent is written from 10 ^ 16 on and below 10 ^ -4. -/
def format : Text.NumberFormat := ⟨fun power => -4 ≤ power && power < 16, true⟩

def render : Native → String
  | bool b => if b then "true" else "false"
  | int i => toString i.toInt
  | number x => format.render x
  | string s => Text.quoted s
  | type t => "<type " ++ t.name ++ ">"
  | handle _ => "<opaque>"

/-- The value as it is shown on its own: a string without quotes. -/
def text : Native → String
  | string s => s
  | n => n.render

end Native

/-- Whether a native type has a value among its own. -/
def Ty.admits : Ty → Native → Bool
  | .native _ _ _ isType, n => isType n.view
  | _, _ => false

end CellMachine
