import CellMachine.Memory.Store
import CellMachine.Opcode.Basic

/-!
Binding of generics. What a generic stands for at one opcode cell is said by the cell, by the value of
a constant argument, or by the types of the arguments and of the cell; otherwise it stays open.
-/

namespace CellMachine

namespace Binding

/-- The binding of a generic that `declared` gives when it meets the type `actual`. -/
def fromType? (types : Registry) (id : String) (declared : TyRef) (actual : Ty) : Option Ty :=
  if actual.isRuntimeDetermined then none
  else
    match declared with
    | .generic g _ => if g == id then some actual else none
    | declared =>
      match types.resolve declared with
      | .error _ => none
      | .ok t =>
        match t, actual with
        | .iterable _ _ (.generic g _) _, .iterable _ _ concrete _ =>
          if g == id then (types.resolve concrete).toOption else none
        | .keyOf _ _ (.generic g _), .keyOf _ _ concrete =>
          if g == id then (types.resolve concrete).toOption else none
        | _, _ => none

/-- The first binding that an argument gives. -/
def fromArguments? (types : Registry) (id : String) (arguments : List Argument)
    (cells : List Cell) : Option Ty :=
  (arguments.zip cells).findSome? fun e => fromType? types id e.1.type e.2.type

def fromKey (types : Registry) (cell : Option Cell) (constant : Option Value)
    (bound : KeyMap String Ty) : Ty :=
  let key := constant.bind fun v => v.asKey? <|> v.asString?
  let owner := cell.bind fun c =>
    match c.type with
    | .keyOf _ _ (.generic id _) => bound.get? id
    | .keyOf _ _ r => (types.resolve r).toOption
    | _ => none
  match key, owner with
  | some key, some t =>
    ((t.stores.get? key).bind fun r => (types.resolve r).toOption).getD .runtimeDetermined
  | _, _ => .runtimeDetermined

def fromConstant (constant : Option Value) : Ty :=
  (constant.bind fun v => v.asNative?.bind Native.asType?).getD .runtimeDetermined

/-- What is known at an opcode cell. -/
structure Site where
  types : Registry
  signature : Signature
  /-- The opcode's cell. -/
  cell : Cell
  /-- The bindings that the cell itself gives. -/
  explicit : KeyMap String Ty
  /-- The cells of the arguments. -/
  arguments : List Cell
  /-- The values of those arguments that are constants. -/
  constants : List (Option Value)

/-- What a generic is bound to, given the generics before it. -/
def ofGeneric (s : Site) (bound : KeyMap String Ty) (g : Generic) : Ty :=
  match s.explicit.get? g.id, g.fromArgument, g.keyedBy with
  | some t, _, _ => t
  | none, some i, _ => fromConstant (s.constants[i]?.join)
  | none, none, some i => fromKey s.types s.arguments[i]? s.constants[i]?.join bound
  | none, none, none =>
    ((fromArguments? s.types g.id s.signature.arguments s.arguments).or
      (fromType? s.types g.id s.signature.result s.cell.type)).getD .runtimeDetermined

def all (s : Site) : List Generic → KeyMap String Ty → KeyMap String Ty
  | [], bound => bound
  | g :: rest, bound => all s rest (bound.insert g.id (ofGeneric s bound g))

/-- A type that is known and not of a category that the generic accepts. -/
def misfits (g : Generic) (t : Ty) : Bool :=
  !t.isRuntimeDetermined && !g.hint.accepts t.category

/-- The generics whose bindings they do not accept, with these bindings. -/
def misfit (s : Site) : List Generic → KeyMap String Ty → List (Generic × Ty)
  | [], _ => []
  | g :: rest, bound =>
    let t := ofGeneric s bound g
    (if misfits g t then [(g, t)] else []) ++ misfit s rest (bound.insert g.id t)

/-- A declared type with its generics replaced. What is built around an open generic is open. -/
def substitute (types : Registry) (declared : TyRef) (bound : KeyMap String Ty) : Outcome Ty :=
  let lookup (id : String) : Ty := (bound.get? id).getD .runtimeDetermined
  match declared with
  | .generic id _ => .ok (lookup id)
  | declared =>
    match types.resolve declared with
    | .error p => .error p
    | .ok (.iterable name source (.generic id _) ends) =>
      let element := lookup id
      if element.isRuntimeDetermined then .ok element
      else .ok (.iterable (name ++ "[" ++ element.name ++ "]") source (.inline element) ends)
    | .ok (.keyOf name source (.generic id _)) =>
      let owner := lookup id
      if owner.isRuntimeDetermined then .ok owner
      else .ok (.keyOf (name ++ "[" ++ owner.name ++ "]") source (.inline owner))
    | .ok t => .ok t

end Binding

end CellMachine
