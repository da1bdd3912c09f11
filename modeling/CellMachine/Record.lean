import CellMachine.Ty.Basic

/-!
Records: members by key. A flat record holds exactly its entries. A layered record holds layers of
entries, the newest in front, and shows the keys of its type.
-/

namespace CellMachine

variable {α σ : Type}

inductive Record (α : Type) where
  | flat (entries : KeyMap String α)
  | layered (layers : List (KeyMap String α)) (type : Ty)

namespace Record

def ofLayer (entries : KeyMap String α) (type : Ty) : Record α := layered [entries] type

def child (layers : List (KeyMap String α)) (type : Ty) (entries : KeyMap String α) : Record α :=
  layered (entries :: layers) type

def keys : Record α → List String
  | flat entries => entries.keys
  | layered _ type => type.stores.keys

def get? : Record α → String → Option α
  | flat entries, key => entries.get? key
  | layered layers _, key => layers.findSome? fun layer => layer.get? key

def contains : Record α → String → Bool
  | flat entries, key => entries.contains key
  | layered _ type, key => type.stores.contains key

/-- Visits the keys that have a member, in order, until the visitor ends the visit. -/
def visitKeys (r : Record α) (visitor : String → α → σ → Except σ σ) :
    List String → σ → Except σ σ
  | [], s => .ok s
  | key :: rest, s =>
    match r.get? key with
    | none => visitKeys r visitor rest s
    | some a =>
      match visitor key a s with
      | .error s => .error s
      | .ok s => visitKeys r visitor rest s

def forEach (r : Record α) (visitor : String → α → σ → Except σ σ) (s : σ) : σ :=
  match r.visitKeys visitor r.keys s with
  | .ok s => s
  | .error s => s

/-- The members that are shown, in key order. -/
def toList (r : Record α) : List (String × α) :=
  (r.forEach (fun key a entries => .ok ((key, a) :: entries)) []).reverse

/-- The layers and the type, of a layered record. -/
def layers? : Record α → Option (List (KeyMap String α) × Ty)
  | flat _ => none
  | layered layers type => some (layers, type)

end Record

end CellMachine
