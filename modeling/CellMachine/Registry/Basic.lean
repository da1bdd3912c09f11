import CellMachine.Problem.Basic
import CellMachine.Ty.Basic

/-!
The registry of types by name. Registering a type also registers every type written inside it, and is
refused as a whole when a name would get two definitions or would be left without one. The registry
also remembers the verdicts of earlier comparisons.
-/

namespace CellMachine

structure Registry where
  types : KeyMap String Ty
  /-- What earlier comparisons found: `none` for a match. -/
  verdicts : KeyMap String (Option Problem)

namespace Registry

def initial : Registry where
  types := .ofList [(Ty.metaType.name, .metaType), (Ty.runtimeDetermined.name, .runtimeDetermined)]
  verdicts := []

/-- The same types, with nothing remembered. -/
def fresh (reg : Registry) : Registry := { reg with verdicts := [] }

def get? (reg : Registry) (name : String) : Option Ty := reg.types.get? name

def contains (reg : Registry) (name : String) : Bool := reg.types.contains name

/-- Whether some native type has a tag. -/
def hasTag (reg : Registry) (tag : String) : Bool :=
  reg.types.values.any fun t => t.tag? == some tag

def resolve (reg : Registry) : TyRef → Outcome Ty
  | .inline t => .ok t
  | .named n =>
    match reg.get? n with
    | some t => .ok t
    | none => .error ((Problem.mk .unknownType none []).set "type" n)
  | .generic id hint =>
    .error (((Problem.mk .unknownType none []).set "type" id).set "generic" hint.name)

/-- The types met while a new type is read, and the references by name with their owners. -/
structure Discovery where
  found : KeyMap String Ty
  named : List (String × String)

def duplicate (t existing : Ty) : Problem :=
  (((Problem.mk .duplicateType t.source []).set "type" t.name).set "category" t.category.name).set
    "existing_category" existing.category.name

/-- References by name inside a type, each with the type's name. -/
def namedRefs (t : Ty) : List (String × String) :=
  t.refs.filterMap fun
    | .named n => some (n, t.name)
    | _ => none

/-- Notes one type. The answer is `none` when it was noted before. -/
def note (reg : Registry) (t : Ty) (d : Discovery) : Outcome (Option Discovery) :=
  match d.found.get? t.name with
  | some seen => if seen.sameDefinition t then .ok none else .error (duplicate t seen)
  | none =>
    match reg.get? t.name with
    | some existing =>
      if existing.sameDefinition t then
        .ok (some ⟨d.found.insert t.name t, d.named ++ namedRefs t⟩)
      else .error (duplicate t existing)
    | none => .ok (some ⟨d.found.insert t.name t, d.named ++ namedRefs t⟩)

mutual

/-- Notes a type and the types written inside it, later members before earlier ones. -/
def discover (reg : Registry) (t : Ty) (d : Discovery) : Outcome Discovery :=
  match reg.note t d with
  | .error p => .error p
  | .ok none => .ok d
  | .ok (some d) =>
    match t with
    | .native .. => .ok d
    | .iterable _ _ e _ => discoverRef reg e d
    | .structured _ _ m => discoverStores reg m d
    | .callable _ _ a r =>
      match discoverRef reg r d with
      | .error p => .error p
      | .ok d => discoverRef reg a d
    | .keyOf _ _ o => discoverRef reg o d

def discoverRef (reg : Registry) (r : TyRef) (d : Discovery) : Outcome Discovery :=
  match r with
  | .inline t => discover reg t d
  | .named _ => .ok d
  | .generic .. => .ok d

def discoverStores (reg : Registry) (m : List (String × TyRef)) (d : Discovery) :
    Outcome Discovery :=
  match m with
  | [] => .ok d
  | (_, r) :: m =>
    match discoverStores reg m d with
    | .error p => .error p
    | .ok d => discoverRef reg r d

end

def closure (reg : Registry) (root : Ty) : Outcome (KeyMap String Ty) :=
  match reg.discover root ⟨[], []⟩ with
  | .error p => .error p
  | .ok d =>
    -- Names may refer to types met later, so they are looked at when all are found.
    match d.named.find? fun e => !d.found.contains e.1 && !reg.contains e.1 with
    | some (name, owner) =>
      .error (((Problem.mk .unknownType root.source []).set "type" name).set "referenced_by" owner)
    | none => .ok d.found

/-- Registers a type. Verdicts are forgotten when the registry grows. -/
def register (reg : Registry) (t : Ty) : Outcome Registry :=
  match reg.closure t with
  | .error p => .error p
  | .ok found =>
    let new := found.filter fun e => !reg.contains e.1
    if new.isEmpty then .ok reg else .ok ⟨reg.types.union new, []⟩

end Registry

end CellMachine
