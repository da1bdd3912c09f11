import CellMachine.Memory.Store
import CellMachine.Module

/-!
Conversion of stored values into memory, against the type of the cell that will hold them. The parts
of a value are allocated before the value, in cells named after it, and every part that does not
conform is reported.
-/

namespace CellMachine

namespace Conversion

def about (p : Problem) (cell : Cell) : Problem :=
  let p := (p.orAt cell.bestSource).add "type" cell.type.name
  match cell.kind with
  | .constant m n => (p.add "module" m).add "constant" n
  | .external n => p.add "name" n
  | _ => p

def problem (cell : Cell) (cause : Cause) : Problem :=
  about (Problem.mk cause cell.bestSource []) cell

def key (types : Registry) (cell : Cell) (owner : TyRef) (k : String) (m : Memory) :
    Except (List Problem) Address × Memory :=
  if owner.isGeneric then (.error [problem cell .constantGenericType], m)
  else
    match types.resolve owner with
    | .error p => (.error [about p cell], m)
    | .ok t =>
      if t.stores.contains k then
        let (a, m) := m.allocate cell (some (.key k))
        (.ok a, m)
      else
        (.error [((problem cell .typeValueMismatch).set "key" k).set "structure" t.name], m)

/-- A problem for each key of a structure that a record lacks. -/
def missing (cell : Cell) (stores : KeyMap String TyRef) (members : List (String × Stored)) :
    List Problem :=
  (stores.filter fun e => !members.any fun f => f.1 == e.1).map fun e =>
    (problem cell .typeValueMismatch).set "missing_key" e.1

def memberType (types : Registry) (cell : Cell) (stores : KeyMap String TyRef) (k : String) :
    Outcome Ty :=
  match stores.get? k with
  | none => .error ((problem cell .typeValueMismatch).set "unexpected_key" k)
  | some r =>
    if r.isGeneric then .error ((problem cell .constantGenericType).set "key" k)
    else
      match types.resolve r with
      | .error p => .error ((about p cell).set "key" k)
      | .ok t => .ok t

def misfit (cell : Cell) (value : Stored) : Problem :=
  ((problem cell .typeValueMismatch).set "category" cell.type.category.name).set "value_kind"
    value.shape

mutual

/-- Converts a stored value into the slot of a cell. -/
def convert (types : Registry) (cell : Cell) (value : Stored) (m : Memory) :
    Except (List Problem) Address × Memory :=
  match value with
  | .native n =>
    match cell.type, n with
    | .native .., n =>
      if cell.type.admits n then
        let (a, m) := m.allocate cell (some (.native n))
        (.ok a, m)
      else (.error [(problem cell .typeValueMismatch).set "value_kind" n.kind.name], m)
    | .keyOf _ _ owner, .string k => key types cell owner k m
    | _, _ => (.error [misfit cell value], m)
  | .key k =>
    match cell.type with
    | .keyOf _ _ owner => key types cell owner k m
    | _ => (.error [misfit cell value], m)
  | .callable c =>
    match cell.type with
    | .callable _ _ argument result =>
      if argument.isGeneric || result.isGeneric then
        (.error [problem cell .constantGenericType], m)
      else
        let (a, m) := m.allocate cell (some (.callable c))
        (.ok a, m)
    | _ => (.error [misfit cell value], m)
  | .list items =>
    match cell.type with
    | .iterable _ _ element _ =>
      if element.isGeneric then (.error [problem cell .constantGenericType], m)
      else
        match types.resolve element with
        | .error p => (.error [about p cell], m)
        | .ok t =>
          match convertItems types cell t 0 items m with
          | (.error ps, m) => (.error ps, m)
          | (.ok parts, m) =>
            let (a, m) := m.allocate cell (some (.iterable (.flat parts.toArray)))
            (.ok a, m)
    | _ => (.error [misfit cell value], m)
  | .record members =>
    match cell.type with
    | .structured _ _ stores =>
      -- The members are converted even if others are missing, for the problems among them.
      match missing cell stores members, convertMembers types cell stores members m with
      | [], (.ok parts, m) =>
        let (a, m) := m.allocate cell (some (.structured (.flat parts)))
        (.ok a, m)
      | lacking, (.ok _, m) => (.error lacking, m)
      | lacking, (.error ps, m) => (.error (lacking ++ ps), m)
    | _ => (.error [misfit cell value], m)

/-- Converts the items of a list from a given position on. -/
def convertItems (types : Registry) (cell : Cell) (element : Ty) (position : Nat)
    (items : List Stored) (m : Memory) : Except (List Problem) (List Address) × Memory :=
  match items with
  | [] => (.ok [], m)
  | item :: rest =>
    match convert types (cell.part (toString position) element) item m with
    | (first, m) =>
      match convertItems types cell element (position + 1) rest m with
      | (others, m) =>
        match first, others with
        | .ok a, .ok as => (.ok (a :: as), m)
        | .ok _, .error ps => (.error ps, m)
        | .error ps, .ok _ => (.error ps, m)
        | .error ps, .error qs => (.error (ps ++ qs), m)

def convertMembers (types : Registry) (cell : Cell) (stores : KeyMap String TyRef)
    (members : List (String × Stored)) (m : Memory) :
    Except (List Problem) (KeyMap String Address) × Memory :=
  match members with
  | [] => (.ok [], m)
  | (k, item) :: rest =>
    let (first, m) : Except (List Problem) Address × Memory :=
      match memberType types cell stores k with
      | .error p => (.error [p], m)
      | .ok t => convert types (cell.part k t) item m
    match convertMembers types cell stores rest m with
    | (others, m) =>
      match first, others with
      | .ok a, .ok as => (.ok ((k, a) :: as), m)
      | .ok _, .error ps => (.error ps, m)
      | .error ps, .ok _ => (.error ps, m)
      | .error ps, .error qs => (.error (ps ++ qs), m)

end

end Conversion

namespace Memory

def loadConstant (types : Registry) (moduleName name : String) (c : Constant) (m : Memory) :
    List Problem × Memory :=
  let problem (cause : Cause) : Problem :=
    (((Problem.mk cause c.source []).set "module" moduleName).set "constant" name).set "type"
      c.type.name
  match types.get? c.type.name with
  | none => ([problem .missingDeclaredType], m)
  | some registered =>
    if registered.sameDefinition c.type then
      match Conversion.convert types ⟨.constant moduleName name, registered, c.source⟩ c.value m with
      | (.error ps, m) => (ps, m)
      | (.ok (.at i), m) =>
        ([], { m with directory := m.directory.insert (constantId moduleName name) i })
      | (.ok (.loose _), m) => ([], m)
    else ([problem .conflictingTypes], m)

def loadConstants (types : Registry) (moduleName : String) :
    List (String × Constant) → Memory → List Problem × Memory
  | [], m => ([], m)
  | (name, c) :: rest, m =>
    let (ps, m) := loadConstant types moduleName name c m
    let (qs, m) := loadConstants types moduleName rest m
    (ps ++ qs, m)

/-- Converts modules in turn; of modules with one name only the first is taken. -/
def loadModules (types : Registry) : List String → List Module → Memory → List Problem × Memory
  | _, [], m => ([], m)
  | seen, md :: rest, m =>
    if seen.contains md.name then
      let p := (Problem.mk .duplicateModuleNames md.source []).set "module" md.name
      let (qs, m) := loadModules types seen rest m
      (p :: qs, m)
    else
      let (ps, m) := loadConstants types md.name md.constants m
      let (qs, m) := loadModules types (md.name :: seen) rest m
      (ps ++ qs, m)

def ofModules (types : Registry) (modules : List Module) : Except (List Problem) Memory :=
  let (problems, m) := loadModules types [] modules {}
  unlessProblems problems { m with constants := m.slots.size }

end Memory

/-- Converts a stored value into the slot of a cell, in the memory of a store. -/
def StoreM.convert (cell : Cell) (value : Stored) : StoreM (Except (List Problem) Address) := fun s =>
  let (result, memory) := Conversion.convert s.types cell value s.memory
  (result, { s with memory })

end CellMachine
