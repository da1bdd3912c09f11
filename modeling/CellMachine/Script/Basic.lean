import CellMachine.Machine.Execution
import CellMachine.Memory.Conversion
import CellMachine.Script.Loader

/-!
Scripts: modules whose constants were loaded into memory. A script is run by naming one of its
functions; what a run leaves for later ones are compilations and verdicts, nothing else.
-/

namespace CellMachine

structure Script where
  modules : KeyMap String Module
  opcodes : Opcodes
  config : Config
  /-- The memory of the constants. -/
  memory : Memory
  types : Registry
  compiled : KeyMap Nat Compilation := []
  /-- What the watcher wants to hear of, once there is one. -/
  attention : Attention := .nothing
  /-- The tokens that were cancelled. -/
  cancelled : List String := []

namespace Script

def machine (s : Script) (token : Option String) : Machine where
  setting := { opcodes := s.opcodes, modules := s.modules, config := s.config, token
               attention := s.attention }
  store := { memory := s.memory, types := s.types, cancelled := s.cancelled }
  compiled := s.compiled

def after (s : Script) (m : Machine) : Script :=
  { s with types := m.store.types, compiled := m.compiled, cancelled := m.store.cancelled }

def constant? (s : Script) (moduleName name : String) : Option Constant :=
  (s.modules.get? moduleName).bind fun m => m.constants.get? name

def compileAt (s : Script) (index : Nat) : Compilation × Script :=
  let (c, m) := Machine.compileAt index (s.machine none)
  (c, s.after m)

/-- The names of all constants, in the order of modules and names. -/
def constantNames (s : Script) : List (String × String) :=
  s.modules.flatMap fun e => e.2.constants.keys.map fun name => (e.1, name)

def compileConstants : List (String × String) → Script → List Problem × Script
  | [], s => ([], s)
  | (moduleName, name) :: rest, s =>
    let (ps, s) : List Problem × Script :=
      match s.memory.lookup moduleName name with
      | none => ([], s)
      | some index =>
        if (s.memory.typeOf (.at index)).category = .callable then
          match s.compileAt index with
          | (.ok _, s) => ([], s)
          | (.error found, s) =>
            (found.map fun p => (p.add "module" moduleName).add "constant" name, s)
        else ([], s)
    let (qs, s) := compileConstants rest s
    (ps ++ qs, s)

def compileAll (s : Script) : List Problem × Script := compileConstants s.constantNames s

/-- Whether a watcher was set. -/
def isWatched (s : Script) : Bool := s.attention != .nothing

/-- Sets a watcher, which can be done once. -/
def watch (s : Script) (attention : Attention) : Outcome Script :=
  if s.isWatched then .error ⟨.debuggerAlreadySet, none, []⟩ else .ok { s with attention }

def cancel (s : Script) (token : String) : Script := { s with cancelled := token :: s.cancelled }

def describe (s : Script) : String :=
  "Interpreter \x7b modules: [" ++ Text.joined ", " (s.modules.keys.map Text.quoted) ++
    "], constants: " ++ toString s.memory.size ++ ", config: " ++ s.config.details ++
    ", debugger: " ++ (if s.isWatched then "true" else "false") ++ ", .. \x7d"

def describeCompiled (s : Script) : String :=
  "CallCompiler \x7b opcodes: [" ++ Text.joined ", " (s.opcodes.keys.map Text.quoted) ++
    "], cached: " ++ toString s.compiled.length ++ ", .. \x7d"

/-! ### Loading -/

def inConstant (moduleName name : String) (c : Constant) (p : Problem) : Problem :=
  ((p.orAt c.source).add "module" moduleName).add "constant" name

/-- Why the type of a constant was refused: a second definition of its own name is a conflict. -/
def typeProblem (c : Constant) (p : Problem) : Problem :=
  let ownName := (p.param? "type").bind Param.asText? == some c.type.name
  if p.cause = .duplicateType ∧ ownName then
    (Problem.mk .conflictingTypes none []).addAll p.params
  else p

def registerCells (problem : Problem → Problem) :
    List (Nat × Cell) → Registry → List Problem × Registry
  | [], types => ([], types)
  | (index, cell) :: rest, types =>
    let (ps, types) : List Problem × Registry :=
      match types.register cell.type with
      | .ok types => ([], types)
      | .error p => ([problem (p.add "cell" index)], types)
    let (qs, types) := registerCells problem rest types
    (ps ++ qs, types)

def registerConstant (moduleName name : String) (c : Constant) (types : Registry) :
    List Problem × Registry :=
  match types.register c.type with
  | .error p => ([inConstant moduleName name c (typeProblem c p)], types)
  | .ok types =>
    match c.value with
    | .callable f => registerCells (inConstant moduleName name c) f.cells types
    | _ => ([], types)

def registerConstants :
    List (String × String × Constant) → Registry → List Problem × Registry
  | [], types => ([], types)
  | (moduleName, name, c) :: rest, types =>
    let (ps, types) := registerConstant moduleName name c types
    let (qs, types) := registerConstants rest types
    (ps ++ qs, types)

/-- Whether two problems report the same defect of the same constant. -/
def sameReport (p q : Problem) : Bool :=
  let text (p : Problem) (key : String) := (p.param? key).bind Param.asText?
  p.cause = q.cause && text p "module" == text q "module" && text p "constant" == text q "constant"

/-- Loads modules. The constants are converted even when types were refused; what was reported
already is not reported again. -/
def load (l : Loader) (modules : List Module) : Except (List Problem) Script :=
  let constants := modules.flatMap fun m => m.constants.map fun e => (m.name, e.1, e.2)
  let (refused, types) := registerConstants constants l.types.fresh
  match Memory.ofModules types modules with
  | .error found => .error (refused ++ found.filter fun p => !refused.any fun q => sameReport p q)
  | .ok memory =>
    if refused.isEmpty then
      let script : Script :=
        { modules := .ofList (modules.map fun m => (m.name, m)), opcodes := l.opcodes
          config := l.config, memory, types }
      if l.config.eagerCompile then
        let (found, script) := script.compileAll
        unlessProblems found script
      else .ok script
    else .error refused

end Script

end CellMachine
