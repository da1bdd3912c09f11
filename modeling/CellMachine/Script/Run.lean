import CellMachine.Script.Basic

/-!
Runs of a script's functions.
-/

namespace CellMachine

namespace Script

def notCallable (moduleName name : String) : Problem :=
  ((Problem.mk .notCallable none []).set "module" moduleName).set "constant" name

/-- The first of several problems, about a function. -/
def inFunction (moduleName name : String) (found : List Problem) : Problem :=
  match firstOf found with
  | some p => (p.add "module" moduleName).add "constant" name
  | none => notCallable moduleName name

def argumentsCell (type : Ty) : Cell := ⟨.external "arguments", type, some (.internal "arguments")⟩

/-- Compiles the function, converts its argument and sets up the call. -/
def prepare (moduleName name : String) (argument : KeyMap String Stored) :
    RunM (Outcome (CompiledCall × Action)) := do
  match (← RunM.memory).lookup moduleName name with
  | none =>
    pure (.error (((Problem.mk .noSuchConstant none []).set "module" moduleName).set "constant"
      name))
  | some index =>
    match ← Machine.compileAt index with
    | .error found => pure (.error (inFunction moduleName name found))
    | .ok call =>
      match ← RunM.store (StoreM.convert (argumentsCell call.argumentType) (.record argument)) with
      | .error found => pure (.error (inFunction moduleName name found))
      | .ok a =>
        match ← Machine.construct call a with
        | .error p => pure (.error (inFunction moduleName name [p]))
        | .ok action => pure (.ok (call, action))

/-- Runs a function to the end and forces its result; `none` when the fuel does not last. -/
def runOn (fuel : Nat) (moduleName name : String) (argument : KeyMap String Stored) :
    RunM (Option (Outcome Tree)) := do
  match ← prepare moduleName name argument with
  | .error p => pure (some (.error p))
  | .ok (call, action) =>
    RunM.tell fun _ => .started call.callable
    match ← Machine.execute fuel (action.andThen .deepen) with
    | none => pure none
    | some (.error p) => pure (some (.error p))
    | some (.ok a) =>
      RunM.tell fun m => .returned call.callable (m.kindAt a)
      let memory ← RunM.memory
      match memory.treeAt a with
      | some t => pure (some (.ok t))
      | none =>
        pure (some (.error (((Problem.mk .nonEvaluatedValue (memory.sourceOf a) []).set "module"
          moduleName).set "constant" name)))

/-- Runs a function of a script. The answer comes with the script after the run and with what a
watcher was told, in order; a failure is told last. -/
def run (s : Script) (fuel : Nat) (moduleName name : String) (argument : KeyMap String Stored)
    (token : Option String) : Option (Outcome Tree) × Script × List Notice :=
  let whole : RunM (Option (Outcome Tree)) := do
    let result ← runOn fuel moduleName name argument
    match result with
    | some (.error p) => RunM.tell fun _ => .failed p
    | _ => pure ()
    pure result
  let (result, m) := whole (s.machine token)
  (result, s.after m, m.notices.reverse)

end Script

end CellMachine
