import CellMachine.Text.Quoted

/-!
Settings of a script's runs.
-/

namespace CellMachine

/-- In which order the terms of a reduction are combined. -/
inductive ReduceStrategy where
  /-- From the left, one term after the other. -/
  | sequential
  /-- Neighbours first, then neighbouring results. -/
  | pairwise
  deriving Repr, DecidableEq, Inhabited

def ReduceStrategy.name : ReduceStrategy → String
  | sequential => "Sequential"
  | pairwise => "Pairwise"

structure Config where
  /-- Compile every callable constant when a script is loaded. -/
  eagerCompile : Bool := true
  /-- Let opcodes check the values they returned. -/
  validateReturns : Bool := false
  /-- Let opcodes check their arguments before they run. -/
  runtimeValidation : Bool := true
  reduceStrategy : ReduceStrategy := .sequential
  /-- How many steps a run may take. -/
  maxSteps : Option Nat := none
  deriving Repr, DecidableEq, Inhabited

namespace Config

def strict : Config where
  validateReturns := true

def permissive : Config where
  eagerCompile := false
  runtimeValidation := false
  reduceStrategy := .pairwise

def details (c : Config) : String :=
  let flag (b : Bool) := if b then "true" else "false"
  let steps := match c.maxSteps with
    | some n => "Some(" ++ toString n ++ ")"
    | none => "None"
  "InterpreterConfig \x7b eager_compile: " ++ flag c.eagerCompile ++ ", validate_returns: " ++
    flag c.validateReturns ++ ", runtime_validation: " ++ flag c.runtimeValidation ++
    ", reduce_strategy: " ++ c.reduceStrategy.name ++ ", max_steps: " ++ steps ++ " \x7d"

end Config

end CellMachine
