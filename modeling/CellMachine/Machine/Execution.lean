import CellMachine.Machine.Evaluation

/-!
Execution of actions with a stack. An action on the stack first has its dependencies executed, in
order and all of them, even if one fails; then it fails with the first of their failures, or does its
own work with their results. A turn of the machine puts one action on the stack or takes one off;
before each turn the machine looks for a cancellation, and counts the turn against its budget.
-/

namespace CellMachine

/-- An action on the stack. -/
structure Job where
  /-- The dependencies that are still to be executed. -/
  waiting : List Action
  /-- How many dependencies there are in all. -/
  expected : Nat
  /-- The results so far, the newest first. -/
  results : List Address := []
  /-- The failures so far, the newest first. -/
  errors : List Problem := []
  work : Work Action

def Job.ofAction (a : Action) : Job where
  waiting := a.dependencies
  expected := a.dependencies.length
  work := a.work

/-- What a turn leaves: a stack to go on with, or the outcome. -/
inductive Turn where
  | running (stack : List Job)
  | finished (outcome : Outcome Address)

namespace Machine

def conclusion (j : Job) : Stepped :=
  match firstOf j.errors.reverse with
  | some p => pure (.error p)
  | none =>
    if j.results.length ≠ j.expected then
      pure (.error (((orderViolation "dependency results out of step").set "expected"
        j.expected).set "actual" j.results.length))
    else perform j.work j.results.reverse

def handOver (step : Step Action) (stack : List Job) : Turn :=
  match step, stack with
  | .action next, stack => .running (Job.ofAction next :: stack)
  | .value a, [] => .finished (.ok a)
  | .value a, parent :: rest => .running ({ parent with results := a :: parent.results } :: rest)
  | .error p, [] => .finished (.error p)
  | .error p, parent :: rest => .running ({ parent with errors := p :: parent.errors } :: rest)

/-- One turn of the machine, apart from its guards. -/
def advance (stack : List Job) : RunM Turn :=
  match stack with
  | [] => pure (.finished (.error (orderViolation "empty worklist")))
  | job :: rest =>
    match job.waiting with
    | next :: waiting => pure (.running (Job.ofAction next :: { job with waiting } :: rest))
    | [] => do
      let step ← conclusion job
      pure (handOver step rest)

/-- Whether a number of steps is over the budget. -/
def overBudget (c : Config) (steps : Nat) : Option Nat :=
  match c.maxSteps with
  | some limit => if limit < steps then some limit else none
  | none => none

/-- One turn of the machine. -/
def turn (stack : List Job) : RunM Turn := fun m =>
  if m.store.isCancelled m.setting.token then
    (.finished (.error ((Problem.mk .cancelled none []).set "steps" m.steps)), m)
  else
    let m := { m with steps := m.steps + 1 }
    match overBudget m.setting.config m.steps with
    | some limit =>
      (.finished (.error ((Problem.mk .stepLimitExceeded none []).set "limit" limit)), m)
    | none => advance stack m

/-- Takes turns until there is an outcome; `none` when the fuel does not last that long. -/
def takeTurns : Nat → List Job → Machine → Option (Outcome Address) × Machine
  | 0, _, m => (none, m)
  | fuel + 1, stack, m =>
    match turn stack m with
    | (.finished outcome, m) => (some outcome, m)
    | (.running stack, m) => takeTurns fuel stack m

def execute (fuel : Nat) (root : Action) : RunM (Option (Outcome Address)) :=
  takeTurns fuel [Job.ofAction root]

end Machine

end CellMachine
