import CellMachine.Cell
import CellMachine.Problem.Basic

/-!
The cells of a callable that its result needs, found by a depth-first walk from the result's cell.
Cells are listed after the cells they need. References to cells that do not exist, and references
that close a cycle, are reported.
-/

namespace CellMachine

namespace Callable

/-- How far the walk got with a cell. -/
inductive Mark where
  | entered | finished
  deriving Repr, DecidableEq, Inhabited

/-- What the walk found so far. -/
structure Walk where
  marks : KeyMap Nat Mark
  /-- The finished cells, in the order in which they were finished. -/
  order : List Nat
  problems : List Problem

def dangling (cell : Cell) (index position reference : Nat) : Problem :=
  match cell.kind with
  | .opcode mnemonic _ _ =>
    ((((Problem.mk .argumentRef cell.bestSource []).set "opcode" mnemonic).set "cell" index).set
      "argIndex" position).set "reference" reference
  | _ =>
    (((Problem.mk .structureCorrupt cell.bestSource []).set "reason" "missing cell").set "cell"
      index).set "reference" reference

def cyclic (cell : Cell) (index reference : Nat) : Problem :=
  (((Problem.mk .structureCorrupt cell.bestSource []).set "reason" "cycle").set "cell" index).set
    "reference" reference

/-- The defect of one reference of a cell, if it has one. -/
def referenceProblem (c : Callable) (marks : KeyMap Nat Mark) (cell : Cell) (index : Nat)
    (position reference : Nat) : Option Problem :=
  match marks.get? reference with
  | some .entered => some (cyclic cell index reference)
  | some .finished => none
  | none =>
    if (c.cell? reference).isSome then none else some (dangling cell index position reference)

/-- The defects of a cell's references, the last reference first. -/
def referenceProblems (c : Callable) (marks : KeyMap Nat Mark) (cell : Cell) (index : Nat) :
    List Problem :=
  cell.kind.references.zipIdx.reverse.filterMap fun e =>
    c.referenceProblem marks cell index e.2 e.1

def newReferences (c : Callable) (marks : KeyMap Nat Mark) (cell : Cell) : List Nat :=
  cell.kind.references.filter fun r => !marks.contains r && (c.cell? r).isSome

/-- Walks on, given the cells to enter (`false`) and to finish (`true`), the next one first. -/
def walk (c : Callable) : Nat → List (Nat × Bool) → Walk → Walk
  | 0, _, w => w
  | _ + 1, [], w => w
  | fuel + 1, (index, true) :: stack, w =>
    c.walk fuel stack
      { w with marks := w.marks.insert index .finished, order := w.order ++ [index] }
  | fuel + 1, (index, false) :: stack, w =>
    if w.marks.contains index then c.walk fuel stack w
    else
      match c.cell? index with
      | none => c.walk fuel stack w
      | some cell =>
        -- A reference to a cell that is entered and not finished closes a cycle.
        let marks := w.marks.insert index .entered
        let next := (c.newReferences marks cell).map fun r => (r, false)
        c.walk fuel (next ++ (index, true) :: stack)
          { w with marks, problems := w.problems ++ c.referenceProblems marks cell index }

/-- More than the number of entries that the walk can put on its stack. -/
def walkFuel (c : Callable) : Nat :=
  c.cells.foldr (fun e n => 1 + e.2.kind.references.length + n) 2

/-- The cells that the result needs, and the defects met among them. -/
def reachable (c : Callable) : List Nat × List Problem :=
  let w := c.walk c.walkFuel [(resultCell, false)] ⟨[], [], []⟩
  (w.order, w.problems)

end Callable

end CellMachine
