import CellMachine.Memory.Basic
import CellMachine.Registry.Matching

/-!
What a running script can read and change: memory, the registry with its verdicts, and the tokens
that were cancelled.
-/

namespace CellMachine

structure Store where
  memory : Memory := {}
  types : Registry := .initial
  /-- The tokens that were cancelled so far. -/
  cancelled : List String := []

abbrev StoreM := StateM Store

/-- A computation on a store that may fail; what it wrote before stays written. -/
abbrev Attempt := ExceptT Problem StoreM

namespace Store

def cancel (s : Store) (token : String) : Store := { s with cancelled := token :: s.cancelled }

/-- Whether a run with a token is to end; a run without one is never cancelled. -/
def isCancelled (s : Store) (token : Option String) : Bool := token.any s.cancelled.contains

end Store

namespace StoreM

def allocate (cell : Cell) (value : Option Value) : StoreM Address := fun s =>
  let (a, memory) := s.memory.allocate cell value
  (a, { s with memory })

def allocateLoose (cell : Cell) (value : Option Value) : StoreM Address := fun s =>
  let (a, memory) := s.memory.allocateLoose cell value
  (a, { s with memory })

def memoize (a : Address) (v : Value) : StoreM Unit := fun s =>
  ((), { s with memory := s.memory.memoize a v })

def memory : StoreM Memory := fun s => (s.memory, s)

def types : StoreM Registry := fun s => (s.types, s)

def value? (a : Address) : StoreM (Option Value) := fun s => (s.memory.value? a, s)

def typeOf (a : Address) : StoreM Ty := fun s => (s.memory.typeOf a, s)

def sourceOf (a : Address) : StoreM (Option Position) := fun s => (s.memory.sourceOf a, s)

def matchTypes (source : Option Position) (actual : Ty) (expected : Option Ty) :
    StoreM (Outcome Unit) := fun s =>
  let (result, types) := s.types.matchTypes source actual expected
  (result, { s with types })

def matchRefs (source : Option Position) (actual expected : TyRef) : StoreM (Outcome Unit) := fun s =>
  let (result, types) := s.types.matchRefs source actual expected
  (result, { s with types })

end StoreM

namespace Attempt

def ofOutcome (o : Outcome α) : Attempt α := ExceptT.mk (pure o)

def fail (p : Problem) : Attempt α := ofOutcome (.error p)

def explain (a : Attempt α) (f : Problem → Problem) : Attempt α := ExceptT.mk do
  match ← a.run with
  | .ok x => pure (.ok x)
  | .error p => pure (.error (f p))

def matchTypes (source : Option Position) (actual : Ty) (expected : Option Ty) : Attempt Unit :=
  ExceptT.mk (StoreM.matchTypes source actual expected)

def matchRefs (source : Option Position) (actual expected : TyRef) : Attempt Unit :=
  ExceptT.mk (StoreM.matchRefs source actual expected)

end Attempt

end CellMachine
