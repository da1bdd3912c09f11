import CellMachine.KeyMap
import CellMachine.Position
import CellMachine.Problem.Cause
import CellMachine.Text.Decimal

/-!
Problems: what a refused script and a failed run report. A problem has a cause, possibly a place,
and named parameters. Parameters may be written (`set`) or only added where they are missing (`add`),
so that a report that travels outwards keeps what was said where it arose.
-/

namespace CellMachine

/-- A parameter of a problem. Whole numbers are held as the nearest floating point number. -/
inductive Param where
  | text (s : String)
  | number (x : Float)
  deriving Inhabited

namespace Param

def ofNat (n : Nat) : Param := number (Float.ofNat n)

def ofInt (i : Int) : Param := number (Float.ofInt i)

/-- Parameters are written without exponents, and whole numbers without a point. -/
def format : Text.NumberFormat := ⟨fun _ => true, false⟩

def render : Param → String
  | text s => Text.quoted s
  | number x => format.render x

def asText? : Param → Option String
  | text s => some s
  | number _ => none

def asNumber? : Param → Option Float
  | text _ => none
  | number x => some x

instance : Coe String Param := ⟨text⟩

instance : Coe Nat Param := ⟨ofNat⟩

end Param

abbrev Params := KeyMap String Param

structure Problem where
  cause : Cause
  location : Option Position := none
  params : Params := []
  deriving Inhabited

namespace Problem

def set (p : Problem) (key : String) (value : Param) : Problem :=
  { p with params := p.params.insert key value }

def add (p : Problem) (key : String) (value : Param) : Problem :=
  { p with params := p.params.insertNew key value }

def addAll (p : Problem) (params : Params) : Problem :=
  params.foldl (fun p e => p.add e.1 e.2) p

def orAt (p : Problem) (location : Option Position) : Problem :=
  { p with location := p.location <|> location }

def param? (p : Problem) (key : String) : Option Param := p.params.get? key

/-- Name, place and parameters on one line. -/
def message (p : Problem) : String :=
  let place := match p.location with
    | some l => " at " ++ l.text
    | none => ""
  let params := match p.params with
    | [] => ""
    | ps => " \x7b" ++ Text.joined ", " (ps.map fun e => e.1 ++ ": " ++ e.2.render) ++ "\x7d"
  p.cause.name ++ place ++ params

@[simp] theorem set_cause (p : Problem) (k : String) (v : Param) : (p.set k v).cause = p.cause := rfl

@[simp] theorem add_cause (p : Problem) (k : String) (v : Param) : (p.add k v).cause = p.cause := rfl

@[simp] theorem orAt_cause (p : Problem) (l : Option Position) : (p.orAt l).cause = p.cause := rfl

end Problem

abbrev Outcome (α : Type u) := Except Problem α

/-- Of several problems the first stands for all, and counts the others. -/
def firstOf : List Problem → Option Problem
  | [] => none
  | [p] => some p
  | p :: rest => some (p.add "additional_errors" rest.length)

/-- How many problems there are, and the first of them. -/
def summary (problems : List Problem) : String :=
  toString problems.length ++ " problem(s), first: " ++ (problems.head?.map Problem.message).getD ""

/-- A value, unless there are problems. -/
def unlessProblems (problems : List Problem) (a : α) : Except (List Problem) α :=
  if problems.isEmpty then .ok a else .error problems

end CellMachine
