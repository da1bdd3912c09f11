import CellMachine.Registry.Basic

/-!
Structural matching of types.

A type matches another when it can stand where the other is expected. Types of one name match; others
match when their contents do, and a pair that is already being compared is taken to match, which lets
recursive types be compared in finitely many steps. A failed comparison is remembered at once, a
successful one only when the whole query has succeeded.
-/

namespace CellMachine

namespace Registry

/-- The state of one query: the pairs whose contents were entered, and the verdicts known. -/
structure Query where
  entered : List String
  verdicts : KeyMap String (Option Problem)

/-- A step of a comparison. Verdicts found on the way outlive a failure. -/
abbrev Compare := Query → Outcome Unit × Query

def pairKey (actual expected : String) : String := actual ++ "!" ++ expected

def mismatchNames (expected actual : String) : Problem :=
  ((Problem.mk .typeMismatch none []).set "expected" expected).set "actual" actual

def mismatch (expected actual : Ty) : Problem := mismatchNames expected.name actual.name

/-- Runs a second comparison after a first that succeeded. -/
def Compare.andThen (first second : Compare) : Compare := fun q =>
  match first q with
  | (.ok _, q) => second q
  | (.error p, q) => (.error p, q)

def Compare.explain (c : Compare) (f : Problem → Problem) : Compare := fun q =>
  match c q with
  | (.ok _, q) => (.ok (), q)
  | (.error p, q) => (.error (f p), q)

/-- Generics match themselves only; other references match when their types do. -/
def compareRefs (reg : Registry) (compareTypes : Ty → Ty → Compare) (expected actual : TyRef) :
    Compare := fun q =>
  if expected.isGeneric || actual.isGeneric then
    if expected.sameTarget actual then (.ok (), q)
    else (.error (mismatchNames expected.text actual.text), q)
  else
    match reg.resolve expected with
    | .error p => (.error p, q)
    | .ok e =>
      match reg.resolve actual with
      | .error p => (.error p, q)
      | .ok a => compareTypes e a q

def compareStores (compare : TyRef → TyRef → Compare) (expected actual : Ty)
    (available : KeyMap String TyRef) : List (String × TyRef) → Compare
  | [], q => (.ok (), q)
  | (key, e) :: rest, q =>
    match available.get? key with
    | none =>
      (.error (((mismatch expected actual).set "missing_key" key).set "missing_key_type" e.text), q)
    | some a =>
      ((compare e a).explain fun p => p.add "key" key).andThen
        (compareStores compare expected actual available rest) q

def compareContents (compare : TyRef → TyRef → Compare) (expected actual : Ty) : Compare :=
  match expected, actual with
  | .native _ _ e _, .native _ _ a _ => fun q =>
    if e = a then (.ok (), q)
    else (.error (((mismatch expected actual).set "expected_internal" e).set "actual_internal" a), q)
  | .iterable _ _ e _, .iterable _ _ a _ => compare e a
  | .structured _ _ m, .structured _ _ n => compareStores compare expected actual n m
  | .callable _ _ ea er, .callable _ _ aa ar => (compare er ar).andThen (compare ea aa)
  | .keyOf _ _ e, .keyOf _ _ a => compare e a
  | _, _ => fun q => (.error (mismatch expected actual), q)

/-- Compares two types. The fuel bounds how deep contents are entered. -/
def compareTypes (reg : Registry) : Nat → Ty → Ty → Compare
  | 0, _, _, q => (.ok (), q)
  | fuel + 1, expected, actual, q =>
    if expected.name = actual.name then (.ok (), q)
    else if expected.category ≠ actual.category then
      (.error (((mismatch expected actual).set "expected_category" expected.category.name).set
        "actual_category" actual.category.name), q)
    else
      let key := pairKey actual.name expected.name
      if q.entered.contains key then (.ok (), q)
      else
        match q.verdicts.get? key with
        | some none => (.ok (), q)
        | some (some p) => (.error p, q)
        | none =>
          let contents := compareContents (reg.compareRefs (compareTypes reg fuel)) expected actual
          -- A match is no verdict yet: it may rest on a pair above, which can still fail.
          match contents { q with entered := key :: q.entered } with
          | (.ok _, q) => (.ok (), q)
          | (.error p, q) =>
            let p := (p.set "checked_expected" expected.name).set "checked_actual" actual.name
            (.error p, { q with verdicts := q.verdicts.insert key (some p) })

def weight (reg : Registry) : Nat := reg.types.foldr (fun e n => e.2.size + n) 0

/-- More than the number of pairs whose contents a query can enter. -/
def fuelFor (reg : Registry) (expected actual : Ty) : Nat :=
  let written := reg.weight + expected.size + actual.size
  written * written + 1

/-- Whether `actual` can stand where `expected` is asked for, or, when nothing is asked for, where
the registered type of its own name is. -/
def matchTypes (reg : Registry) (source : Option Position) (actual : Ty) (expected : Option Ty) :
    Outcome Unit × Registry :=
  match expected <|> reg.get? actual.name with
  | none => (.error ((Problem.mk .unknownType source []).set "type" actual.name), reg)
  | some expected =>
    match reg.compareTypes (reg.fuelFor expected actual) expected actual ⟨[], reg.verdicts⟩ with
    | (.ok _, q) =>
      let verdicts := q.entered.foldl (fun m key => m.insertNew key none) q.verdicts
      (.ok (), { reg with verdicts })
    | (.error p, q) => (.error (p.orAt source), { reg with verdicts := q.verdicts })

/-- Whether one reference can stand where another is asked for. -/
def matchRefs (reg : Registry) (source : Option Position) (actual expected : TyRef) :
    Outcome Unit × Registry :=
  if actual.isGeneric || expected.isGeneric then
    if actual.sameTarget expected then (.ok (), reg)
    else (.error ((mismatchNames expected.text actual.text).orAt source), reg)
  else
    match reg.resolve actual with
    | .error p => (.error (p.orAt source), reg)
    | .ok a =>
      match reg.resolve expected with
      | .error p => (.error (p.orAt source), reg)
      | .ok e => reg.matchTypes source a (some e)

end Registry

end CellMachine
