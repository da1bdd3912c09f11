import CellMachine.Sequence.Rope

/-!
Sequences of members: flat, as constants and literals are, or ropes, as the results of operations
are. Both are read through the same view.
-/

namespace CellMachine

variable {α σ : Type}

inductive Sequence (α : Type) where
  | flat (items : Array α)
  | rope (r : Rope α)

namespace Sequence

def size : Sequence α → Nat
  | flat items => items.size
  | rope r => r.length

def get? : Sequence α → Nat → Option α
  | flat items, i => items[i]?
  | rope r, i => r.get? i

/-- Visits the elements of a list that starts at index `i` of the sequence. -/
def visitFrom (visitor : Visitor σ α) (span : Nat × Nat) : List α → Nat → σ → Except σ σ
  | [], _, s => .ok s
  | a :: rest, i, s =>
    match visitor a (.at i span) s with
    | .error s => .error s
    | .ok s => visitFrom visitor span rest (i + 1) s

def forEachIn (q : Sequence α) (span : Span) (visitor : Visitor σ α) (s : σ) : σ :=
  match q with
  | rope r => r.forEachIn span visitor s
  | flat items =>
    match span.resolve items.size with
    | none => s
    | some (from_, to_) =>
      Visitor.ended
        (visitFrom visitor (from_, to_) ((items.toList.drop from_).take (to_ - from_)) from_ s)

def toList (q : Sequence α) : List α :=
  (q.forEachIn .all (fun a _ items => .ok (a :: items)) []).reverse

def toRope : Sequence α → Rope α
  | rope r => r
  | flat items => .ofArray items

/-- The rope, when the sequence is one already. -/
def rope? : Sequence α → Option (Rope α)
  | rope r => some r
  | flat _ => none

end Sequence

end CellMachine
