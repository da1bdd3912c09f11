/-!
Spans of a sequence: where to start, and where to stop. A negative stop counts back from the end.
Lengths and stops are machine words, so counting back is done among signed words.
-/

namespace CellMachine

/-- A part of a sequence whose length is not known yet. -/
structure Span where
  start : Option Nat := none
  stop : Option Int64 := none
  deriving Repr, DecidableEq, Inhabited

namespace Span

def all : Span := ⟨none, none⟩

/-- The position after the last one, in a sequence of a given length. Counting back from a length
that is negative as a signed word leaves nothing. -/
def stopIn (s : Span) (length : Nat) : Nat :=
  match s.stop with
  | none => length
  | some e => if e < 0 then (Int64.ofNat length + e).toNatClampNeg else min e.toNatClampNeg length

/-- The first position and the one after the last in a sequence of a given length, when there is
one at all. -/
def resolve (s : Span) (length : Nat) : Option (Nat × Nat) :=
  let start := s.start.getD 0
  let stop := s.stopIn length
  if start < stop then some (start, stop) else none

end Span

/-- Where a visited element stands. -/
structure Visit where
  /-- Its position in the whole sequence. -/
  index : Nat
  /-- Whether the visited span starts with it. -/
  first : Bool
  /-- Whether the visited span ends with it. -/
  last : Bool
  deriving Repr, DecidableEq, Inhabited

/-- A visitor turns one state into the next; `.error` ends the visit with a last state. -/
abbrev Visitor (σ α : Type) := α → Visit → σ → Except σ σ

/-- The state that a visit ends with, whether it was cut short or not. -/
def Visitor.ended {σ : Type} : Except σ σ → σ
  | .ok s => s
  | .error s => s

/-- The place of position `i` in the span `from` … `to`. -/
def Visit.at (i : Nat) (span : Nat × Nat) : Visit := ⟨i, i == span.1, i + 1 == span.2⟩

end CellMachine
