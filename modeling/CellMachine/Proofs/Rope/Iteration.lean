import CellMachine.Proofs.Rope.Refinement
import CellMachine.Proofs.Value

/-!
Ropes are visited as lists are. What a visitor is called on is said of the list alone: the elements of
the span, each with its place, up to the call that ends the visit. A rope that holds the list calls
every visitor on exactly that, and so does the list held flat.
-/

namespace CellMachine

variable {α σ : Type}

/-! ### The calls of a visit -/

/-- Where a span starts and where it stops in a sequence of a given length. A negative stop counts back
from the end and any other is cut off there. -/
def Span.bounds (s : Span) (length : Nat) : Nat × Nat :=
  (s.start.getD 0,
    match s.stop with
    | none => length
    | some e => if e.toInt < 0 then (length + e.toInt).toNat else min e.toInt.toNat length)

/-- The elements of a span of a list, each with its place: its position in the whole list, and whether
the span starts and whether it ends with it. -/
def Span.calls (s : Span) (l : List α) : List (α × Visit) :=
  let (start, stop) := s.bounds l.length
  let part := (l.take stop).drop start
  part.zipIdx.map fun e => (e.1, ⟨start + e.2, e.2 == 0, e.2 + 1 == part.length⟩)

namespace Visitor

/-- What a visitor lets happen of the given calls, up to and including the first that ends the visit,
and the state it then has. -/
def answer (visitor : Visitor σ α) : List (α × Visit) → σ → List (α × Visit) × σ
  | [], s => ([], s)
  | (a, place) :: rest, s =>
    match visitor a place s with
    | .error s => ([(a, place)], s)
    | .ok s => ((a, place) :: (visitor.answer rest s).1, (visitor.answer rest s).2)

/-- The same visitor, which also writes down what it is called on. -/
def recorded (visitor : Visitor σ α) : Visitor (List (α × Visit) × σ) α := fun a place s =>
  match visitor a place s.2 with
  | .error t => .error (s.1 ++ [(a, place)], t)
  | .ok t => .ok (s.1 ++ [(a, place)], t)

end Visitor

namespace Sequence

/-- The elements of a list that starts at index `i`, with their places in a span. -/
def callsFrom (span : Nat × Nat) (l : List α) (i : Nat) : List (α × Visit) :=
  (l.zipIdx i).map fun e => (e.1, .at e.2 span)

lemma visitFrom_recorded (visitor : Visitor σ α) (span : Nat × Nat) (l : List α) (i : Nat)
    (made : List (α × Visit)) (s : σ) :
    Visitor.ended (visitFrom visitor.recorded span l i (made, s)) =
      (made ++ (visitor.answer (callsFrom span l i) s).1,
        (visitor.answer (callsFrom span l i) s).2) := by
  induction l generalizing i made s with
  | nil => simp [visitFrom, Visitor.ended, callsFrom, Visitor.answer]
  | cons a l ih =>
    have hcalls : callsFrom span (a :: l) i = (a, .at i span) :: callsFrom span l (i + 1) := by
      rw [callsFrom, List.zipIdx_cons, List.map_cons, callsFrom]
    rw [hcalls, visitFrom, Visitor.recorded, Visitor.answer]
    cases visitor a (.at i span) s with
    | error t => rfl
    | ok t =>
      dsimp only
      rw [ih, List.append_assoc]
      rfl

lemma callsFrom_eq (l : List α) {start stop : Nat} (h : start < stop) (hstop : stop ≤ l.length) :
    callsFrom (start, stop) ((l.take stop).drop start) start =
      ((l.take stop).drop start).zipIdx.map fun e =>
        (e.1, ⟨start + e.2, e.2 == 0, e.2 + 1 == ((l.take stop).drop start).length⟩) := by
  have hlength : ((l.take stop).drop start).length = stop - start := by
    rw [List.length_drop, List.length_take]
    omega
  rw [callsFrom, List.zipIdx_eq_map_add, List.map_map]
  refine List.map_congr_left fun e he => ?_
  simp only [Function.comp, Visit.at, hlength]
  congr 2
  · grind
  · grind

end Sequence

namespace Span

lemma resolve_eq (s : Span) {n : Nat} (hn : n < 2 ^ 63) :
    s.resolve n = if (s.bounds n).1 < (s.bounds n).2 then some (s.bounds n) else none := by
  have hstop : s.stopIn n = (s.bounds n).2 := by
    unfold stopIn bounds
    cases s.stop with
    | none => rfl
    | some e =>
      dsimp only
      by_cases he : e < 0
      · have hword : (Int64.ofNat n).toInt = n := Int64.toInt_ofNat_of_lt hn
        have hneg : e.toInt < 0 := Int64.lt_iff_toInt_lt.mp he
        have hlow := e.le_toInt
        rw [if_pos he, if_pos hneg, Int64.toNatClampNeg, Int64.toInt_add, hword,
          Int.bmod_eq_of_le (by omega) (by omega)]
      · have hnonneg : ¬e.toInt < 0 := fun h => he (Int64.lt_iff_toInt_lt.mpr h)
        rw [if_neg he, if_neg hnonneg, Int64.toNatClampNeg]
  rw [resolve, hstop]
  rfl

lemma bounds_le (s : Span) (n : Nat) : (s.bounds n).2 ≤ n := by
  unfold bounds
  cases s.stop with
  | none => exact le_rfl
  | some e =>
    dsimp only
    split <;> omega

end Span

namespace Sequence

/-- **A rope is visited as the list it holds.** -/
lemma forEachIn_rope {r : Rope α} (h : r.WellFormed) (span : Span) (visitor : Visitor σ α) (s : σ) :
    (rope r).forEachIn span visitor s = (flat r.elems.toArray).forEachIn span visitor s := by
  have hlength : r.elems.toArray.size = r.length := by
    rw [List.size_toArray, Rope.length_eq h]
  have hrope := Rope.forEachIn_eq h span visitor s
  cases hspan : span.resolve r.length with
  | none => simp only [forEachIn, hrope, hlength, hspan]
  | some bounds => simp only [forEachIn, hrope, hlength, hspan, List.extract_eq_take_drop]

/-- **A visit of a list** makes the calls of the span that its visitor answers to. -/
lemma forEachIn_recorded (l : List α) (hl : l.length < 2 ^ 63) (span : Span)
    (visitor : Visitor σ α) (s : σ) :
    (flat l.toArray).forEachIn span visitor.recorded ([], s) =
      visitor.answer (span.calls l) s := by
  have hle := span.bounds_le l.length
  rw [forEachIn, List.size_toArray, Span.resolve_eq span hl, Span.calls]
  generalize span.bounds l.length = bounds at hle ⊢
  obtain ⟨start, stop⟩ := bounds
  dsimp only at hle ⊢
  by_cases h : start < stop
  · rw [if_pos h]
    dsimp only
    rw [visitFrom_recorded, ← List.drop_take, callsFrom_eq l h hle, List.nil_append]
  · rw [if_neg h, List.drop_eq_nil_of_le (by rw [List.length_take]; omega)]
    rfl

end Sequence

namespace Rope

/-- A rope is visited, and answers, as a list that is held flat. -/
structure VisitedAs (r : Rope α) (l : List α) : Prop where
  visits : ∀ (σ : Type) (span : Span) (visitor : Visitor σ α) (s : σ),
    (Sequence.rope r).forEachIn span visitor s = (Sequence.flat l.toArray).forEachIn span visitor s
  /-- In the sequences that machine words can count. -/
  calls : l.length < 2 ^ 63 → ∀ (σ : Type) (span : Span) (visitor : Visitor σ α) (s : σ),
    (Sequence.rope r).forEachIn span visitor.recorded ([], s) = visitor.answer (span.calls l) s ∧
      (Sequence.flat l.toArray).forEachIn span visitor.recorded ([], s) =
        visitor.answer (span.calls l) s
  size : (Sequence.rope r).size = (Sequence.flat l.toArray).size
  get? : ∀ i, (Sequence.rope r).get? i = (Sequence.flat l.toArray).get? i
  toList : (Sequence.rope r).toList = (Sequence.flat l.toArray).toList

lemma Holds.visitedAs {r : Rope α} {l : List α} (h : Holds r l) : VisitedAs r l := by
  obtain ⟨wf, rfl⟩ := h
  have visits : ∀ (σ : Type) (span : Span) (visitor : Visitor σ α) (s : σ),
      (Sequence.rope r).forEachIn span visitor s =
        (Sequence.flat r.elems.toArray).forEachIn span visitor s :=
    fun _ span visitor s => Sequence.forEachIn_rope wf span visitor s
  refine ⟨visits, fun hl σ span visitor s => ?_, ?_, fun i => ?_, ?_⟩
  · have hflat := Sequence.forEachIn_recorded r.elems hl span visitor s
    exact ⟨(visits _ span _ _).trans hflat, hflat⟩
  · rw [Sequence.size, Sequence.size, length_eq wf, List.size_toArray]
  · rw [Sequence.get?, Sequence.get?, get?_eq wf, List.getElem?_toArray]
  · rw [Sequence.toList_rope wf, Sequence.toList_flat]

/-- **Ropes and flat lists are visited identically.** After any sequence of operations, a visit of a
rope and a visit of the list at its place come to the same, whatever the span and the visitor: both call
the visitor on the elements of the span in order, each with its place, up to and including the first
call that ends the visit. Their sizes, their elements and their members as lists agree too. -/
theorem ropes_iterate_as_lists (es : List (Edit α)) :
    List.Forall₂ VisitedAs (Edit.ropes es) (Edit.lists es) :=
  (forall₂_holds es).imp fun _ _ => Holds.visitedAs

/-- Two runs are joined and cut at both ends. -/
def joinedAndCut : List (Edit Nat) :=
  [.values [10, 20], .values [30, 40, 50], .append 0 1, .sub 2 1 4]

/-- A visitor that adds up what it meets until the sum reaches a bound. -/
def addUpTo (bound : Nat) : Visitor Nat Nat := fun a _ sum =>
  if bound ≤ sum + a then .error (sum + a) else .ok (sum + a)

/-- In `[20, 30, 40]`, made of two runs, a visit of all but the last element starts with the first and
ends with the second; a visit of everything breaks there all the same. -/
theorem joined_and_cut_is_visited : ∃ r, (Edit.ropes joinedAndCut)[3]? = some r ∧
    [20, 30, 40].length < 2 ^ 63 ∧
    (Sequence.rope r).forEachIn ⟨none, some (-1)⟩ (addUpTo 100).recorded ([], 0) =
      ([(20, ⟨0, true, false⟩), (30, ⟨1, false, true⟩)], 50) ∧
    (Sequence.rope r).forEachIn .all (addUpTo 45).recorded ([], 0) =
      ([(20, ⟨0, true, false⟩), (30, ⟨1, false, false⟩)], 50) := by
  have hlists : Edit.lists joinedAndCut =
      [[10, 20], [30, 40, 50], [10, 20, 30, 40, 50], [20, 30, 40]] := by decide
  have hall := ropes_iterate_as_lists joinedAndCut
  rw [hlists] at hall
  generalize Edit.ropes joinedAndCut = ropes at hall ⊢
  obtain _ | ⟨_, _ | ⟨_, _ | ⟨_, _ | ⟨h, _⟩⟩⟩⟩ := hall
  have hl : [20, 30, 40].length < 2 ^ 63 := by decide
  refine ⟨_, rfl, hl, (h.calls hl _ _ _ _).1.trans ?_, (h.calls hl _ _ _ _).1.trans ?_⟩
  · decide
  · decide

end Rope

end CellMachine
