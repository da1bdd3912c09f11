import CellMachine.Problem.Basic
import CellMachine.Sequence.Span

/-!
Ropes: persistent sequences that are joined and cut without copying elements.

A node covers the positions `start` … `stop` of an index space of its own. They are made of a lower
part, a run of elements, and an upper part; the run is a window on an array that other ropes may
share. A part's own positions differ from those in the node by a shift, which makes the lower part
end, and the upper part start, at the run.
-/

namespace CellMachine

variable {α σ : Type}

/-- The elements at `start` … `stop`, found in `data` from `offset` on. -/
structure Run (α : Type) where
  start : Int
  stop : Int
  offset : Nat
  data : Array α

namespace Run

def emptyAt (position : Int) : Run α := ⟨position, position, 0, #[]⟩

def ofArray (data : Array α) : Run α := ⟨0, data.size, 0, data⟩

def place (r : Run α) (v : Int) : Nat := r.offset + (v - r.start).toNat

def get? (r : Run α) (v : Int) : Option α :=
  if r.start ≤ v ∧ v < r.stop then r.data[r.place v]? else none

def sub (r : Run α) (low high : Int) : Outcome (Run α) :=
  if low = high then .ok (emptyAt low)
  else if low < r.start ∨ r.stop < high ∨ high < low then
    .error (((((Problem.mk .badSpliceRange none []).set "source_start" (Param.ofInt r.start)).set
      "source_end" (Param.ofInt r.stop)).set "new_start" (Param.ofInt low)).set
      "new_end" (Param.ofInt high))
  else .ok ⟨low, high, r.place low, r.data⟩

/-- Visits the elements between two positions; `base` turns positions into indices. -/
def visit (r : Run α) (low high base : Int) (span : Nat × Nat) (visitor : Visitor σ α) (s : σ) :
    Except σ σ :=
  (List.range (high - low).toNat).foldlM (fun s (i : Nat) =>
    let v := low + i
    match r.data[r.place v]? with
    | some a => visitor a (.at (v + base).toNat span) s
    | none => .ok s) s

end Run

/-- A rope. A part that would hold no element is `absent`. -/
inductive Rope (α : Type) where
  | absent
  | node (start stop : Int) (low : Rope α) (run : Run α) (high : Rope α)

namespace Rope

def start : Rope α → Int
  | absent => 0
  | node s _ _ _ _ => s

def stop : Rope α → Int
  | absent => 0
  | node _ e _ _ _ => e

def span (r : Rope α) : Int := r.stop - r.start

def length (r : Rope α) : Nat := r.span.toNat

def isEmpty (r : Rope α) : Bool := r.stop == r.start

def part (r : Rope α) : Rope α := if r.isEmpty then absent else r

/-- Joins a lower part, a run and an upper part. -/
def join (low : Rope α) (run : Run α) (high : Rope α) : Rope α :=
  let low := low.part
  let high := high.part
  node (run.start - low.span) (run.stop + high.span) low run high

def empty : Rope α := join absent (.emptyAt 0) absent

def ofArray (data : Array α) : Rope α := join absent (.ofArray data) absent

def ofList (items : List α) : Rope α := ofArray items.toArray

/-- How many nodes stand above each other. -/
def depth : Rope α → Nat
  | absent => 0
  | node _ _ low _ high => 1 + max low.depth high.depth

/-- What is added to a position below the run to get the lower part's own position. -/
def lowShift (low : Rope α) (run : Run α) : Int := low.stop - run.start

/-- What is added to a position above the run to get the upper part's own position. -/
def highShift (high : Rope α) (run : Run α) : Int := high.start - run.stop

def at? : Rope α → Int → Option α
  | absent, _ => none
  | node _ _ low run high, v =>
    if v < run.start then low.at? (v + lowShift low run)
    else if run.stop ≤ v then high.at? (v + highShift high run)
    else run.get? v

/-- Visits the elements between two positions, from the lowest on. -/
def visit (visitor : Visitor σ α) (span : Nat × Nat) : Rope α → Int → Int → Int → σ → Except σ σ
  | absent, _, _, _, s => .ok s
  | node _ _ low run high, from_, to_, base, s => do
    let s ←
      if from_ < run.start then
        let shift := lowShift low run
        low.visit visitor span (from_ + shift) (min to_ run.start + shift) (base - shift) s
      else .ok s
    let s ←
      if from_ < run.stop ∧ run.start < to_ then
        run.visit (max from_ run.start) (min to_ run.stop) base span visitor s
      else .ok s
    if run.stop < to_ then
      let shift := highShift high run
      high.visit visitor span (max from_ run.stop + shift) (to_ + shift) (base - shift) s
    else .ok s

/-- The nearest number to `x` that is neither below `low` nor above `high`. -/
def clamp (x low high : Int) : Int := if x < low then low else if high < x then high else x

/-- The part between two positions. It keeps the positions of its run. -/
def slice : Rope α → Int → Int → Outcome (Rope α)
  | absent, _, _ => .ok absent
  | node _ _ low run high, from_, to_ => do
    let below ←
      if from_ < run.start then
        let shift := lowShift low run
        low.slice (from_ + shift) (min to_ run.start + shift)
      else .ok absent
    -- A span beside the run cuts it to nothing, at the nearer end.
    let runFrom := clamp from_ run.start run.stop
    let runTo := clamp to_ runFrom run.stop
    let middle ← run.sub runFrom runTo
    let above ←
      if run.stop < to_ then
        let shift := highShift high run
        high.slice (max from_ run.stop + shift) (to_ + shift)
      else .ok absent
    .ok (join below middle above)

/-- The elements of one rope, then those of another. -/
def append (r s : Rope α) : Rope α := join r (.emptyAt r.stop) s

def push (r : Rope α) (a : α) : Rope α := r.append (ofList [a])

def sub (r : Rope α) (start stop : Nat) : Outcome (Rope α) :=
  if stop < start ∨ r.length < stop then
    .error ((((Problem.mk .indexOutOfRange none []).set "start" start).set "end" stop).set
      "size" r.length)
  else if start = 0 ∧ stop = r.length then .ok r
  else r.slice (r.start + start) (r.start + stop)

/-- Overwrites one element; a negative index counts back from the end. -/
def replace (r : Rope α) (index : Int) (a : α) : Outcome (Rope α) :=
  let resolved := if index < 0 then r.span + index else index
  if resolved < 0 ∨ r.span ≤ resolved then
    .error (((Problem.mk .indexOutOfRange none []).set "index" (Param.ofInt index)).set
      "size" r.length)
  else do
    let before ← r.sub 0 resolved.toNat
    let after ← r.sub (resolved.toNat + 1) r.length
    .ok (join before (.ofArray #[a]) after)

def insert (r : Rope α) (index : Nat) (other : Rope α) : Outcome (Rope α) :=
  if r.length < index then
    .error (((Problem.mk .indexOutOfRange none []).set "index" index).set "size" r.length)
  else do
    let before ← r.sub 0 index
    let after ← r.sub index r.length
    .ok ((before.append other).append after)

def get? (r : Rope α) (index : Nat) : Option α :=
  if index < r.length then r.at? (r.start + index) else none

def forEachIn (r : Rope α) (span : Span) (visitor : Visitor σ α) (s : σ) : σ :=
  match span.resolve r.length with
  | none => s
  | some (from_, to_) =>
    Visitor.ended (r.visit visitor (from_, to_) (r.start + from_) (r.start + to_) (-r.start) s)

def toList (r : Rope α) : List α :=
  (r.forEachIn .all (fun a _ items => .ok (a :: items)) []).reverse

def details (r : Rope α) : String :=
  "SpliceNode \x7b start: " ++ toString r.start ++ ", end: " ++ toString r.stop ++ ", depth: " ++
    toString r.depth ++ ", .. \x7d"

end Rope

end CellMachine
