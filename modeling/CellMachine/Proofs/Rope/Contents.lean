import Mathlib.Tactic
import CellMachine.Sequence.Basic

/-!
What a rope holds, as a list, and the invariant under which positions and elements agree.

A node is well formed when its extent is made of its parts and the window of its run lies in the
array. On well-formed ropes looking up, visiting and cutting are looking up, visiting and cutting of
the list; cutting never meets the refusal of a run.
-/

namespace CellMachine

variable {α σ : Type}

/-! ### Windows of lists -/

namespace Window

lemma length_extract {l : List α} {a b : Nat} : (l.extract a b).length = min b l.length - a := by
  rw [List.extract_eq_take_drop, List.length_take, List.length_drop]
  omega

lemma extract_append {l m : List α} {a b : Nat} (h : a ≤ b) :
    (l ++ m).extract a b = l.extract a b ++ m.extract (a - l.length) (b - l.length) := by
  simp only [List.extract_eq_take_drop, List.drop_append, List.take_append, List.length_drop]
  congr 2
  omega

lemma extract_eq_nil {l : List α} {a b : Nat} (h : b ≤ a ∨ l.length ≤ a) : l.extract a b = [] := by
  rw [List.extract_eq_take_drop]
  rcases h with h | h
  · rw [Nat.sub_eq_zero_of_le h, List.take_zero]
  · rw [List.drop_eq_nil_of_le h, List.take_nil]

lemma extract_min {l : List α} {a b c : Nat} (h : min b l.length = min c l.length) :
    l.extract a b = l.extract a c := by
  rw [List.extract_eq_take_drop, List.extract_eq_take_drop, List.take_eq_take_iff, List.length_drop]
  omega

lemma extract_extract {l : List α} {a b c d : Nat} (h : a + d ≤ b) :
    (l.extract a b).extract c d = l.extract (a + c) (a + d) := by
  simp only [List.extract_eq_take_drop, List.drop_take, List.drop_drop, List.take_take]
  congr 1
  omega

lemma extract_self {l : List α} {a b : Nat} (ha : a = 0) (hb : l.length ≤ b) :
    l.extract a b = l := by
  rw [List.extract_eq_take_drop, ha, List.drop_zero, List.take_of_length_le (by omega)]

lemma forall₂_extract {β : Type} {R : α → β → Prop} {l : List α} {m : List β}
    (h : List.Forall₂ R l m) (a b : Nat) : List.Forall₂ R (l.extract a b) (m.extract a b) := by
  rw [List.extract_eq_take_drop, List.extract_eq_take_drop]
  exact List.forall₂_take _ (List.forall₂_drop _ h)

end Window

/-! ### Spans -/

namespace Span

lemma stopIn_le (s : Span) (n : Nat) : s.stopIn n ≤ n := by
  unfold stopIn
  cases s.stop with
  | none => exact le_rfl
  | some e =>
    dsimp only
    split
    · next h =>
      rw [Int64.toNatClampNeg]
      by_cases hn : n < 2 ^ 63
      · have hword : (Int64.ofNat n).toInt = n := Int64.toInt_ofNat_of_lt hn
        have hneg : e.toInt < 0 := Int64.lt_iff_toInt_lt.mp h
        have hlow := e.le_toInt
        rw [Int64.toInt_add, hword, Int.bmod_eq_of_le (by omega) (by omega)]
        omega
      · have := (Int64.ofNat n + e).toInt_lt
        omega
    · exact min_le_right _ _

lemma bounds_of_resolve {s : Span} {n low high : Nat} (h : s.resolve n = some (low, high)) :
    low < high ∧ high ≤ n := by
  rw [resolve] at h
  split at h
  · next hlt =>
    cases h
    exact ⟨hlt, s.stopIn_le n⟩
  · cases h

end Span

/-! ### Runs -/

namespace Run

/-- The elements of a run. -/
def elems (r : Run α) : List α :=
  r.data.toList.extract r.offset (r.offset + (r.stop - r.start).toNat)

/-- The window of a run lies in its array. -/
def InBounds (r : Run α) : Prop :=
  r.start ≤ r.stop ∧ r.offset + (r.stop - r.start).toNat ≤ r.data.size

lemma inBounds_emptyAt (v : Int) : (emptyAt v : Run α).InBounds := by
  simp [InBounds, emptyAt]

lemma inBounds_ofArray (data : Array α) : (ofArray data).InBounds := by
  simp [InBounds, ofArray]

@[simp] lemma elems_emptyAt (v : Int) : (emptyAt v : Run α).elems = [] := by
  simp [elems, emptyAt]

@[simp] lemma elems_ofArray (data : Array α) : (ofArray data).elems = data.toList := by
  simp [elems, ofArray]

lemma length_elems {r : Run α} (h : r.InBounds) : (r.elems.length : Int) = r.stop - r.start := by
  obtain ⟨hle, hsize⟩ := h
  rw [elems, List.extract_eq_take_drop, List.length_take, List.length_drop, Array.length_toList]
  omega

lemma getElem?_place {r : Run α} {v : Int} (hlo : r.start ≤ v) (hhi : v < r.stop) :
    r.data[r.place v]? = r.elems[(v - r.start).toNat]? := by
  rw [elems, List.extract_eq_take_drop, List.getElem?_take_of_lt (by omega), List.getElem?_drop,
    Array.getElem?_toList, place]

lemma get?_eq {r : Run α} {v : Int} (hlo : r.start ≤ v) (hhi : v < r.stop) :
    r.get? v = r.elems[(v - r.start).toNat]? := by
  rw [get?, if_pos ⟨hlo, hhi⟩, getElem?_place hlo hhi]

lemma sub_ok {r : Run α} (h : r.InBounds) {low high : Int} (h₁ : r.start ≤ low) (h₂ : low ≤ high)
    (h₃ : high ≤ r.stop) :
    ∃ t, r.sub low high = .ok t ∧ t.InBounds ∧ t.start = low ∧ t.stop = high ∧
      t.elems = r.elems.extract (low - r.start).toNat (high - r.start).toNat := by
  obtain ⟨hle, hsize⟩ := h
  unfold sub
  by_cases heq : low = high
  · rw [if_pos heq]
    refine ⟨_, rfl, inBounds_emptyAt low, rfl, heq, ?_⟩
    rw [elems_emptyAt, Window.extract_eq_nil (Or.inl (by omega))]
  · rw [if_neg heq, if_neg (by omega)]
    refine ⟨_, rfl, ⟨h₂, ?_⟩, rfl, rfl, ?_⟩
    · simp only [place]
      omega
    · simp only [elems, place]
      rw [Window.extract_extract (by omega)]
      congr 1
      omega

end Run

namespace Sequence

lemma visitFrom_append (visitor : Visitor σ α) (span : Nat × Nat) (l m : List α) (i : Nat) (s : σ) :
    visitFrom visitor span (l ++ m) i s =
      (visitFrom visitor span l i s >>= visitFrom visitor span m (i + l.length)) := by
  induction l generalizing i s with
  | nil => rfl
  | cons a l ih =>
    rw [List.cons_append, visitFrom, visitFrom]
    cases visitor a (.at i span) s with
    | error s => rfl
    | ok s =>
      have hi : i + 1 + l.length = i + (a :: l).length := by rw [List.length_cons]; omega
      exact (ih (i + 1) s).trans (by rw [hi])

lemma visitFrom_collect (span : Nat × Nat) (l : List α) (i : Nat) (acc : List α) :
    visitFrom (fun a _ items => .ok (a :: items)) span l i acc = .ok (l.reverse ++ acc) := by
  induction l generalizing i acc with
  | nil => rfl
  | cons a l ih =>
    rw [visitFrom]
    exact (ih (i + 1) (a :: acc)).trans (by simp)

end Sequence

namespace Run

lemma visit_range (r : Run α) (visitor : Visitor σ α) (span : Nat × Nat) {low base : Int}
    (hbase : 0 ≤ low + base) {l : List α} (hl : ∀ i < l.length, r.data[r.place (low + i)]? = l[i]?)
    (n k : Nat) (hn : k + n = l.length) (s : σ) :
    (List.range' k n).foldlM (fun s (i : Nat) =>
      let v := low + i
      match r.data[r.place v]? with
      | some a => visitor a (.at (v + base).toNat span) s
      | none => .ok s) s =
      Sequence.visitFrom visitor span (l.drop k) (low + k + base).toNat s := by
  induction n generalizing k s with
  | zero =>
    rw [List.drop_eq_nil_of_le (by omega)]
    rfl
  | succ n ih =>
    have hk : k < l.length := by omega
    have hplace := hl k hk
    rw [List.getElem?_eq_getElem hk] at hplace
    rw [List.range'_succ, List.foldlM_cons, List.drop_eq_getElem_cons hk, Sequence.visitFrom]
    simp only [hplace]
    cases visitor l[k] (.at (low + k + base).toNat span) s with
    | error s => rfl
    | ok s =>
      have hnext : (low + (k + 1 : Nat) + base).toNat = (low + k + base).toNat + 1 := by omega
      exact (ih (k + 1) (by omega) s).trans (by rw [hnext])

lemma visit_eq {r : Run α} (visitor : Visitor σ α) (span : Nat × Nat) {low high base : Int}
    (hr : r.InBounds) (h₁ : r.start ≤ low) (h₂ : low ≤ high) (h₃ : high ≤ r.stop)
    (hbase : 0 ≤ low + base) (s : σ) :
    r.visit low high base span visitor s =
      Sequence.visitFrom visitor span
        (r.elems.extract (low - r.start).toNat (high - r.start).toNat) (low + base).toNat s := by
  have hlen := length_elems hr
  set l := r.elems.extract (low - r.start).toNat (high - r.start).toNat with hl
  have hn : l.length = (high - low).toNat := by
    rw [hl, List.extract_eq_take_drop, List.length_take, List.length_drop]
    omega
  have hget : ∀ i < l.length, r.data[r.place (low + i)]? = l[i]? := by
    intro i hi
    rw [getElem?_place (by omega) (by omega), hl, List.extract_eq_take_drop,
      List.getElem?_take_of_lt (by omega), List.getElem?_drop]
    congr 1
    omega
  have key := visit_range r visitor span hbase hget (high - low).toNat 0 (by omega) s
  rw [List.drop_zero, show low + (0 : Nat) + base = low + base by omega] at key
  rw [visit, List.range_eq_range']
  exact key

end Run

namespace Rope

/-- The elements of a rope, from the lowest on. -/
def elems : Rope α → List α
  | absent => []
  | node _ _ low run high => low.elems ++ run.elems ++ high.elems

/-- A node covers its parts exactly, and stores no part without elements. -/
def WellFormed : Rope α → Prop
  | absent => True
  | node start stop low run high =>
    run.InBounds ∧ low.WellFormed ∧ high.WellFormed ∧
      start = run.start - low.span ∧ stop = run.stop + high.span ∧
      (low = absent ∨ 0 < low.span) ∧ (high = absent ∨ 0 < high.span)

@[simp] lemma span_absent : (absent : Rope α).span = 0 := rfl

@[simp] lemma start_node (start stop : Int) (low : Rope α) (run : Run α) (high : Rope α) :
    (node start stop low run high).start = start := rfl

@[simp] lemma stop_node (start stop : Int) (low : Rope α) (run : Run α) (high : Rope α) :
    (node start stop low run high).stop = stop := rfl

lemma wellFormed_absent : (absent : Rope α).WellFormed := trivial

lemma length_elems {r : Rope α} (h : r.WellFormed) : (r.elems.length : Int) = r.span := by
  induction r with
  | absent => rfl
  | node start stop low run high ihl ihh =>
    obtain ⟨hrun, hlow, hhigh, rfl, rfl, -, -⟩ := h
    have h₁ := Run.length_elems hrun
    have h₂ := ihl hlow
    have h₃ := ihh hhigh
    simp only [elems, List.length_append, span, start_node, stop_node] at h₂ h₃ ⊢
    push_cast
    omega

lemma length_eq {r : Rope α} (h : r.WellFormed) : r.length = r.elems.length := by
  rw [length, ← length_elems h, Int.toNat_natCast]

lemma isEmpty_iff {r : Rope α} (h : r.WellFormed) : r.isEmpty = true ↔ r.elems = [] := by
  have hlen := length_elems h
  rw [isEmpty, beq_iff_eq, ← List.length_eq_zero_iff]
  unfold span at hlen
  omega

lemma part_spec {r : Rope α} (h : r.WellFormed) :
    r.part.WellFormed ∧ r.part.elems = r.elems ∧ r.part.span = r.span ∧
      (r.part = absent ∨ 0 < r.part.span) := by
  have hlen := length_elems h
  by_cases he : r.isEmpty = true
  · have hnil := (isEmpty_iff h).mp he
    rw [hnil] at hlen
    rw [part, if_pos he, hnil, ← hlen]
    exact ⟨trivial, rfl, rfl, Or.inl rfl⟩
  · have hne : r.elems.length ≠ 0 := fun h0 =>
      he ((isEmpty_iff h).mpr (List.length_eq_zero_iff.mp h0))
    rw [part, if_neg he]
    exact ⟨h, rfl, rfl, Or.inr (by omega)⟩

/-! ### Joining -/

lemma wellFormed_join {low high : Rope α} {run : Run α} (hlow : low.WellFormed)
    (hrun : run.InBounds) (hhigh : high.WellFormed) : (join low run high).WellFormed := by
  obtain ⟨h₁, -, -, h₂⟩ := part_spec hlow
  obtain ⟨h₃, -, -, h₄⟩ := part_spec hhigh
  exact ⟨hrun, h₁, h₃, rfl, rfl, h₂, h₄⟩

lemma elems_join {low high : Rope α} (run : Run α) (hlow : low.WellFormed)
    (hhigh : high.WellFormed) :
    (join low run high).elems = low.elems ++ run.elems ++ high.elems := by
  rw [join, elems, (part_spec hlow).2.1, (part_spec hhigh).2.1]

lemma wellFormed_empty : (empty : Rope α).WellFormed :=
  wellFormed_join wellFormed_absent (Run.inBounds_emptyAt 0) wellFormed_absent

@[simp] lemma elems_empty : (empty : Rope α).elems = [] :=
  elems_join _ wellFormed_absent wellFormed_absent

lemma wellFormed_ofList (l : List α) : (ofList l).WellFormed :=
  wellFormed_join wellFormed_absent (Run.inBounds_ofArray l.toArray) wellFormed_absent

@[simp] lemma elems_ofList (l : List α) : (ofList l).elems = l := by
  rw [ofList, ofArray, elems_join _ wellFormed_absent wellFormed_absent]
  simp [elems]

lemma wellFormed_append {r s : Rope α} (hr : r.WellFormed) (hs : s.WellFormed) :
    (r.append s).WellFormed :=
  wellFormed_join hr (Run.inBounds_emptyAt _) hs

lemma elems_append {r s : Rope α} (hr : r.WellFormed) (hs : s.WellFormed) :
    (r.append s).elems = r.elems ++ s.elems := by
  rw [append, elems_join _ hr hs, Run.elems_emptyAt, List.append_nil]

/-! ### Looking up -/

lemma at?_eq {r : Rope α} (h : r.WellFormed) {v : Int} (h₁ : r.start ≤ v) (h₂ : v < r.stop) :
    r.at? v = r.elems[(v - r.start).toNat]? := by
  induction r generalizing v with
  | absent => rfl
  | node start stop low run high ihl ihh =>
    obtain ⟨hrun, hlow, hhigh, rfl, rfl, -, -⟩ := h
    have hlen := length_elems hlow
    have hmid := Run.length_elems hrun
    simp only [start_node, stop_node, span] at h₁ h₂ hlen ⊢
    rw [at?, elems]
    by_cases hv : v < run.start
    · rw [if_pos hv, ihl hlow (by unfold lowShift; omega) (by unfold lowShift; omega),
        List.append_assoc, List.getElem?_append_left (by omega)]
      congr 1
      unfold lowShift
      omega
    · rw [if_neg hv]
      by_cases hv' : run.stop ≤ v
      · rw [if_pos hv', ihh hhigh (by unfold highShift; omega) (by unfold highShift; omega),
          List.getElem?_append_right (by rw [List.length_append]; omega)]
        congr 1
        unfold highShift
        rw [List.length_append]
        omega
      · rw [if_neg hv', Run.get?_eq (by omega) (by omega), List.append_assoc,
          List.getElem?_append_right (by omega), List.getElem?_append_left (by omega)]
        congr 1
        omega

lemma get?_eq {r : Rope α} (h : r.WellFormed) (i : Nat) : r.get? i = r.elems[i]? := by
  have hlen := length_elems h
  rw [get?, length_eq h]
  by_cases hi : i < r.elems.length
  · unfold span at hlen
    rw [if_pos hi, at?_eq h (by omega) (by omega)]
    congr 1
    omega
  · rw [if_neg hi, List.getElem?_eq_none (by omega)]

/-! ### Parts of a span -/

/-- A span of a node's elements, as spans of the elements of its parts. -/
lemma extract_elems_node {start stop : Int} {low high : Rope α} {run : Run α}
    (h : (node start stop low run high).WellFormed) {from_ to_ : Int} (h₁ : start ≤ from_)
    (h₂ : from_ ≤ to_) :
    (node start stop low run high).elems.extract (from_ - start).toNat (to_ - start).toNat =
      low.elems.extract (from_ + lowShift low run - low.start).toNat
          (min to_ run.start + lowShift low run - low.start).toNat ++
        run.elems.extract (max from_ run.start - run.start).toNat
          (min to_ run.stop - run.start).toNat ++
        high.elems.extract (max from_ run.stop + highShift high run - high.start).toNat
          (to_ + highShift high run - high.start).toNat := by
  obtain ⟨hrun, hlow, hhigh, rfl, rfl, -, -⟩ := h
  have hlen := length_elems hlow
  have hmid := Run.length_elems hrun
  simp only [elems, lowShift, highShift, span] at h₁ hlen ⊢
  rw [Window.extract_append (by omega), Window.extract_append (by omega), List.length_append]
  congr 1
  · congr 1
    · rw [show from_ + (low.stop - run.start) - low.start
        = from_ - (run.start - (low.stop - low.start)) by omega]
      exact Window.extract_min (by omega)
    · rw [show (from_ - (run.start - (low.stop - low.start))).toNat - low.elems.length
        = (max from_ run.start - run.start).toNat by omega]
      exact Window.extract_min (by omega)
  · congr 1 <;> omega

/-! ### Visiting -/

/-- A visit of a node is a visit of its three parts, one after the other. -/
lemma visit_node (visitor : Visitor σ α) (span : Nat × Nat) (start stop : Int) (low : Rope α)
    (run : Run α) (high : Rope α) (from_ to_ base : Int) (s : σ) :
    (node start stop low run high).visit visitor span from_ to_ base s =
      ((if from_ < run.start then
          low.visit visitor span (from_ + lowShift low run) (min to_ run.start + lowShift low run)
            (base - lowShift low run) s else .ok s) >>= fun s =>
        (if from_ < run.stop ∧ run.start < to_ then
          run.visit (max from_ run.start) (min to_ run.stop) base span visitor s else .ok s) >>=
        fun s =>
          if run.stop < to_ then
            high.visit visitor span (max from_ run.stop + highShift high run)
              (to_ + highShift high run) (base - highShift high run) s else .ok s) := by
  rw [visit]
  split_ifs <;> rfl

lemma visit_eq {r : Rope α} (h : r.WellFormed) (visitor : Visitor σ α) (span : Nat × Nat)
    {from_ to_ base : Int} (h₁ : r.start ≤ from_) (h₂ : from_ ≤ to_) (h₃ : to_ ≤ r.stop)
    (hbase : 0 ≤ from_ + base) (s : σ) :
    r.visit visitor span from_ to_ base s =
      Sequence.visitFrom visitor span
        (r.elems.extract (from_ - r.start).toNat (to_ - r.start).toNat) (from_ + base).toNat s := by
  induction r generalizing from_ to_ base s with
  | absent => simp [visit, elems, Sequence.visitFrom]
  | node start stop low run high ihl ihh =>
    rw [start_node, extract_elems_node h h₁ h₂]
    obtain ⟨hrun, hlow, hhigh, rfl, rfl, -, -⟩ := h
    have hlen := length_elems hlow
    have hmid := Run.length_elems hrun
    have htop := length_elems hhigh
    have hrunle := hrun.1
    simp only [start_node, stop_node, Rope.span] at h₁ h₃ hlen htop
    -- A node cuts the span in three: what is below its run, in it, and above it.
    set below := low.elems.extract (from_ + lowShift low run - low.start).toNat
      (min to_ run.start + lowShift low run - low.start).toNat with hbelow
    set middle := run.elems.extract (max from_ run.start - run.start).toNat
      (min to_ run.stop - run.start).toNat with hmiddle
    have lenBelow : (below.length : Int) = max (min to_ run.start - from_) 0 := by
      rw [hbelow, Window.length_extract]
      unfold lowShift
      omega
    have lenMiddle : (middle.length : Int) =
        max (min to_ run.stop - max from_ run.start) 0 := by
      rw [hmiddle, Window.length_extract]
      omega
    -- Each part is visited if it has something of the span, and is empty otherwise.
    have hlowVisit : ∀ s, (if from_ < run.start then
        low.visit visitor span (from_ + lowShift low run) (min to_ run.start + lowShift low run)
          (base - lowShift low run) s else .ok s) =
        Sequence.visitFrom visitor span below (from_ + base).toNat s := by
      intro s
      by_cases hc : from_ < run.start
      · rw [if_pos hc, ihl hlow (by unfold lowShift; omega) (by omega) (by unfold lowShift; omega)
          (by omega), show from_ + lowShift low run + (base - lowShift low run) = from_ + base by
          omega]
      · rw [if_neg hc, List.length_eq_zero_iff.mp (show below.length = 0 by omega)]
        rfl
    have hrunVisit : ∀ s, (if from_ < run.stop ∧ run.start < to_ then
        run.visit (max from_ run.start) (min to_ run.stop) base span visitor s else .ok s) =
        Sequence.visitFrom visitor span middle ((from_ + base).toNat + below.length) s := by
      intro s
      by_cases hc : from_ < run.stop ∧ run.start < to_
      · rw [if_pos hc, Run.visit_eq visitor span hrun (by omega) (by omega) (by omega) (by omega),
          show (max from_ run.start + base).toNat = (from_ + base).toNat + below.length by omega]
      · rw [if_neg hc, List.length_eq_zero_iff.mp (show middle.length = 0 by omega)]
        rfl
    have hhighVisit : ∀ s, (if run.stop < to_ then
        high.visit visitor span (max from_ run.stop + highShift high run)
          (to_ + highShift high run) (base - highShift high run) s else .ok s) =
        Sequence.visitFrom visitor span
          (high.elems.extract (max from_ run.stop + highShift high run - high.start).toNat
            (to_ + highShift high run - high.start).toNat)
          ((from_ + base).toNat + (below ++ middle).length) s := by
      intro s
      by_cases hc : run.stop < to_
      · rw [if_pos hc, ihh hhigh (by unfold highShift; omega) (by omega)
          (by unfold highShift; omega) (by omega), List.length_append,
          show (max from_ run.stop + highShift high run + (base - highShift high run)).toNat
            = (from_ + base).toNat + (below.length + middle.length) by omega]
      · rw [if_neg hc, Window.extract_eq_nil (Or.inl (by omega))]
        rfl
    rw [visit_node, Sequence.visitFrom_append, Sequence.visitFrom_append, hlowVisit]
    simp only [hrunVisit, hhighVisit]
    exact (bind_assoc _ _ _).symm

lemma forEachIn_eq {r : Rope α} (h : r.WellFormed) (range : Span) (visitor : Visitor σ α) (s : σ) :
    r.forEachIn range visitor s =
      match range.resolve r.length with
      | none => s
      | some (a, b) =>
        Visitor.ended (Sequence.visitFrom visitor (a, b) (r.elems.extract a b) a s) := by
  have hlen := length_elems h
  have hlength := length_eq h
  rw [forEachIn]
  cases hres : range.resolve r.length with
  | none => rfl
  | some p =>
    obtain ⟨a, b⟩ := p
    obtain ⟨hab, hb⟩ := Span.bounds_of_resolve hres
    unfold span at hlen
    simp only
    rw [visit_eq h visitor (a, b) (by omega) (by omega) (by omega) (by omega)]
    congr 3 <;> omega

lemma toList_eq {r : Rope α} (h : r.WellFormed) : r.toList = r.elems := by
  have hlength := length_eq h
  rw [toList, forEachIn_eq h]
  by_cases h0 : 0 < r.length
  · have hall : Span.all.resolve r.length = some (0, r.length) := by
      simp [Span.resolve, Span.all, Span.stopIn, h0]
    rw [hall]
    simp only [Sequence.visitFrom_collect, Visitor.ended]
    rw [List.append_nil, List.reverse_reverse, Window.extract_self rfl (by omega)]
  · have hall : Span.all.resolve r.length = none := by
      simp [Span.resolve, Span.all, Span.stopIn, h0]
    rw [hall, List.length_eq_zero_iff.mp (show r.elems.length = 0 by omega)]
    rfl

/-! ### Cutting -/

/-- A cut of a node is made of cuts of its three parts. -/
lemma slice_node (start stop : Int) (low : Rope α) (run : Run α) (high : Rope α) (from_ to_ : Int) :
    (node start stop low run high).slice from_ to_ =
      ((if from_ < run.start then
          low.slice (from_ + lowShift low run) (min to_ run.start + lowShift low run)
          else .ok absent) >>= fun below =>
        run.sub (clamp from_ run.start run.stop)
          (clamp to_ (clamp from_ run.start run.stop) run.stop) >>= fun middle =>
        (if run.stop < to_ then
          high.slice (max from_ run.stop + highShift high run) (to_ + highShift high run)
          else .ok absent) >>= fun above => .ok (join below middle above)) := by
  rw [slice]
  split_ifs <;> rfl

lemma slice_ok {r : Rope α} (h : r.WellFormed) {from_ to_ : Int} (h₁ : r.start ≤ from_)
    (h₂ : from_ ≤ to_) (h₃ : to_ ≤ r.stop) :
    ∃ t, r.slice from_ to_ = .ok t ∧ t.WellFormed ∧
      t.elems = r.elems.extract (from_ - r.start).toNat (to_ - r.start).toNat := by
  induction r generalizing from_ to_ with
  | absent => exact ⟨absent, rfl, trivial, by simp [elems]⟩
  | node start stop low run high ihl ihh =>
    rw [start_node, extract_elems_node h h₁ h₂]
    obtain ⟨hrun, hlow, hhigh, rfl, rfl, -, -⟩ := h
    have hlen := length_elems hlow
    have hmid := Run.length_elems hrun
    have hrunle := hrun.1
    simp only [start_node, stop_node, span] at h₁ h₃ hlen
    obtain ⟨below, hbelow, wfBelow, elemsBelow⟩ : ∃ t, (if from_ < run.start then
        low.slice (from_ + lowShift low run) (min to_ run.start + lowShift low run)
        else .ok absent) = .ok t ∧ t.WellFormed ∧
        t.elems = low.elems.extract (from_ + lowShift low run - low.start).toNat
          (min to_ run.start + lowShift low run - low.start).toNat := by
      by_cases hc : from_ < run.start
      · rw [if_pos hc]
        exact ihl hlow (by unfold lowShift; omega) (by omega) (by unfold lowShift; omega)
      · refine ⟨absent, by rw [if_neg hc], trivial, ?_⟩
        rw [Window.extract_eq_nil (Or.inr (by unfold lowShift; omega))]
        rfl
    obtain ⟨above, habove, wfAbove, elemsAbove⟩ : ∃ t, (if run.stop < to_ then
        high.slice (max from_ run.stop + highShift high run) (to_ + highShift high run)
        else .ok absent) = .ok t ∧ t.WellFormed ∧
        t.elems = high.elems.extract (max from_ run.stop + highShift high run - high.start).toNat
          (to_ + highShift high run - high.start).toNat := by
      by_cases hc : run.stop < to_
      · rw [if_pos hc]
        exact ihh hhigh (by unfold highShift; omega) (by omega) (by unfold highShift; omega)
      · refine ⟨absent, by rw [if_neg hc], trivial, ?_⟩
        rw [Window.extract_eq_nil (Or.inl (by omega))]
        rfl
    -- Clamping to the run cuts at its bounds, unless the span misses the run; then both give
    -- nothing.
    have hfrom : clamp from_ run.start run.stop = min (max from_ run.start) run.stop := by
      unfold clamp
      split_ifs <;> omega
    have hto : clamp to_ (clamp from_ run.start run.stop) run.stop =
        max (clamp from_ run.start run.stop) (min to_ run.stop) := by
      rw [hfrom]
      unfold clamp
      split_ifs <;> omega
    have hcut₁ : run.start ≤ clamp from_ run.start run.stop := by omega
    have hcut₂ : clamp from_ run.start run.stop ≤
        clamp to_ (clamp from_ run.start run.stop) run.stop := by omega
    obtain ⟨middle, hmiddle, wfMiddle, -, -, elemsMiddle⟩ := Run.sub_ok hrun hcut₁ hcut₂ (by omega)
    refine ⟨join below middle above, ?_, wellFormed_join wfBelow wfMiddle wfAbove, ?_⟩
    · rw [slice_node, hbelow, hmiddle, habove]
      rfl
    · rw [elems_join _ wfBelow wfAbove, elemsBelow, elemsMiddle, elemsAbove]
      congr 2
      rw [hto, hfrom]
      by_cases hc : max from_ run.start ≤ min to_ run.stop
      · congr 1 <;> omega
      · rw [Window.extract_eq_nil (Or.inl (by omega)), Window.extract_eq_nil (Or.inl (by omega))]

lemma sub_ok {r : Rope α} (h : r.WellFormed) {i j : Nat} (h₁ : i ≤ j) (h₂ : j ≤ r.elems.length) :
    ∃ t, r.sub i j = .ok t ∧ t.WellFormed ∧ t.elems = r.elems.extract i j := by
  have hlen := length_elems h
  have hlength := length_eq h
  rw [sub, if_neg (by omega)]
  by_cases hall : i = 0 ∧ j = r.length
  · rw [if_pos hall]
    exact ⟨r, rfl, h, (Window.extract_self hall.1 (by omega)).symm⟩
  · unfold span at hlen
    have hfrom : r.start ≤ r.start + i := by omega
    have hto : r.start + (i : Int) ≤ r.start + j := by omega
    obtain ⟨t, ht, wf, helems⟩ := slice_ok h hfrom hto (by omega)
    rw [if_neg hall]
    refine ⟨t, ht, wf, ?_⟩
    rw [helems]
    congr 1 <;> omega

lemma sub_refused {r : Rope α} (h : r.WellFormed) {i j : Nat}
    (hij : ¬(i ≤ j ∧ j ≤ r.elems.length)) :
    ∃ p, r.sub i j = .error p ∧ p.cause = .indexOutOfRange := by
  have hlength := length_eq h
  rw [sub, if_pos (by omega)]
  exact ⟨_, rfl, rfl⟩

/-! ### Replacing and inserting -/

/-- The position that an index means in a list of a given length; negative ones count back. -/
def position (length : Nat) (i : Int) : Nat := (if i < 0 then length + i else i).toNat

lemma replace_ok {r : Rope α} (h : r.WellFormed) {i : Int} (a : α) (h₁ : -r.elems.length ≤ i)
    (h₂ : i < r.elems.length) :
    ∃ t, r.replace i a = .ok t ∧ t.WellFormed ∧
      t.elems = r.elems.set (position r.elems.length i) a := by
  have hlen := length_elems h
  have hlength := length_eq h
  set k := if i < 0 then r.span + i else i with hk
  have hk0 : 0 ≤ k ∧ k < r.span := by
    rw [hk]
    split_ifs <;> omega
  have hposition : position r.elems.length i = k.toNat := by
    rw [position, hk, hlen]
  obtain ⟨before, hbefore, wfBefore, elemsBefore⟩ := sub_ok h (i := 0) (j := k.toNat) (by omega)
    (by omega)
  obtain ⟨after, hafter, wfAfter, elemsAfter⟩ := sub_ok h (i := k.toNat + 1) (j := r.length)
    (by omega) (by omega)
  refine ⟨join before (.ofArray #[a]) after, ?_,
    wellFormed_join wfBefore (Run.inBounds_ofArray _) wfAfter, ?_⟩
  · rw [replace, ← hk, if_neg (by omega), hbefore, hafter]
    rfl
  · rw [elems_join _ wfBefore wfAfter, elemsBefore, elemsAfter, Run.elems_ofArray, hposition,
      List.set_eq_take_append_cons_drop, if_pos (by omega), hlength]
    simp [List.extract_eq_take_drop]

lemma replace_refused {r : Rope α} (h : r.WellFormed) {i : Int} (a : α)
    (hi : ¬(-r.elems.length ≤ i ∧ i < r.elems.length)) :
    ∃ p, r.replace i a = .error p ∧ p.cause = .indexOutOfRange := by
  have hlen := length_elems h
  have hout : (if i < 0 then r.span + i else i) < 0 ∨ r.span ≤ if i < 0 then r.span + i else i := by
    split_ifs <;> omega
  rw [replace, if_pos hout]
  exact ⟨_, rfl, rfl⟩

lemma insert_ok {r o : Rope α} (h : r.WellFormed) (ho : o.WellFormed) {i : Nat}
    (hi : i ≤ r.elems.length) :
    ∃ t, r.insert i o = .ok t ∧ t.WellFormed ∧
      t.elems = r.elems.take i ++ o.elems ++ r.elems.drop i := by
  have hlength := length_eq h
  obtain ⟨before, hbefore, wfBefore, elemsBefore⟩ := sub_ok h (i := 0) (j := i) (by omega) hi
  obtain ⟨after, hafter, wfAfter, elemsAfter⟩ := sub_ok h (i := i) (j := r.length) (by omega)
    (by omega)
  have wf := wellFormed_append wfBefore ho
  refine ⟨(before.append o).append after, ?_, wellFormed_append wf wfAfter, ?_⟩
  · rw [insert, if_neg (by omega), hbefore, hafter]
    rfl
  · rw [elems_append wf wfAfter, elems_append wfBefore ho, elemsBefore, elemsAfter, hlength]
    simp [List.extract_eq_take_drop]

lemma insert_refused {r : Rope α} (h : r.WellFormed) (o : Rope α) {i : Nat}
    (hi : ¬i ≤ r.elems.length) :
    ∃ p, r.insert i o = .error p ∧ p.cause = .indexOutOfRange := by
  have hlength := length_eq h
  rw [insert, if_pos (by omega)]
  exact ⟨_, rfl, rfl⟩

end Rope

end CellMachine
