import CellMachine.Proofs.Rope.Refinement

/-!
The representation of ropes. Positions of a part are shifted against those of its node, and a cut moves
the run that the shifts are anchored at; still every part fills exactly the room that its node leaves
beside the run, and the run is a window inside its array.

What this is for is said by operations that check before they reach for something. They give no
answer at all where a position is not on the window, where its place is not in the array, or where a
number is to be held between bounds that are in the wrong order. On the ropes that can be made they
answer as the operations without these checks do.

Positions are whole numbers here. A machine holds them in words, so what is said is said of ropes
whose positions fit into words.
-/

namespace CellMachine

variable {α σ : Type}

/-! ### Operations that check their accesses -/

/-- What happens without any error of access. -/
def sure {ε τ : Type} (x : Except ε τ) : ExceptT ε Option τ := ExceptT.mk (some x)

namespace Run

/-- The element at a position of the run. It is an error to ask for a position off the window, or for
one whose place is not in the array. -/
def slot (r : Run α) (v : Int) : Option α :=
  if v < r.start ∨ r.stop ≤ v then none else r.data[r.place v]?

def getChecked (r : Run α) (v : Int) : Option (Option α) :=
  if r.start ≤ v ∧ v < r.stop then (r.slot v).map some else some none

def visitChecked (r : Run α) (low high base : Int) (span : Nat × Nat) (visitor : Visitor σ α)
    (s : σ) : ExceptT σ Option σ :=
  (List.range (high - low).toNat).foldlM (fun s (i : Nat) =>
    let v := low + i
    ExceptT.mk ((r.slot v).map fun a => visitor a (.at (v + base).toNat span) s)) s

end Run

namespace Rope

def atChecked : Rope α → Int → Option (Option α)
  | absent, _ => some none
  | node _ _ low run high, v =>
    if v < run.start then low.atChecked (v + lowShift low run)
    else if run.stop ≤ v then high.atChecked (v + highShift high run)
    else run.getChecked v

def visitChecked (visitor : Visitor σ α) (span : Nat × Nat) :
    Rope α → Int → Int → Int → σ → ExceptT σ Option σ
  | absent, _, _, _, s => pure s
  | node _ _ low run high, from_, to_, base, s => do
    let s ←
      if from_ < run.start then
        let shift := lowShift low run
        low.visitChecked visitor span (from_ + shift) (min to_ run.start + shift) (base - shift) s
      else pure s
    let s ←
      if from_ < run.stop ∧ run.start < to_ then
        run.visitChecked (max from_ run.start) (min to_ run.stop) base span visitor s
      else pure s
    if run.stop < to_ then
      let shift := highShift high run
      high.visitChecked visitor span (max from_ run.stop + shift) (to_ + shift) (base - shift) s
    else pure s

/-- It is an error to hold a number between bounds that are in the wrong order. -/
def clampChecked (x low high : Int) : Option Int :=
  if high < low then none else some (clamp x low high)

def sliceChecked : Rope α → Int → Int → ExceptT Problem Option (Rope α)
  | absent, _, _ => pure absent
  | node _ _ low run high, from_, to_ => do
    let below ←
      if from_ < run.start then
        let shift := lowShift low run
        low.sliceChecked (from_ + shift) (min to_ run.start + shift)
      else pure absent
    let runFrom ← clampChecked from_ run.start run.stop
    let runTo ← clampChecked to_ runFrom run.stop
    let middle ← sure (run.sub runFrom runTo)
    let above ←
      if run.stop < to_ then
        let shift := highShift high run
        high.sliceChecked (max from_ run.stop + shift) (to_ + shift)
      else pure absent
    pure (join below middle above)

def getChecked (r : Rope α) (index : Nat) : Option (Option α) :=
  if index < r.length then r.atChecked (r.start + index) else some none

def forEachInChecked (r : Rope α) (span : Span) (visitor : Visitor σ α) (s : σ) : Option σ :=
  match span.resolve r.length with
  | none => some s
  | some (from_, to_) =>
    Visitor.ended <$>
      (r.visitChecked visitor (from_, to_) (r.start + from_) (r.start + to_) (-r.start) s).run

def subChecked (r : Rope α) (start stop : Nat) : Option (Outcome (Rope α)) :=
  if stop < start ∨ r.length < stop then
    some (.error ((((Problem.mk .indexOutOfRange none []).set "start" start).set "end" stop).set
      "size" r.length))
  else if start = 0 ∧ stop = r.length then some (.ok r)
  else (r.sliceChecked (r.start + start) (r.start + stop)).run

end Rope

/-! ### They answer as the operations without checks do -/

section Sure

variable {ε β τ : Type}

lemma sure_bind (x : Except ε β) {f : β → Except ε τ} {g : β → ExceptT ε Option τ}
    (hgf : ∀ b, g b = sure (f b)) : sure x >>= g = sure (x >>= f) := by
  cases x with
  | error e => rfl
  | ok b => exact hgf b

lemma sure_ite {c : Prop} [Decidable c] {x y : Except ε τ} :
    (if c then sure x else sure y) = sure (if c then x else y) := by
  split_ifs <;> rfl

lemma lift_some_bind (b : β) (g : β → ExceptT ε Option τ) :
    (liftM (some b) : ExceptT ε Option β) >>= g = g b := rfl

lemma foldlM_sure {f : τ → β → Except ε τ} {g : τ → β → ExceptT ε Option τ} {l : List β}
    (hgf : ∀ b ∈ l, ∀ s, g s b = sure (f s b)) (s : τ) : l.foldlM g s = sure (l.foldlM f s) := by
  induction l generalizing s with
  | nil => rfl
  | cons b l ih =>
    rw [List.foldlM_cons, List.foldlM_cons, hgf b List.mem_cons_self s]
    exact sure_bind _ fun t => ih (fun b hb => hgf b (List.mem_cons_of_mem _ hb)) t

end Sure

namespace Run

lemma slot_eq {r : Run α} (h : r.InBounds) {v : Int} (hlo : r.start ≤ v) (hhi : v < r.stop) :
    ∃ a, r.slot v = some a ∧ r.data[r.place v]? = some a := by
  have hplace : r.place v < r.data.size := by
    have := h.2
    unfold place
    omega
  rw [slot, if_neg (by omega), Array.getElem?_eq_getElem hplace]
  exact ⟨_, rfl, rfl⟩

lemma getChecked_eq {r : Run α} (h : r.InBounds) (v : Int) : r.getChecked v = some (r.get? v) := by
  unfold getChecked get?
  by_cases hv : r.start ≤ v ∧ v < r.stop
  · obtain ⟨a, hslot, hdata⟩ := slot_eq h hv.1 hv.2
    rw [if_pos hv, if_pos hv, hslot, hdata]
    rfl
  · rw [if_neg hv, if_neg hv]

lemma visitChecked_eq {r : Run α} (h : r.InBounds) {low high : Int} (hlo : r.start ≤ low)
    (hhi : high ≤ r.stop) (base : Int) (span : Nat × Nat) (visitor : Visitor σ α) (s : σ) :
    r.visitChecked low high base span visitor s = sure (r.visit low high base span visitor s) := by
  refine foldlM_sure (fun i hi s => ?_) s
  have hi := List.mem_range.mp hi
  obtain ⟨a, hslot, hdata⟩ := slot_eq h (v := low + i) (by omega) (by omega)
  simp only [hslot, hdata]
  rfl

end Run

namespace Rope

lemma clampChecked_eq {x low high : Int} (h : low ≤ high) :
    clampChecked x low high = some (clamp x low high) := if_neg (by omega)

lemma clamp_le {x low high : Int} (h : low ≤ high) : clamp x low high ≤ high := by
  unfold clamp
  split_ifs <;> omega

lemma atChecked_eq {r : Rope α} (h : r.WellFormed) (v : Int) :
    r.atChecked v = some (r.at? v) := by
  induction r generalizing v with
  | absent => rfl
  | node start stop low run high ihl ihh =>
    obtain ⟨hrun, hlow, hhigh, -⟩ := h
    rw [atChecked, at?]
    split_ifs
    · exact ihl hlow _
    · exact ihh hhigh _
    · exact Run.getChecked_eq hrun v

/-- A checked visit of a node is one of its three parts, one after the other. -/
lemma visitChecked_node (visitor : Visitor σ α) (span : Nat × Nat) (start stop : Int)
    (low : Rope α) (run : Run α) (high : Rope α) (from_ to_ base : Int) (s : σ) :
    (node start stop low run high).visitChecked visitor span from_ to_ base s =
      ((if from_ < run.start then
          low.visitChecked visitor span (from_ + lowShift low run)
            (min to_ run.start + lowShift low run) (base - lowShift low run) s
          else sure (.ok s)) >>= fun s =>
        (if from_ < run.stop ∧ run.start < to_ then
          run.visitChecked (max from_ run.start) (min to_ run.stop) base span visitor s
          else sure (.ok s)) >>= fun s =>
          if run.stop < to_ then
            high.visitChecked visitor span (max from_ run.stop + highShift high run)
              (to_ + highShift high run) (base - highShift high run) s
          else sure (.ok s)) := by
  rw [visitChecked]
  split_ifs <;> rfl

lemma visitChecked_eq {r : Rope α} (h : r.WellFormed) (visitor : Visitor σ α) (span : Nat × Nat)
    (from_ to_ base : Int) (s : σ) :
    r.visitChecked visitor span from_ to_ base s = sure (r.visit visitor span from_ to_ base s) := by
  induction r generalizing from_ to_ base s with
  | absent => rfl
  | node start stop low run high ihl ihh =>
    obtain ⟨hrun, hlow, hhigh, -⟩ := h
    have hmiddle (s : σ) := Run.visitChecked_eq hrun (le_max_right from_ run.start)
      (min_le_right to_ run.stop) base span visitor s
    rw [visitChecked_node, visit_node]
    simp only [ihl hlow, ihh hhigh, hmiddle, sure_ite]
    exact sure_bind _ fun s => sure_bind _ fun s => rfl

/-- A checked cut of a node holds the ends of its run between bounds twice. -/
lemma sliceChecked_node (start stop : Int) (low : Rope α) (run : Run α) (high : Rope α)
    (from_ to_ : Int) :
    (node start stop low run high).sliceChecked from_ to_ =
      ((if from_ < run.start then
          low.sliceChecked (from_ + lowShift low run) (min to_ run.start + lowShift low run)
          else sure (.ok absent)) >>= fun below =>
        (clampChecked from_ run.start run.stop : ExceptT Problem Option Int) >>= fun runFrom =>
        (clampChecked to_ runFrom run.stop : ExceptT Problem Option Int) >>= fun runTo =>
        sure (run.sub runFrom runTo) >>= fun middle =>
        (if run.stop < to_ then
          high.sliceChecked (max from_ run.stop + highShift high run) (to_ + highShift high run)
          else sure (.ok absent)) >>= fun above => sure (.ok (join below middle above))) := by
  rw [sliceChecked]
  split_ifs <;> rfl

lemma sliceChecked_eq {r : Rope α} (h : r.WellFormed) (from_ to_ : Int) :
    r.sliceChecked from_ to_ = sure (r.slice from_ to_) := by
  induction r generalizing from_ to_ with
  | absent => rfl
  | node start stop low run high ihl ihh =>
    obtain ⟨hrun, hlow, hhigh, -⟩ := h
    have hfrom := clampChecked_eq (x := from_) hrun.1
    -- The upper bound of the run is not below where the cut of it starts.
    have hto := clampChecked_eq (x := to_) (clamp_le (x := from_) hrun.1)
    rw [sliceChecked_node, slice_node]
    simp only [ihl hlow, ihh hhigh, sure_ite, hfrom, hto, lift_some_bind]
    exact sure_bind _ fun below => sure_bind _ fun middle => sure_bind _ fun above => rfl

lemma getChecked_eq {r : Rope α} (h : r.WellFormed) (index : Nat) :
    r.getChecked index = some (r.get? index) := by
  unfold getChecked get?
  split_ifs
  · exact atChecked_eq h _
  · rfl

lemma forEachInChecked_eq {r : Rope α} (h : r.WellFormed) (span : Span) (visitor : Visitor σ α)
    (s : σ) : r.forEachInChecked span visitor s = some (r.forEachIn span visitor s) := by
  unfold forEachInChecked forEachIn
  cases span.resolve r.length with
  | none => rfl
  | some bounds =>
    simp only [visitChecked_eq h]
    rfl

lemma subChecked_eq {r : Rope α} (h : r.WellFormed) (start stop : Nat) :
    r.subChecked start stop = some (r.sub start stop) := by
  unfold subChecked sub
  rw [sliceChecked_eq h]
  split_ifs <;> rfl

/-! ### The representation of what can be made -/

/-- A part is stored exactly if its node leaves room for it, and fills that room. -/
structure Fills (part : Rope α) (room : Int) : Prop where
  stored : part ≠ absent ↔ 0 < room
  isEmpty : part ≠ absent → part.isEmpty = false
  length : part ≠ absent → part.length = room

/-- What the parts of a node are to its bounds. -/
structure Kept (start stop : Int) (low : Rope α) (run : Run α) (high : Rope α) : Prop where
  start_le : start ≤ run.start
  run_le : run.start ≤ run.stop
  le_stop : run.stop ≤ stop
  low : low.Fills (run.start - start)
  high : high.Fills (stop - run.stop)
  window : run.offset + (run.stop - run.start) ≤ run.data.size

/-- The representation is kept by a node and by all nodes below it. -/
def Sound : Rope α → Prop
  | absent => True
  | node start stop low run high => Kept start stop low run high ∧ low.Sound ∧ high.Sound

lemma span_nonneg {r : Rope α} (h : r.WellFormed) : 0 ≤ r.span := by
  have := length_elems h
  omega

lemma fills_span {part : Rope α} (h : part = absent ∨ 0 < part.span) : part.Fills part.span := by
  obtain rfl | hpos := h
  · exact ⟨by simp, fun h => absurd rfl h, fun h => absurd rfl h⟩
  · have hne : part ≠ absent := by
      rintro rfl
      simp at hpos
    refine ⟨iff_of_true hne hpos, fun _ => ?_, fun _ => Int.toNat_of_nonneg hpos.le⟩
    unfold span at hpos
    rw [isEmpty, beq_eq_false_iff_ne]
    omega

lemma sound_of_wellFormed {r : Rope α} (h : r.WellFormed) : r.Sound := by
  induction r with
  | absent => trivial
  | node start stop low run high ihl ihh =>
    obtain ⟨hrun, hlow, hhigh, rfl, rfl, hl, hh⟩ := h
    refine ⟨⟨?_, hrun.1, ?_, ?_, ?_, ?_⟩, ihl hlow, ihh hhigh⟩
    · have := span_nonneg hlow
      omega
    · have := span_nonneg hhigh
      omega
    · rw [sub_sub_cancel]
      exact fills_span hl
    · rw [add_sub_cancel_left]
      exact fills_span hh
    · have := hrun.1
      have := hrun.2
      omega

lemma join_ne_absent (low : Rope α) (run : Run α) (high : Rope α) : join low run high ≠ absent :=
  nofun

lemma exists_of_bind {β τ : Type} {x : Outcome β} {f : β → Outcome τ} {t : τ}
    (h : x >>= f = .ok t) : ∃ b, x = .ok b ∧ f b = .ok t := by
  cases x with
  | error p => cases h
  | ok b => exact ⟨b, rfl, h⟩

lemma slice_ne_absent {r t : Rope α} {from_ to_ : Int} (hr : r ≠ absent)
    (h : r.slice from_ to_ = .ok t) : t ≠ absent := by
  cases r with
  | absent => exact absurd rfl hr
  | node start stop low run high =>
    rw [slice_node] at h
    obtain ⟨below, -, h⟩ := exists_of_bind h
    obtain ⟨middle, -, h⟩ := exists_of_bind h
    obtain ⟨above, -, h⟩ := exists_of_bind h
    cases h
    exact join_ne_absent below middle above

lemma sub_ne_absent {r t : Rope α} {start stop : Nat} (hr : r ≠ absent)
    (h : r.sub start stop = .ok t) : t ≠ absent := by
  unfold sub at h
  split_ifs at h
  · cases h
    exact hr
  · exact slice_ne_absent hr h

lemma edit_ne_absent {w : List (Rope α)} (hw : ∀ r ∈ w, r ≠ absent) {e : Edit α} {t : Rope α}
    (h : e.onRopes w = some (.ok t)) : t ≠ absent := by
  -- Every operation ends with a join, which makes a node.
  cases e with
  | empty =>
    cases h
    exact join_ne_absent _ _ _
  | values items =>
    cases h
    exact join_ne_absent _ _ _
  | append i j =>
    obtain ⟨r, -, h⟩ := Option.bind_eq_some_iff.mp h
    obtain ⟨s, -, h⟩ := Option.map_eq_some_iff.mp h
    cases h
    exact join_ne_absent _ _ _
  | push i a =>
    obtain ⟨r, -, h⟩ := Option.map_eq_some_iff.mp h
    cases h
    exact join_ne_absent _ _ _
  | sub i start stop =>
    obtain ⟨r, hr, h⟩ := Option.map_eq_some_iff.mp h
    exact sub_ne_absent (hw r (List.mem_of_getElem? hr)) h
  | replace i index a =>
    obtain ⟨r, hr, h⟩ := Option.map_eq_some_iff.mp h
    unfold replace at h
    extract_lets resolved at h
    split_ifs at h
    obtain ⟨before, -, h⟩ := exists_of_bind h
    obtain ⟨after, -, h⟩ := exists_of_bind h
    cases h
    exact join_ne_absent _ _ _
  | insert i index j =>
    obtain ⟨r, hr, h⟩ := Option.bind_eq_some_iff.mp h
    obtain ⟨s, -, h⟩ := Option.map_eq_some_iff.mp h
    unfold insert at h
    split_ifs at h
    obtain ⟨before, -, h⟩ := exists_of_bind h
    obtain ⟨after, -, h⟩ := exists_of_bind h
    cases h
    exact join_ne_absent _ _ _

lemma ne_absent_of_mem (es : List (Edit α)) : ∀ r ∈ Edit.ropes es, r ≠ absent := by
  induction es using List.reverseRecOn with
  | nil => exact fun r hr => absurd hr List.not_mem_nil
  | append_singleton es e ih =>
    simp only [Edit.ropes, List.foldl_append, List.foldl_cons, List.foldl_nil]
    intro r hr
    unfold Edit.extendRopes at hr
    split at hr
    · next t ht =>
      rcases List.mem_append.mp hr with hr | hr
      · exact ih r hr
      · obtain rfl := List.mem_singleton.mp hr
        exact edit_ne_absent ih ht
    · exact ih r hr

lemma wellFormed_of_mem {es : List (Edit α)} {r : Rope α} (h : r ∈ Edit.ropes es) :
    r.WellFormed := by
  obtain ⟨i, hi⟩ := List.mem_iff_getElem?.mp h
  have key := operand (forall₂_holds es) i
  generalize (Edit.lists es)[i]? = l at key
  rw [hi] at key
  cases key with
  | some key => exact key.1

/-- **Ropes stay in bounds.** Every rope that any sequence of operations makes is a node whose
representation is kept all the way down. So whatever is asked of it afterwards — the element at an
index, a visit of a span by any visitor, a cut at any two indices — reaches for no place outside an
array, and holds no number between bounds in the wrong order: the operations that check this answer,
and as those do that do not check. -/
theorem ropes_stay_in_bounds (es : List (Edit α)) (r : Rope α) (hr : r ∈ Edit.ropes es) :
    r ≠ absent ∧ r.Sound ∧
      (∀ index, r.getChecked index = some (r.get? index)) ∧
      (∀ (τ : Type) (span : Span) (visitor : Visitor τ α) (s : τ),
        r.forEachInChecked span visitor s = some (r.forEachIn span visitor s)) ∧
      ∀ start stop, r.subChecked start stop = some (r.sub start stop) := by
  have h := wellFormed_of_mem hr
  exact ⟨ne_absent_of_mem es r hr, sound_of_wellFormed h, getChecked_eq h,
    fun τ span visitor s => forEachInChecked_eq h span visitor s, subChecked_eq h⟩

/-- One list is put into another, the result is cut through both, and the cut is cut again. -/
def cutTwice : List (Edit Nat) :=
  [.values [1, 2, 3, 4], .values [5, 6], .insert 0 2 1, .sub 2 1 5, .sub 3 1 3]

theorem cut_twice_stays_in_bounds :
    (Edit.ropes cutTwice)[4]?.map (fun r => (r.start, r.stop, r.toList)) = some (2, 4, [5, 6]) ∧
      ∀ r, (Edit.ropes cutTwice)[4]? = some r → r.Sound ∧
        r.getChecked 1 = some (r.get? 1) ∧ r.subChecked 0 1 = some (r.sub 0 1) := by
  refine ⟨by decide, fun r hr => ?_⟩
  obtain ⟨-, hsound, hget, -, hsub⟩ :=
    ropes_stay_in_bounds cutTwice r (List.mem_of_getElem? hr)
  exact ⟨hsound, hget 1, hsub 0 1⟩

end Rope

end CellMachine
