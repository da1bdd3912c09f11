import Mathlib.Logic.Relation
import CellMachine.Proofs.Call.Reachable

/-!
What the walk over the cells of a callable lists, and in which order. Every listed cell is reached from
the result; and when no reference closed a cycle, every cell is listed after the cells that it refers
to, so there is no cycle.

A reference is met when a cell is entered, but may be followed much later. It cannot close a cycle in
between: cells above an entry of the stack are entered and finished before the entry is looked at, and
cells below it that are being visited were so when the reference was met.
-/

namespace CellMachine

namespace Callable

variable {c : Callable}

/-- One cell needs another, whether that exists or not. -/
def Refers (c : Callable) (i j : Nat) : Prop :=
  ∃ cell, c.cell? i = some cell ∧ j ∈ cell.kind.references

lemma refers_iff {i j : Nat} {cell : Cell} (hcell : c.cell? i = some cell) :
    c.Refers i j ↔ j ∈ cell.kind.references := by
  rw [Refers, hcell]
  exact ⟨fun ⟨_, h, hj⟩ => Option.some.inj h ▸ hj, fun hj => ⟨cell, rfl, hj⟩⟩

/-- The result needs a cell. -/
def Reaches (c : Callable) (i : Nat) : Prop := Relation.ReflTransGen c.Refers resultCell i

/-- Whether a problem says that a reference closes a cycle. -/
def tellsCycle (p : Problem) : Bool :=
  p.cause = .structureCorrupt && (p.param? "reason").bind Param.asText? == some "cycle"

@[simp] lemma tellsCycle_cyclic (cell : Cell) (index reference : Nat) :
    tellsCycle (cyclic cell index reference) = true := by
  simp [tellsCycle, cyclic, Problem.param?, Problem.set, KeyMap.get?_insert, Param.asText?]

@[simp] lemma tellsCycle_dangling (cell : Cell) (index position reference : Nat) :
    tellsCycle (dangling cell index position reference) = false := by
  unfold dangling
  split
  · simp [tellsCycle, Problem.set]
  · simp [tellsCycle, Problem.param?, Problem.set, KeyMap.get?_insert, Param.asText?]

/-- No reference closed a cycle. -/
def NoCycle (problems : List Problem) : Prop := ∀ p ∈ problems, tellsCycle p = false

lemma NoCycle.nil : NoCycle [] := nofun

lemma noCycle_append {ps qs : List Problem} : NoCycle (ps ++ qs) ↔ NoCycle ps ∧ NoCycle qs :=
  List.forall_mem_append

/-- What holds of the order throughout a walk. -/
structure Ordered (c : Callable) (stack : List (Nat × Bool)) (w : Walk) : Prop where
  reached : ∀ e ∈ stack, c.Reaches e.1
  listed : ∀ i ∈ w.order, c.Reaches i
  /-- No cell is to be entered above the place where it is to be finished. -/
  fresh : stack.Pairwise fun e f => e.2 = false → f ≠ (e.1, true)
  /-- What a cell needs is dealt with before the cell is finished. -/
  waits : NoCycle w.problems → ∀ above i below, stack = above ++ (i, true) :: below →
    ∀ r, c.Refers i r → (c.cell? r).isSome = true → r ∈ w.order ∨ ∃ done, (r, done) ∈ above
  ranked : NoCycle w.problems → ∀ i ∈ w.order, ∀ r, c.Refers i r → (c.cell? r).isSome = true →
    w.order.idxOf r < w.order.idxOf i

lemma ordered_start (c : Callable) : Ordered c start.1 start.2 where
  reached e he := by
    cases List.mem_singleton.mp he
    exact .refl
  listed := nofun
  fresh := List.pairwise_singleton _ _
  waits _ above i below h := by
    cases above with
    | nil => cases h
    | cons e above => cases above <;> cases h
  ranked _ := nofun

lemma Ordered.finish {index : Nat} {stack : List (Nat × Bool)} {w : Walk}
    (h : Ordered c ((index, true) :: stack) w) :
    Ordered c stack
      { w with marks := w.marks.insert index .finished, order := w.order ++ [index] } where
  reached e he := h.reached e (List.mem_cons_of_mem _ he)
  listed i hi := by
    rcases List.mem_append.mp hi with hi | hi
    · exact h.listed i hi
    · cases List.mem_singleton.mp hi
      exact h.reached _ List.mem_cons_self
  fresh := h.fresh.of_cons
  waits hp above i below heq r hr hsome := by
    rcases h.waits hp ((index, true) :: above) i below (by rw [heq]; rfl) r hr hsome with
      hin | ⟨done, hin⟩
    · exact .inl (List.mem_append_left _ hin)
    · rcases List.mem_cons.mp hin with hin | hin
      · cases hin
        exact .inl (List.mem_append_right _ List.mem_cons_self)
      · exact .inr ⟨done, hin⟩
  ranked hp i hi r hr hsome := by
    by_cases hold : i ∈ w.order
    · have hlt := h.ranked hp i hold r hr hsome
      have hin : r ∈ w.order :=
        List.idxOf_lt_length_iff.mp (hlt.trans (List.idxOf_lt_length_of_mem hold))
      rwa [List.idxOf_append_of_mem hold, List.idxOf_append_of_mem hin]
    · -- The cell is listed for the first time; all that it needs was listed before.
      have hi : i = index :=
        List.mem_singleton.mp ((List.mem_append.mp hi).resolve_left hold)
      subst hi
      have hin : r ∈ w.order := by
        rcases h.waits hp [] i stack rfl r hr hsome with hin | ⟨done, hin⟩
        · exact hin
        · cases hin
      rw [List.idxOf_append_of_mem hin, List.idxOf_append_of_notMem hold]
      exact (List.idxOf_lt_length_of_mem hin).trans_le (Nat.le_add_right _ _)

/-- A cell that was met before, or does not exist, is passed over. -/
lemma Ordered.skip {index : Nat} {stack : List (Nat × Bool)} {w : Walk}
    (h : Ordered c ((index, false) :: stack) w) (hw : Walked c ((index, false) :: stack) w)
    (hindex : w.marks.contains index = true ∨ c.cell? index = none) : Ordered c stack w where
  reached e he := h.reached e (List.mem_cons_of_mem _ he)
  listed := h.listed
  fresh := h.fresh.of_cons
  waits hp above i below heq r hr hsome := by
    rcases h.waits hp ((index, false) :: above) i below (by rw [heq]; rfl) r hr hsome with
      hin | ⟨done, hin⟩
    · exact .inl hin
    · rcases List.mem_cons.mp hin with hin | hin
      · cases hin
        rcases hindex with hmark | hnone
        · obtain ⟨mark, hmark⟩ := Option.isSome_iff_exists.mp hmark
          cases mark with
          | finished => exact .inl (hw.finished _ hmark)
          | entered =>
            have hbelow := (List.mem_cons.mp (hw.entered _ hmark)).resolve_left nofun
            exact absurd rfl (List.rel_of_pairwise_cons h.fresh hbelow rfl)
        · rw [hnone] at hsome
          cases hsome
      · exact .inr ⟨done, hin⟩
  ranked := h.ranked

lemma cyclic_mem_referenceProblems {marks : KeyMap Nat Mark} {cell : Cell} {index r : Nat}
    (hr : r ∈ cell.kind.references) (hmark : marks.get? r = some .entered) :
    cyclic cell index r ∈ c.referenceProblems marks cell index := by
  obtain ⟨n, hn⟩ := List.mem_iff_getElem?.mp hr
  have hproblem : c.referenceProblem marks cell index n r = some (cyclic cell index r) := by
    rw [referenceProblem, hmark]
  exact mem_referenceProblems hn hproblem

/-- Unless a reference closes a cycle, what an entered cell needs was finished before, or is to be
entered next. -/
lemma Walked.finished_or_next {index : Nat} {stack : List (Nat × Bool)} {w : Walk}
    (hw : Walked c stack w) {cell : Cell}
    (hp : NoCycle (c.referenceProblems (w.marks.insert index .entered) cell index)) {r : Nat}
    (hr : r ∈ cell.kind.references) (hsome : (c.cell? r).isSome = true) :
    r ∈ w.order ∨ ∃ done, (r, done) ∈ c.entries (w.marks.insert index .entered) cell := by
  cases hget : (w.marks.insert index .entered).get? r with
  | none =>
    have hunmet : (w.marks.insert index .entered).contains r = false := by
      rw [KeyMap.contains, hget]
      rfl
    exact .inr ⟨false, mem_entries.mpr ⟨rfl, hr, hunmet, hsome⟩⟩
  | some mark =>
    cases mark with
    | entered =>
      have htells := hp _ (cyclic_mem_referenceProblems hr hget)
      rw [tellsCycle_cyclic] at htells
      cases htells
    | finished =>
      rw [KeyMap.get?_insert] at hget
      split at hget
      · cases hget
      · exact .inl (hw.finished r hget)

lemma own_or_below {marks : KeyMap Nat Mark} {cell : Cell} {index i : Nat}
    {stack above below : List (Nat × Bool)}
    (h : c.entries marks cell ++ (index, true) :: stack = above ++ (i, true) :: below) :
    (above = c.entries marks cell ∧ i = index) ∨
      ∃ rest, above = c.entries marks cell ++ (index, true) :: rest ∧
        stack = rest ++ (i, true) :: below := by
  rcases List.append_eq_append_iff.mp h with ⟨rest, rfl, hrest⟩ | ⟨rest, hnext, hrest⟩
  · cases rest with
    | nil =>
      cases hrest
      exact .inl ⟨List.append_nil _, rfl⟩
    | cons e rest =>
      obtain ⟨rfl, htail⟩ := List.cons.inj hrest
      exact .inr ⟨rest, rfl, htail⟩
  · cases rest with
    | nil =>
      cases hrest
      exact .inl ⟨(hnext.trans (List.append_nil _)).symm, rfl⟩
    | cons e rest =>
      obtain ⟨rfl, -⟩ := List.cons.inj hrest
      exact absurd (hnext ▸ List.mem_append_right above List.mem_cons_self) not_done_of_mem_entries

lemma Ordered.enter {index : Nat} {stack : List (Nat × Bool)} {w : Walk}
    (h : Ordered c ((index, false) :: stack) w) (hw : Walked c ((index, false) :: stack) w)
    {cell : Cell} (hcell : c.cell? index = some cell) :
    Ordered c (c.entries (w.marks.insert index .entered) cell ++ (index, true) :: stack)
      { w with
        marks := w.marks.insert index .entered
        problems := w.problems ++
          c.referenceProblems (w.marks.insert index .entered) cell index } where
  reached e he := by
    have hindex := h.reached _ List.mem_cons_self
    rcases List.mem_append.mp he with he | he
    · exact hindex.tail ⟨cell, hcell, (mem_entries.mp he).2.1⟩
    · rcases List.mem_cons.mp he with rfl | he
      · exact hindex
      · exact h.reached e (List.mem_cons_of_mem _ he)
  listed := h.listed
  fresh := by
    have below : ((index, true) :: stack).Pairwise fun e f => e.2 = false → f ≠ (e.1, true) :=
      List.pairwise_cons.mpr ⟨fun _ _ => nofun, h.fresh.of_cons⟩
    refine List.pairwise_append.mpr ⟨?_, below, fun e he f hf _ => ?_⟩
    · exact List.pairwise_map.mpr (List.pairwise_of_forall fun _ _ _ => nofun)
    · -- A cell that is to be finished further down has a mark, so it is no new reference.
      rintro rfl
      obtain ⟨-, -, hunmet, -⟩ := mem_entries.mp he
      refine Bool.eq_false_iff.mp hunmet (contains_insert.mpr ?_)
      rcases List.mem_cons.mp hf with hf | hf
      · cases hf
        exact .inl rfl
      · exact .inr (hw.leaving e.1 (List.mem_cons_of_mem _ hf))
  waits hp above i below heq r hr hsome := by
    obtain ⟨hp₁, hp₂⟩ := noCycle_append.mp hp
    rcases own_or_below heq with ⟨rfl, rfl⟩ | ⟨rest, rfl, rfl⟩
    · exact hw.finished_or_next hp₂ ((refers_iff hcell).mp hr) hsome
    · rcases h.waits hp₁ ((index, false) :: rest) i below rfl r hr hsome with hin | ⟨done, hin⟩
      · exact .inl hin
      · refine .inr ?_
        rcases List.mem_cons.mp hin with hin | hin
        · cases hin
          exact ⟨true, List.mem_append_right _ List.mem_cons_self⟩
        · exact ⟨done, List.mem_append_right _ (List.mem_cons_of_mem _ hin)⟩
  ranked hp := h.ranked (noCycle_append.mp hp).1

lemma Ordered.turned {s s' : List (Nat × Bool) × Walk} (h : Ordered c s.1 s.2)
    (hw : Walked c s.1 s.2) (hturn : Turned c s s') : Ordered c s'.1 s'.2 := by
  cases hturn with
  | finish => exact h.finish
  | skip hindex => exact h.skip hw hindex
  | enter _ hcell => exact h.enter hw hcell

lemma ordered_reachable (c : Callable) : Ordered c [] (c.turn^[c.walkFuel] start).2 :=
  turns_end (work_start_le c) ▸ (turns_induction
    (P := fun s => Walked c s.1 s.2 ∧ Ordered c s.1 s.2)
    (fun _ _ h hturn => ⟨h.1.turned hturn, h.2.turned h.1 hturn⟩)
    ⟨walked_start c, ordered_start c⟩ c.walkFuel).2

/-- **What is listed is needed**, by the result or by what it needs. -/
lemma reaches_of_mem_reachable {i : Nat} (hi : i ∈ c.reachable.1) : c.Reaches i := by
  rw [reachable_eq_turns] at hi
  exact (ordered_reachable c).listed i hi

/-- **Without a cycle cells are listed after those that they need.** -/
lemma idxOf_reachable_lt (hproblems : NoCycle c.reachable.2) {i j : Nat} (hi : i ∈ c.reachable.1)
    (hij : c.Refers i j) (hj : (c.cell? j).isSome = true) :
    c.reachable.1.idxOf j < c.reachable.1.idxOf i := by
  rw [reachable_eq_turns] at hproblems hi ⊢
  exact (ordered_reachable c).ranked hproblems i hi j hij hj

lemma mem_reachable_of_refers {i j : Nat} (hi : i ∈ c.reachable.1) (hij : c.Refers i j)
    (hj : (c.cell? j).isSome = true) : j ∈ c.reachable.1 := by
  obtain ⟨cell, hcell, hrefs⟩ := reachable_refers hi
  exact hrefs j ((refers_iff hcell).mp hij) hj

/-- **Unless a cycle is told no listed cell needs itself.** -/
lemma not_transGen_refers (hproblems : NoCycle c.reachable.2) {i : Nat} (hi : i ∈ c.reachable.1) :
    ¬Relation.TransGen c.Refers i i := by
  have down : ∀ {j}, (c.cell? j).isSome = true → Relation.TransGen c.Refers i j →
      j ∈ c.reachable.1 ∧ c.reachable.1.idxOf j < c.reachable.1.idxOf i := by
    intro j hj hij
    induction hij with
    | single h => exact ⟨mem_reachable_of_refers hi h hj, idxOf_reachable_lt hproblems hi h hj⟩
    | tail _ h ih =>
      have hfrom := h
      obtain ⟨cell, hcell, -⟩ := hfrom
      obtain ⟨hmem, hlt⟩ := ih (Option.isSome_iff_exists.mpr ⟨cell, hcell⟩)
      exact ⟨mem_reachable_of_refers hmem h hj, (idxOf_reachable_lt hproblems hmem h hj).trans hlt⟩
  obtain ⟨cell, hcell, -⟩ := reachable_refers hi
  exact fun h => (down (Option.isSome_iff_exists.mpr ⟨cell, hcell⟩) h).2.false

end Callable

end CellMachine
