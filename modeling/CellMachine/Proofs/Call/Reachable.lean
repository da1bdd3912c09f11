import CellMachine.Call.Graph
import CellMachine.Proofs.KeyMap

/-!
What the walk over the cells of a callable finds. Every cell that was entered is to be finished, and
every reference of an entered cell was met or is still to be entered; so when nothing is left to do
and no defect was met, the cells found are closed under references.
-/

namespace CellMachine

namespace Callable

variable {c : Callable}

/-- What the cells that were not met yet can put on the stack. -/
def unmetWeight (marks : KeyMap Nat Mark) (cells : List (Nat × Cell)) : Nat :=
  cells.foldr (fun e n => (if marks.contains e.1 then 0 else 1 + e.2.kind.references.length) + n) 0

lemma contains_insert {marks : KeyMap Nat Mark} {i j : Nat} {mark : Mark} :
    (marks.insert i mark).contains j = true ↔ j = i ∨ marks.contains j = true := by
  rw [KeyMap.contains_iff, KeyMap.contains_iff, KeyMap.mem_keys_insert]

lemma unmetWeight_insert_le (marks : KeyMap Nat Mark) (i : Nat) (mark : Mark)
    (cells : List (Nat × Cell)) :
    unmetWeight (marks.insert i mark) cells ≤ unmetWeight marks cells := by
  induction cells with
  | nil => exact le_rfl
  | cons e cells ih =>
    have hmono : marks.contains e.1 = true → (marks.insert i mark).contains e.1 = true :=
      fun h => contains_insert.mpr (.inr h)
    simp only [unmetWeight, List.foldr_cons] at ih ⊢
    split <;> split <;> first | omega | simp_all

lemma unmetWeight_insert {marks : KeyMap Nat Mark} {i : Nat} (hi : marks.contains i = false)
    (mark : Mark) {cells : List (Nat × Cell)} {cell : Cell} (hcell : KeyMap.get? cells i = some cell) :
    unmetWeight (marks.insert i mark) cells + (1 + cell.kind.references.length) ≤
      unmetWeight marks cells := by
  induction cells with
  | nil => cases hcell
  | cons e cells ih =>
    obtain ⟨j, cell'⟩ := e
    have hle := unmetWeight_insert_le marks i mark cells
    by_cases hj : j = i
    · subst hj
      rw [KeyMap.get?_cons_self] at hcell
      cases hcell
      have hnew : (marks.insert j mark).contains j = true := contains_insert.mpr (.inl rfl)
      simp only [unmetWeight, List.foldr_cons, hi, hnew] at hle ⊢
      simp only [if_true, Bool.false_eq_true, if_false]
      omega
    · rw [KeyMap.get?_cons_of_ne hj] at hcell
      have hsame : (marks.insert i mark).contains j = marks.contains j := by
        rw [Bool.eq_iff_iff, contains_insert]
        simp [hj]
      have := ih hcell
      simp only [unmetWeight, List.foldr_cons, hsame] at this ⊢
      omega

/-- One turn of the walk. -/
def turn (c : Callable) : List (Nat × Bool) × Walk → List (Nat × Bool) × Walk
  | ([], w) => ([], w)
  | ((index, true) :: stack, w) =>
    (stack, { w with marks := w.marks.insert index .finished, order := w.order ++ [index] })
  | ((index, false) :: stack, w) =>
    if w.marks.contains index then (stack, w)
    else
      match c.cell? index with
      | none => (stack, w)
      | some cell =>
        let marks := w.marks.insert index .entered
        (((c.newReferences marks cell).map fun r => (r, false)) ++ (index, true) :: stack,
          { w with marks, problems := w.problems ++ c.referenceProblems marks cell index })

/-- What a turn does with the entry on top of the stack: the cell is finished, the entry is passed
over because the cell was met or does not exist, or the cell is entered. -/
inductive Turned (c : Callable) :
    List (Nat × Bool) × Walk → List (Nat × Bool) × Walk → Prop where
  | finish {index : Nat} {stack : List (Nat × Bool)} {w : Walk} :
    Turned c ((index, true) :: stack, w)
      (stack, { w with marks := w.marks.insert index .finished, order := w.order ++ [index] })
  | skip {index : Nat} {stack : List (Nat × Bool)} {w : Walk}
    (hindex : w.marks.contains index = true ∨ c.cell? index = none) :
    Turned c ((index, false) :: stack, w) (stack, w)
  | enter {index : Nat} {stack : List (Nat × Bool)} {w : Walk} {cell : Cell}
    (hmark : w.marks.contains index = false) (hcell : c.cell? index = some cell) :
    Turned c ((index, false) :: stack, w)
      (((c.newReferences (w.marks.insert index .entered) cell).map fun r => (r, false)) ++
          (index, true) :: stack,
        { w with
          marks := w.marks.insert index .entered
          problems := w.problems ++ c.referenceProblems (w.marks.insert index .entered) cell index })

lemma turned_turn {s : List (Nat × Bool) × Walk} (hs : s.1 ≠ []) : Turned c s (c.turn s) := by
  match s, hs with
  | ((index, true) :: stack, w), _ => exact .finish
  | ((index, false) :: stack, w), _ =>
    rw [turn]
    cases hmark : w.marks.contains index with
    | true => exact .skip (.inl hmark)
    | false =>
      cases hcell : c.cell? index with
      | none => exact .skip (.inr hcell)
      | some cell => exact .enter hmark hcell

lemma turns_nil (n : Nat) (w : Walk) : c.turn^[n] ([], w) = ([], w) :=
  Function.iterate_fixed rfl n

lemma walk_eq_turns (fuel : Nat) (stack : List (Nat × Bool)) (w : Walk) :
    c.walk fuel stack w = (c.turn^[fuel] (stack, w)).2 := by
  induction fuel generalizing stack w with
  | zero => rfl
  | succ fuel ih =>
    rw [Function.iterate_succ_apply]
    match stack with
    | [] => rw [turn, turns_nil, walk]
    | (index, true) :: stack => rw [walk, ih, turn]
    | (index, false) :: stack =>
      rw [walk, turn]
      cases w.marks.contains index with
      | true => exact ih stack w
      | false => cases c.cell? index <;> exact ih ..

/-- What the walk can still do. -/
def work (c : Callable) (s : List (Nat × Bool) × Walk) : Nat :=
  s.1.length + unmetWeight s.2.marks c.cells

lemma Turned.work_lt {s s' : List (Nat × Bool) × Walk} (h : Turned c s s') :
    c.work s' < c.work s := by
  cases h with
  | @finish index stack w =>
    have := unmetWeight_insert_le w.marks index .finished c.cells
    simp only [work, List.length_cons]
    omega
  | skip => simp [work]
  | @enter index stack w cell hmark hcell =>
    have hweight := unmetWeight_insert hmark .entered hcell
    have hlen : (c.newReferences (w.marks.insert index .entered) cell).length ≤
        cell.kind.references.length := List.length_filter_le _ _
    simp only [work, List.length_append, List.length_map, List.length_cons]
    omega

/-- **The loop ends**: each turn uses up what there is to do. -/
lemma turns_end {fuel : Nat} {s : List (Nat × Bool) × Walk} (h : c.work s ≤ fuel) :
    (c.turn^[fuel] s).1 = [] := by
  induction fuel generalizing s with
  | zero =>
    rw [work, Nat.le_zero, Nat.add_eq_zero_iff] at h
    exact List.length_eq_zero_iff.mp h.1
  | succ fuel ih =>
    rw [Function.iterate_succ_apply]
    by_cases hs : s.1 = []
    · obtain ⟨stack, w⟩ := s
      cases hs
      rw [turn, turns_nil]
    · have := (turned_turn (c := c) hs).work_lt
      exact ih (by omega)

lemma turns_induction {P : List (Nat × Bool) × Walk → Prop}
    (step : ∀ s s', P s → Turned c s s' → P s') {s : List (Nat × Bool) × Walk} (h : P s) (n : Nat) :
    P (c.turn^[n] s) := by
  induction n generalizing s with
  | zero => exact h
  | succ n ih =>
    rw [Function.iterate_succ_apply]
    by_cases hs : s.1 = []
    · obtain ⟨stack, w⟩ := s
      cases hs
      exact ih h
    · exact ih (step _ _ h (turned_turn hs))

/-- What holds throughout a walk, given what is still to be done. -/
structure Walked (c : Callable) (stack : List (Nat × Bool)) (w : Walk) : Prop where
  entered : ∀ i, w.marks.get? i = some .entered → (i, true) ∈ stack
  finished : ∀ i, w.marks.get? i = some .finished → i ∈ w.order
  order : ∀ i ∈ w.order, w.marks.contains i = true
  leaving : ∀ i, (i, true) ∈ stack → w.marks.contains i = true
  met : ∀ i, w.marks.contains i = true → ∃ cell, c.cell? i = some cell ∧
    ∀ r ∈ cell.kind.references, (c.cell? r).isSome = true →
      w.marks.contains r = true ∨ (r, false) ∈ stack
  whole : w.problems = [] → ∀ i cell, w.marks.contains i = true → c.cell? i = some cell →
    ∀ r ∈ cell.kind.references, (c.cell? r).isSome = true
  root : (c.cell? resultCell).isSome = true →
    w.marks.contains resultCell = true ∨ (resultCell, false) ∈ stack

/-- What entering a cell puts on the stack: an entry for each reference that is new. -/
def entries (c : Callable) (marks : KeyMap Nat Mark) (cell : Cell) : List (Nat × Bool) :=
  (c.newReferences marks cell).map fun r => (r, false)

lemma mem_entries {marks : KeyMap Nat Mark} {cell : Cell} {e : Nat × Bool} :
    e ∈ c.entries marks cell ↔ e.2 = false ∧ e.1 ∈ cell.kind.references ∧
      marks.contains e.1 = false ∧ (c.cell? e.1).isSome = true := by
  simp only [entries, newReferences, List.mem_map, List.mem_filter, Bool.and_eq_true,
    Bool.not_eq_true']
  constructor
  · rintro ⟨r, hr, rfl⟩
    exact ⟨rfl, hr⟩
  · obtain ⟨r, done⟩ := e
    rintro ⟨rfl, hr⟩
    exact ⟨r, hr, rfl⟩

lemma not_done_of_mem_entries {marks : KeyMap Nat Mark} {cell : Cell} {i : Nat} :
    (i, true) ∉ c.entries marks cell :=
  fun h => by cases (mem_entries.mp h).1

lemma mem_referenceProblems {marks : KeyMap Nat Mark} {cell : Cell} {index n r : Nat} {p : Problem}
    (hr : cell.kind.references[n]? = some r)
    (hp : c.referenceProblem marks cell index n r = some p) :
    p ∈ c.referenceProblems marks cell index :=
  List.mem_filterMap.mpr
    ⟨(r, n), List.mem_reverse.mpr (List.mk_mem_zipIdx_iff_getElem?.mpr hr), hp⟩

lemma referenceProblems_ne_nil {marks : KeyMap Nat Mark} {cell : Cell} {index r : Nat}
    (hr : r ∈ cell.kind.references) (hmark : marks.contains r = false)
    (hcell : (c.cell? r).isSome = false) : c.referenceProblems marks cell index ≠ [] := by
  have hnone : marks.get? r = none := by
    rw [← Option.not_isSome_iff_eq_none]
    simpa [KeyMap.contains] using hmark
  obtain ⟨n, hn⟩ := List.mem_iff_getElem?.mp hr
  have hproblem : c.referenceProblem marks cell index n r = some (dangling cell index n r) := by
    rw [referenceProblem, hnone]
    simp [hcell]
  exact List.ne_nil_of_mem (mem_referenceProblems hn hproblem)

lemma mem_of_mem_cons_leaving {index r : Nat} {stack : List (Nat × Bool)}
    (h : (r, false) ∈ (index, true) :: stack) : (r, false) ∈ stack := by
  rcases List.mem_cons.mp h with h | h
  · cases h
  · exact h

lemma Walked.finish {index : Nat} {stack : List (Nat × Bool)} {w : Walk}
    (h : Walked c ((index, true) :: stack) w) :
    Walked c stack
      { w with marks := w.marks.insert index .finished, order := w.order ++ [index] } := by
  have hindex : w.marks.contains index = true := h.leaving index List.mem_cons_self
  have hmarks : ∀ j, (w.marks.insert index .finished).contains j = true ↔
      w.marks.contains j = true := by
    intro j
    rw [contains_insert]
    exact ⟨fun hj => hj.elim (fun hj => hj ▸ hindex) id, .inr⟩
  refine ⟨fun i hi => ?entered, fun i hi => ?finished, fun i hi => ?order, fun i hi => ?leaving,
    fun i hi => ?met, fun hp i cell hi => ?whole, fun hroot => ?root⟩
  case entered =>
    rw [KeyMap.get?_insert] at hi
    split at hi
    · cases hi
    · next hne =>
      rcases List.mem_cons.mp (h.entered i hi) with hi | hi
      · cases hi
        exact absurd rfl hne
      · exact hi
  case finished =>
    rw [KeyMap.get?_insert] at hi
    split at hi
    · next heq => exact List.mem_append_right _ (heq ▸ List.mem_cons_self)
    · exact List.mem_append_left _ (h.finished i hi)
  case order =>
    rw [hmarks]
    rcases List.mem_append.mp hi with hi | hi
    · exact h.order i hi
    · exact List.mem_singleton.mp hi ▸ hindex
  case leaving =>
    rw [hmarks]
    exact h.leaving i (List.mem_cons_of_mem _ hi)
  case met =>
    obtain ⟨cell, hcell, hrefs⟩ := h.met i ((hmarks i).mp hi)
    refine ⟨cell, hcell, fun r hr hsome => ?_⟩
    rw [hmarks]
    exact (hrefs r hr hsome).imp_right mem_of_mem_cons_leaving
  case whole =>
    exact h.whole hp i cell ((hmarks i).mp hi)
  case root =>
    rw [hmarks]
    exact (h.root hroot).imp_right mem_of_mem_cons_leaving

lemma Walked.skip {index : Nat} {stack : List (Nat × Bool)} {w : Walk}
    (h : Walked c ((index, false) :: stack) w)
    (hindex : w.marks.contains index = true ∨ c.cell? index = none) : Walked c stack w := by
  have still : ∀ r, (c.cell? r).isSome = true →
      w.marks.contains r = true ∨ (r, false) ∈ (index, false) :: stack →
      w.marks.contains r = true ∨ (r, false) ∈ stack := by
    rintro r hsome (hmark | hmem)
    · exact .inl hmark
    · rcases List.mem_cons.mp hmem with heq | hmem
      · cases heq
        rcases hindex with hmark | hnone
        · exact .inl hmark
        · rw [hnone] at hsome
          cases hsome
      · exact .inr hmem
  refine ⟨fun i hi => (List.mem_cons.mp (h.entered i hi)).resolve_left nofun, h.finished, h.order,
    fun i hi => h.leaving i (List.mem_cons_of_mem _ hi), fun i hi => ?_, h.whole,
    fun hroot => still _ hroot (h.root hroot)⟩
  obtain ⟨cell, hcell, hrefs⟩ := h.met i hi
  exact ⟨cell, hcell, fun r hr hsome => still r hsome (hrefs r hr hsome)⟩

lemma Walked.enter {index : Nat} {stack : List (Nat × Bool)} {w : Walk}
    (h : Walked c ((index, false) :: stack) w) (hnew : w.marks.contains index = false) {cell : Cell}
    (hcell : c.cell? index = some cell) :
    Walked c (c.entries (w.marks.insert index .entered) cell ++ (index, true) :: stack)
      { w with
        marks := w.marks.insert index .entered
        problems := w.problems ++ c.referenceProblems (w.marks.insert index .entered) cell index }
    := by
  have hstack : ∀ e ∈ stack, e ∈ c.entries (w.marks.insert index .entered) cell ++
      (index, true) :: stack :=
    fun e he => List.mem_append_right _ (List.mem_cons_of_mem _ he)
  have still : ∀ r, w.marks.contains r = true ∨ (r, false) ∈ (index, false) :: stack →
      (w.marks.insert index .entered).contains r = true ∨ (r, false) ∈
        c.entries (w.marks.insert index .entered) cell ++ (index, true) :: stack := by
    rintro r (hmark | hmem)
    · exact .inl (contains_insert.mpr (.inr hmark))
    · rcases List.mem_cons.mp hmem with heq | hmem
      · cases heq
        exact .inl (contains_insert.mpr (.inl rfl))
      · exact .inr (hstack _ hmem)
  refine ⟨fun i hi => ?entered, fun i hi => ?finished, fun i hi => ?order, fun i hi => ?leaving,
    fun i hi => ?met, fun hp i cell' hi hcell' r hr => ?whole, fun hroot => still _ (h.root hroot)⟩
  case entered =>
    rw [KeyMap.get?_insert] at hi
    split at hi
    · next heq => exact List.mem_append_right _ (heq ▸ List.mem_cons_self)
    · exact hstack _ ((List.mem_cons.mp (h.entered i hi)).resolve_left nofun)
  case finished =>
    rw [KeyMap.get?_insert] at hi
    split at hi
    · cases hi
    · exact h.finished i hi
  case order =>
    exact contains_insert.mpr (.inr (h.order i hi))
  case leaving =>
    rw [contains_insert]
    rcases List.mem_cons.mp ((List.mem_append.mp hi).resolve_left not_done_of_mem_entries) with hi | hi
    · cases hi
      exact .inl rfl
    · exact .inr (h.leaving i (List.mem_cons_of_mem _ hi))
  case met =>
    rcases contains_insert.mp hi with rfl | hi
    · refine ⟨cell, hcell, fun r hr hsome => ?_⟩
      cases hmark : (w.marks.insert i .entered).contains r with
      | true => exact .inl rfl
      | false => exact .inr (List.mem_append_left _ (mem_entries.mpr ⟨rfl, hr, hmark, hsome⟩))
    · obtain ⟨cell', hcell', hrefs⟩ := h.met i hi
      exact ⟨cell', hcell', fun r hr hsome => still r (hrefs r hr hsome)⟩
  case whole =>
    obtain ⟨hp₁, hp₂⟩ := List.append_eq_nil_iff.mp hp
    rcases contains_insert.mp hi with rfl | hi
    · rw [hcell] at hcell'
      cases hcell'
      by_contra hsome
      rw [Bool.not_eq_true] at hsome
      refine referenceProblems_ne_nil hr ?_ hsome hp₂
      rw [← Bool.not_eq_true, contains_insert]
      rintro (rfl | hmark)
      · rw [hcell] at hsome
        cases hsome
      · obtain ⟨cell', hcell', -⟩ := h.met r hmark
        rw [hcell'] at hsome
        cases hsome
    · exact h.whole hp₁ i cell' hi hcell' r hr

lemma Walked.turned {s s' : List (Nat × Bool) × Walk} (h : Walked c s.1 s.2)
    (hturn : Turned c s s') : Walked c s'.1 s'.2 := by
  cases hturn with
  | finish => exact h.finish
  | skip hindex => exact h.skip hindex
  | enter hmark hcell => exact h.enter hmark hcell

/-- Where the loop starts. -/
def start : List (Nat × Bool) × Walk := ([(resultCell, false)], ⟨[], [], []⟩)

lemma walked_start (c : Callable) : Walked c start.1 start.2 := by
  refine ⟨nofun, nofun, nofun, fun i hi => ?_, nofun, nofun, fun _ => .inr List.mem_cons_self⟩
  cases List.mem_singleton.mp hi

lemma work_start_le (c : Callable) : c.work start ≤ c.walkFuel := by
  have hsum : ∀ cells : List (Nat × Cell), unmetWeight [] cells + 2 =
      cells.foldr (fun e n => 1 + e.2.kind.references.length + n) 2 := by
    intro cells
    induction cells with
    | nil => rfl
    | cons e cells ih =>
      rw [List.foldr_cons, ← ih]
      simp only [unmetWeight, List.foldr_cons]
      simp [KeyMap.contains]
      omega
  have hstart : c.work start = 1 + unmetWeight [] c.cells := rfl
  rw [walkFuel, ← hsum, hstart]
  omega

lemma reachable_eq_turns (c : Callable) : c.reachable =
    ((c.turn^[c.walkFuel] start).2.order, (c.turn^[c.walkFuel] start).2.problems) := by
  rw [reachable, walk_eq_turns]
  rfl

/-- **The walk does everything there is to do.** -/
lemma walked_reachable (c : Callable) : Walked c [] (c.turn^[c.walkFuel] start).2 :=
  turns_end (work_start_le c) ▸
    turns_induction (P := fun s => Walked c s.1 s.2) (fun _ _ => Walked.turned) (walked_start c) _

lemma Walked.mem_order {w : Walk} (h : Walked c [] w) {i : Nat} (hi : w.marks.contains i = true) :
    i ∈ w.order := by
  obtain ⟨mark, hmark⟩ := Option.isSome_iff_exists.mp hi
  cases mark with
  | entered => cases h.entered i hmark
  | finished => exact h.finished i hmark

lemma result_mem_reachable (hresult : (c.cell? resultCell).isSome = true) :
    resultCell ∈ c.reachable.1 := by
  have h := walked_reachable c
  rw [reachable_eq_turns]
  exact h.mem_order ((h.root hresult).resolve_right List.not_mem_nil)

lemma reachable_refers {i : Nat} (hi : i ∈ c.reachable.1) : ∃ cell, c.cell? i = some cell ∧
    ∀ r ∈ cell.kind.references, (c.cell? r).isSome = true → r ∈ c.reachable.1 := by
  have h := walked_reachable c
  rw [reachable_eq_turns] at hi ⊢
  obtain ⟨cell, hcell, hrefs⟩ := h.met i (h.order i hi)
  exact ⟨cell, hcell, fun r hr hsome =>
    h.mem_order ((hrefs r hr hsome).resolve_right List.not_mem_nil)⟩

/-- **Without defects the cells found are closed**: the result is one of them, each exists, and so
does everything that it refers to. -/
lemma reachable_closed (hproblems : c.reachable.2 = [])
    (hresult : (c.cell? resultCell).isSome = true) :
    resultCell ∈ c.reachable.1 ∧ ∀ i ∈ c.reachable.1, ∃ cell, c.cell? i = some cell ∧
      ∀ r ∈ cell.kind.references, r ∈ c.reachable.1 := by
  refine ⟨result_mem_reachable hresult, fun i hi => ?_⟩
  obtain ⟨cell, hcell, hrefs⟩ := reachable_refers hi
  have h := walked_reachable c
  rw [reachable_eq_turns] at hi hproblems
  exact ⟨cell, hcell, fun r hr => hrefs r hr (h.whole hproblems i cell (h.order i hi) hcell r hr)⟩

end Callable

end CellMachine
