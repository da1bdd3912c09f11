import CellMachine.Proofs.Call.Acyclic

/-!
The walk over the cells of a callable is exact: it lists every cell that the result needs and that
exists, once, and nothing else; it tells of a cycle if there is one among them, and only then; and it
reports each reference of theirs that leads nowhere, once.

A cell is on its way while the stack holds an entry that is to finish it. There is at most one, and all
entries above it are for cells that it needs; so a reference to a cell that is on its way closes a
cycle. Problems are counted cell by cell, over those that are finished or on their way.
-/

namespace CellMachine

namespace Callable

variable {c : Callable}

/-- The defects of a cell's references to cells that do not exist. -/
def missing (c : Callable) (index : Nat) : List Problem :=
  match c.cell? index with
  | none => []
  | some cell =>
    cell.kind.references.zipIdx.filterMap fun e =>
      if (c.cell? e.1).isSome then none else some (dangling cell index e.2 e.1)

/-- The cells that are on their way. -/
def leaving (stack : List (Nat × Bool)) : List Nat := (stack.filter fun e => e.2).map Prod.fst

/-- What holds of the cells that are on their way, and of the problems told, throughout a walk. -/
structure Explored (c : Callable) (stack : List (Nat × Bool)) (w : Walk) : Prop where
  leaving : ∀ i, (i, true) ∈ stack → w.marks.get? i = some .entered
  listed : ∀ i ∈ w.order, w.marks.get? i = some .finished
  nodup : w.order.Nodup
  once : stack.Pairwise fun e f => e.2 = true → f ≠ e
  /-- A cell on its way needs what is above it. -/
  above : stack.Pairwise fun e f => f.2 = true → Relation.ReflTransGen c.Refers f.1 e.1
  cycles : ∀ p ∈ w.problems, tellsCycle p = true →
    ∃ i, c.Reaches i ∧ Relation.TransGen c.Refers i i
  dangling : (w.problems.filter fun p => !tellsCycle p).Perm
    ((w.order ++ Callable.leaving stack).flatMap c.missing)

lemma explored_start (c : Callable) : Explored c start.1 start.2 where
  leaving i hi := by cases List.mem_singleton.mp hi
  listed := nofun
  nodup := List.nodup_nil
  once := List.pairwise_singleton _ _
  above := List.pairwise_singleton _ _
  cycles := nofun
  dangling := .refl _

lemma Explored.finish {index : Nat} {stack : List (Nat × Bool)} {w : Walk}
    (h : Explored c ((index, true) :: stack) w) :
    Explored c stack
      { w with marks := w.marks.insert index .finished, order := w.order ++ [index] } where
  leaving i hi := by
    have hne : index ≠ i := by
      rintro rfl
      exact List.rel_of_pairwise_cons h.once hi rfl rfl
    rw [KeyMap.get?_insert_of_ne hne]
    exact h.leaving i (List.mem_cons_of_mem _ hi)
  listed i hi := by
    rw [KeyMap.get?_insert]
    split
    · rfl
    · next hne =>
      exact h.listed i ((List.mem_append.mp hi).resolve_right fun hi =>
        hne (List.mem_singleton.mp hi).symm)
  nodup := by
    refine List.nodup_append'.mpr ⟨h.nodup, List.nodup_singleton _, fun i hi hlast => ?_⟩
    cases List.mem_singleton.mp hlast
    cases (h.listed index hi).symm.trans (h.leaving index List.mem_cons_self)
  once := h.once.of_cons
  above := h.above.of_cons
  cycles := h.cycles
  dangling := by
    have hleaving : Callable.leaving ((index, true) :: stack) =
        [index] ++ Callable.leaving stack := rfl
    rw [List.append_assoc, ← hleaving]
    exact h.dangling

lemma Explored.skip {index : Nat} {stack : List (Nat × Bool)} {w : Walk}
    (h : Explored c ((index, false) :: stack) w) : Explored c stack w where
  leaving i hi := h.leaving i (List.mem_cons_of_mem _ hi)
  listed := h.listed
  nodup := h.nodup
  once := h.once.of_cons
  above := h.above.of_cons
  cycles := h.cycles
  dangling := h.dangling

/-- A reference to a cell that is on its way closes a cycle; no other does. -/
lemma exists_of_tellsCycle {marks : KeyMap Nat Mark} {cell : Cell} {index : Nat} {p : Problem}
    (hp : p ∈ c.referenceProblems marks cell index) (htells : tellsCycle p = true) :
    ∃ r ∈ cell.kind.references, marks.get? r = some .entered := by
  obtain ⟨⟨r, n⟩, hmem, hproblem⟩ := List.mem_filterMap.mp hp
  refine ⟨r, List.fst_mem_of_mem_zipIdx (List.mem_reverse.mp hmem), ?_⟩
  dsimp only [referenceProblem] at hproblem
  cases hmark : marks.get? r with
  | some mark =>
    cases mark with
    | entered => rfl
    | finished =>
      rw [hmark] at hproblem
      cases hproblem
  | none =>
    rw [hmark] at hproblem
    dsimp only at hproblem
    split at hproblem
    · cases hproblem
    · cases hproblem
      rw [tellsCycle_dangling] at htells
      cases htells

lemma filter_referenceProblems {marks : KeyMap Nat Mark} {cell : Cell} {index : Nat}
    (hmarks : ∀ i, marks.contains i = true → (c.cell? i).isSome = true)
    (hcell : c.cell? index = some cell) :
    ((c.referenceProblems marks cell index).filter fun p => !tellsCycle p).Perm
      (c.missing index) := by
  have pointwise : ∀ e : Nat × Nat,
      (c.referenceProblem marks cell index e.2 e.1).filter (fun p => !tellsCycle p) =
        if (c.cell? e.1).isSome then none else some (Callable.dangling cell index e.2 e.1) := by
    rintro ⟨r, n⟩
    rw [referenceProblem]
    cases hmark : marks.get? r with
    | none =>
      dsimp only
      split
      · rfl
      · simp
    | some mark =>
      have hexists : (c.cell? r).isSome = true :=
        hmarks r (Option.isSome_iff_exists.mpr ⟨mark, hmark⟩)
      rw [if_pos hexists]
      cases mark with
      | entered => simp
      | finished => rfl
  rw [referenceProblems, missing, hcell, List.filter_filterMap]
  simp only [pointwise]
  exact (List.reverse_perm _).filterMap _

lemma leaving_entries (marks : KeyMap Nat Mark) (cell : Cell) (index : Nat)
    (stack : List (Nat × Bool)) :
    Callable.leaving (c.entries marks cell ++ (index, true) :: stack) =
      index :: Callable.leaving stack := by
  have hnone : (c.entries marks cell).filter (fun e => e.2) = [] :=
    List.filter_eq_nil_iff.mpr fun e he => by simp [(mem_entries.mp he).1]
  rw [Callable.leaving, List.filter_append, hnone]
  rfl

/-- If a cycle is told of an entered cell, there is one: the reference leads to the cell itself, or to one
that is on its way and needs the cell. -/
lemma Explored.cycle {index : Nat} {stack : List (Nat × Bool)} {w : Walk}
    (h : Explored c ((index, false) :: stack) w) (hw : Walked c ((index, false) :: stack) w)
    {cell : Cell} (hcell : c.cell? index = some cell) {p : Problem}
    (hp : p ∈ c.referenceProblems (w.marks.insert index .entered) cell index)
    (htells : tellsCycle p = true) : Relation.TransGen c.Refers index index := by
  obtain ⟨r, hr, hentered⟩ := exists_of_tellsCycle hp htells
  have hstep : c.Refers index r := ⟨cell, hcell, hr⟩
  rw [KeyMap.get?_insert] at hentered
  split at hentered
  · next heq =>
    subst heq
    exact .single hstep
  · have hway := (List.mem_cons.mp (hw.entered r hentered)).resolve_left (by simp)
    exact .head' hstep (List.rel_of_pairwise_cons h.above hway rfl)

lemma Walked.exists_of_contains {stack : List (Nat × Bool)} {w : Walk} (hw : Walked c stack w)
    {index : Nat} {cell : Cell} (hcell : c.cell? index = some cell) {i : Nat} {mark : Mark}
    (hi : (w.marks.insert index mark).contains i = true) : (c.cell? i).isSome = true := by
  rcases contains_insert.mp hi with rfl | hi
  · exact Option.isSome_iff_exists.mpr ⟨cell, hcell⟩
  · obtain ⟨cell', hcell', -⟩ := hw.met i hi
    exact Option.isSome_iff_exists.mpr ⟨cell', hcell'⟩

lemma Explored.enter {index : Nat} {stack : List (Nat × Bool)} {w : Walk}
    (h : Explored c ((index, false) :: stack) w) (hw : Walked c ((index, false) :: stack) w)
    (ho : Ordered c ((index, false) :: stack) w) (hmark : w.marks.contains index = false)
    {cell : Cell} (hcell : c.cell? index = some cell) :
    Explored c (c.entries (w.marks.insert index .entered) cell ++ (index, true) :: stack)
      { w with
        marks := w.marks.insert index .entered
        problems := w.problems ++
          c.referenceProblems (w.marks.insert index .entered) cell index } := by
  -- The new cell has no mark, so it is none of those that are marked.
  have hnew : ∀ {i mark}, w.marks.get? i = some mark → index ≠ i := by
    rintro i mark hi rfl
    rw [KeyMap.contains, hi] at hmark
    cases hmark
  have hbelow : ∀ {i}, (i, true) ∈ stack → index ≠ i := fun hi =>
    hnew (h.leaving _ (List.mem_cons_of_mem _ hi))
  -- All cells below on the stack lead to the new one, as they wait for it.
  have needs : ∀ {f}, f ∈ stack → f.2 = true → Relation.ReflTransGen c.Refers f.1 index :=
    fun hf => List.rel_of_pairwise_cons h.above hf
  refine ⟨fun i hi => ?leaving, fun i hi => ?listed, h.nodup, ?once, ?above,
    fun p hp htells => ?cycles, ?dangling⟩
  case leaving =>
    rcases List.mem_cons.mp ((List.mem_append.mp hi).resolve_left not_done_of_mem_entries) with hi | hi
    · cases hi
      exact KeyMap.get?_insert_self ..
    · rw [KeyMap.get?_insert_of_ne (hbelow hi)]
      exact h.leaving i (List.mem_cons_of_mem _ hi)
  case listed =>
    dsimp only
    rw [KeyMap.get?_insert_of_ne (hnew (h.listed i hi))]
    exact h.listed i hi
  case once =>
    refine List.pairwise_append.mpr ⟨
      List.pairwise_map.mpr (List.pairwise_of_forall fun _ _ h => absurd h Bool.false_ne_true),
      List.pairwise_cons.mpr ⟨fun f hf _ => ?_, h.once.of_cons⟩, fun e he _ _ htrue => ?_⟩
    · rintro rfl
      exact hbelow hf rfl
    · cases (mem_entries.mp he).1.symm.trans htrue
  case above =>
    refine List.pairwise_append.mpr ⟨
      List.pairwise_map.mpr (List.pairwise_of_forall fun _ _ h => absurd h Bool.false_ne_true),
      List.pairwise_cons.mpr ⟨fun f hf => needs hf, h.above.of_cons⟩, fun e he f hf htrue => ?_⟩
    have hrefers : c.Refers index e.1 := ⟨cell, hcell, (mem_entries.mp he).2.1⟩
    rcases List.mem_cons.mp hf with rfl | hf
    · exact .single hrefers
    · exact (needs hf htrue).tail hrefers
  case cycles =>
    rcases List.mem_append.mp hp with hp | hp
    · exact h.cycles p hp htells
    · exact ⟨index, ho.reached _ List.mem_cons_self, h.cycle hw hcell hp htells⟩
  case dangling =>
    have hskip : Callable.leaving ((index, false) :: stack) = Callable.leaving stack := rfl
    have hmarked : ∀ i, (w.marks.insert index .entered).contains i = true →
        (c.cell? i).isSome = true := fun i => hw.exists_of_contains hcell
    rw [leaving_entries, List.filter_append]
    refine (h.dangling.append (filter_referenceProblems hmarked hcell)).trans ?_
    rw [hskip, List.flatMap_append, List.flatMap_append, List.flatMap_cons, List.append_assoc]
    exact List.perm_append_comm.append_left _

lemma Explored.turned {s s' : List (Nat × Bool) × Walk} (h : Explored c s.1 s.2)
    (hw : Walked c s.1 s.2) (ho : Ordered c s.1 s.2) (hturn : Turned c s s') :
    Explored c s'.1 s'.2 := by
  cases hturn with
  | finish => exact h.finish
  | skip => exact h.skip
  | enter hmark hcell => exact h.enter hw ho hmark hcell

/-- **At the end of the walk nothing is on its way.** -/
lemma explored_reachable (c : Callable) : Explored c [] (c.turn^[c.walkFuel] start).2 :=
  turns_end (work_start_le c) ▸ (turns_induction
    (P := fun s => Walked c s.1 s.2 ∧ Ordered c s.1 s.2 ∧ Explored c s.1 s.2)
    (fun _ _ ⟨hw, ho, h⟩ hturn => ⟨hw.turned hturn, ho.turned hw hturn, h.turned hw ho hturn⟩)
    ⟨walked_start c, ordered_start c, explored_start c⟩ c.walkFuel).2.2

/-- **What is needed is listed**, if it exists. -/
lemma mem_reachable_iff {i : Nat} :
    i ∈ c.reachable.1 ↔ c.Reaches i ∧ (c.cell? i).isSome = true := by
  constructor
  · intro hi
    obtain ⟨cell, hcell, -⟩ := reachable_refers hi
    exact ⟨reaches_of_mem_reachable hi, Option.isSome_iff_exists.mpr ⟨cell, hcell⟩⟩
  · rintro ⟨hreaches, hexists⟩
    induction hreaches with
    | refl => exact result_mem_reachable hexists
    | tail _ hstep ih =>
      have hfrom := hstep
      obtain ⟨cell, hcell, -⟩ := hfrom
      exact mem_reachable_of_refers (ih (Option.isSome_iff_exists.mpr ⟨cell, hcell⟩)) hstep hexists

/-- **A cycle is told of if there is one.** -/
lemma noCycle_reachable_iff :
    NoCycle c.reachable.2 ↔ ∀ i, c.Reaches i → ¬Relation.TransGen c.Refers i i := by
  constructor
  · intro hproblems i hi hcycle
    obtain ⟨j, ⟨cell, hcell, -⟩, -⟩ := Relation.TransGen.head'_iff.mp hcycle
    have hexists := Option.isSome_iff_exists.mpr ⟨cell, hcell⟩
    exact not_transGen_refers hproblems (mem_reachable_iff.mpr ⟨hi, hexists⟩) hcycle
  · intro hnone p hp
    rw [reachable_eq_turns] at hp
    by_contra htells
    obtain ⟨i, hi, hcycle⟩ :=
      (explored_reachable c).cycles p hp ((Bool.not_eq_false _).mp htells)
    exact hnone i hi hcycle

/-- **The walk is exact.** Its loop ends. It lists the cells that the result needs and that exist, each
once. It tells of a cycle if, and only if, one of them needs itself; if none does, each is listed after
those existing cells that it refers to. Its other problems are, up to their order, one for each
reference of a listed cell that leads nowhere: a fault of an argument if the cell applies an opcode,
and of the structure otherwise. -/
theorem reachable_exact (c : Callable) :
    (∃ n w, c.turn^[n] ([(resultCell, false)], ⟨[], [], []⟩) = ([], w) ∧
      c.reachable = (w.order, w.problems)) ∧
    c.reachable.1.Nodup ∧
    (∀ i, i ∈ c.reachable.1 ↔
      Relation.ReflTransGen c.Refers resultCell i ∧ (c.cell? i).isSome = true) ∧
    ((∃ p ∈ c.reachable.2, tellsCycle p = true) ↔
      ∃ i, Relation.ReflTransGen c.Refers resultCell i ∧ Relation.TransGen c.Refers i i) ∧
    ((¬∃ i, Relation.ReflTransGen c.Refers resultCell i ∧ Relation.TransGen c.Refers i i) →
      ∀ i ∈ c.reachable.1, ∀ j, c.Refers i j → (c.cell? j).isSome = true →
        c.reachable.1.idxOf j < c.reachable.1.idxOf i) ∧
    (c.reachable.2.filter fun p => !tellsCycle p).Perm (c.reachable.1.flatMap c.missing) ∧
    ∀ (cell : Cell) (index position reference : Nat),
      (dangling cell index position reference).cause =
        match cell.kind with
        | .opcode .. => .argumentRef
        | _ => .structureCorrupt := by
  have hend : (c.turn^[c.walkFuel] start).1 = [] := turns_end (work_start_le c)
  have h := explored_reachable c
  refine ⟨⟨c.walkFuel, _, Prod.ext hend rfl, reachable_eq_turns c⟩, ?_, fun i => mem_reachable_iff,
    ?_, fun hnone i hi j hij hj => ?_, ?_, fun cell index position reference => ?_⟩
  · rw [reachable_eq_turns]
    exact h.nodup
  · have := not_congr (noCycle_reachable_iff (c := c))
    simpa [NoCycle, Reaches] using this
  · exact idxOf_reachable_lt
      (noCycle_reachable_iff.mpr fun i hi hcycle => hnone ⟨i, hi, hcycle⟩) hi hij hj
  · rw [reachable_eq_turns]
    have hleaving : Callable.leaving [] = [] := rfl
    have := h.dangling
    rwa [hleaving, List.append_nil] at this
  · unfold Callable.dangling
    split <;> simp_all [Problem.set]

end Callable

end CellMachine
