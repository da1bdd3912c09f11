import CellMachine.Proofs.Ranking.Activation

/-!
Work that goes down. Whatever an action waits for stays below the slot whose value the action produces,
and at most one action of a tree, the one that is to be done first, produces the value of a cell that
was not at work before.
-/

namespace CellMachine

open Machine

/-! ### Ranks with room -/

/-- Ranks that contain the constants' and with each rank a higher one. -/
structure Roomy (U : LowerSet ℚ) : Prop where
  zero : 0 ∈ U
  above : ∀ x ∈ U, ∃ y ∈ U, x < y

lemma roomy_Iio {x : ℚ} (hx : 0 < x) : Roomy (.Iio x) := by
  refine ⟨hx, fun y hy => ?_⟩
  obtain ⟨z, hyz, hzx⟩ := exists_between (LowerSet.mem_Iio_iff.mp hy)
  exact ⟨z, hzx, hyz⟩

variable {base : Memory} {m m' : Machine} {ρ ρ' : Nat → ℚ} {U V : LowerSet ℚ}

/-- There is room above a few slots. -/
lemma Roomy.exists_above (h : Roomy U) {as : List Address} (has : ∀ a ∈ as, m.Among ρ U a) :
    ∃ r ∈ U, 0 < r ∧ ∀ a ∈ as, m.Among ρ (.Iio r) a := by
  induction as with
  | nil =>
    obtain ⟨r, hr, hpos⟩ := h.above 0 h.zero
    exact ⟨r, hr, hpos, List.forall_mem_nil _⟩
  | cons a as ih =>
    obtain ⟨ha, has⟩ := List.forall_mem_cons.mp has
    obtain ⟨r, hr, hpos, hall⟩ := ih has
    have hmax : max r (a.rank ρ) ∈ U := by
      rcases max_choice r (a.rank ρ) with hmax | hmax <;> rw [hmax]
      · exact hr
      · exact ha.2
    obtain ⟨s, hs, hlt⟩ := h.above _ hmax
    obtain ⟨hrs, has'⟩ := max_lt_iff.mp hlt
    refine ⟨s, hs, hpos.trans hrs, List.forall_mem_cons.mpr ⟨⟨ha.1, has'⟩, fun b hb => ?_⟩⟩
    exact ⟨(hall b hb).1, (LowerSet.mem_Iio_iff.mp (hall b hb).2).trans hrs⟩

/-! ### Work -/

/-- The slot whose value an opcode or a call produces with some work, which starts or ends it. -/
def Work.produces? : Work Action → Option Address
  | .invoke i => some i.target
  | .conclude i => some i.target
  | .call _ target => some target
  | .leave target _ => some target
  | _ => none

/-- The ranks that are left to what work waits for. -/
def Work.bound (ρ : Nat → ℚ) (U : LowerSet ℚ) : Work Action → LowerSet ℚ
  | .invoke i => .Iio (i.target.rank ρ)
  | .conclude i => .Iio (i.target.rank ρ)
  | .call _ target => .Iio (target.rank ρ)
  | .leave target _ => .Iio (target.rank ρ)
  | .settle target => .Iic (target.rank ρ)
  | _ => U

/-- A combiner with a context among some ranks. -/
def Combiner.Ranked (m : Machine) (ρ : Nat → ℚ) (U : LowerSet ℚ) : Combiner → Prop
  | .opcode _ context _ => ∀ a ∈ context, m.Among ρ U a
  | .function .. => True

/-- Work on slots of some ranks, which goes down from the slot whose value it produces. -/
def Work.Ranked (m : Machine) (ρ : Nat → ℚ) (U : LowerSet ℚ) : Work Action → Prop
  | .value a => m.Among ρ U a
  | .evaluate a _ => m.Among ρ U a
  | .settle target => m.Among ρ U target
  | .deepen => True
  | .call argument target =>
    m.Among ρ U target ∧ 0 < target.rank ρ ∧ m.Among ρ (.Iio (target.rank ρ)) argument
  | .leave target _ => m.Among ρ U target
  | .invoke i =>
    m.Among ρ U i.target ∧ 0 < i.target.rank ρ ∧ ∀ a ∈ i.args, m.Among ρ (.Iio (i.target.rank ρ)) a
  | .conclude i => m.Among ρ U i.target
  | .reduce c initial => Roomy U ∧ c.Ranked m ρ U ∧ m.Among ρ U initial
  | .combine c rest => Roomy U ∧ c.Ranked m ρ U ∧ ∀ a ∈ rest, m.Among ρ U a
  | .combineLevel c carry => Roomy U ∧ c.Ranked m ρ U ∧ ∀ a ∈ carry, m.Among ρ U a
  | .custom _ => False

/-- The cell whose value work produces has none yet. -/
def Work.Fresh (m : Machine) (w : Work Action) : Prop :=
  ∀ i, w.produces? = some (.at i) → (m.pending.get? i).isSome = true →
    m.store.memory.value? (.at i) = none

/-- Work that produces the value of no cell. -/
def Work.Aside (m : Machine) (w : Work Action) : Prop :=
  ∀ i, w.produces? = some (.at i) → i < m.store.memory.slots.size ∧ m.pending.get? i = none

/-- An action with which no cell is at work. -/
def Action.Idle (m : Machine) : Action → Prop := Every fun _ w => w.Aside m

/-- **An action that goes down** among some ranks: what it waits for keeps to the ranks that are left
to it, and only the first of that, which is done next, may be at work for a cell. -/
inductive Action.Descends (m : Machine) (ρ : Nat → ℚ) : LowerSet ℚ → Action → Prop
  | mk {U : LowerSet ℚ} {ds : List Action} {w : Work Action} (hranked : w.Ranked m ρ U)
    (hfresh : w.Fresh m) (hds : ∀ d ∈ ds, Descends m ρ (w.bound ρ U) d)
    (hidle : ∀ d ∈ ds.tail, d.Idle m) : Descends m ρ U (.mk ds w)

/-- A step to a slot of some ranks, or to work that goes down among them. -/
def Step.Descends (m : Machine) (ρ : Nat → ℚ) (U : LowerSet ℚ) : Step Action → Prop
  | .value b => m.Among ρ U b
  | .error _ => True
  | .action next => next.Descends m ρ U

/-! ### Later states -/

lemma Combiner.Ranked.later {c : Combiner} (h : c.Ranked m ρ U) (hconfined : Confined V ρ m ρ' m') :
    c.Ranked m' ρ' U := by
  cases c with
  | opcode op context type => exact fun a ha => hconfined.among (h a ha)
  | function f first second context type => trivial

namespace Work

variable {w : Work Action}

lemma Ranked.produces (h : w.Ranked m ρ U) {a : Address} (ha : w.produces? = some a) :
    m.Among ρ U a := by
  cases w <;> cases ha
  case call => exact h.1
  case leave => exact h
  case invoke => exact h.1
  case conclude => exact h

lemma Ranked.bound_eq (h : w.Ranked m ρ U) (hconfined : Confined V ρ m ρ' m') :
    w.bound ρ' U = w.bound ρ U := by
  cases w with
  | settle target => exact congrArg LowerSet.Iic (hconfined.rank h.1)
  | call argument target => exact congrArg LowerSet.Iio (hconfined.rank h.1.1)
  | leave target f => exact congrArg LowerSet.Iio (hconfined.rank h.1)
  | invoke i => exact congrArg LowerSet.Iio (hconfined.rank h.1.1)
  | conclude i => exact congrArg LowerSet.Iio (hconfined.rank h.1)
  | _ => rfl

lemma Ranked.bound_le (h : w.Ranked m ρ U) : w.bound ρ U ≤ U := by
  have below : ∀ {a : Address}, m.Among ρ U a → LowerSet.Iio (a.rank ρ) ≤ U :=
    fun ha _ hx => U.lower (LowerSet.mem_Iio_iff.mp hx).le ha.2
  cases w with
  | settle target => exact fun _ hx => U.lower (LowerSet.mem_Iic_iff.mp hx) h.2
  | call argument target => exact below h.1
  | leave target f => exact below h
  | invoke i => exact below h.1
  | conclude i => exact below h
  | _ => exact le_rfl

lemma bound_of_produces {a : Address} (ha : w.produces? = some a) : w.bound ρ U = .Iio (a.rank ρ) := by
  cases w <;> cases ha <;> rfl

lemma Ranked.later (h : w.Ranked m ρ U) (hconfined : Confined V ρ m ρ' m') : w.Ranked m' ρ' U := by
  cases w with
  | value a => exact hconfined.among h
  | evaluate a depth => exact hconfined.among h
  | settle target => exact hconfined.among h
  | deepen => trivial
  | call argument target =>
    obtain ⟨htarget, hpos, hargument⟩ := h
    have hrank := hconfined.rank htarget.1
    exact ⟨hconfined.among htarget, hrank ▸ hpos, hrank ▸ hconfined.among hargument⟩
  | leave target f => exact hconfined.among h
  | invoke i =>
    obtain ⟨htarget, hpos, hargs⟩ := h
    have hrank := hconfined.rank htarget.1
    exact ⟨hconfined.among htarget, hrank ▸ hpos, fun a ha => hrank ▸ hconfined.among (hargs a ha)⟩
  | conclude i => exact hconfined.among h
  | reduce c initial => exact ⟨h.1, h.2.1.later hconfined, hconfined.among h.2.2⟩
  | combine c rest => exact ⟨h.1, h.2.1.later hconfined, fun a ha => hconfined.among (h.2.2 a ha)⟩
  | combineLevel c carry =>
    exact ⟨h.1, h.2.1.later hconfined, fun a ha => hconfined.among (h.2.2 a ha)⟩
  | custom run => exact h

lemma fresh_of_none (h : w.produces? = none) : w.Fresh m := by
  intro i hi
  rw [h] at hi
  cases hi

lemma aside_of_none (h : w.produces? = none) : w.Aside m := by
  intro i hi
  rw [h] at hi
  cases hi

lemma Aside.fresh (h : w.Aside m) : w.Fresh m := by
  intro i hi hsome
  rw [(h i hi).2] at hsome
  cases hsome

lemma Aside.later (h : w.Aside m) (hconfined : Confined V ρ m ρ' m') : w.Aside m' := by
  intro i hi
  obtain ⟨hlt, hnone⟩ := h i hi
  exact ⟨lt_of_lt_of_le hlt hconfined.size, (hconfined.cells i hlt).trans hnone⟩

lemma Fresh.later (h : w.Fresh m) (hranked : w.Ranked m ρ U) (hconfined : Confined V ρ m ρ' m')
    (habove : ∀ a, w.produces? = some a → a.rank ρ ∉ V) : w.Fresh m' := by
  intro i hi hsome
  obtain ⟨j, hj, heq⟩ := (hranked.produces hi).1
  cases heq
  rw [hconfined.cells i hj] at hsome
  exact hconfined.unvalued i hj (habove _ hi) (h i hi hsome)

end Work

namespace Action

lemma Idle.later {a : Action} (h : a.Idle m) (hconfined : Confined V ρ m ρ' m') : a.Idle m' :=
  Every.mono (fun _ _ hw => hw.later hconfined) h

lemma Descends.later {a : Action} (h : a.Descends m ρ U) (hidle : a.Idle m)
    (hconfined : Confined V ρ m ρ' m') : a.Descends m' ρ' U := by
  induction h with
  | mk hranked _ _ htail ih =>
    refine .mk (hranked.later hconfined) (hidle.here.later hconfined).fresh (fun d hd => ?_)
      fun d hd => (htail d hd).later hconfined
    rw [hranked.bound_eq hconfined]
    exact ih d hd (hidle.dependencies d hd)

lemma Descends.calm {a : Action} (h : a.Descends m ρ U) (hconfined : Confined ⊥ ρ m ρ' m') :
    a.Descends m' ρ' U := by
  induction h with
  | mk hranked hfresh _ htail ih =>
    refine .mk (hranked.later hconfined) (hfresh.later hranked hconfined fun _ _ => ?_)
      (fun d hd => ?_) fun d hd => (htail d hd).later hconfined
    · exact LowerSet.notMem_bot
    · rw [hranked.bound_eq hconfined]
      exact ih d hd

/-! ### Actions -/

lemma descends_value {a : Address} (h : m.Among ρ U a) : (value a).Descends m ρ U :=
  .mk h (Work.fresh_of_none rfl) nofun nofun

lemma descends_evaluate {a : Address} (h : m.Among ρ U a) (depth : Depth) :
    (evaluate a depth).Descends m ρ U :=
  .mk h (Work.fresh_of_none rfl) nofun nofun

lemma idle_evaluate (a : Address) (depth : Depth) : (evaluate a depth).Idle m :=
  .mk (Work.aside_of_none rfl) nofun nofun

lemma Descends.andThen {a : Action} {w : Work Action} (h : a.Descends m ρ (w.bound ρ U))
    (hranked : w.Ranked m ρ U) (hfresh : w.Fresh m) : (a.andThen w).Descends m ρ U :=
  .mk hranked hfresh (fun _ hd => List.mem_singleton.mp hd ▸ h) nofun

lemma mem_invocation {i : Invocation} {d : Action} (h : d ∈ i.action.dependencies) :
    ∃ a ∈ i.args, ∃ depth, d = .evaluate a depth := by
  obtain ⟨e, he, hd⟩ := List.mem_filterMap.mp h
  refine ⟨e.2, (List.of_mem_zip he).2, ?_⟩
  split at hd <;> cases hd <;> exact ⟨_, rfl⟩

lemma descends_invocation {i : Invocation} (hranked : (Work.invoke i).Ranked m ρ U)
    (hfresh : (Work.invoke i).Fresh m) : i.action.Descends m ρ U := by
  refine .mk hranked hfresh (fun d hd => ?_) fun d hd => ?_
  · obtain ⟨a, ha, depth, rfl⟩ := mem_invocation (i := i) hd
    exact descends_evaluate (hranked.2.2 a ha) depth
  · obtain ⟨a, -, depth, rfl⟩ := mem_invocation (i := i) (List.mem_of_mem_tail hd)
    exact idle_evaluate a depth

lemma idle_invocation {i : Invocation} (h : (Work.invoke i).Aside m) : i.action.Idle m := by
  refine .mk h (fun d hd => ?_) nofun
  obtain ⟨a, -, depth, rfl⟩ := mem_invocation (i := i) hd
  exact idle_evaluate a depth

end Action

lemma Step.Descends.calm {step : Step Action} (h : step.Descends m ρ U)
    (hconfined : Confined ⊥ ρ m ρ' m') : step.Descends m' ρ' U := by
  cases step with
  | value b => exact hconfined.among h
  | error p => trivial
  | action next => exact Action.Descends.calm h hconfined

end CellMachine
