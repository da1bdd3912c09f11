import CellMachine.Proofs.Memory.Forced
import CellMachine.Proofs.Tandem.Levels

/-!
The terms of a reduction. Between the evaluations of its terms a reduction makes rooms for results, fills
them and runs the checks of its opcode, and does nothing else; a term in its turn leaves the rooms of the
reduction alone. Terms are evaluated where they are needed, in whatever state the reduction has then.
-/

namespace CellMachine

namespace Memory

/-- Every slot is still there with its cell, and with its value if it had one. -/
def Retains (m m' : Memory) : Prop :=
  ∀ a s, m.get? a = some s →
    ∃ s', m'.get? a = some s' ∧ s'.cell = s.cell ∧ ∀ v, s.value = some v → s'.value = some v

namespace Retains

variable {m m' m'' : Memory} {a : Address}

lemma refl (m : Memory) : m.Retains m := fun _ s hs => ⟨s, hs, rfl, fun _ => id⟩

lemma trans (h : m.Retains m') (h' : m'.Retains m'') : m.Retains m'' := fun a s hs => by
  obtain ⟨s', hs', hcell, hv⟩ := h a s hs
  obtain ⟨s'', hs'', hcell', hv'⟩ := h' a s' hs'
  exact ⟨s'', hs'', hcell'.trans hcell, fun v => hv' v ∘ hv v⟩

lemma keeps (h : m.Retains m') : m.Keeps m' := fun a s hs => by
  obtain ⟨s', hs', -, hv⟩ := h a s hs
  exact ⟨s', hs', hv⟩

lemma size_le (h : m.Retains m') : m.slots.size ≤ m'.slots.size := h.keeps.slots_le

lemma typeOf (h : m.Retains m') (ha : (m.get? a).isSome = true) : m'.typeOf a = m.typeOf a := by
  obtain ⟨s, hs⟩ := Option.isSome_iff_exists.mp ha
  obtain ⟨s', hs', hcell, -⟩ := h a s hs
  rw [Memory.typeOf, Memory.typeOf, hs, hs']
  exact congrArg Cell.type hcell

end Retains

lemma Over.retains {m m' : Memory} (h : m.Over m') : m.Retains m' := fun a s hs =>
  ⟨s, h.get?_of_some a s hs, rfl, fun _ => id⟩

lemma get?_memoize_eq (m : Memory) (a b : Address) (v : Value) :
    (m.memoize a v).get? b = if a = b then (m.get? b).map (Slot.fill v) else m.get? b := by
  match a, b with
  | .at i, .at j => simp only [get?_memoize, Address.at.injEq]
  | .at i, .loose k => rfl
  | .loose i, .at j => rfl
  | .loose i, .loose j =>
    simp only [memoize, Memory.get?, Array.getElem?_modify, Address.loose.injEq]

lemma retains_memoize (m : Memory) (a : Address) (v : Value) : m.Retains (m.memoize a v) := by
  intro b s hs
  rw [get?_memoize_eq, hs]
  split
  · exact ⟨s.fill v, rfl, rfl, fun w hw => Slot.value_fill hw v⟩
  · exact ⟨s, rfl, rfl, fun _ => id⟩

end Memory

/-- How slots hold values of some kind: with all their members, and for as long as slots are retained. -/
structure Representation (α : Type) where
  holds : Memory → Address → α → Prop
  forced : ∀ {memory a y}, holds memory a y → memory.Forced a
  retained : ∀ {memory memory' a y}, memory.Retains memory' → holds memory a y → holds memory' a y

/-- The registries that checks and evaluations of an opcode may leave, from a given one. -/
inductive Opcode.Leaves (op : Opcode) (types : Registry) : Registry → Prop
  | same : Leaves op types types
  | runtimeCheck {types' : Registry} (f : Frame) (memory : Memory) (h : Leaves op types types') :
    Leaves op types (op.runtimeCheck f memory types').2
  | evaluate (f : Frame) {s : Store} (h : Leaves op types s.types) :
    Leaves op types (op.evaluate f s).2.types
  | resultCheck {types' : Registry} (f : Frame) (v : Value) (memory : Memory)
    (h : Leaves op types types') : Leaves op types (op.resultCheck f v memory types').2

lemma Opcode.Leaves.trans {op : Opcode} {types types' types'' : Registry}
    (h : op.Leaves types types') (h' : op.Leaves types' types'') : op.Leaves types types'' := by
  induction h' with
  | same => exact h
  | runtimeCheck f memory _ ih => exact .runtimeCheck f memory ih
  | evaluate f _ ih => exact .evaluate f ih
  | resultCheck f v memory _ ih => exact .resultCheck f v memory ih

/-- Whether a notice tells that an opcode is about to run. -/
def Notice.isOpcodeStarted : Notice → Bool
  | .opcodeStarted .. => true
  | _ => false

/-- How many notices are told of each start of an opcode. -/
def Setting.heard (s : Setting) : Nat := if s.attention = .opcodes then 1 else 0

namespace Machine

/-- How many starts of opcodes were told. -/
def invocations (m : Machine) : Nat := m.notices.countP Notice.isOpcodeStarted

/-- **What a reduction does by itself** to a machine: it counts turns and tells, it makes rooms and fills
them, and checks leave what they remember of types. -/
structure Reducing (op : Opcode) (rooms : Nat → Prop) (m m' : Machine) : Prop where
  setting : m'.setting = m.setting
  compiled : m'.compiled = m.compiled
  pending : m'.pending = m.pending
  cancelled : m'.store.cancelled = m.store.cancelled
  types : op.Leaves m.store.types m'.store.types
  constants : m'.store.memory.constants = m.store.memory.constants
  directory : m'.store.memory.directory = m.store.memory.directory
  loose : m'.store.memory.loose = m.store.memory.loose
  memory : m.store.memory.Retains m'.store.memory
  slots : ∀ i < m.store.memory.slots.size, ¬ rooms i →
    m'.store.memory.get? (.at i) = m.store.memory.get? (.at i)

/-- What the evaluation of a term leaves alone: whatever has a value, and the rooms. -/
structure Spares (rooms : Nat → Prop) (m m' : Machine) : Prop where
  setting : m'.setting = m.setting
  memory : m.store.memory.Retains m'.store.memory
  rooms : ∀ i < m.store.memory.slots.size, rooms i →
    m'.store.memory.get? (.at i) = m.store.memory.get? (.at i)

/-- Rooms, with those that were made from one state of the machine to another. -/
def roomsSince (rooms : Nat → Prop) (m m' : Machine) (i : Nat) : Prop :=
  rooms i ∨ m.store.memory.slots.size ≤ i ∧ i < m'.store.memory.slots.size

variable {α : Type} {R : Representation α} {op : Opcode} {rooms rooms' : Nat → Prop}
  {m m' m'' : Machine}

namespace Reducing

lemma refl (m : Machine) : Reducing op rooms m m :=
  ⟨rfl, rfl, rfl, rfl, .same, rfl, rfl, rfl, .refl _, fun _ _ _ => rfl⟩

lemma trans (h : Reducing op rooms m m') (h' : Reducing op rooms' m' m'')
    (hrooms : ∀ i, rooms' i → rooms i ∨ m.store.memory.slots.size ≤ i) :
    Reducing op rooms m m'' where
  setting := h'.setting.trans h.setting
  compiled := h'.compiled.trans h.compiled
  pending := h'.pending.trans h.pending
  cancelled := h'.cancelled.trans h.cancelled
  types := h.types.trans h'.types
  constants := h'.constants.trans h.constants
  directory := h'.directory.trans h.directory
  loose := h'.loose.trans h.loose
  memory := h.memory.trans h'.memory
  slots := fun i hi hno => by
    have hno' : ¬ rooms' i := fun hroom => (hrooms i hroom).elim hno (not_le.mpr hi)
    exact (h'.slots i (lt_of_lt_of_le hi h.memory.size_le) hno').trans (h.slots i hi hno)

lemma mono (h : Reducing op rooms m m') (hrooms : ∀ i, rooms i → rooms' i) :
    Reducing op rooms' m m' :=
  { h with slots := fun i hi hno => h.slots i hi fun hroom => hno (hrooms i hroom) }

lemma of_store (hsetting : m'.setting = m.setting) (hstore : m'.store = m.store)
    (hcompiled : m'.compiled = m.compiled) (hpending : m'.pending = m.pending) :
    Reducing op rooms m m' := by
  refine ⟨hsetting, hcompiled, hpending, ?_, ?_, ?_, ?_, ?_, ?_, fun i _ _ => ?_⟩
  all_goals rw [hstore]
  · exact .same
  · exact .refl _

lemma steps (m : Machine) (n : Nat) : Reducing op rooms m { m with steps := n } :=
  .of_store rfl rfl rfl rfl

lemma withTypes {types : Registry} (h : op.Leaves m.store.types types) :
    Reducing op rooms m { m with store := { m.store with types } } :=
  ⟨rfl, rfl, rfl, rfl, h, rfl, rfl, rfl, .refl _, fun _ _ _ => rfl⟩

lemma withRoom (m : Machine) (type : Ty) : Reducing op rooms m (Tandem.withRoom type m) := by
  have hover := m.store.memory.over_allocate (reduceCell type) none
  exact ⟨rfl, rfl, rfl, rfl, .same, rfl, rfl, rfl, hover.retains, fun i hi _ => hover.get? hi⟩

end Reducing

namespace Spares

lemma refl (m : Machine) : Spares rooms m m := ⟨rfl, .refl _, fun _ _ _ => rfl⟩

lemma steps (m : Machine) (n : Nat) : Spares rooms m { m with steps := n } :=
  ⟨rfl, .refl _, fun _ _ _ => rfl⟩

lemma trans {rooms'' : Nat → Prop} (h : Spares rooms m m') (h' : Spares rooms' m' m'')
    (hrooms : ∀ i < m.store.memory.slots.size, rooms'' i → rooms i ∧ rooms' i) :
    Spares rooms'' m m'' where
  setting := h'.setting.trans h.setting
  memory := h.memory.trans h'.memory
  rooms := fun i hi hroom => by
    obtain ⟨hroom₁, hroom₂⟩ := hrooms i hi hroom
    exact (h'.rooms i (lt_of_lt_of_le hi h.memory.size_le) hroom₂).trans (h.rooms i hi hroom₁)

lemma andThen (h : Spares rooms m m') (h' : Spares rooms m' m'') : Spares rooms m m'' :=
  h.trans h' fun _ _ hroom => ⟨hroom, hroom⟩

lemma mono (h : Spares rooms m m') (hrooms : ∀ i, rooms' i → rooms i) : Spares rooms' m m' :=
  { h with rooms := fun i hi hroom => h.rooms i hi (hrooms i hroom) }

end Spares

lemma Reducing.spares (h : Reducing op rooms m m') (hrooms : ∀ i, rooms' i → ¬ rooms i) :
    Spares rooms' m m' :=
  ⟨h.setting, h.memory, fun i hi hroom => h.slots i hi (hrooms i hroom)⟩

/-! ### Slots that hold values -/

/-- A slot that is evaluated with all its members is evaluated once more in no time but the turns it
takes. -/
lemma leads_forced {n : Nat} {a : Address} (h : m.store.memory.ForcedWithin n a) :
    ∃ k, Leads Ends (force a .deep m) a { m with steps := k } := by
  induction n generalizing a m with
  | zero => exact h.elim
  | succ n ih =>
    obtain ⟨v, hv, hmembers⟩ := h
    rw [force_deep_of_value hv, deepen_eq]
    have hall : ∀ c ∈ openMembers m.store.memory v, m.store.memory.ForcedWithin n c :=
      fun c hc => hmembers c (List.mem_filter.mp hc).1
    generalize openMembers m.store.memory v = cs at hall
    -- the members one after the other, which only count turns
    have members : ∀ cs : List Address, (∀ c ∈ cs, m.store.memory.ForcedWithin n c) → ∀ k,
        ∃ k', SucceedAll Ends (cs.map fun c => .evaluate c .deep) { m with steps := k } cs
          { m with steps := k' } := by
      intro cs
      induction cs with
      | nil => exact fun _ k => ⟨k, rfl, rfl⟩
      | cons c cs ihs =>
        intro hall k
        obtain ⟨k₁, hleads⟩ := ih (m := { m with steps := k + 1 + 1 })
          (hall c List.mem_cons_self)
        obtain ⟨k₂, hrest⟩ := ihs (fun d hd => hall d (List.mem_cons_of_mem c hd)) k₁
        exact ⟨k₂, c, _, cs, ends_evaluate hleads, hrest, rfl⟩
    cases cs with
    | nil => exact ⟨m.steps, rfl, rfl⟩
    | cons c cs =>
      obtain ⟨k, hall⟩ := members (c :: cs) hall m.steps
      exact ⟨k + 1, ends_of hall ⟨rfl, rfl⟩⟩

end Machine

namespace Representation

open Machine

variable {α : Type} {R : Representation α} {op : Opcode} {depth : Depth} {rooms mine : Nat → Prop}
  {m m' : Machine} {a : Address} {as : List Address} {y : α} {ys : List α} {k : Nat}

/-- A slot shows a value: it holds it, or, evaluated only so far, it comes to hold it. -/
def Shows (R : Representation α) (m : Machine) (a : Address) (y : α) : Depth → Prop
  | .deep => R.holds m.store.memory a y
  | .shallow => m.store.memory.isEvaluated a = true ∧ ∃ m', Leads Ends (force a .deep m) a m' ∧
    m.store.memory.Retains m'.store.memory ∧ R.holds m'.store.memory a y

lemma exists_forced (h : R.holds m.store.memory a y) :
    ∃ n, Leads Ends (force a .deep m) a { m with steps := n } := leads_forced (R.forced h).within

lemma shows_of_holds (h : R.holds m.store.memory a y) (depth : Depth) : R.Shows m a y depth := by
  cases depth with
  | deep => exact h
  | shallow =>
    obtain ⟨n, hleads⟩ := exists_forced h
    exact ⟨(R.forced h).isEvaluated, _, hleads, .refl _, h⟩

/-- **Terms come to values**, with some number of starts of opcodes in all: whatever a reduction has done
by itself when it comes to a term, the term is evaluated and shows its value, the rooms of the reduction
are spared, and the other terms come to theirs from there. -/
def Supplies (R : Representation α) (op : Opcode) (depth : Depth) :
    (Nat → Prop) → Machine → List Address → List α → Nat → Prop
  | _, _, [], [], k => k = 0
  | rooms, m, a :: as, y :: ys, k => ∀ m₁, Reducing op rooms m m₁ → ∃ m₂ k₁ k₂,
      Leads Ends (force a depth m₁) a m₂ ∧ R.Shows m₂ a y depth ∧
      Spares (roomsSince rooms m m₁) m₁ m₂ ∧ m₂.invocations = m₁.invocations + k₁ ∧
      Supplies R op depth (roomsSince rooms m m₁) m₂ as ys k₂ ∧ k = k₁ + k₂
  | _, _, _, _, _ => False

/-- **Slots that hold values** come to them. -/
lemma supplies_of_holds (hall : List.Forall₂ (R.holds m.store.memory) as ys) :
    R.Supplies op depth rooms m as ys 0 := by
  induction as generalizing m rooms ys with
  | nil =>
    cases hall
    rfl
  | cons a as ih =>
    obtain _ | ⟨ha, hall⟩ := hall
    intro m₁ hreducing
    have ha₁ := R.retained hreducing.memory ha
    obtain ⟨n, hleads⟩ : ∃ n, Leads Ends (force a depth m₁) a { m₁ with steps := n } := by
      cases depth with
      | deep => exact exists_forced ha₁
      | shallow =>
        obtain ⟨v, hv⟩ := Option.isSome_iff_exists.mp (R.forced ha₁).isEvaluated
        rw [force_shallow_of_value hv]
        exact ⟨m₁.steps, rfl, rfl⟩
    have hshows := shows_of_holds (m := { m₁ with steps := n }) ha₁ depth
    exact ⟨_, 0, 0, hleads, hshows, Spares.steps m₁ n, rfl,
      ih (hall.imp fun _ _ => R.retained hreducing.memory), rfl⟩

/-! ### Terms in the course of a reduction -/

/-- Terms that are still to be evaluated, in a state that a reduction with some rooms has come to. -/
def Offers (R : Representation α) (op : Opcode) (depth : Depth) (mine : Nat → Prop) (m : Machine)
    (as : List Address) (ys : List α) (k : Nat) : Prop :=
  ∃ rooms base, R.Supplies op depth rooms base as ys k ∧ Reducing op rooms base m ∧
    ∀ i, mine i → roomsSince rooms base m i

lemma Supplies.offers (h : R.Supplies op depth rooms m as ys k) : R.Offers op depth rooms m as ys k :=
  ⟨rooms, m, h, .refl m, fun _ => .inl⟩

lemma Offers.reducing (h : R.Offers op depth mine m as ys k) (hr : Reducing op mine m m') :
    R.Offers op depth (roomsSince mine m m') m' as ys k := by
  obtain ⟨rooms, base, hsupplies, hbase, hmine⟩ := h
  have hsize := hbase.memory.size_le
  refine ⟨rooms, base, hsupplies, hbase.trans hr fun i hi => (hmine i hi).imp_right And.left, ?_⟩
  rintro i (hi | ⟨hle, hlt⟩)
  · exact (hmine i hi).imp_right fun ⟨hle, hlt⟩ => ⟨hle, lt_of_lt_of_le hlt hr.memory.size_le⟩
  · exact .inr ⟨hsize.trans hle, hlt⟩

lemma Offers.mono {mine' : Nat → Prop} (h : R.Offers op depth mine m as ys k)
    (hmine : ∀ i, mine' i → mine i) : R.Offers op depth mine' m as ys k := by
  obtain ⟨rooms, base, hsupplies, hbase, hrooms⟩ := h
  exact ⟨rooms, base, hsupplies, hbase, fun i hi => hrooms i (hmine i hi)⟩

lemma Offers.eq_zero (h : R.Offers op depth mine m [] [] k) : k = 0 := by
  obtain ⟨rooms, base, hsupplies, -⟩ := h
  exact hsupplies

lemma Offers.length_eq (h : R.Offers op depth mine m as ys k) : as.length = ys.length := by
  obtain ⟨rooms, base, hsupplies, -⟩ := h
  induction as generalizing rooms base ys k with
  | nil =>
    cases ys with
    | nil => rfl
    | cons y ys => exact hsupplies.elim
  | cons a as ih =>
    cases ys with
    | nil => exact hsupplies.elim
    | cons y ys =>
      obtain ⟨m₂, k₁, k₂, -, -, -, -, hrest, -⟩ := hsupplies base (.refl base)
      exact congrArg (· + 1) (ih _ _ hrest)

/-- **The next term** is evaluated. -/
lemma Offers.next (h : R.Offers op depth mine m (a :: as) (y :: ys) k) : ∃ m' k₁ k₂,
    Leads Ends (force a depth m) a m' ∧ R.Shows m' a y depth ∧ Spares mine m m' ∧
    m'.invocations = m.invocations + k₁ ∧ R.Offers op depth mine m' as ys k₂ ∧ k = k₁ + k₂ := by
  obtain ⟨rooms, base, hsupplies, hbase, hmine⟩ := h
  obtain ⟨m', k₁, k₂, hleads, hshows, hspares, hcount, hrest, hk⟩ := hsupplies m hbase
  exact ⟨m', k₁, k₂, hleads, hshows, hspares.mono hmine, hcount,
    ⟨_, m', hrest, .refl m', fun i hi => .inl (hmine i hi)⟩, hk⟩

end Representation

end CellMachine
