import Mathlib.Algebra.Order.Field.Rat
import Mathlib.Order.UpperLower.Principal
import CellMachine.Proofs.Safety.Turns

/-!
Ranks of slots. The slots of a run can be ranked such that a cell of an activation refers only to slots
below it, and a value is made of slots that are not above its own. New slots may come to lie between
any two old ones; old slots keep their ranks. Whoever is to stay below some rank can then give a value
to no slot above it.
-/

namespace CellMachine

open Machine

/-- The rank of a slot of memory. -/
def Address.rank (ρ : Nat → ℚ) : Address → ℚ
  | .at i => ρ i
  | .loose _ => 0

namespace Machine

/-- A slot of memory with one of some ranks. -/
def Among (m : Machine) (ρ : Nat → ℚ) (U : LowerSet ℚ) (a : Address) : Prop :=
  m.store.memory.Inside a ∧ a.rank ρ ∈ U

/-- A cell of an activation lies above the constants and above the slots that it refers to. -/
structure Rises (m : Machine) (ρ : Nat → ℚ) (i : Nat) (p : Pending) : Prop where
  positive : 0 < ρ i
  references : ∀ node, p.activation.call.nodes.get? p.node = some node →
    ∀ r ∈ node.cell.kind.references, ∀ a, p.activation.slots.get? r = some a →
      m.Among ρ (.Iio (ρ i)) a

/-- **Ranks that evaluation goes down by**, in a state of a run. -/
structure Layered (base : Memory) (ρ : Nat → ℚ) (m : Machine) : Prop extends Safe base m where
  constants : ∀ i < base.slots.size, ρ i ≤ 0
  members : ∀ a v, m.store.memory.value? a = some v → v.Within (m.Among ρ (.Iic (a.rank ρ)))
  cells : ∀ i p, m.pending.get? i = some p → m.Rises ρ i p

/-- A later state of a run, on the way to which only slots of some ranks were given values. -/
structure Confined (U : LowerSet ℚ) (ρ : Nat → ℚ) (m : Machine) (ρ' : Nat → ℚ) (m' : Machine) : Prop
    extends Precedes m m' where
  ranks : ∀ i < m.store.memory.slots.size, ρ' i = ρ i
  cells : ∀ i < m.store.memory.slots.size, m'.pending.get? i = m.pending.get? i
  unvalued : ∀ i < m.store.memory.slots.size, ρ i ∉ U →
    m.store.memory.value? (.at i) = none → m'.store.memory.value? (.at i) = none

variable {base : Memory} {m m' m'' : Machine} {ρ ρ' ρ'' : Nat → ℚ} {U V : LowerSet ℚ} {a : Address}

/-! ### Slots of some ranks -/

namespace Among

lemma le {x y : ℚ} (h : m.Among ρ (.Iic x) a) (hxy : x ≤ y) : m.Among ρ (.Iic y) a :=
  ⟨h.1, LowerSet.mem_Iic_iff.mpr ((LowerSet.mem_Iic_iff.mp h.2).trans hxy)⟩

lemma of_lt {x : ℚ} (h : m.Among ρ (.Iio x) a) : m.Among ρ (.Iic x) a :=
  ⟨h.1, LowerSet.mem_Iic_iff.mpr (LowerSet.mem_Iio_iff.mp h.2).le⟩

/-- Old slots stay where they are. -/
lemma later (h : m.Among ρ U a) (later : m.Precedes m')
    (hranks : ∀ i < m.store.memory.slots.size, ρ' i = ρ i) : m'.Among ρ' U a := by
  refine ⟨later.inside h.1, ?_⟩
  obtain ⟨⟨i, hi, rfl⟩, hrank⟩ := h
  rw [Address.rank, hranks i hi]
  exact hrank

end Among

lemma Rises.later {i : Nat} {p : Pending} (h : m.Rises ρ i p) (later : m.Precedes m')
    (hranks : ∀ i < m.store.memory.slots.size, ρ' i = ρ i) (hi : i < m.store.memory.slots.size) :
    m'.Rises ρ' i p := by
  refine ⟨?_, fun node hnode r hr a ha => ?_⟩
  · rw [hranks i hi]
    exact h.positive
  · rw [hranks i hi]
    exact (h.references node hnode r hr a ha).later later hranks

namespace Confined

lemma refl (U : LowerSet ℚ) (ρ : Nat → ℚ) (m : Machine) : Confined U ρ m ρ m :=
  ⟨.refl m, fun _ _ => rfl, fun _ _ => rfl, fun _ _ _ => id⟩

lemma trans (h : Confined U ρ m ρ' m') (h' : Confined U ρ' m' ρ'' m'') : Confined U ρ m ρ'' m'' := by
  have inside : ∀ {i}, i < m.store.memory.slots.size → i < m'.store.memory.slots.size :=
    fun hi => lt_of_lt_of_le hi h.size
  refine ⟨h.toPrecedes.trans h'.toPrecedes, fun i hi => ?_, fun i hi => ?_, fun i hi hrank hnone => ?_⟩
  · rw [h'.ranks i (inside hi), h.ranks i hi]
  · rw [h'.cells i (inside hi), h.cells i hi]
  · refine h'.unvalued i (inside hi) ?_ (h.unvalued i hi hrank hnone)
    rw [h.ranks i hi]
    exact hrank

lemma mono (h : Confined U ρ m ρ' m') (hle : U ≤ V) : Confined V ρ m ρ' m' :=
  { h with unvalued := fun i hi hrank => h.unvalued i hi fun hU => hrank (hle hU) }

lemma rank (h : Confined U ρ m ρ' m') (ha : m.store.memory.Inside a) : a.rank ρ' = a.rank ρ := by
  obtain ⟨i, hi, rfl⟩ := ha
  exact h.ranks i hi

lemma among (h : Confined U ρ m ρ' m') (ha : m.Among ρ V a) : m'.Among ρ' V a :=
  ha.later h.toPrecedes h.ranks

lemma of_same (later : m.Precedes m') (hmemory : m'.store.memory = m.store.memory)
    (hpending : m'.pending = m.pending) : Confined U ρ m ρ m' :=
  ⟨later, fun _ _ => rfl, fun _ _ => by rw [hpending], fun _ _ _ hnone => by rw [hmemory, hnone]⟩

end Confined

namespace Layered

lemma within (h : m.Layered base ρ) {v : Value} (hv : m.store.memory.value? a = some v) :
    v.Within fun b => m.Held b ∧ m.Among ρ (.Iic (a.rank ρ)) b :=
  (h.values a v hv).and (h.members a v hv)

lemma below_constant (h : m.Layered base ρ) {moduleName name : String}
    (ha : (m.store.memory.lookup moduleName name).bind m.store.memory.address? = some a) {x : ℚ}
    (hx : 0 < x) : m.Held a ∧ m.Among ρ (.Iio x) a := by
  have hheld := h.held_constant ha
  refine ⟨hheld, h.inside_of_held hheld, ?_⟩
  rw [h.memory.constant h.rooted, h.rooted.constant] at ha
  obtain ⟨k, hk, rfl⟩ := Option.map_eq_some_iff.mp ha
  exact (h.constants k (h.rooted _ k hk)).trans_lt hx

lemma grow (h : m.Layered base ρ) (hsafe : m'.Safe base) (later : m.Precedes m')
    (hranks : ∀ i < m.store.memory.slots.size, ρ' i = ρ i)
    (hvalues : ∀ a v, m'.store.memory.value? a = some v → m.store.memory.value? a = some v)
    (hcells : ∀ i p, m'.pending.get? i = some p → m.pending.get? i = some p ∨ m'.Rises ρ' i p) :
    m'.Layered base ρ' where
  toSafe := hsafe
  constants i hi := by
    rw [hranks i (lt_of_lt_of_le hi h.memory.size_le)]
    exact h.constants i hi
  members a v hv := by
    have hold := hvalues a v hv
    obtain ⟨i, hi, rfl⟩ :=
      h.inside_of_held (h.held_of_valued (Option.isSome_iff_exists.mpr ⟨v, hold⟩))
    have hrank : (Address.at i).rank ρ' = (Address.at i).rank ρ := hranks i hi
    rw [hrank]
    exact (h.members _ v hold).mono fun _ hb => hb.later later hranks
  cells i p hp := by
    rcases hcells i p hp with hold | hnew
    · exact (h.cells i p hold).later later hranks (h.pending i p hold).inside
    · exact hnew

lemma of_same (h : m.Layered base ρ) (hsafe : m'.Safe base) (later : m.Precedes m')
    (hmemory : m'.store.memory = m.store.memory) (hpending : m'.pending = m.pending) :
    m'.Layered base ρ :=
  h.grow hsafe later (fun _ _ => rfl) (fun a v hv => by rwa [hmemory] at hv)
    fun i p hp => .inl (by rwa [hpending] at hp)

lemma pending_size (h : m.Layered base ρ) : m.pending.get? m.store.memory.slots.size = none := by
  by_contra hsome
  obtain ⟨p, hp⟩ := Option.ne_none_iff_exists'.mp hsome
  exact (h.pending _ p hp).inside.false

end Layered

/-! ### Computations -/

/-- A computation that gives values only to slots of some ranks, and keeps the machine layered, by ranks
for which the result has a property. -/
def Confines {α : Type} (base : Memory) (U : LowerSet ℚ) (ρ : Nat → ℚ) (m : Machine) (x : RunM α)
    (Q : α → (Nat → ℚ) → Machine → Prop) : Prop :=
  ∃ ρ', (x m).2.Layered base ρ' ∧ Confined U ρ m ρ' (x m).2 ∧ Q (x m).1 ρ' (x m).2

namespace Confines

variable {α β : Type} {x : RunM α} {P Q : α → (Nat → ℚ) → Machine → Prop}
  {R : β → (Nat → ℚ) → Machine → Prop}

lemma pure (h : m.Layered base ρ) {a : α} (ha : Q a ρ m) : Confines base U ρ m (pure a) Q :=
  ⟨ρ, h, .refl U ρ m, ha⟩

lemma bind {f : α → RunM β} (hx : Confines base V ρ m x P) (hle : V ≤ U)
    (hf : ∀ a ρ' m', m'.Layered base ρ' → Confined V ρ m ρ' m' → P a ρ' m' →
      Confines base U ρ' m' (f a) R) : Confines base U ρ m (x >>= f) R := by
  obtain ⟨ρ', h, hconfined, hP⟩ := hx
  obtain ⟨ρ'', h', hconfined', hR⟩ := hf _ ρ' _ h hconfined hP
  exact ⟨ρ'', h', (hconfined.mono hle).trans hconfined', hR⟩

lemma safely (hx : Confines base U ρ m x Q) :
    Safely base m x fun a m' => ∃ ρ', m'.Layered base ρ' ∧ Q a ρ' m' := by
  obtain ⟨ρ', h, hconfined, hQ⟩ := hx
  exact ⟨h.toSafe, hconfined.toPrecedes, ρ', h, hQ⟩

lemma any (hx : Confines base U ρ m x Q) : Confines base U ρ m x fun _ _ _ => True := by
  obtain ⟨ρ', h, hconfined, -⟩ := hx
  exact ⟨ρ', h, hconfined, trivial⟩

lemma memory {f : Memory → RunM β} (hf : Confines base U ρ m (f m.store.memory) R) :
    Confines base U ρ m (RunM.memory >>= f) R := hf

lemma setting {f : Setting → RunM β} (hf : Confines base U ρ m (f m.setting) R) :
    Confines base U ρ m (RunM.setting >>= f) R := hf

lemma value? {f : Option Value → RunM β}
    (hf : Confines base U ρ m (f (m.store.memory.value? a)) R) :
    Confines base U ρ m (RunM.value? a >>= f) R := hf

lemma get {f : Machine → RunM β} (hf : Confines base U ρ m (f m) R) :
    Confines base U ρ m (MonadState.get >>= f) R := hf

lemma after {y : RunM α} (heq : x m = y m') (hconfined : Confined U ρ m ρ' m')
    (hy : Confines base U ρ' m' y Q) : Confines base U ρ m x Q := by
  obtain ⟨ρ'', h, hconfined', hQ⟩ := hy
  rw [Confines, heq]
  exact ⟨ρ'', h, hconfined.trans hconfined', hQ⟩

lemma of_same (h : m.Layered base ρ) {P : α → Machine → Prop} (hx : Safely base m x P)
    (hmemory : (x m).2.store.memory = m.store.memory) (hpending : (x m).2.pending = m.pending) :
    Confines base U ρ m x fun a _ m' => P a m' :=
  ⟨ρ, h.of_same hx.1 hx.2.1 hmemory hpending, .of_same hx.2.1 hmemory hpending, hx.2.2⟩

lemma tell (h : m.Layered base ρ) (f : Memory → Notice) :
    Confines base U ρ m (RunM.tell f) fun _ _ _ => True := by
  refine of_same h (.tell h.toSafe f) ?_ ?_ <;> unfold RunM.tell <;> split <;> rfl

lemma tellOpcode (h : m.Layered base ρ) (f : Memory → Notice) :
    Confines base U ρ m (RunM.tellOpcode f) fun _ _ _ => True := by
  refine of_same h (.tellOpcode h.toSafe f) ?_ ?_ <;> unfold RunM.tellOpcode <;> split <;> rfl

lemma store (h : m.Layered base ρ) {x : StoreM α} {P : α → Prop} (hx : Reading m.store.memory x P) :
    Confines base U ρ m (RunM.store x) fun a _ _ => P a :=
  of_same h (.store h.toSafe hx) (hx m.store rfl h.verdicts).1 rfl

lemma allocate (h : m.Layered base ρ) (cell : Cell) (r : ℚ) :
    Confines base U ρ m (RunM.store (StoreM.allocate cell none)) fun a ρ' m' =>
      m'.store.memory.Inside a ∧ a.rank ρ' = r ∧ ∀ i, a = .at i → m'.pending.get? i = none := by
  obtain ⟨hsafe, later, hinside⟩ := Safely.allocate h.toSafe cell
  have hranks : ∀ i < m.store.memory.slots.size,
      Function.update ρ m.store.memory.slots.size r i = ρ i := fun i hi =>
    Function.update_of_ne hi.ne _ _
  refine ⟨Function.update ρ m.store.memory.slots.size r, ?_, ⟨later, hranks, fun _ _ => rfl, ?_⟩,
    hinside, ?_, ?_⟩
  · exact h.grow hsafe later hranks (fun a v hv => Memory.value?_of_allocate_none hv)
      fun i p hp => .inl hp
  · intro i hi _ hnone
    show (m.store.memory.allocate cell none).2.value? (.at i) = none
    rw [(Memory.over_allocate m.store.memory cell none).value? hi, hnone]
  · exact Function.update_self _ _ _
  · rintro i hi
    cases hi
    exact h.pending_size

lemma memoize (h : m.Layered base ρ) (ha : m.Among ρ U a) {v : Value}
    (hv : v.Within fun b => m.Held b ∧ m.Among ρ (.Iic (a.rank ρ)) b) :
    Confines base U ρ m (RunM.store (StoreM.memoize a v)) fun _ ρ' m' => m'.Among ρ' U a := by
  obtain ⟨hinside, hrank⟩ := ha
  obtain ⟨hsafe, later, -⟩ := Safely.memoize h.toSafe hinside (hv.mono fun _ hb => hb.1)
  obtain ⟨i, hi, rfl⟩ := hinside
  refine ⟨ρ, ⟨hsafe, h.constants, fun b u hu => ?_, fun j p hp => ?_⟩, ⟨later, fun _ _ => rfl,
    fun _ _ => rfl, fun j _ hj hnone => ?_⟩, later.inside ⟨i, hi, rfl⟩, hrank⟩
  · refine Value.Within.mono (fun c hc => hc.later later fun _ _ => rfl) (R := m.Among ρ _) ?_
    rcases Memory.value?_of_memoize hi hu with hu | ⟨rfl, rfl⟩
    · exact h.members b u hu
    · exact hv.mono fun _ hb => hb.2
  · exact (h.cells j p hp).later later (fun _ _ => rfl) (h.pending j p hp).inside
  · have hne : i ≠ j := by
      rintro rfl
      exact hj hrank
    show (m.store.memory.memoize (.at i) v).value? (.at j) = none
    rw [Memory.value?_memoize_of_ne hne, hnone]

end Confines

end Machine

end CellMachine
