import CellMachine.Proofs.Meaning.Calls
import CellMachine.Proofs.Memory.Conversion
import CellMachine.Proofs.Safety.Opcodes

/-!
Machines on which no slot is asked for in vain. Every slot that anything leads to has its value or is
a cell of an activation, and of such a cell the node and the slots of all that it refers to are known.
-/

namespace CellMachine

lemma Fits.node_cases {opcodes : Opcodes} {memory : Memory} {c : Callable} {nodes : KeyMap Nat Node}
    (h : Fits opcodes memory c nodes) {j : Nat} {node : Node} (hj : nodes.get? j = some node) :
    node.op = .argument ∨ (∃ k, node.op = .constant (.at k) ∧ k < memory.slots.size) ∨
      node.op.isNew = true := by
  have hkind := h.fits j node hj
  cases hk : node.cell.kind with
  | external name =>
    rw [hk] at hkind
    exact .inl hkind
  | constant moduleName name =>
    rw [hk] at hkind
    obtain ⟨a, ha, hop⟩ := hkind
    obtain ⟨i, -, hi⟩ := Option.bind_eq_some_iff.mp ha
    rw [Memory.address?] at hi
    split at hi
    · next hlt =>
      cases hi
      exact .inr (.inl ⟨i, hop, hlt⟩)
    · cases hi
  | structured members =>
    rw [hk] at hkind
    exact .inr (.inr (by rw [hkind.1]; rfl))
  | iterable items =>
    rw [hk] at hkind
    exact .inr (.inr (by rw [hkind]; rfl))
  | opcode mnemonic arguments explicit =>
    rw [hk] at hkind
    obtain ⟨op, bindings, -, -, hop⟩ := hkind
    exact .inr (.inr (by rw [hop]; rfl))
  | call callable argument =>
    rw [hk] at hkind
    exact .inr (.inr (by rw [hkind]; rfl))

namespace Machine

/-- A slot of memory that has its value, or is a cell of an activation. -/
def Held (m : Machine) (a : Address) : Prop := ∃ i, a = .at i ∧ Ready m i

/-- A slot that has its value. -/
def Valued (m : Machine) (a : Address) : Prop := m.store.memory.isEvaluated a = true

/-- A cell of an activation that can be worked on: the slot is that of its node, the nodes fit the
callable, and each node has a slot that may be asked for its value. -/
structure Resolvable (base : Memory) (m : Machine) (i : Nat) (p : Pending) : Prop where
  own : p.activation.slots.get? p.node = some (.at i)
  inside : i < m.store.memory.slots.size
  node : ∃ node, p.activation.call.nodes.get? p.node = some node ∧ node.op.isNew = true
  fits : Fits m.setting.opcodes base p.activation.call.callable p.activation.call.nodes
  slots : ∀ j node, p.activation.call.nodes.get? j = some node →
    ∃ a, p.activation.slots.get? j = some a ∧ m.Held a

/-- **What holds in every state of a run**, on top of memory in which every slot has its value. -/
structure Safe (base : Memory) (m : Machine) : Prop where
  complete : base.Complete
  rooted : base.Rooted
  careful : ∀ mnemonic op, m.setting.opcodes.get? mnemonic = some op → op.Careful
  memory : base.Over m.store.memory
  verdicts : Registry.OrdinaryVerdicts m.store.types.verdicts
  compiled : ∀ i c, m.compiled.get? i = some c → c.Reliable m.setting.opcodes base
  values : ∀ a v, m.store.memory.value? a = some v → v.Within m.Held
  pending : ∀ i p, m.pending.get? i = some p → m.Resolvable base i p

/-- A later state of a run, with possibly more slots. -/
structure Precedes (m m' : Machine) : Prop where
  setting : m'.setting = m.setting
  size : m.store.memory.slots.size ≤ m'.store.memory.slots.size
  values : ∀ a v, m.store.memory.value? a = some v → m'.store.memory.value? a = some v
  pending : ∀ i p, m.pending.get? i = some p → m'.pending.get? i = some p

variable {base : Memory} {m m' m'' : Machine}

namespace Precedes

lemma refl (m : Machine) : m.Precedes m := ⟨rfl, le_rfl, fun _ _ => id, fun _ _ => id⟩

lemma trans (h : m.Precedes m') (h' : m'.Precedes m'') : m.Precedes m'' :=
  ⟨h'.setting.trans h.setting, h.size.trans h'.size, fun a v hv => h'.values a v (h.values a v hv),
    fun i p hp => h'.pending i p (h.pending i p hp)⟩

lemma valued (h : m.Precedes m') {a : Address} (ha : m.Valued a) : m'.Valued a := by
  obtain ⟨v, hv⟩ := Option.isSome_iff_exists.mp ha
  exact Option.isSome_iff_exists.mpr ⟨v, h.values a v hv⟩

lemma held (h : m.Precedes m') {a : Address} (ha : m.Held a) : m'.Held a := by
  obtain ⟨i, rfl, hi | hi⟩ := ha
  · exact ⟨i, rfl, .inl (h.valued hi)⟩
  · obtain ⟨p, hp⟩ := Option.isSome_iff_exists.mp hi
    exact ⟨i, rfl, .inr (Option.isSome_iff_exists.mpr ⟨p, h.pending i p hp⟩)⟩

lemma inside (h : m.Precedes m') {a : Address} (ha : m.store.memory.Inside a) :
    m'.store.memory.Inside a := by
  obtain ⟨i, hi, rfl⟩ := ha
  exact ⟨i, lt_of_lt_of_le hi h.size, rfl⟩

lemma resolvable (h : m.Precedes m') {i : Nat} {p : Pending} (hp : m.Resolvable base i p) :
    m'.Resolvable base i p where
  own := hp.own
  inside := lt_of_lt_of_le hp.inside h.size
  node := hp.node
  fits := h.setting ▸ hp.fits
  slots := fun j node hj => (hp.slots j node hj).imp fun _ ha => ⟨ha.1, h.held ha.2⟩

end Precedes

namespace Safe

lemma keepTypes (h : m.Safe base) : m.setting.opcodes.KeepTypes :=
  fun mnemonic op hop => (h.careful mnemonic op hop).keeps

lemma checkOrdinarily (h : m.Safe base) : m.setting.opcodes.CheckOrdinarily :=
  fun mnemonic op hop => (h.careful mnemonic op hop).static

/-- A slot that has a value lies in memory. -/
lemma held_of_valued (h : m.Safe base) {a : Address} (ha : m.Valued a) : m.Held a := by
  cases a with
  | «at» i => exact ⟨i, rfl, .inl ha⟩
  | loose n =>
    rw [Valued, Memory.isEvaluated, Memory.value?, Memory.get?, h.memory.loose, h.complete.loose] at ha
    cases ha

lemma inside_of_held (h : m.Safe base) {a : Address} (ha : m.Held a) : m.store.memory.Inside a := by
  obtain ⟨i, rfl, hi | hi⟩ := ha
  · obtain ⟨v, hv⟩ := Option.isSome_iff_exists.mp hi
    exact ⟨i, Memory.lt_of_value? hv, rfl⟩
  · obtain ⟨p, hp⟩ := Option.isSome_iff_exists.mp hi
    exact ⟨i, (h.pending i p hp).inside, rfl⟩

lemma held_base (h : m.Safe base) {k : Nat} (hk : k < base.slots.size) : m.Held (.at k) := by
  obtain ⟨v, hv, -⟩ := h.complete.values k hk
  exact ⟨k, rfl, .inl (Option.isSome_iff_exists.mpr ⟨v, (h.memory.value? hk).trans hv⟩)⟩

lemma held_constant (h : m.Safe base) {moduleName name : String} {a : Address}
    (ha : (m.store.memory.lookup moduleName name).bind m.store.memory.address? = some a) :
    m.Held a := by
  rw [h.memory.constant h.rooted, h.rooted.constant] at ha
  obtain ⟨k, hk, rfl⟩ := Option.map_eq_some_iff.mp ha
  exact h.held_base (h.rooted _ k hk)

lemma congr (h : m.Safe base) (m' : Machine) (hsetting : m'.setting = m.setting)
    (hmemory : m'.store.memory = m.store.memory)
    (hverdicts : Registry.OrdinaryVerdicts m'.store.types.verdicts)
    (hcompiled : ∀ i c, m'.compiled.get? i = some c → c.Reliable m.setting.opcodes base)
    (hpending : m'.pending = m.pending) : m'.Safe base ∧ m.Precedes m' := by
  have later : m.Precedes m' :=
    ⟨hsetting, hmemory ▸ le_rfl, fun _ _ hv => by rw [hmemory, hv], fun _ _ hp => by rw [hpending, hp]⟩
  refine ⟨⟨h.complete, h.rooted, ?careful, ?memory, hverdicts, ?compiled, ?values, ?pending⟩, later⟩
  case careful =>
    rw [hsetting]
    exact h.careful
  case memory =>
    rw [hmemory]
    exact h.memory
  case compiled =>
    rw [hsetting]
    exact hcompiled
  case values =>
    intro a v hv
    rw [hmemory] at hv
    exact (h.values a v hv).mono fun _ => later.held
  case pending =>
    intro i p hp
    rw [hpending] at hp
    exact later.resolvable (h.pending i p hp)

lemma tick (h : m.Safe base) : m.tick.Safe base ∧ m.Precedes m.tick :=
  h.congr _ rfl rfl h.verdicts h.compiled rfl

/-- **The start of a run**: memory in which every slot has its value, and no activations. -/
lemma of_complete (hbase : base.Complete) (hrooted : base.Rooted)
    (hcareful : ∀ mnemonic op, m.setting.opcodes.get? mnemonic = some op → op.Careful)
    (hover : base.Over m.store.memory) (hmemory : m.store.memory.Complete)
    (hverdicts : Registry.OrdinaryVerdicts m.store.types.verdicts)
    (hcompiled : ∀ i c, m.compiled.get? i = some c → c.Reliable m.setting.opcodes base)
    (hpending : ∀ i, m.pending.get? i = none) : m.Safe base where
  complete := hbase
  rooted := hrooted
  careful := hcareful
  memory := hover
  verdicts := hverdicts
  compiled := hcompiled
  values := by
    intro a v hv
    cases a with
    | «at» i =>
      obtain ⟨w, hw, hwithin⟩ := hmemory.values i (Memory.lt_of_value? hv)
      cases hv.symm.trans hw
      refine hwithin.mono ?_
      rintro _ ⟨j, hj, rfl⟩
      obtain ⟨u, hu, -⟩ := hmemory.values j hj
      exact ⟨j, rfl, .inl (Option.isSome_iff_exists.mpr ⟨u, hu⟩)⟩
    | loose n =>
      rw [Memory.value?, Memory.get?, hmemory.loose] at hv
      cases hv
  pending := by
    intro i p hp
    rw [hpending] at hp
    cases hp

end Safe

/-! ### Computations -/

/-- A computation that keeps the machine safe, and whose result has a property afterwards. -/
def Safely {α : Type} (base : Memory) (m : Machine) (x : RunM α) (Q : α → Machine → Prop) : Prop :=
  (x m).2.Safe base ∧ m.Precedes (x m).2 ∧ Q (x m).1 (x m).2

namespace Safely

variable {α β : Type} {x : RunM α} {P Q : α → Machine → Prop} {R : β → Machine → Prop}

lemma pure (h : m.Safe base) {a : α} (ha : Q a m) : Safely base m (pure a) Q := ⟨h, .refl m, ha⟩

lemma bind {f : α → RunM β} (hx : Safely base m x P)
    (hf : ∀ a m', m'.Safe base → m.Precedes m' → P a m' → Safely base m' (f a) R) :
    Safely base m (x >>= f) R := by
  obtain ⟨hsafe, later, hP⟩ := hx
  obtain ⟨hsafe', later', hR⟩ := hf _ _ hsafe later hP
  exact ⟨hsafe', later.trans later', hR⟩

lemma mono (hx : Safely base m x P) (h : ∀ a m', P a m' → Q a m') : Safely base m x Q :=
  ⟨hx.1, hx.2.1, h _ _ hx.2.2⟩

lemma memory {f : Memory → RunM β} (hf : Safely base m (f m.store.memory) R) :
    Safely base m (RunM.memory >>= f) R := hf

lemma setting {f : Setting → RunM β} (hf : Safely base m (f m.setting) R) :
    Safely base m (RunM.setting >>= f) R := hf

lemma value? {a : Address} {f : Option Value → RunM β}
    (hf : Safely base m (f (m.store.memory.value? a)) R) : Safely base m (RunM.value? a >>= f) R := hf

lemma get {f : Machine → RunM β} (hf : Safely base m (f m) R) :
    Safely base m (MonadState.get >>= f) R := hf

lemma of_congr (h : m.Safe base) (hsetting : (x m).2.setting = m.setting)
    (hmemory : (x m).2.store.memory = m.store.memory)
    (hverdicts : Registry.OrdinaryVerdicts (x m).2.store.types.verdicts)
    (hcompiled : ∀ i c, (x m).2.compiled.get? i = some c → c.Reliable m.setting.opcodes base)
    (hpending : (x m).2.pending = m.pending) (hQ : Q (x m).1 (x m).2) : Safely base m x Q := by
  obtain ⟨hsafe, later⟩ := h.congr _ hsetting hmemory hverdicts hcompiled hpending
  exact ⟨hsafe, later, hQ⟩

lemma tell (h : m.Safe base) (f : Memory → Notice) :
    Safely base m (RunM.tell f) fun _ _ => True := by
  by_cases hquiet : m.setting.attention = .nothing
  · have heq : RunM.tell f m = ((), m) := if_pos hquiet
    rw [Safely, heq]
    exact ⟨h, .refl m, trivial⟩
  · have heq : RunM.tell f m = ((), { m with notices := f m.store.memory :: m.notices }) :=
      if_neg hquiet
    rw [Safely, heq]
    obtain ⟨hsafe, later⟩ := h.congr { m with notices := f m.store.memory :: m.notices } rfl rfl
      h.verdicts h.compiled rfl
    exact ⟨hsafe, later, trivial⟩

lemma tellOpcode (h : m.Safe base) (f : Memory → Notice) :
    Safely base m (RunM.tellOpcode f) fun _ _ => True := by
  by_cases hheard : m.setting.attention = .opcodes
  · have heq : RunM.tellOpcode f m =
        ((), { m with notices := f m.store.memory :: m.notices }) := if_pos hheard
    rw [Safely, heq]
    obtain ⟨hsafe, later⟩ := h.congr { m with notices := f m.store.memory :: m.notices } rfl rfl
      h.verdicts h.compiled rfl
    exact ⟨hsafe, later, trivial⟩
  · have heq : RunM.tellOpcode f m = ((), m) := if_neg hheard
    rw [Safely, heq]
    exact ⟨h, .refl m, trivial⟩

lemma store (h : m.Safe base) {x : StoreM α} {P : α → Prop} (hx : Reading m.store.memory x P) :
    Safely base m (RunM.store x) fun a _ => P a := by
  obtain ⟨hmemory, hverdicts, ha⟩ := hx m.store rfl h.verdicts
  exact of_congr h rfl hmemory hverdicts h.compiled rfl ha

lemma allocate (h : m.Safe base) (cell : Cell) :
    Safely base m (RunM.store (StoreM.allocate cell none)) fun a m' => m'.store.memory.Inside a := by
  have hover := Memory.over_allocate m.store.memory cell none
  let m' : Machine :=
    { m with store := { m.store with memory := (m.store.memory.allocate cell none).2 } }
  have later : m.Precedes m' := ⟨rfl, hover.size_le, fun _ _ => hover.keeps, fun _ _ => id⟩
  refine ⟨⟨h.complete, h.rooted, h.careful, h.memory.trans hover, h.verdicts, h.compiled,
    fun a v hv => ?_, fun i p hp => ?_⟩, later, m.store.memory.slots.size, ?_, rfl⟩
  · exact (h.values a v (Memory.value?_of_allocate_none hv)).mono fun _ => later.held
  · exact later.resolvable (h.pending i p hp)
  · show _ < (m.store.memory.allocate cell none).2.slots.size
    rw [Memory.size_allocate]
    exact Nat.lt_succ_self _

lemma memoize (h : m.Safe base) {target : Address} (htarget : m.store.memory.Inside target)
    {v : Value} (hv : v.Within m.Held) :
    Safely base m (RunM.store (StoreM.memoize target v)) fun _ m' => m'.Valued target := by
  obtain ⟨i, hi, rfl⟩ := htarget
  let m' : Machine :=
    { m with store := { m.store with memory := m.store.memory.memoize (.at i) v } }
  have later : m.Precedes m' :=
    ⟨rfl, (Memory.size_memoize _ _ _).ge, fun _ _ hu => Memory.value?_memoize_of_some hu v,
      fun _ _ => id⟩
  refine ⟨⟨h.complete, h.rooted, h.careful, h.memory.memoize ?_ v, h.verdicts, h.compiled,
    fun a u hu => ?_, fun j p hp => later.resolvable (h.pending j p hp)⟩, later,
    Memory.isSome_memoize_self hi v⟩
  · -- A slot of the base has its value already, so that it keeps it.
    by_cases hlt : i < base.slots.size
    · obtain ⟨u, hu, -⟩ := h.complete.values i hlt
      exact .inr (Option.isSome_iff_exists.mpr ⟨u, (h.memory.value? hlt).trans hu⟩)
    · exact .inl (by omega)
  · have hwithin : u.Within m.Held := by
      rcases Memory.value?_of_memoize hi hu with hu | ⟨-, rfl⟩
      · exact h.values a u hu
      · exact hv
    exact hwithin.mono fun _ => later.held

end Safely

/-! ### Activations -/

section Activation

variable {call : CompiledCall} {argument : Address}

lemma precedes_activated (h : m.Safe base)
    (hfits : Fits m.setting.opcodes base call.callable call.nodes) :
    m.Precedes (m.activated call argument) := by
  have hact := activates_activate argument call.nodes m.store
  refine ⟨rfl, hact.memory.size_le, fun _ _ => hact.memory.keeps, fun i p hp => ?_⟩
  exact (pending_activated_of_lt call argument hfits.ascending (h.pending i p hp).inside).trans hp

lemma held_activated (h : m.Safe base)
    (hfits : Fits m.setting.opcodes base call.callable call.nodes) (hx : m.Held argument) {j : Nat}
    {node : Node} (hj : call.nodes.get? j = some node) :
    ∃ a, (activate argument call.nodes m.store).1.get? j = some a ∧
      (m.activated call argument).Held a := by
  have later : m.Precedes (m.activated call argument) := precedes_activated h hfits
  obtain ⟨a, ha, hplaced⟩ := exists_placed (activates_activate argument call.nodes m.store) hj
  refine ⟨a, ha, ?_⟩
  rcases hfits.node_cases hj with hop | ⟨k, hop, hk⟩ | hnew
  · simp only [Placed, hop] at hplaced
    rw [hplaced]
    exact later.held hx
  · simp only [Placed, hop] at hplaced
    rw [hplaced]
    exact later.held (h.held_base hk)
  · obtain ⟨k, rfl, -⟩ := (placed_iff_of_new hnew).mp hplaced
    exact ⟨_, rfl, .inr (Option.isSome_iff_exists.mpr
      ⟨_, pending_activated_of_new call argument hfits.ascending (KeyMap.mem_of_get? hj) hnew ha⟩)⟩

/-- **An activation is safe**: its new slots are cells that can be worked on. -/
lemma safe_activated (h : m.Safe base)
    (hfits : Fits m.setting.opcodes base call.callable call.nodes) (hx : m.Held argument) :
    (m.activated call argument).Safe base := by
  have hact := activates_activate argument call.nodes m.store
  have later : m.Precedes (m.activated call argument) := precedes_activated h hfits
  constructor
  case complete => exact h.complete
  case rooted => exact h.rooted
  case careful => exact h.careful
  case memory => exact h.memory.trans hact.memory
  case verdicts =>
    show Registry.OrdinaryVerdicts (activate argument call.nodes m.store).2.types.verdicts
    rw [hact.types]
    exact h.verdicts
  case compiled => exact h.compiled
  case values =>
    intro a v hv
    exact (h.values a v (hact.kept hv)).mono fun _ => later.held
  case pending =>
    intro i p hp
    rcases exists_entered hp with hp | ⟨e, he, hnew, hslot, rfl⟩
    · exact later.resolvable (h.pending i p hp)
    · obtain ⟨k, rfl, hk⟩ := le_of_new hact hfits.ascending he hnew hslot
      refine ⟨hslot, ?_, ⟨_, hfits.ascending.get?_of_mem he, hnew⟩, hfits,
        fun j node hj => held_activated h hfits hx hj⟩
      show _ < (activate argument call.nodes m.store).2.memory.slots.size
      rw [hact.size]
      have := (List.getElem?_eq_some_iff.mp hk).1
      omega

end Activation

end Machine

end CellMachine
