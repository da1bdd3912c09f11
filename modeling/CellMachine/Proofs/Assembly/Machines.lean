import CellMachine.Proofs.Call.Checked
import CellMachine.Proofs.Machine.Routine
import CellMachine.Proofs.Memory.Updates
import CellMachine.Proofs.Tandem.Calls

/-!
Machines on which structures are assembled. The slot of a structure cell gets its value in one place:
when the cell is evaluated, from the slots that the activation has for its members. All other values go
to slots of other cells, or come too late to be written.
-/

namespace CellMachine

/-- The kind of a cell that is assembled from others, key by key. -/
def CellKind.IsStructured (kind : CellKind) : Prop := ∃ members, kind = .structured members

/-! ### Memory -/

namespace Memory

/-- Every slot is still there with its cell and its value, and no structure has come to a value. -/
def Spares (m m' : Memory) : Prop :=
  ∀ a s, m.get? a = some s → ∃ s', m'.get? a = some s' ∧ s'.cell = s.cell ∧
    (∀ v, s.value = some v → s'.value = some v) ∧ (s.cell.kind.IsStructured → s'.value = s.value)

/-- A slot that any value may be written to: it is of no structure, or has its value. -/
def Fillable (m : Memory) (a : Address) : Prop :=
  ∃ s, m.get? a = some s ∧ (s.cell.kind.IsStructured → s.value.isSome = true)

variable {m m' m'' : Memory} {a : Address} {s : Slot}

lemma Spares.refl (m : Memory) : m.Spares m := fun _ s hs => ⟨s, hs, rfl, fun _ => id, fun _ => rfl⟩

lemma Spares.retains (h : m.Spares m') : m.Retains m' := fun a s hs =>
  (h a s hs).imp fun _ hs' => ⟨hs'.1, hs'.2.1, hs'.2.2.1⟩

lemma Over.spares (h : m.Over m') : m.Spares m' := fun a s hs =>
  ⟨s, h.get?_of_some a s hs, rfl, fun _ => id, fun _ => rfl⟩

lemma Spares.value?_eq (h : m.Spares m') (hs : m.get? a = some s) (hkind : s.cell.kind.IsStructured) :
    m'.value? a = m.value? a := by
  obtain ⟨s', hs', -, -, hsame⟩ := h a s hs
  rw [value?, value?, hs, hs', Option.bind_some, Option.bind_some, hsame hkind]

lemma fillable_of_isEvaluated (h : m.isEvaluated a = true) : m.Fillable a := by
  obtain ⟨v, hv⟩ := Option.isSome_iff_exists.mp h
  obtain ⟨s, hs, hvalue⟩ := Option.bind_eq_some_iff.mp hv
  exact ⟨s, hs, fun _ => Option.isSome_iff_exists.mpr ⟨v, hvalue⟩⟩

lemma Retains.fillable (h : m.Retains m') (ha : m.Fillable a) : m'.Fillable a := by
  obtain ⟨s, hs, hfilled⟩ := ha
  obtain ⟨s', hs', hcell, hkept⟩ := h a s hs
  refine ⟨s', hs', fun hkind => ?_⟩
  obtain ⟨v, hv⟩ := Option.isSome_iff_exists.mp (hfilled (by rw [← hcell]; exact hkind))
  exact Option.isSome_iff_exists.mpr ⟨v, hkept v hv⟩

/-- **Writing to a slot that may be filled** gives no structure a value. -/
lemma Fillable.spares_memoize (ha : m.Fillable a) (v : Value) : m.Spares (m.memoize a v) := by
  obtain ⟨t, ht, hfilled⟩ := ha
  intro b s hs
  rw [get?_memoize_eq, hs]
  split
  · next heq =>
    subst heq
    obtain rfl : s = t := Option.some.inj (hs.symm.trans ht)
    refine ⟨s.fill v, rfl, rfl, fun w hw => Slot.value_fill hw v, fun hkind => ?_⟩
    obtain ⟨w, hw⟩ := Option.isSome_iff_exists.mp (hfilled hkind)
    rw [hw]
    exact Slot.value_fill hw v
  · exact ⟨s, rfl, rfl, fun _ => id, fun _ => rfl⟩

end Memory

/-! ### Opcodes -/

/-- An opcode that leaves structures to the machine: it takes away no slot and no value, and gives no
value to the slot of a structure cell. -/
def Opcode.Spares (op : Opcode) : Prop :=
  ∀ frame (s : Store), s.memory.Spares (op.evaluate frame s).2.memory

def Opcodes.Spare (opcodes : Opcodes) : Prop :=
  ∀ mnemonic op, opcodes.get? mnemonic = some op → op.Spares

/-! ### Compiled calls -/

/-- A node that stands for a cell that has been checked: structures for structures, with the keys of
their type unless that is left open. -/
structure Node.Assembles (node : Node) : Prop where
  structured : ∀ members, node.op = .structured members ↔ node.cell.kind = .structured members
  keys : ∀ members, node.op = .structured members → node.cell.type.isRuntimeDetermined = false →
    ∀ key, key ∈ members.keys ↔ key ∈ node.cell.type.stores.keys
  opcode : ∀ op arguments bindings, node.op = .opcode op arguments bindings → op.Spares

structure CompiledCall.Assembles (call : CompiledCall) : Prop where
  ascending : call.nodes.Ascending
  cell : ∀ j node, call.nodes.get? j = some node → call.callable.cell? j = some node.cell
  node : ∀ j node, call.nodes.get? j = some node → node.Assembles

def Compilation.Assembles (c : Compilation) : Prop := ∀ call, c = .ok call → call.Assembles

lemma KindChecked.assembles {opcodes : Opcodes} {memory : Memory} {c : Callable} {reg : Registry}
    {j : Nat} {node : Node} (hspare : opcodes.Spare)
    (h : KindChecked opcodes memory c reg j node.cell.type node.cell.kind node.op) :
    node.Assembles := by
  obtain ⟨⟨kind, type, source⟩, op⟩ := node
  cases kind with
  | external name =>
    obtain ⟨-, rfl⟩ := h
    exact ⟨fun _ => ⟨nofun, nofun⟩, nofun, nofun⟩
  | constant moduleName name =>
    obtain ⟨a, -, rfl, -⟩ := h
    exact ⟨fun _ => ⟨nofun, nofun⟩, nofun, nofun⟩
  | structured members =>
    obtain ⟨rfl, hchecked⟩ := h
    refine ⟨fun members' => ⟨fun heq => ?_, fun heq => ?_⟩, fun members' heq hopen => ?_, nofun⟩
    · cases heq
      rfl
    · cases heq
      rfl
    · cases heq
      rcases hchecked with h | ⟨name, source, stores, htype, hkeys, -⟩
      · exact absurd (h.symm.trans hopen) (by decide)
      · obtain rfl : type = .structured name source stores := htype
        exact hkeys
  | iterable items =>
    obtain ⟨rfl, -⟩ := h
    exact ⟨fun _ => ⟨nofun, nofun⟩, nofun, nofun⟩
  | opcode mnemonic arguments explicit =>
    obtain ⟨opcode, bindings, hop, rfl, -⟩ := h
    refine ⟨fun _ => ⟨nofun, nofun⟩, nofun, fun op' arguments' bindings' heq => ?_⟩
    cases heq
    exact hspare mnemonic _ hop
  | call callable argument =>
    obtain ⟨rfl, -⟩ := h
    exact ⟨fun _ => ⟨nofun, nofun⟩, nofun, nofun⟩

/-- **A compiled call** has the structures of its callable. -/
lemma assembles_compileSlot {opcodes : Opcodes} (hasks : opcodes.OnlyAsk) (hspare : opcodes.Spare)
    (modules : KeyMap String Module) (memory : Memory) (a : Address) (types : Registry) :
    Compilation.Assembles (compileSlot opcodes modules memory a types).1 := by
  intro call hcall
  by_cases hrefused : (∀ f, memory.value? a ≠ some (.callable f)) ∨
      ∀ name source argument result, memory.typeOf a ≠ .callable name source argument result
  · rw [compileSlot_refused hrefused] at hcall
    cases hcall
  · push Not at hrefused
    obtain ⟨⟨f, hvalue⟩, name, source, argument, result, htype⟩ := hrefused
    rw [compileSlot_callable hvalue htype] at hcall
    split at hcall
    · have henv : (CompileEnv.mk opcodes modules memory f).opcodes.OnlyAsk := hasks
      obtain ⟨hcallable, -, hfits⟩ := CompileEnv.fits_compile henv.keepTypes hcall
      have hformed := CompileEnv.wellFormed_compile henv hcall (.refl _)
      exact ⟨hfits.ascending, hformed.cells, fun j node hj =>
        (hformed.checked j node hj).assembles hspare⟩
    · cases hcall
    · cases hcall
    · cases hcall

/-! ### Structures of activations -/

namespace Activation

open Machine

/-- A value that is made of the slots of the members. -/
def Assembles (activation : Activation) (members : KeyMap String Nat) (type : Ty) (v : Value) : Prop :=
  ∃ as, slotsOf activation members.values = some as ∧
    v = .structured (.ofLayer (.ofList (members.keys.zip as)) type)

end Activation

namespace Machine

/-- An activation on its way: its new nodes have slots of their own, under which they are entered, and a
structure that has a value has the one that it is assembled to. -/
structure Registered (m : Machine) (activation : Activation) : Prop where
  call : activation.call.Assembles
  node : ∀ j a, activation.slots.get? j = some a →
    ∃ node, activation.call.nodes.get? j = some node
  slot : ∀ j node, activation.call.nodes.get? j = some node → node.op.isNew = true → ∃ i s,
    activation.slots.get? j = some (.at i) ∧ m.pending.get? i = some ⟨activation, j⟩ ∧
      m.store.memory.get? (.at i) = some s ∧ s.cell = node.cell ∧
      ∀ members v, node.op = .structured members → s.value = some v →
        activation.Assembles members node.cell.type v

/-- **What holds in every state of a run**: what is compiled was checked, and every structure that has a
value was assembled. -/
structure Assembling (m : Machine) : Prop where
  asks : m.setting.opcodes.OnlyAsk
  spare : m.setting.opcodes.Spare
  compiled : ∀ i c, m.compiled.get? i = some c → c.Assembles
  pending : ∀ i p, m.pending.get? i = some p → m.Registered p.activation ∧
    p.activation.slots.get? p.node = some (.at i) ∧
      ∃ node, p.activation.call.nodes.get? p.node = some node ∧ node.op.isNew = true

variable {m m' : Machine}

/-- The slot of a cell that was entered is that of its node. -/
lemma Assembling.exists_slot (h : m.Assembling) {i : Nat} {p : Pending}
    (hp : m.pending.get? i = some p) : ∃ node s, p.activation.call.nodes.get? p.node = some node ∧
      node.op.isNew = true ∧ m.store.memory.get? (.at i) = some s ∧ s.cell = node.cell := by
  obtain ⟨hregistered, hslot, node, hnode, hnew⟩ := h.pending i p hp
  obtain ⟨i', s, hslot', -, hs, hcell, -⟩ := hregistered.slot p.node node hnode hnew
  cases hslot.symm.trans hslot'
  exact ⟨node, s, hnode, hnew, hs, hcell⟩

lemma Assembling.fillable (h : m.Assembling) {i : Nat} {p : Pending}
    (hp : m.pending.get? i = some p) {node : Node}
    (hnode : p.activation.call.nodes.get? p.node = some node)
    (hother : ∀ members, node.op ≠ .structured members) : m.store.memory.Fillable (.at i) := by
  obtain ⟨node', s, hnode', -, hs, hcell⟩ := h.exists_slot hp
  cases hnode.symm.trans hnode'
  have hassembles := (h.pending i p hp).1.call.node p.node node hnode
  refine ⟨s, hs, fun ⟨members, hkind⟩ => absurd ?_ (hother members)⟩
  exact (hassembles.structured members).mpr (hcell ▸ hkind)

/-- The same cells are entered, and every structure among them that has come to a value is assembled. -/
lemma Registered.later {activation : Activation} (h : m.Registered activation)
    (hretains : m.store.memory.Retains m'.store.memory)
    (hpending : ∀ i p, m.pending.get? i = some p → m'.pending.get? i = some p)
    (hvalues : ∀ i j node members v, m.pending.get? i = some ⟨activation, j⟩ →
      activation.call.nodes.get? j = some node → node.op = .structured members →
      m'.store.memory.value? (.at i) = some v → m.store.memory.value? (.at i) = some v ∨
        activation.Assembles members node.cell.type v) : m'.Registered activation := by
  refine ⟨h.call, h.node, fun j node hj hnew => ?_⟩
  obtain ⟨i, s, hslot, hentered, hs, hcell, hassembled⟩ := h.slot j node hj hnew
  obtain ⟨s', hs', hcell', -⟩ := hretains _ s hs
  refine ⟨i, s', hslot, hpending i _ hentered, hs', hcell'.trans hcell, fun members v hop hv => ?_⟩
  have hvalue : m'.store.memory.value? (.at i) = some v := by rw [Memory.value?, hs']; exact hv
  rcases hvalues i j node members v hentered hj hop hvalue with hbefore | hnow
  · rw [Memory.value?, hs] at hbefore
    exact hassembled members v hop hbefore
  · exact hnow

lemma Assembling.spared (h : m.Assembling) (hspares : m.store.memory.Spares m'.store.memory)
    (hsetting : m'.setting = m.setting)
    (hcompiled : ∀ i c, m'.compiled.get? i = some c → c.Assembles)
    (hpending : m'.pending = m.pending) : m'.Assembling := by
  refine ⟨hsetting ▸ h.asks, hsetting ▸ h.spare, hcompiled, fun i p hp => ?_⟩
  rw [hpending] at hp
  obtain ⟨hregistered, hslot⟩ := h.pending i p hp
  refine ⟨hregistered.later hspares.retains (fun i p hp => hpending ▸ hp) ?_, hslot⟩
  intro i j node members v hentered hj hop hv
  obtain ⟨node', s, hnode', -, hs, hcell⟩ := h.exists_slot hentered
  cases hj.symm.trans hnode'
  have hkind : s.cell.kind.IsStructured :=
    ⟨members, by rw [hcell]; exact ((hregistered.call.node j node hj).structured members).mp hop⟩
  exact .inl ((hspares.value?_eq hs hkind).symm.trans hv)

lemma Assembling.congr (h : m.Assembling) (hsetting : m'.setting = m.setting)
    (hcompiled : m'.compiled = m.compiled) (hpending : m'.pending = m.pending)
    (hmemory : m'.store.memory = m.store.memory) : m'.Assembling :=
  h.spared (hmemory ▸ .refl _) hsetting (hcompiled ▸ h.compiled) hpending

/-- **A structure is assembled** in the slot of its cell, and nothing else is written. -/
lemma Assembling.assemble (h : m.Assembling) {i : Nat} {p : Pending} (hp : m.pending.get? i = some p)
    {node : Node} (hnode : p.activation.call.nodes.get? p.node = some node)
    {members : KeyMap String Nat} (hop : node.op = .structured members) {v : Value}
    (hv : p.activation.Assembles members node.cell.type v) :
    Assembling { m with store := { m.store with memory := m.store.memory.memoize (.at i) v } } := by
  refine ⟨h.asks, h.spare, h.compiled, fun i' p' hp' => ?_⟩
  obtain ⟨hregistered, hslot⟩ := h.pending i' p' hp'
  refine ⟨hregistered.later (Memory.retains_memoize _ (.at i) v) (fun _ _ => id) ?_, hslot⟩
  intro k j node' members' w hentered hj hop' hw
  obtain ⟨-, s, -, -, hs, -⟩ := h.exists_slot hentered
  by_cases hk : i = k
  · subst hk
    cases hp.symm.trans hentered
    cases hnode.symm.trans hj
    cases hop.symm.trans hop'
    rcases hbefore : m.store.memory.value? (.at i) with _ | u
    · have hi : i < m.store.memory.slots.size := (Array.getElem?_eq_some_iff.mp hs).1
      cases (Memory.value?_memoize_of_none hi hbefore v).symm.trans hw
      exact .inr hv
    · exact .inl ((Memory.value?_memoize_of_some hbefore v).symm.trans hw)
  · exact .inl ((Memory.value?_memoize_of_ne hk v).symm.trans hw)

/-- **An activation** is registered, with slots that have no values yet. -/
lemma Assembling.activated (h : m.Assembling) {call : CompiledCall} (hcall : call.Assembles)
    (argument : Address) : (m.activated call argument).Assembling := by
  have hact := activates_activate argument call.nodes m.store
  have hold : ∀ i p, m.pending.get? i = some p →
      (m.activated call argument).pending.get? i = some p := by
    intro i p hp
    obtain ⟨-, s, -, -, hs, -⟩ := h.exists_slot hp
    have hi : i < m.store.memory.slots.size := (Array.getElem?_eq_some_iff.mp hs).1
    exact (pending_activated_of_lt call argument hcall.ascending hi).trans hp
  refine ⟨h.asks, h.spare, h.compiled, fun i p hp => ?_⟩
  rcases exists_entered hp with hp | ⟨⟨j, node⟩, he, hnew, hslot, rfl⟩
  · obtain ⟨hregistered, hslot⟩ := h.pending i p hp
    refine ⟨hregistered.later hact.memory.retains hold ?_, hslot⟩
    exact fun _ _ _ _ _ _ _ _ hv => .inl (hact.kept hv)
  · refine ⟨⟨hcall, fun j' a ha => ?_, fun j' node' hj' hnew' => ?_⟩, hslot, node,
      hcall.ascending.get?_of_mem he, hnew⟩
    · have hrel := KeyMap.rel_get? hact.slots j'
      rw [show KeyMap.get? (activate argument call.nodes m.store).1 j' = some a from ha] at hrel
      cases hj' : call.nodes.get? j' with
      | some node' => exact ⟨node', rfl⟩
      | none =>
        rw [hj'] at hrel
        cases hrel
    obtain ⟨a, ha, hplaced⟩ := exists_placed hact hj'
    obtain ⟨k, rfl, -⟩ := (placed_iff_of_new hnew').mp hplaced
    obtain ⟨hget, hpending⟩ := Tandem.entered_of_new call argument hcall.ascending
      (KeyMap.mem_of_get? hj') hnew' ha
    exact ⟨_, _, ha, hpending, hget, rfl, fun _ _ _ => nofun⟩

/-! ### Computations -/

/-- A computation that keeps structures assembled and slots with what they had, and whose result has a
property. -/
def Builds {α : Type} (m : Machine) (x : RunM α) (Q : α → Memory → Prop) : Prop :=
  (x m).2.Assembling ∧ m.store.memory.Retains (x m).2.store.memory ∧ Q (x m).1 (x m).2.store.memory

namespace Builds

variable {α β : Type} {x : RunM α} {P Q : α → Memory → Prop} {R : β → Memory → Prop}

lemma pure (h : m.Assembling) {a : α} (ha : Q a m.store.memory) : Builds m (pure a) Q :=
  ⟨h, .refl _, ha⟩

lemma bind {f : α → RunM β} (hx : Builds m x P)
    (hf : ∀ a m', m'.Assembling → m.store.memory.Retains m'.store.memory → P a m'.store.memory →
      Builds m' (f a) R) : Builds m (x >>= f) R := by
  obtain ⟨h, retains, hP⟩ := hx
  obtain ⟨h', retains', hR⟩ := hf _ _ h retains hP
  exact ⟨h', retains.trans retains', hR⟩

lemma memory {f : Memory → RunM β} (hf : Builds m (f m.store.memory) R) :
    Builds m (RunM.memory >>= f) R := hf

lemma setting {f : Setting → RunM β} (hf : Builds m (f m.setting) R) :
    Builds m (RunM.setting >>= f) R := hf

lemma value? {a : Address} {f : Option Value → RunM β}
    (hf : Builds m (f (m.store.memory.value? a)) R) : Builds m (RunM.value? a >>= f) R := hf

lemma get {f : Machine → RunM β} (hf : Builds m (f m) R) : Builds m (MonadState.get >>= f) R := hf

lemma store (h : m.Assembling) {x : StoreM α} (hspares : m.store.memory.Spares (x m.store).2.memory)
    (hQ : Q (x m.store).1 (x m.store).2.memory) : Builds m (RunM.store x) Q :=
  ⟨h.spared hspares rfl h.compiled rfl, hspares.retains, hQ⟩

lemma reading (h : m.Assembling) {x : StoreM α} (hx : (x m.store).2.memory = m.store.memory) :
    Builds m (RunM.store x) fun _ _ => True :=
  store h (by rw [hx]; exact .refl _) trivial

lemma checking (h : m.Assembling) (asked : Config → Bool) (c : Check) :
    Builds m (RunM.checking asked (StoreM.check c)) fun _ _ => True := by
  unfold Builds RunM.checking
  split
  · exact reading h rfl
  · exact ⟨h, .refl _, trivial⟩

lemma tell (h : m.Assembling) (f : Memory → Notice) : Builds m (RunM.tell f) fun _ _ => True := by
  unfold Builds RunM.tell
  split
  · exact ⟨h, .refl _, trivial⟩
  · exact ⟨h.congr rfl rfl rfl rfl, .refl _, trivial⟩

lemma tellOpcode (h : m.Assembling) (f : Memory → Notice) :
    Builds m (RunM.tellOpcode f) fun _ _ => True := by
  unfold Builds RunM.tellOpcode
  split
  · exact ⟨h.congr rfl rfl rfl rfl, .refl _, trivial⟩
  · exact ⟨h, .refl _, trivial⟩

lemma memoize (h : m.Assembling) {a : Address} (ha : m.store.memory.Fillable a) (v : Value) :
    Builds m (RunM.store (StoreM.memoize a v)) fun _ _ => True :=
  store h (ha.spares_memoize v) trivial

end Builds

/-! ### Calls -/

lemma builds_compile (h : m.Assembling) (a : Address) :
    Builds m (compile a) fun c _ => c.Assembles := by
  refine ⟨h.congr rfl rfl rfl rfl, .refl _, ?_⟩
  exact assembles_compileSlot h.asks h.spare m.setting.modules m.store.memory a m.store.types

lemma builds_compileAt (h : m.Assembling) (i : Nat) :
    Builds m (compileAt i) fun c _ => c.Assembles := by
  obtain ⟨c, hc, heq⟩ | ⟨c, types, -, hc, heq⟩ := compileAt_cases i m
  · rw [Builds, heq]
    exact ⟨h, .refl _, h.compiled i c hc⟩
  · have hassembles : c.Assembles := by
      obtain rfl | ⟨a, rfl⟩ := hc
      · exact nofun
      · exact assembles_compileSlot h.asks h.spare m.setting.modules m.store.memory a m.store.types
    rw [Builds, heq]
    refine ⟨h.spared (.refl _) rfl (fun j d hj => ?_) rfl, .refl _, hassembles⟩
    rw [KeyMap.get?_insert] at hj
    split at hj
    · cases hj
      exact hassembles
    · exact h.compiled j d hj

end Machine

end CellMachine
