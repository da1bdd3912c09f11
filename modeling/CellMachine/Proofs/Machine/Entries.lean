import CellMachine.Proofs.Machine.Effects

/-!
Which cell a slot belongs to. When a compiled call is set up, the cells that it computes get slots of
their own at the end of memory, and each is entered under the index of its slot. Nothing else is entered,
and the slots of later calls come later; so what is entered stays as it is.
-/

namespace CellMachine

namespace Machine

/-- A cell of an activation with its slot: that lies past the first ones, is a slot for the cell of the
node, and has the cell entered under its index. -/
structure Entered (first : Nat) (m : Machine) (activation : Activation) (j : Nat) (node : Node)
    (i : Nat) : Prop where
  past : first ≤ i
  slot : activation.slots.get? j = some (.at i)
  entry : m.pending.get? i = some ⟨activation, j⟩
  cell : ∃ s, m.store.memory.get? (.at i) = some s ∧ s.cell = node.cell

/-- A later state of a run: memory was changed, and what is entered stays. -/
structure Continues (m m' : Machine) : Prop where
  memory : m.store.memory.Develops m'.store.memory
  entries : ∀ i p, m.pending.get? i = some p → m'.pending.get? i = some p

/-- **What holds in every state of a run**: an entry is for the cell whose slot has the index, and the
other cells that its activation computes are entered as well. -/
structure Indexed (base : Memory) (m : Machine) : Prop where
  memory : base.Develops m.store.memory
  own : ∀ i p, m.pending.get? i = some p → ∃ node,
    p.activation.call.nodes.get? p.node = some node ∧ node.op.isNew = true ∧
      m.Entered base.size p.activation p.node node i
  computed : ∀ i p, m.pending.get? i = some p → ∀ j node,
    p.activation.call.nodes.get? j = some node → node.op.isNew = true →
      ∃ k, m.Entered base.size p.activation j node k

variable {base : Memory} {m m' m'' : Machine} {activation : Activation} {call : CompiledCall}
  {node : Node} {i j first : Nat}

lemma Continues.refl (m : Machine) : m.Continues m := ⟨.refl _, fun _ _ => id⟩

lemma Continues.trans (h : m.Continues m') (h' : m'.Continues m'') : m.Continues m'' :=
  ⟨h.memory.trans h'.memory, fun i p hp => h'.entries i p (h.entries i p hp)⟩

lemma Entered.lt_size (h : m.Entered first activation j node i) : i < m.store.memory.slots.size := by
  obtain ⟨s, hs, -⟩ := h.cell
  exact (Array.getElem?_eq_some_iff.mp hs).1

lemma Entered.later (h : m.Entered first activation j node i) (later : m.Continues m') :
    m'.Entered first activation j node i := by
  obtain ⟨s, hs, hcell⟩ := h.cell
  obtain ⟨s', hs', hcell', -⟩ := later.memory.retains _ s hs
  exact ⟨h.past, h.slot, later.entries i _ h.entry, s', hs', hcell'.trans hcell⟩

/-- Where nothing is entered, memory may be changed. -/
lemma Indexed.unentered (h : m.Indexed base) (memory : m.store.memory.Develops m'.store.memory)
    (pending : m'.pending = m.pending) : m'.Indexed base ∧ m.Continues m' := by
  have later : m.Continues m' := ⟨memory, fun i p hp => pending ▸ hp⟩
  refine ⟨⟨h.memory.trans memory, fun i p hp => ?_, fun i p hp j node hj hnew => ?_⟩, later⟩
  · rw [pending] at hp
    obtain ⟨node, hnode, hnew, hentered⟩ := h.own i p hp
    exact ⟨node, hnode, hnew, hentered.later later⟩
  · rw [pending] at hp
    exact (h.computed i p hp j node hj hnew).imp fun _ hentered => hentered.later later

lemma exists_entered_activated (h : base.Develops m.store.memory) (hasc : call.nodes.Ascending)
    (argument : Address) (hj : call.nodes.get? j = some node) (hnew : node.op.isNew = true) :
    ∃ i, (m.activated call argument).Entered base.size
      ⟨call, (activate argument call.nodes m.store).1⟩ j node i := by
  have hact := activates_activate argument call.nodes m.store
  obtain ⟨a, ha, hplaced⟩ := exists_placed hact hj
  obtain ⟨k, rfl, -⟩ := (placed_iff_of_new hnew).mp hplaced
  obtain ⟨hget, hentry⟩ :=
    Tandem.entered_of_new call argument hasc (KeyMap.mem_of_get? hj) hnew ha
  have hsize : base.size ≤ m.store.memory.size := h.retains.size_le
  exact ⟨_, Nat.le_add_right_of_le hsize, ha, hentry, _, hget, rfl⟩

/-- **Setting up a call** enters what it computes, and touches no entry that there is. -/
lemma Indexed.activated (h : m.Indexed base) (hasc : call.nodes.Ascending) (argument : Address) :
    (m.activated call argument).Indexed base ∧ m.Continues (m.activated call argument) := by
  have hact := activates_activate argument call.nodes m.store
  have later : m.Continues (m.activated call argument) := by
    refine ⟨hact.memory.develops, fun i p hp => ?_⟩
    obtain ⟨node, -, -, hentered⟩ := h.own i p hp
    exact (pending_activated_of_lt call argument hasc hentered.lt_size).trans hp
  refine ⟨⟨h.memory.trans later.memory, fun i p hp => ?_, fun i p hp j node hj hnew => ?_⟩, later⟩
  · rcases exists_entered hp with hp | ⟨⟨j, node⟩, he, hnew, hslot, rfl⟩
    · obtain ⟨node, hnode, hnew, hentered⟩ := h.own i p hp
      exact ⟨node, hnode, hnew, hentered.later later⟩
    · have hj := hasc.get?_of_mem he
      obtain ⟨i', hentered⟩ := exists_entered_activated h.memory hasc argument hj hnew
      obtain rfl : i' = i := by
        injection Option.some.inj (hentered.slot.symm.trans hslot)
      exact ⟨node, hj, hnew, hentered⟩
  · rcases exists_entered hp with hp | ⟨e, -, -, -, rfl⟩
    · exact (h.computed i p hp j node hj hnew).imp fun _ hentered => hentered.later later
    · exact exists_entered_activated h.memory hasc argument hj hnew

/-- **Whatever a run does** keeps slots with their cells. -/
lemma Indexed.effect (h : m.Indexed base) (effect : Effect Opcode.Develops m m') :
    m'.Indexed base ∧ m.Continues m' := by
  cases effect with
  | aside setting memory compiled pending => exact h.unentered (memory ▸ .refl _) pending
  | grown hover => exact h.unentered hover.develops rfl
  | filled a v => exact h.unentered (.apply _ (.filled a v)) rfl
  | applied hop frame => exact h.unentered (hop frame m.store) rfl
  | noted index hc => exact h.unentered (.refl _) rfl
  | activated hcall argument => exact h.activated hcall.ascending argument

lemma Indexed.effects (h : m.Indexed base) (effects : Effects Opcode.Develops m m') :
    m'.Indexed base ∧ m.Continues m' := by
  induction effects with
  | refl => exact ⟨h, .refl m⟩
  | tail _ effect ih =>
    obtain ⟨h', later⟩ := ih
    obtain ⟨h'', later'⟩ := h'.effect effect
    exact ⟨h'', later.trans later'⟩

/-- No two cells that are computed share a slot, whichever activations they are of. -/
lemma Indexed.apart (h : m.Indexed base) {i' j' : Nat} {p p' : Pending} {node' : Node} {a : Address}
    (hp : m.pending.get? i = some p) (hp' : m.pending.get? i' = some p')
    (hj : p.activation.call.nodes.get? j = some node) (hnew : node.op.isNew = true)
    (hj' : p'.activation.call.nodes.get? j' = some node') (hnew' : node'.op.isNew = true)
    (ha : p.activation.slots.get? j = some a) (ha' : p'.activation.slots.get? j' = some a) :
    p.activation = p'.activation ∧ j = j' := by
  obtain ⟨k, hk⟩ := h.computed i p hp j node hj hnew
  obtain ⟨k', hk'⟩ := h.computed i' p' hp' j' node' hj' hnew'
  cases ha.symm.trans hk.slot
  cases ha'.symm.trans hk'.slot
  exact Pending.mk.inj (Option.some.inj (hk.entry.symm.trans hk'.entry))

end Machine

end CellMachine
