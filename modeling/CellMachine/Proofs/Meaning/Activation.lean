import CellMachine.Proofs.Meaning.Heap

/-!
Applying a compiled function: the nodes of the call get slots, and these stand for the cells of the
function applied to what the argument stands for.
-/

namespace CellMachine

/-- The nodes that get slots of their own. -/
def newNodes (nodes : KeyMap Nat Node) : List (Nat × Node) := nodes.filter fun e => e.2.op.isNew

namespace Machine

/-- The slot of a node: the argument's, a constant's, or a new one. -/
def Placed (argument : Address) (size : Nat) (new : List (Nat × Node)) (index : Nat) (node : Node)
    (a : Address) : Prop :=
  match node.op with
  | .argument => a = argument
  | .constant b => a = b
  | _ => ∃ i, a = .at (size + i) ∧ new[i]? = some (index, node)

/-- What activation leaves: new slots at the end of memory, without values. -/
structure Activates (argument : Address) (nodes : KeyMap Nat Node) (s : Store)
    (slots : KeyMap Nat Address) (s' : Store) : Prop where
  types : s'.types = s.types
  memory : s.memory.Over s'.memory
  size : s'.memory.slots.size = s.memory.slots.size + (newNodes nodes).length
  new : ∀ (i : Nat) e, (newNodes nodes)[i]? = some e →
    s'.memory.get? (.at (s.memory.slots.size + i)) = some ⟨e.2.cell, none⟩
  slots : List.Forall₂ (fun e f => e.1 = f.1 ∧
    Placed argument s.memory.slots.size (newNodes nodes) e.1 e.2 f.2) nodes slots

section Activating

variable {argument : Address} {nodes : KeyMap Nat Node} {s s' : Store} {slots : KeyMap Nat Address}
  {index : Nat} {node : Node}

/-- The slot of a new node is one of the new slots. -/
lemma placed_iff_of_new (hnew : node.op.isNew = true) {size : Nat} {new : List (Nat × Node)}
    {a : Address} : Placed argument size new index node a ↔
      ∃ i, a = .at (size + i) ∧ new[i]? = some (index, node) := by
  unfold Placed
  cases hop : node.op with
  | argument => simp [NodeOp.isNew, hop] at hnew
  | constant b => simp [NodeOp.isNew, hop] at hnew
  | _ => exact Iff.rfl

lemma Activates.cons_old (h : Activates argument nodes s slots s') (hold : node.op.isNew = false)
    {a : Address} (ha : ∀ size new, Placed argument size new index node a) :
    Activates argument ((index, node) :: nodes) s ((index, a) :: slots) s' := by
  have hfilter : newNodes ((index, node) :: nodes) = newNodes nodes := by simp [newNodes, hold]
  exact {
    types := h.types
    memory := h.memory
    size := hfilter ▸ h.size
    new := hfilter ▸ h.new
    slots := hfilter ▸ .cons ⟨rfl, ha _ _⟩ h.slots }

lemma Activates.cons_new (hnew : node.op.isNew = true)
    (h : Activates argument nodes { s with memory := (s.memory.allocate node.cell none).2 } slots s') :
    Activates argument ((index, node) :: nodes) s ((index, .at s.memory.slots.size) :: slots) s' := by
  have hover := Memory.over_allocate s.memory node.cell none
  have hsize := Memory.size_allocate s.memory node.cell none
  have hfilter : newNodes ((index, node) :: nodes) = (index, node) :: newNodes nodes := by
    simp [newNodes, hnew]
  refine ⟨h.types, hover.trans h.memory, ?_, ?_, ?_⟩ <;> rw [hfilter]
  · have := h.size
    simp only [hsize] at this
    rw [List.length_cons]
    omega
  · rintro (_ | i) e he
    · cases he
      rw [Nat.add_zero, h.memory.get? (by simp only [hsize]; omega)]
      exact Memory.get?_allocate_self s.memory node.cell none
    · have := h.new i e he
      simp only [hsize] at this
      rw [← this]
      congr 2
      omega
  · refine .cons ⟨rfl, (placed_iff_of_new hnew).mpr ⟨0, rfl, rfl⟩⟩ (h.slots.imp fun e f hef => ?_)
    refine ⟨hef.1, ?_⟩
    have hplaced := hef.2
    simp only [hsize, Placed] at hplaced ⊢
    split at hplaced
    · exact hplaced
    · exact hplaced
    · obtain ⟨i, hi, hget⟩ := hplaced
      refine ⟨i + 1, ?_, hget⟩
      rw [hi]
      congr 1
      omega

end Activating

lemma activates_activate (argument : Address) (nodes : KeyMap Nat Node) (s : Store) :
    Activates argument nodes s (activate argument nodes s).1 (activate argument nodes s).2 := by
  induction nodes generalizing s with
  | nil => exact ⟨rfl, .refl _, rfl, (fun _ _ he => by cases he), .nil⟩
  | cons e nodes ih =>
    obtain ⟨index, node⟩ := e
    cases hop : node.op with
    | argument =>
      simp only [activate, hop]
      exact (ih s).cons_old (by rw [hop]; rfl) fun _ _ => by simp only [Placed, hop]
    | constant a =>
      simp only [activate, hop]
      exact (ih s).cons_old (a := a) (by rw [hop]; rfl) fun _ _ => by simp only [Placed, hop]
    | _ =>
      simp only [activate, hop]
      exact (ih { s with memory := (s.memory.allocate node.cell none).2 }).cons_new (by rw [hop]; rfl)

lemma Activates.kept {argument : Address} {nodes : KeyMap Nat Node} {s s' : Store}
    {slots : KeyMap Nat Address} (h : Activates argument nodes s slots s') {a : Address} {v : Value}
    (hv : s'.memory.value? a = some v) : s.memory.value? a = some v := by
  refine h.memory.kept hv fun i hi => ?_
  obtain ⟨k, rfl⟩ := Nat.exists_eq_add_of_le hi
  rw [Memory.value?]
  cases he : (newNodes nodes)[k]? with
  | some e =>
    rw [h.new k e he]
    rfl
  | none =>
    have hk : (newNodes nodes).length ≤ k := List.getElem?_eq_none_iff.mp he
    have hsize := h.size
    have hnone : s'.memory.get? (.at (s.memory.slots.size + k)) = none :=
      Array.getElem?_eq_none (by omega)
    rw [hnone]
    rfl

section Entering

variable (activation : Activation) {index : Nat} {node : Node} (nodes : List (Nat × Node))
  (pending : Std.TreeMap Nat Pending)

lemma enterSlots_of_old (hold : node.op.isNew = false) :
    enterSlots activation ((index, node) :: nodes) pending = enterSlots activation nodes pending := by
  cases hop : node.op with
  | argument => simp only [enterSlots, hop]
  | constant a => simp only [enterSlots, hop]
  | _ => simp [NodeOp.isNew, hop] at hold

lemma enterSlots_of_new (hnew : node.op.isNew = true) {k : Nat}
    (hslot : activation.slots.get? index = some (.at k)) :
    enterSlots activation ((index, node) :: nodes) pending =
      enterSlots activation nodes (pending.insert k ⟨activation, index⟩) := by
  cases hop : node.op with
  | argument => simp [NodeOp.isNew, hop] at hnew
  | constant a => simp [NodeOp.isNew, hop] at hnew
  | _ => simp [enterSlots, hop, hslot, Address.index?]

lemma enterSlots_of_unplaced (hslot : ∀ k, activation.slots.get? index ≠ some (.at k)) :
    enterSlots activation ((index, node) :: nodes) pending = enterSlots activation nodes pending := by
  have hnone : (activation.slots.get? index).bind Address.index? = none := by
    cases hget : activation.slots.get? index with
    | none => rfl
    | some a =>
      cases a with
      | «at» k => exact absurd hget (hslot k)
      | loose n => rfl
  cases hop : node.op <;> simp [enterSlots, hop, hnone]

lemma get?_enterSlots (i : Nat) :
    (∃ e ∈ nodes, e.2.op.isNew = true ∧ activation.slots.get? e.1 = some (.at i) ∧
        (enterSlots activation nodes pending).get? i = some ⟨activation, e.1⟩) ∨
      (∀ e ∈ nodes, e.2.op.isNew = true → activation.slots.get? e.1 ≠ some (.at i)) ∧
        (enterSlots activation nodes pending).get? i = pending.get? i := by
  induction nodes generalizing pending with
  | nil => exact .inr ⟨List.forall_mem_nil _, rfl⟩
  | cons e nodes ih =>
    obtain ⟨index, node⟩ := e
    -- A node that enters nothing under `i` leaves the question to the rest.
    have skip : ∀ pending', enterSlots activation ((index, node) :: nodes) pending =
          enterSlots activation nodes pending' → pending'.get? i = pending.get? i →
        (node.op.isNew = true → activation.slots.get? index ≠ some (.at i)) →
        (∃ e ∈ (index, node) :: nodes, e.2.op.isNew = true ∧
            activation.slots.get? e.1 = some (.at i) ∧
            (enterSlots activation ((index, node) :: nodes) pending).get? i =
              some ⟨activation, e.1⟩) ∨
          (∀ e ∈ (index, node) :: nodes, e.2.op.isNew = true →
              activation.slots.get? e.1 ≠ some (.at i)) ∧
            (enterSlots activation ((index, node) :: nodes) pending).get? i = pending.get? i := by
      intro pending' heq hget hskip
      rw [heq]
      rcases ih pending' with ⟨e, he, h⟩ | ⟨hall, hsame⟩
      · exact .inl ⟨e, List.mem_cons_of_mem _ he, h⟩
      · exact .inr ⟨List.forall_mem_cons.mpr ⟨hskip, hall⟩, hsame.trans hget⟩
    cases hnew : node.op.isNew with
    | false =>
      refine skip pending (enterSlots_of_old activation nodes pending hnew) rfl fun h => ?_
      rw [hnew] at h
      cases h
    | true =>
      by_cases hplaced : ∃ k, activation.slots.get? index = some (.at k)
      case neg =>
        have hslot : ∀ k, activation.slots.get? index ≠ some (.at k) :=
          fun k hk => hplaced ⟨k, hk⟩
        exact skip pending (enterSlots_of_unplaced activation nodes pending hslot) rfl
          fun _ => hslot i
      obtain ⟨k, hslot⟩ := hplaced
      have henter := enterSlots_of_new activation nodes pending hnew hslot
      by_cases hk : k = i
      case neg =>
        refine skip _ henter ?_ fun _ h => ?_
        · show (pending.insert k _).get? i = pending.get? i
          rw [Std.TreeMap.get?_eq_getElem?, Std.TreeMap.getElem?_insert, if_neg]
          · rfl
          · exact mt Std.LawfulEqOrd.eq_of_compare hk
        · rw [hslot] at h
          cases h
          exact hk rfl
      subst hk
      rw [henter]
      refine .inl ?_
      rcases ih (pending.insert k ⟨activation, index⟩) with ⟨e, he, h⟩ | ⟨-, hsame⟩
      · exact ⟨e, List.mem_cons_of_mem _ he, h⟩
      · refine ⟨(index, node), List.mem_cons_self, hnew, hslot, hsame.trans ?_⟩
        exact Std.TreeMap.getElem?_insert_self

end Entering

end Machine

open Machine

/-- The terms of the new slots of an activation. -/
def newTerms (f : Callable) (x : Term) (nodes : KeyMap Nat Node) : List Term :=
  (newNodes nodes).map fun e => .cell f x e.1

/-- The state after an activation. -/
def Machine.activated (m : Machine) (call : CompiledCall) (argument : Address) : Machine :=
  let (slots, store) := activate argument call.nodes m.store
  { m with store, pending := enterSlots ⟨call, slots⟩ call.nodes m.pending }

section Activation

variable {p : Program} {terms : List Term} {m : Machine} {call : CompiledCall} {argument : Address}
  {x : Term}

lemma reference_of_node (hfits : Fits p.opcodes p.constants call.callable call.nodes) {j : Nat}
    {node : Node} (hj : call.nodes.get? j = some node) :
    (node.op = .argument ∧ p.reference call.callable x j = x) ∨
      (∃ k, node.op = .constant (.at k) ∧ k < p.constants.slots.size ∧
        p.reference call.callable x j = .slot (.at k)) ∨
      node.op.isNew = true ∧ p.reference call.callable x j = .cell call.callable x j := by
  have hcell := hfits.cell j node hj
  have hkind := hfits.fits j node hj
  simp only [Program.reference, hcell, Option.map_some]
  cases hk : node.cell.kind with
  | external name =>
    rw [hk] at hkind
    exact .inl ⟨hkind, rfl⟩
  | constant moduleName name =>
    rw [hk] at hkind
    obtain ⟨a, ha, hop⟩ := hkind
    obtain ⟨i, -, hi⟩ := Option.bind_eq_some_iff.mp ha
    rw [Memory.address?] at hi
    split at hi
    · next hlt =>
      cases hi
      refine .inr (.inl ⟨i, hop, hlt, ?_⟩)
      dsimp only
      rw [Program.constant?, ha]
    · cases hi
  | structured members =>
    rw [hk] at hkind
    exact .inr (.inr ⟨by rw [hkind.1]; rfl, rfl⟩)
  | iterable items =>
    rw [hk] at hkind
    exact .inr (.inr ⟨by rw [hkind]; rfl, rfl⟩)
  | opcode mnemonic arguments explicit =>
    rw [hk] at hkind
    obtain ⟨op, bindings, -, -, hop⟩ := hkind
    exact .inr (.inr ⟨by rw [hop]; rfl, rfl⟩)
  | call callable argument =>
    rw [hk] at hkind
    exact .inr (.inr ⟨by rw [hkind]; rfl, rfl⟩)

lemma exists_placed {slots : KeyMap Nat Address} {s s' : Store}
    (h : Activates argument call.nodes s slots s') {j : Nat} {node : Node}
    (hj : call.nodes.get? j = some node) : ∃ a, slots.get? j = some a ∧
      Placed argument s.memory.slots.size (newNodes call.nodes) j node a := by
  have hrel := KeyMap.rel_get? h.slots j
  rw [hj] at hrel
  cases hget : slots.get? j with
  | none =>
    rw [hget] at hrel
    cases hrel
  | some a =>
    rw [hget] at hrel
    obtain ⟨hplaced⟩ := hrel
    exact ⟨a, rfl, hplaced⟩

lemma le_of_new {slots : KeyMap Nat Address} {s s' : Store}
    (h : Activates argument call.nodes s slots s') (hasc : call.nodes.Ascending) {e : Nat × Node}
    (he : e ∈ call.nodes) (hnew : e.2.op.isNew = true) {i : Nat}
    (hi : slots.get? e.1 = some (.at i)) :
    ∃ k, i = s.memory.slots.size + k ∧ (newNodes call.nodes)[k]? = some e := by
  obtain ⟨a, ha, hplaced⟩ := exists_placed h (hasc.get?_of_mem he)
  obtain ⟨k, rfl, hk⟩ := (placed_iff_of_new hnew).mp hplaced
  rw [hi] at ha
  cases ha
  exact ⟨k, rfl, hk⟩

lemma exists_entered {i : Nat} {q : Pending}
    (hq : (m.activated call argument).pending.get? i = some q) : m.pending.get? i = some q ∨
      ∃ e ∈ call.nodes, e.2.op.isNew = true ∧
        (activate argument call.nodes m.store).1.get? e.1 = some (.at i) ∧
        q = ⟨⟨call, (activate argument call.nodes m.store).1⟩, e.1⟩ := by
  rcases get?_enterSlots ⟨call, (activate argument call.nodes m.store).1⟩ call.nodes m.pending i
    with ⟨e, he, hnew, hslot, hget⟩ | ⟨-, hsame⟩
  · exact .inr ⟨e, he, hnew, hslot, Option.some.inj (hq.symm.trans hget)⟩
  · exact .inl (hsame.symm.trans hq)

lemma pending_activated_of_new (call : CompiledCall) (argument : Address)
    (hasc : call.nodes.Ascending) {e : Nat × Node} (he : e ∈ call.nodes)
    (hnew : e.2.op.isNew = true) {i : Nat}
    (hi : (activate argument call.nodes m.store).1.get? e.1 = some (.at i)) :
    (m.activated call argument).pending.get? i =
      some ⟨⟨call, (activate argument call.nodes m.store).1⟩, e.1⟩ := by
  have hact := activates_activate argument call.nodes m.store
  rcases get?_enterSlots ⟨call, (activate argument call.nodes m.store).1⟩ call.nodes m.pending i
    with ⟨e', he', hnew', hslot', hget⟩ | ⟨hall, -⟩
  · -- no two new nodes have one slot
    obtain ⟨k, rfl, hk⟩ := le_of_new hact hasc he hnew hi
    obtain ⟨k', heq, hk'⟩ := le_of_new hact hasc he' hnew' hslot'
    rw [Nat.add_left_cancel heq, hk'] at hk
    cases hk
    exact hget
  · exact absurd hi (hall e he hnew)

lemma pending_activated_of_lt (call : CompiledCall) (argument : Address)
    (hasc : call.nodes.Ascending) {i : Nat} (hi : i < m.store.memory.slots.size) :
    (m.activated call argument).pending.get? i = m.pending.get? i := by
  rcases get?_enterSlots ⟨call, (activate argument call.nodes m.store).1⟩ call.nodes m.pending i
    with ⟨e, he, hnew, hslot, -⟩ | ⟨-, hsame⟩
  · obtain ⟨k, hk, -⟩ :=
      le_of_new (activates_activate argument call.nodes m.store) hasc he hnew hslot
    omega
  · exact hsame

lemma grows_activated (argument : Address) (x : Term) (h : Models p terms m)
    (hfits : Fits p.opcodes p.constants call.callable call.nodes) :
    Grows terms m (terms ++ newTerms call.callable x call.nodes) (m.activated call argument) := by
  have hact := activates_activate argument call.nodes m.store
  refine ⟨List.prefix_append _ _, fun _ _ => hact.memory.keeps, fun i q hq => ?_⟩
  obtain ⟨x', hq'⟩ := h.pending i q hq
  exact (pending_activated_of_lt call argument hfits.ascending (h.lt_size hq'.term)).trans hq

lemma stands_activated (hp : p.Sound) (h : Models p terms m)
    (hfits : Fits p.opcodes p.constants call.callable call.nodes)
    (hx : Stands terms m argument x) {j : Nat} {node : Node}
    (hj : call.nodes.get? j = some node) :
    ∃ a, (activate argument call.nodes m.store).1.get? j = some a ∧
      Stands (terms ++ newTerms call.callable x call.nodes) (m.activated call argument) a
        (p.reference call.callable x j) := by
  have hact := activates_activate argument call.nodes m.store
  have grows := grows_activated argument x h hfits
  obtain ⟨a, ha, hplaced⟩ := exists_placed hact hj
  refine ⟨a, ha, ?_⟩
  rcases reference_of_node (x := x) hfits hj with ⟨hop, href⟩ | ⟨k, hop, hk, href⟩ | ⟨hnew, href⟩
  · simp only [Placed, hop] at hplaced
    rw [href, hplaced]
    exact grows.stands hx
  · simp only [Placed, hop] at hplaced
    rw [href, hplaced]
    exact grows.stands (h.stands_slot hp (lt_of_lt_of_le hk hp.memory.size_le))
  · obtain ⟨k, rfl, hk⟩ := (placed_iff_of_new hnew).mp hplaced
    rw [href]
    refine ⟨_, rfl, ?_, .inr ?_⟩
    · rw [← h.length, List.getElem?_append_right (by omega), Nat.add_sub_cancel_left, newTerms,
        List.getElem?_map, hk]
      rfl
    · exact Option.isSome_iff_exists.mpr
        ⟨_, pending_activated_of_new call argument hfits.ascending (KeyMap.mem_of_get? hj) hnew ha⟩

lemma getElem?_activated (hfits : Fits p.opcodes p.constants call.callable call.nodes) {i : Nat}
    {t : Term} (ht : (terms ++ newTerms call.callable x call.nodes)[i]? = some t) :
    terms[i]? = some t ∨ ∃ k e, i = terms.length + k ∧ (newNodes call.nodes)[k]? = some e ∧
      call.nodes.get? e.1 = some e.2 ∧ t = .cell call.callable x e.1 := by
  by_cases hi : i < terms.length
  · rw [List.getElem?_append_left hi] at ht
    exact .inl ht
  · rw [List.getElem?_append_right (by omega), newTerms, List.getElem?_map] at ht
    obtain ⟨e, he, rfl⟩ := Option.map_eq_some_iff.mp ht
    have hmem := List.mem_filter.mp (List.mem_of_getElem? he)
    exact .inr ⟨i - terms.length, e, by omega, he, hfits.ascending.get?_of_mem hmem.1, rfl⟩

/-- **An activation keeps the slots standing for terms**: the new ones stand for the cells of the
function, applied to what the argument stands for. -/
lemma models_activated (hp : p.Sound) (h : Models p terms m)
    (hc : call.callable.Conforms p.types)
    (hfits : Fits p.opcodes p.constants call.callable call.nodes)
    (hx : Stands terms m argument x) :
    Models p (terms ++ newTerms call.callable x call.nodes) (m.activated call argument) := by
  have hact := activates_activate argument call.nodes m.store
  have grows := grows_activated argument x h hfits
  constructor
  case opcodes => exact h.opcodes
  case modules => exact h.modules
  case config => exact h.config
  case recalls =>
    show p.types.Recalls (activate argument call.nodes m.store).2.types
    rw [hact.types]
    exact h.recalls
  case compiled => exact h.compiled
  case memory => exact h.memory.trans hact.memory
  case length =>
    show _ = (activate argument call.nodes m.store).2.memory.slots.size
    rw [hact.size, List.length_append, h.length, newTerms, List.length_map]
  case base => exact fun i hi => grows.getElem? (h.base i hi)
  case typed =>
    intro i t ht
    rcases getElem?_activated hfits ht with ht | ⟨k, e, rfl, hk, he, rfl⟩
    · exact (hact.memory.typeOf (h.lt_size ht)).trans (h.typed i t ht)
    · have hget := hact.new k e hk
      rw [h.length]
      show (activate argument call.nodes m.store).2.memory.typeOf _ = _
      rw [Memory.typeOf, hget, Program.typeOf, hfits.cell _ _ he]
      rfl
  case agrees =>
    intro t ht
    obtain ⟨i, ht⟩ := List.mem_iff_getElem?.mp ht
    rcases getElem?_activated hfits ht with ht | ⟨k, e, -, -, he, rfl⟩
    · exact h.agrees t (List.mem_of_getElem? ht)
    · have hcell := hfits.cell _ _ he
      rw [Program.typeOf, hcell]
      exact hc.types _ _ hcell
  -- No new slot has a value yet, so each value belongs to an old one.
  case known =>
    intro i t v ht hv
    have hold : m.store.memory.value? (.at i) = some v := hact.kept hv
    have hi : i < terms.length := h.length.symm ▸ Memory.lt_of_value? hold
    obtain ⟨head, hrep, hy⟩ := h.known i t v ((List.getElem?_append_left hi).symm.trans ht) hold
    exact ⟨head, grows.represents hrep, hy⟩
  -- A cell that waits has waited before, or is one of this activation.
  case pending =>
    intro i q hq
    rcases exists_entered hq with hq | ⟨e, he, hnew, hslot, rfl⟩
    · obtain ⟨x', hq'⟩ := h.pending i q hq
      exact ⟨x', grows.activated hq'⟩
    · obtain ⟨k, rfl, hk⟩ := le_of_new hact hfits.ascending he hnew hslot
      have hnode := hfits.ascending.get?_of_mem he
      refine ⟨x, ?_, hslot, ⟨_, hnode, hnew⟩, hc, hfits, ?_⟩
      · rw [← h.length, List.getElem?_append_right (by omega), Nat.add_sub_cancel_left, newTerms,
          List.getElem?_map, hk]
        rfl
      · exact fun j node hj => stands_activated hp h hfits hx hj

end Activation

end CellMachine
