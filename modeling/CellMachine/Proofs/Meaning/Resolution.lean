import CellMachine.Proofs.Meaning.Opcodes

/-!
How a cell of an activation gets its value: it is built from its members, or an opcode is invoked, or
a function called, each for slots that stand for what the cell refers to.
-/

namespace CellMachine

/-- An invocation gives a slot the value of a term: that of its opcode applied to terms. -/
structure Invokes (p : Program) (terms : List Term) (m : Machine) (i : Invocation)
    (mnemonic : String) (ts : List Term) (t : Term) : Prop where
  opcode : p.opcodes.get? mnemonic = some i.opcode
  type : p.types.Agrees i.cell.type
  length : i.opcode.signature.arguments.length = i.args.length
  args : List.Forall₂ (Stands terms m) i.args ts
  target : ∃ k, i.target = .at k ∧ terms[k]? = some t
  step : ∀ head tree, p.headStep head tree t = p.apply head tree mnemonic i.cell.type ts

/-- What a slot without a value is resolved to. -/
inductive Resolves (p : Program) (terms : List Term) (m : Machine) (a : Address) (t : Term) :
    Outcome Action × Machine → Prop
  | built {v : Value} {head : Head} (hv : Represents (Stands terms m) v head)
    (hstep : ∀ hd tr, p.headStep hd tr t = some head) :
    Resolves p terms m a t (.ok (.value a),
      { m with store := { m.store with memory := m.store.memory.memoize a v } })
  | invoked {i : Invocation} {mnemonic : String} {ts : List Term}
    (hi : Invokes p terms m i mnemonic ts t) (htarget : i.target = a) :
    Resolves p terms m a t (.ok i.action, m)
  | called {function argument : Address} {g y : Term} (hg : Stands terms m function g)
    (hy : Stands terms m argument y)
    (hstep : ∀ hd tr h, p.headStep hd tr t = some h ↔ ∃ c, hd g = some (.callable c) ∧
      p.accepts c (p.typeOf g) (p.typeOf y) = true ∧
        hd (p.reference c y Callable.resultCell) = some h) :
    Resolves p terms m a t
      (.ok ((Action.evaluate function .shallow).andThen (.call argument a)), m)

variable {p : Program} {terms : List Term} {m : Machine}

lemma Invokes.grows {terms' : List Term} {m' : Machine} (h : Grows terms m terms' m')
    {i : Invocation} {mnemonic : String} {ts : List Term} {t : Term}
    (hi : Invokes p terms m i mnemonic ts t) : Invokes p terms' m' i mnemonic ts t := by
  obtain ⟨k, hk, ht⟩ := hi.target
  exact { hi with args := hi.args.imp fun _ _ => h.stands, target := ⟨k, hk, h.getElem? ht⟩ }

/-- The slots of nodes stand for what refers to them. -/
lemma Activated.slotsOf {i : Nat} {q : Pending} {x : Term} (h : Activated p terms m i q x)
    {indices : List Nat} (hin : ∀ j ∈ indices, (q.activation.call.nodes.get? j).isSome = true) :
    ∃ as, Machine.slotsOf q.activation indices = some as ∧ List.Forall₂ (Stands terms m) as
      (indices.map (p.reference q.activation.call.callable x)) := by
  obtain ⟨as, has, hall⟩ := Machine.forall₂_slotsOf fun j hj => by
    obtain ⟨node, hnode⟩ := Option.isSome_iff_exists.mp (hin j hj)
    exact h.slots j node hnode
  exact ⟨as, has, List.forall₂_map_right_iff.mpr hall.flip⟩

lemma represents_record {D : Address → Term → Prop} {f : Callable} {x : Term} {type : Ty}
    {members : KeyMap String Nat} {as : List Address}
    (has : List.Forall₂ D as (members.values.map (p.reference f x)))
    (hkeys : ∀ k ∈ members.keys, k ∈ type.stores.keys) :
    Represents D (.structured (.ofLayer (.ofList (members.keys.zip as)) type))
      (.record (p.members f x type members)) := by
  have hentries : List.Forall₂ (fun (e : String × Address) (e' : String × Nat) =>
      e.1 = e'.1 ∧ D e.2 (p.reference f x e'.2)) (members.keys.zip as) members := by
    clear hkeys
    induction members generalizing as with
    | nil =>
      cases has
      exact .nil
    | cons e members ih =>
      obtain _ | ⟨ha, has⟩ := has
      exact .cons ⟨rfl, ha⟩ (ih has)
  have hrel : ∀ k, Option.Rel D (KeyMap.get? (KeyMap.ofList (members.keys.zip as)) k)
      ((KeyMap.get? (KeyMap.ofList members) k).map (p.reference f x)) := by
    intro k
    have hk := KeyMap.rel_get?_ofList (R := fun a i => D a (p.reference f x i)) hentries k
    generalize KeyMap.get? (KeyMap.ofList (members.keys.zip as)) k = a at hk ⊢
    generalize KeyMap.get? (KeyMap.ofList members) k = i at hk ⊢
    cases hk with
    | none => exact .none
    | some hD => exact .some hD
  have hget := Record.get?_ofLayer (KeyMap.ofList (members.keys.zip as)) type
  refine .record (fun k hk => ?_) ?_
  · rw [hget] at hk
    obtain ⟨a, ha⟩ := Option.isSome_iff_exists.mp hk
    have hmem := List.of_mem_zip (KeyMap.mem_of_get?_ofList ha)
    exact hkeys k hmem.1
  · rw [Record.toList_eq, Program.members]
    simp only [hget]
    have hshown := Record.forall₂_shown hrel type.stores.keys
    simp only [Option.map_map] at hshown
    exact hshown

lemma resolves_node (h : Models p terms m) {i : Nat} {q : Pending}
    (hq : m.pending.get? i = some q) {t : Term} (ht : terms[i]? = some t) :
    Resolves p terms m (.at i) t (Machine.nodeAction q m) := by
  obtain ⟨x, hact⟩ := h.pending i q hq
  obtain ⟨node, hnode, hnew⟩ := hact.node
  have hcell := hact.fits.cell _ _ hnode
  have hfits := hact.fits.fits _ _ hnode
  have hrefs := hact.fits.refs _ _ hnode
  have hterm := ht.symm.trans hact.term
  cases hterm
  have hagrees := hact.conforms.types _ _ hcell
  have hstep : ∀ hd tr, p.headStep hd tr
      (.cell q.activation.call.callable x q.node) =
        p.ofCell hd tr q.activation.call.callable x node.cell := by
    intro hd tr
    rw [Program.headStep, hcell, Option.bind_some]
  cases hkind : node.cell.kind with
  -- Arguments and constants have their slots from the start, so no slot waits for them.
  | external name =>
    rw [hkind] at hfits
    rw [hfits] at hnew
    cases hnew
  | constant moduleName name =>
    rw [hkind] at hfits
    obtain ⟨a, -, hop⟩ := hfits
    rw [hop] at hnew
    cases hnew
  | structured members =>
    rw [hkind] at hfits hrefs
    obtain ⟨hop, hkeys⟩ := hfits
    obtain ⟨as, has, hall⟩ : ∃ as, Machine.slotsOf q.activation members.values = some as ∧ _ :=
      hact.slotsOf hrefs
    simp only [Machine.nodeAction, hnode, hact.own, hop, has]
    refine .built (represents_record hall (hkeys (hact.conforms.structures _ _ _ hcell hkind)))
      fun hd tr => ?_
    rw [hstep, Program.ofCell, hkind]
  | iterable items =>
    rw [hkind] at hfits hrefs
    obtain ⟨as, has, hall⟩ : ∃ as, Machine.slotsOf q.activation items = some as ∧ _ :=
      hact.slotsOf hrefs
    simp only [Machine.nodeAction, hnode, hact.own, show node.op = .iterable items from hfits, has]
    have hlist : List.Forall₂ (Stands terms m) (Sequence.rope (.ofList as)).toList
        (items.map (p.reference q.activation.call.callable x)) := by
      rw [Sequence.toList_ofList]
      exact hall
    refine .built (.list (Rope.wellFormed_ofList as) hlist) fun hd tr => ?_
    rw [hstep, Program.ofCell, hkind]
  | opcode mnemonic arguments explicit =>
    rw [hkind] at hfits hrefs
    obtain ⟨op, bindings, hget, hlen, hop⟩ := hfits
    obtain ⟨as, has, hall⟩ : ∃ as, Machine.slotsOf q.activation arguments = some as ∧ _ :=
      hact.slotsOf hrefs
    simp only [Machine.nodeAction, hnode, hact.own, hop, has]
    have hcount : op.signature.arguments.length = as.length := by
      have := hall.length_eq
      rw [List.length_map] at this
      exact hlen.trans this.symm
    refine .invoked ⟨hget, hagrees, hcount, hall, ⟨i, rfl, ht⟩, fun hd tr => ?_⟩ rfl
    rw [hstep, Program.ofCell, hkind]
  | call callable argument =>
    rw [hkind] at hfits hrefs
    obtain ⟨as, has, hall⟩ : ∃ as, Machine.slotsOf q.activation [callable, argument] = some as ∧ _ :=
      hact.slotsOf hrefs
    obtain _ | ⟨hg, _ | ⟨hy, _ | _⟩⟩ := hall
    rename_i function argument'
    simp only [Machine.nodeAction, hnode, hact.own,
      show node.op = .call callable argument from hfits, has]
    refine .called hg hy fun hd tr head => ?_
    rw [hstep]
    exact Program.ofCell_call_iff hkind

/-- **A slot without a value that stands for a term** is resolved to work that gives it the term's
value. -/
lemma resolves (h : Models p terms m) {a : Address} {t : Term} (ha : Stands terms m a t)
    (hnone : m.store.memory.value? a = none) :
    Resolves p terms m a t (Machine.resolve a m) := by
  obtain ⟨i, rfl, ht, hready⟩ := ha
  rw [Ready, hnone] at hready
  obtain ⟨q, hq⟩ := Option.isSome_iff_exists.mp (hready.resolve_left nofun)
  rw [Machine.resolve_of_pending (h.lt_size ht) hq]
  exact resolves_node h hq ht

end CellMachine
