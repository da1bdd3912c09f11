import CellMachine.Proofs.Assembly.Steps
import CellMachine.Proofs.Script.Effects
import CellMachine.Proofs.Script.Origins

/-!
What assembled structures show. When a structure cell was compiled its members were compared with the
keys of its type, and the record that is assembled takes its keys from there and its members from the
cell; so what a reader is shown are the cell's members, each in its slot. Where the type of the cell is
left open nothing is compared, and the record shows no key at all.
-/

namespace CellMachine

open Machine

/-! ### Records of cells -/

lemma Record.forEach_of_entries {α σ : Type} {r : Record α} {entries : KeyMap String α}
    (hasc : entries.Ascending) (hkeys : r.keys = entries.keys)
    (hget : ∀ k, r.get? k = entries.get? k) (visitor : String → α → σ → Except σ σ) (s : σ) :
    r.forEach visitor s = Visitor.ended (entries.foldlM (fun s e => visitor e.1 e.2 s) s) := by
  have hshown : (r.keys.filterMap fun k => (r.get? k).map fun a => (k, a)) = entries := by
    rw [hkeys, KeyMap.keys, List.filterMap_map]
    refine (List.filterMap_congr fun e he => ?_).trans List.filterMap_some
    rw [Function.comp_apply, hget, hasc.get?_of_mem he]
    rfl
  rw [forEach_eq, hshown]

namespace Activation

/-- **A record exposes the members of a structure cell**: it shows their keys, in order, and contains
those and no others; a visit comes to each of the members once. -/
structure Exposes (members : KeyMap String Nat) (r : Record Address) : Prop where
  keys : r.keys = members.keys
  contains : ∀ k, r.contains k = true ↔ k ∈ members.keys
  visits : ∃ entries : KeyMap String Address, entries.keys = members.keys ∧
    (∀ e ∈ entries, r.get? e.1 = some e.2) ∧
    ∀ {σ : Type} (visitor : String → Address → σ → Except σ σ) (s : σ),
      r.forEach visitor s = Visitor.ended (entries.foldlM (fun s e => visitor e.1 e.2 s) s)

variable {activation : Activation} {members : KeyMap String Nat} {type : Ty} {as : List Address}
  {r : Record Address} {v : Value}

lemma forall₂_of_slotsOf {indices : List Nat} (h : slotsOf activation indices = some as) :
    List.Forall₂ (fun i a => activation.slots.get? i = some a) indices as := by
  unfold slotsOf at h
  induction indices generalizing as with
  | nil =>
    cases h
    exact .nil
  | cons i indices ih =>
    rw [List.mapM_cons] at h
    obtain ⟨a, ha, h⟩ := Option.bind_eq_some_iff.mp h
    obtain ⟨rest, hrest, h⟩ := Option.bind_eq_some_iff.mp h
    cases h
    exact .cons ha (ih hrest)

/-- The entries of an assembled record: the keys of the cell, each with the slot of its member. -/
lemma get?_entries (has : slotsOf activation members.values = some as) (k : String) :
    KeyMap.get? (members.keys.zip as) k = (members.get? k).bind activation.slots.get? := by
  have hall := forall₂_of_slotsOf has
  clear has
  induction members generalizing as with
  | nil => rfl
  | cons e members ih =>
    obtain ⟨key, i⟩ := e
    obtain _ | ⟨ha, hall⟩ := hall
    rw [KeyMap.keys_cons, List.zip_cons_cons]
    by_cases hk : key = k
    · subst hk
      rw [KeyMap.get?_cons_self, KeyMap.get?_cons_self]
      exact ha.symm
    · rw [KeyMap.get?_cons_of_ne hk, KeyMap.get?_cons_of_ne hk]
      exact ih hall

lemma keys_entries (has : slotsOf activation members.values = some as) :
    KeyMap.keys (members.keys.zip as) = members.keys := by
  have hlength : members.values.length = as.length := (forall₂_of_slotsOf has).length_eq
  rw [KeyMap.values, List.length_map] at hlength
  refine List.map_fst_zip ?_
  rw [KeyMap.keys, List.length_map, hlength]

lemma ascending_entries (hmembers : members.Ascending)
    (has : slotsOf activation members.values = some as) :
    KeyMap.Ascending (members.keys.zip as) := by
  have hkeys := hmembers.keys
  rw [← keys_entries has] at hkeys
  exact List.pairwise_map.mp hkeys

lemma get?_of_slotsOf (hmembers : members.Ascending)
    (has : slotsOf activation members.values = some as) (type : Ty) (k : String) :
    (Record.ofLayer (KeyMap.ofList (members.keys.zip as)) type).get? k =
      KeyMap.get? (members.keys.zip as) k := by
  rw [Record.get?_ofLayer, (ascending_entries hmembers has).get?_ofList]

/-- **An assembled record exposes its members**, if its type has the keys of the cell. -/
lemma exposes_of_slotsOf (hmembers : members.Ascending) (htype : type.stores.Ascending)
    (hkeys : ∀ key, key ∈ members.keys ↔ key ∈ type.stores.keys)
    (has : slotsOf activation members.values = some as) :
    Exposes members (Record.ofLayer (KeyMap.ofList (members.keys.zip as)) type) := by
  have hasc := ascending_entries hmembers has
  have hget := get?_of_slotsOf hmembers has type
  have hshown : (Record.ofLayer (KeyMap.ofList (members.keys.zip as)) type).keys =
      KeyMap.keys (members.keys.zip as) := by
    rw [keys_entries has]
    exact (hmembers.keys_eq htype hkeys).symm
  refine ⟨hshown.trans (keys_entries has), fun k => KeyMap.contains_iff.trans (hkeys k).symm,
    members.keys.zip as, keys_entries has, fun e he => ?_,
    Record.forEach_of_entries hasc hshown hget⟩
  rw [hget]
  exact hasc.get?_of_mem he

end Activation

/-- **What the slot of a structure cell holds**, once it holds a value. -/
lemma Machine.Assembling.exposes {m : Machine} (h : m.Assembling) {i : Nat} {p : Pending}
    (hp : m.pending.get? i = some p) {j : Nat} {cell : Cell} {members : KeyMap String Nat}
    (hcell : p.activation.call.callable.cell? j = some cell)
    (hkind : cell.kind = .structured members) (hmembers : members.Ascending) {a : Address} {v : Value}
    (ha : p.activation.slots.get? j = some a) (hv : m.store.memory.value? a = some v) :
    ∃ r, v = .structured r ∧
      (∀ k, r.get? k = (members.get? k).bind p.activation.slots.get?) ∧
      (∀ k, (r.get? k).isSome = true ↔ k ∈ members.keys) ∧
      (cell.type.isRuntimeDetermined = false → cell.type.stores.Ascending →
        Activation.Exposes members r) := by
  obtain ⟨hregistered, -⟩ := h.pending i p hp
  obtain ⟨node, hnode⟩ := hregistered.node j a ha
  obtain rfl : node.cell = cell :=
    Option.some.inj ((hregistered.call.cell j node hnode).symm.trans hcell)
  have hassembles := hregistered.call.node j node hnode
  have hop := (hassembles.structured members).mpr hkind
  obtain ⟨i', s, hslot, -, hs, -, hassembled⟩ := hregistered.slot j node hnode (by rw [hop]; rfl)
  cases ha.symm.trans hslot
  rw [Memory.value?, hs] at hv
  obtain ⟨as, has, rfl⟩ := hassembled members v hop hv
  have hget := Activation.get?_of_slotsOf hmembers has node.cell.type
  refine ⟨_, rfl, fun k => (hget k).trans (Activation.get?_entries has k), fun k => ?_,
    fun hclosed hstores =>
      Activation.exposes_of_slotsOf hmembers hstores (hassembles.keys members hop hclosed) has⟩
  rw [hget, KeyMap.isSome_get?_iff, Activation.keys_entries has]

namespace Script

/-- What a run of a script relies on: opcodes leave structures alone, and calls were checked. -/
structure Assembling (s : Script) : Prop where
  asks : s.opcodes.OnlyAsk
  spare : s.opcodes.Spare
  compiled : ∀ i c, s.compiled.get? i = some c → c.Assembles

variable {s s₀ : Script} {moduleName name : String} {argument : KeyMap String Stored}
  {outside : Nat → List String} {fuel : Nat} {token : Option String}

lemma Assembling.machine (h : s.Assembling) (token : Option String) : (s.machine token).Assembling :=
  ⟨h.asks, h.spare, h.compiled, fun i p hp => absurd hp (not_pending_machine i p)⟩

lemma Assembling.of_machine (h : (s.machine token).Assembling) : s.Assembling :=
  ⟨h.asks, h.spare, h.compiled⟩

/-- Around the turns structures are left to be assembled as well. -/
lemma governs_assembling : Regime.assembling.Governs CompiledCall.Assembles where
  lawful := Regime.lawful_assembling
  whole _ _ := (Action.spares_evaluate _ _).andThen trivial
  tell f h := Builds.tell h f
  compileAt i h := builds_compileAt h i
  grow h hover := ⟨h.spared hover.spares rfl h.compiled rfl, hover.spares.retains⟩
  construct argument h hcall := builds_construct h hcall argument
  start h hm hopcodes hcompiled :=
    Assembling.machine
      ⟨hopcodes.symm ▸ h.asks, hopcodes.symm ▸ h.spare, hcompiled.symm ▸ hm.compiled⟩ _

namespace Assembling

lemma used (h : s₀.Assembling) (hused : s₀.Used s) : s.Assembling :=
  .of_machine (governs_assembling.used (h.machine none) hused)

lemma passes (h : s.Assembling) {stack : List Job} {m : Machine}
    (hpasses : s.Passes outside moduleName name argument token stack m) : m.Assembling :=
  (governs_assembling.passes (h.machine token) hpasses).1

end Assembling

/-- **A script that was loaded** with opcodes that leave structures alone has runs that assemble them. -/
lemma assembling_of_load {opcodes : List Opcode} {natives : List Ty} {l : Loader} {config : Config}
    {modules : List Module} (hopcodes : ∀ op ∈ opcodes, op.OnlyAsks ∧ op.Spares)
    (hl : Loader.make opcodes natives = .ok l)
    (hs : load { l with config } modules = .ok s) : s.Assembling := by
  obtain ⟨types, memory, -, -, hload⟩ := load_induction hs
  have hall := Loader.all_opcodes hopcodes hl
  refine hload ⟨fun mnemonic op hop => (hall mnemonic op hop).1,
    fun mnemonic op hop => (hall mnemonic op hop).2, fun _ _ hc => by cases hc⟩ fun s' index hs' => ?_
  exact .of_machine (governs_assembling.compiled (hs'.machine none) index)

/-- **Assembled structures expose exactly their members.** Take any script, with whatever opcodes that
only ask the registry in their checks and leave the slots of structures to the machine, however it is
configured and was used before, and a run of a function amid whatever others cancel. In every state that
the run passes, and for every activation of a compiled call in it: once the slot of a structure cell has
a value, that is a record which has members under the keys of the cell, and under each of them the
activation's slot of the cell that is named for the key. If the type of the cell is not left open, the
record shows exactly those keys, in order, contains those and no others, and a visit comes to each of the
members once. -/
theorem assembled_structures_expose_members {opcodes : List Opcode} {natives : List Ty} {l : Loader}
    {config : Config} {modules : List Module}
    (hopcodes : ∀ op ∈ opcodes, op.OnlyAsks ∧ op.Spares)
    (hl : Loader.make opcodes natives = .ok l) (hs : load { l with config } modules = .ok s₀)
    (hused : s₀.Used s) {stack : List Job} {m : Machine}
    (hpasses : s.Passes outside moduleName name argument token stack m) {i : Nat} {p : Pending}
    (hp : m.pending.get? i = some p) {j : Nat} {cell : Cell} {members : KeyMap String Nat}
    (hcell : p.activation.call.callable.cell? j = some cell)
    (hkind : cell.kind = .structured members) (hmembers : members.Ascending) {a : Address} {v : Value}
    (ha : p.activation.slots.get? j = some a) (hv : m.store.memory.value? a = some v) :
    ∃ r, v = .structured r ∧
      (∀ k, r.get? k = (members.get? k).bind p.activation.slots.get?) ∧
      (∀ k, (r.get? k).isSome = true ↔ k ∈ members.keys) ∧
      (cell.type.isRuntimeDetermined = false → cell.type.stores.Ascending →
        Activation.Exposes members r) :=
  (((assembling_of_load hopcodes hl hs).used hused).passes hpasses).exposes hp hcell hkind hmembers
    ha hv

end Script

namespace Standard

/-- The standard opcodes leave structures alone, since they only read memory. -/
lemma spares_of_mem {op : Opcode} (hop : op ∈ opcodes) : op.Spares := by
  intro frame s
  rw [memory_evaluate hop]
  exact .refl _

end Standard

/-! ### Results that are structures -/

namespace Script

namespace Making

/-- A structure with one member. -/
def entry : Ty := .structured "entry" none [("a", .inline Standard.integer)]

/-- Makes a structure of a type, with a constant as its only member. -/
def making (type : Ty) : Callable where
  cells := [(0, ⟨.structured [("a", 2)], type, none⟩), (1, .external "x" Sample.nothing),
    (2, .constant "m" "one" Standard.integer)]

def maker (type : Ty) : Module where
  name := "m"
  constants := [("main", ⟨.callable "main" none (.inline Sample.nothing) (.inline type),
      .callable (making type), none⟩),
    ("one", ⟨Standard.integer, .native (.int 1), none⟩)]

def loaded (type : Ty) : Except (List Problem) Script :=
  (Loader.make Standard.opcodes Standard.natives).bind fun l => load l [maker type]

def script (type : Ty) : Script :=
  (loaded type).toOption.getD ⟨[], [], {}, {}, .initial, [], .nothing, []⟩

/-- The stack and the machine once the structure was assembled, in the second turn of a run. -/
def assembled (s : Script) : Option (List Job × Machine) :=
  match prepare "m" "main" [] (s.machine none) with
  | (.error _, _) => none
  | (.ok (call, action), m) =>
    match turn [Job.ofAction (action.andThen .deepen)]
        (RunM.tell (fun _ => .started call.callable) m).2 with
    | (.finished _, _) => none
    | (.running stack, m) =>
      match turn stack m with
      | (.finished _, _) => none
      | (.running stack, m) => some (stack, m)

/-- The cell of a slot, if it is the structure, and its record. -/
def made? (m : Machine) (i : Nat) : Option (Pending × Cell × Record Address) := do
  let p ← m.pending.get? i
  let cell ← p.activation.call.callable.cell? 0
  match cell.kind, m.store.memory.value? (.at i) with
  | .structured [("a", 2)], some (.structured r) => some (p, cell, r)
  | _, _ => none

/-- Whether the function loads and its structure passes a test. -/
def isMade (type : Ty) (test : Pending → Cell → Record Address → Bool) : Bool :=
  (loaded type).isOk && (assembled (script type)).any fun e => (made? e.2 3).any fun e =>
    e.1.activation.slots.get? 0 == some (.at 3) && test e.1 e.2.1 e.2.2

lemma passes_assembled {s : Script} {stack : List Job} {m : Machine}
    (h : assembled s = some (stack, m)) : s.Passes (fun _ => []) "m" "main" [] none stack m := by
  unfold assembled at h
  split at h
  · cases h
  next call action m₁ hprepare =>
  split at h
  · cases h
  next stack₁ m₂ hfirst =>
  split at h
  · cases h
  next stack₂ m₃ hsecond =>
  cases h
  exact ⟨call, action, m₁, hprepare, .step hfirst (.step hsecond (.refl _ _))⟩

lemma made?_eq_some {m : Machine} {i : Nat} {p : Pending} {cell : Cell} {r : Record Address}
    (h : made? m i = some (p, cell, r)) : m.pending.get? i = some p ∧
      p.activation.call.callable.cell? 0 = some cell ∧ cell.kind = .structured [("a", 2)] ∧
      m.store.memory.value? (.at i) = some (.structured r) := by
  simp only [made?, Option.bind_eq_bind, Option.bind_eq_some_iff] at h
  obtain ⟨p', hp, cell', hcell, h⟩ := h
  split at h
  · next hkind hvalue =>
    cases h
    exact ⟨hp, hcell, hkind, hvalue⟩
  · cases h

/-- A run of the function assembles the structure. -/
lemma exists_assembled {type : Ty} {test : Pending → Cell → Record Address → Bool}
    (h : isMade type test = true) : ∃ l,
    Loader.make Standard.opcodes Standard.natives = .ok l ∧ load l [maker type] = .ok (script type) ∧
    ∃ stack m i p cell r,
      (script type).Passes (fun _ => []) "m" "main" [] none stack m ∧ m.pending.get? i = some p ∧
      p.activation.call.callable.cell? 0 = some cell ∧ cell.kind = .structured [("a", 2)] ∧
      p.activation.slots.get? 0 = some (.at i) ∧
      m.store.memory.value? (.at i) = some (.structured r) ∧ test p cell r = true := by
  obtain ⟨hloaded, hmade⟩ := Bool.and_eq_true_iff.mp h
  obtain ⟨l, hl, hs⟩ : ∃ l, Loader.make Standard.opcodes Standard.natives = .ok l ∧
      load l [maker type] = .ok (script type) := Sample.exists_load hloaded
  obtain ⟨⟨stack, m⟩, hassembled, hmade⟩ := (Option.any_eq_true _ _).mp hmade
  obtain ⟨⟨p, cell, r⟩, hsome, hmade⟩ := (Option.any_eq_true _ _).mp hmade
  obtain ⟨hslot, htest⟩ := Bool.and_eq_true_iff.mp hmade
  obtain ⟨hp, hcell, hkind, hv⟩ := made?_eq_some hsome
  exact ⟨l, hl, hs, stack, m, 3, p, cell, r, passes_assembled hassembled, hp, hcell, hkind,
    eq_of_beq hslot, hv, htest⟩

/-- The structure is closed, with one key. -/
def isClosed (cell : Cell) : Bool :=
  cell.type.stores.keys == ["a"] && !cell.type.isRuntimeDetermined

lemma entry_made : isMade entry (fun _ cell _ => isClosed cell) = true := by decide +kernel

/-- The record has the member and shows no key. -/
def isHidden (p : Pending) (r : Record Address) : Bool :=
  (p.activation.slots.get? 2).isSome && r.get? "a" == p.activation.slots.get? 2 && r.keys == [] &&
    r.contains "a" == false && r.toList == []

lemma open_made : isMade .runtimeDetermined (fun p _ r => isHidden p r) = true := by decide +kernel

/-- The structure with one member is assembled, and exposes it. -/
theorem entry_exposes_member : ∃ l s stack m i p cell v r,
    Loader.make Standard.opcodes Standard.natives = .ok l ∧ load l [maker entry] = .ok s ∧
    s.Passes (fun _ => []) "m" "main" [] none stack m ∧ m.pending.get? i = some p ∧
    p.activation.call.callable.cell? 0 = some cell ∧ cell.kind = .structured [("a", 2)] ∧
    m.store.memory.value? (.at i) = some v ∧ v = .structured r ∧
    r.get? "a" = p.activation.slots.get? 2 ∧ Activation.Exposes [("a", 2)] r := by
  obtain ⟨l, hl, hs, stack, m, i, p, cell, r, hpasses, hp, hcell, hkind, hslot, hv, hclosed⟩ :=
    exists_assembled entry_made
  simp only [isClosed, Bool.and_eq_true, beq_iff_eq, Bool.not_eq_true'] at hclosed
  obtain ⟨hkeys, hclosed⟩ := hclosed
  have hstores : cell.type.stores.Ascending := by
    have hasc : cell.type.stores.keys.Pairwise fun k k' => compare k k' = .lt := by
      rw [hkeys]
      exact List.pairwise_singleton _ _
    exact List.pairwise_map.mp hasc
  obtain ⟨r, hr, hget, -, hexposes⟩ := assembled_structures_expose_members
    (fun op hop => ⟨Standard.onlyAsks hop, Standard.spares_of_mem hop⟩) hl hs .start hpasses hp hcell
    hkind (List.pairwise_singleton _ _) hslot hv
  exact ⟨l, _, stack, m, i, p, cell, _, r, hl, hs, hpasses, hp, hcell, hkind, hv, hr, hget "a",
    hexposes hclosed hstores⟩

end Making

/-- **A structure of an open type shows none of its members.** The compiler takes a structure cell whose
type is left open without looking at its keys. The record that a run assembles for it has the member, but
no keys: it contains nothing, and a visit comes to nothing. -/
theorem open_structure_hides_member : ∃ l s stack m i p cell x r,
    Loader.make Standard.opcodes Standard.natives = .ok l ∧
    load l [Making.maker .runtimeDetermined] = .ok s ∧
    s.Passes (fun _ => []) "m" "main" [] none stack m ∧ m.pending.get? i = some p ∧
    p.activation.call.callable.cell? 0 = some cell ∧ cell.kind = .structured [("a", 2)] ∧
    p.activation.slots.get? 0 = some (.at i) ∧
    m.store.memory.value? (.at i) = some (.structured r) ∧
    p.activation.slots.get? 2 = some x ∧ r.get? "a" = some x ∧
    r.keys = [] ∧ r.contains "a" = false ∧ r.toList = [] ∧ ¬ Activation.Exposes [("a", 2)] r := by
  obtain ⟨l, hl, hs, stack, m, i, p, cell, r, hpasses, hp, hcell, hkind, hslot, hv, hhidden⟩ :=
    Making.exists_assembled Making.open_made
  simp only [Making.isHidden, Bool.and_eq_true, beq_iff_eq] at hhidden
  obtain ⟨⟨⟨⟨hsome, hget⟩, hkeys⟩, hcontains⟩, hlist⟩ := hhidden
  obtain ⟨x, hx⟩ := Option.isSome_iff_exists.mp hsome
  exact ⟨l, _, stack, m, i, p, cell, x, r, hl, hs, hpasses, hp, hcell, hkind, hslot, hv, hx,
    hget.trans hx, hkeys, hcontains, hlist, fun hexposes => nomatch hkeys.symm.trans hexposes.keys⟩

end Script

end CellMachine
