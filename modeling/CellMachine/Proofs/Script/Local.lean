import CellMachine.Proofs.Script.Indices

/-!
Memory in two levels, as a run has it: the constants, which all runs share and to which none adds, and
slots of its own, whose indices continue after the last constant's. A memory has both in one array, and
its owner knows where the constants end. Every operation does the same on both, so the one array is what
the two levels come to in every state of a run, while the constants stay as they were loaded.
-/

namespace CellMachine

/-- The memory of a run, on top of the constants. -/
structure LocalMemory where
  parent : Memory
  own : Array Slot := #[]
  /-- Slots outside of memory. -/
  loose : Array Slot := #[]

namespace LocalMemory

/-- Nothing on top of the constants yet. -/
def ofParent (parent : Memory) : LocalMemory := { parent, loose := parent.loose }

def size (l : LocalMemory) : Nat := l.parent.size + l.own.size

/-- The slot at an index: a constant's, or one of the run's own. -/
def slotAt (l : LocalMemory) (i : Nat) : Option Slot :=
  if i < l.parent.size then l.parent.slots[i]? else l.own[i - l.parent.size]?

def get? (l : LocalMemory) : Address → Option Slot
  | .at i => l.slotAt i
  | .loose n => l.loose[n]?

/-- The address of the slot at an index. -/
def address? (l : LocalMemory) (i : Nat) : Option Address := (l.slotAt i).map fun _ => .at i

def allocate (l : LocalMemory) (cell : Cell) (value : Option Value) : Address × LocalMemory :=
  (.at (l.parent.size + l.own.size), { l with own := l.own.push ⟨cell, value⟩ })

def allocateLoose (l : LocalMemory) (cell : Cell) (value : Option Value) : Address × LocalMemory :=
  (.loose l.loose.size, { l with loose := l.loose.push ⟨cell, value⟩ })

/-- Writes the value of the slot at an address, on its level, unless it has one. -/
def memoize (l : LocalMemory) (a : Address) (v : Value) : LocalMemory :=
  match a with
  | .at i =>
    if i < l.parent.size then { l with parent := l.parent.memoize (.at i) v }
    else { l with own := l.own.modify (i - l.parent.size) (Slot.fill v) }
  | .loose n => { l with loose := l.loose.modify n (Slot.fill v) }

/-- Both levels in one array. -/
def joined (l : LocalMemory) : Memory where
  slots := l.parent.slots ++ l.own
  constants := l.parent.size
  directory := l.parent.directory
  loose := l.loose

variable {parent m : Memory} {l : LocalMemory}

lemma joined_ofParent (h : parent.constants = parent.size) : (ofParent parent).joined = parent := by
  obtain ⟨slots, constants, directory, loose⟩ := parent
  obtain rfl : constants = slots.size := h
  simp [ofParent, joined, Memory.size]

/-! ### What is read -/

lemma size_joined (l : LocalMemory) : l.joined.size = l.size := Array.size_append

lemma localSize_joined (l : LocalMemory) : l.joined.localSize = l.own.size := by
  show l.joined.size - l.parent.size = l.own.size
  rw [size_joined, size, Nat.add_sub_cancel_left]

lemma lookup_joined (l : LocalMemory) (moduleName name : String) :
    l.joined.lookup moduleName name = l.parent.lookup moduleName name := rfl

lemma get?_joined (l : LocalMemory) (a : Address) : l.joined.get? a = l.get? a := by
  cases a with
  | loose n => rfl
  | «at» i =>
    show (l.parent.slots ++ l.own)[i]? = l.slotAt i
    unfold slotAt
    split
    · next hi => exact Array.getElem?_append_left hi
    · next hi => exact Array.getElem?_append_right (Nat.le_of_not_lt hi)

lemma address?_joined (l : LocalMemory) (i : Nat) : l.joined.address? i = l.address? i := by
  have hslot : l.joined.slots[i]? = l.slotAt i := l.get?_joined (.at i)
  unfold address? Memory.address?
  rw [← hslot]
  split
  · next hi => rw [Array.getElem?_eq_getElem hi, Option.map_some]
  · next hi => rw [Array.getElem?_eq_none (Nat.le_of_not_lt hi), Option.map_none]

/-! ### What is written -/

lemma allocate_joined (l : LocalMemory) (cell : Cell) (v : Option Value) :
    l.joined.allocate cell v = ((l.allocate cell v).1, (l.allocate cell v).2.joined) := by
  refine Prod.ext (congrArg Address.at l.size_joined) ?_
  simp only [Memory.allocate, allocate, joined, Array.push_append]

lemma allocateLoose_joined (l : LocalMemory) (cell : Cell) (v : Option Value) :
    l.joined.allocateLoose cell v =
      ((l.allocateLoose cell v).1, (l.allocateLoose cell v).2.joined) := rfl

lemma modify_append {α : Type} (xs ys : Array α) (i : Nat) (f : α → α) :
    (xs ++ ys).modify i f =
      if i < xs.size then xs.modify i f ++ ys else xs ++ ys.modify (i - xs.size) f := by
  refine Array.ext_getElem? fun j => ?_
  split
  · next hi =>
    simp only [Array.getElem?_modify, Array.getElem?_append, Array.size_modify]
    split_ifs <;> first | rfl | omega
  · next hi =>
    simp only [Array.getElem?_modify, Array.getElem?_append]
    split_ifs <;> first | rfl | omega

lemma memoize_joined (l : LocalMemory) (a : Address) (v : Value) :
    l.joined.memoize a v = (l.memoize a v).joined := by
  cases a with
  | loose n => rfl
  | «at» i =>
    have hslots := modify_append l.parent.slots l.own i (Slot.fill v)
    unfold memoize
    dsimp only
    by_cases hi : i < l.parent.slots.size
    · rw [if_pos hi] at hslots
      rw [if_pos (show i < l.parent.size from hi)]
      simp [Memory.memoize, joined, hslots, Memory.size]
    · rw [if_neg hi] at hslots
      rw [if_neg (show ¬ i < l.parent.size from hi)]
      simp [Memory.memoize, joined, hslots, Memory.size]

lemma parent_memoize (h : ∀ i < l.parent.size, (l.parent.value? (.at i)).isSome = true)
    (a : Address) (v : Value) : (l.memoize a v).parent = l.parent := by
  unfold memoize
  split
  · next i =>
    split
    · next hi =>
      have hfill : l.parent.slots.modify i (Slot.fill v) = l.parent.slots := by
        refine Array.ext_getElem? fun j => ?_
        rw [Array.getElem?_modify]
        split
        · next hij =>
          subst hij
          obtain ⟨w, hw⟩ := Option.isSome_iff_exists.mp (h i hi)
          obtain ⟨s, hs, hvalue⟩ := Option.bind_eq_some_iff.mp hw
          rw [show l.parent.slots[i]? = some s from hs, Option.map_some, Slot.fill,
            show (s.value <|> some v) = s.value by rw [hvalue]; rfl]
        · rfl
      show { l.parent with slots := l.parent.slots.modify i (Slot.fill v) } = l.parent
      rw [hfill]
    · rfl
  · rfl

/-! ### Changes -/

/-- A change, on its level. -/
def apply (l : LocalMemory) : Memory.Change → LocalMemory
  | .allocated s => (l.allocate s.cell s.value).2
  | .detached s => (l.allocateLoose s.cell s.value).2
  | .filled a v => l.memoize a v

def replay (l : LocalMemory) (changes : List Memory.Change) : LocalMemory := changes.foldl apply l

lemma joined_apply (l : LocalMemory) (c : Memory.Change) : (l.apply c).joined = c.apply l.joined := by
  cases c with
  | allocated s => exact (congrArg Prod.snd (l.allocate_joined s.cell s.value)).symm
  | detached s => exact (congrArg Prod.snd (l.allocateLoose_joined s.cell s.value)).symm
  | filled a v => exact (l.memoize_joined a v).symm

lemma parent_apply (h : ∀ i < l.parent.size, (l.parent.value? (.at i)).isSome = true)
    (c : Memory.Change) : (l.apply c).parent = l.parent := by
  cases c with
  | allocated s => rfl
  | detached s => rfl
  | filled a v => exact parent_memoize h a v

/-- **Two levels are one array**, whatever is done to them. -/
lemma joined_replay (l : LocalMemory) (changes : List Memory.Change) :
    (l.replay changes).joined = l.joined.replay changes := by
  induction changes generalizing l with
  | nil => rfl
  | cons c changes ih =>
    calc ((l.apply c).replay changes).joined
        = (l.apply c).joined.replay changes := ih (l.apply c)
      _ = (c.apply l.joined).replay changes := by rw [joined_apply]

lemma parent_replay (h : ∀ i < l.parent.size, (l.parent.value? (.at i)).isSome = true)
    (changes : List Memory.Change) : (l.replay changes).parent = l.parent := by
  induction changes generalizing l with
  | nil => rfl
  | cons c changes ih =>
    have hparent := parent_apply h c
    exact (ih (l := l.apply c) (hparent ▸ h)).trans hparent

end LocalMemory

/-- A memory has a level of its own on top of some constants: it has their slots and names, what it reads
at an index is read on the index's level, and its next slot is the level's next. -/
structure Memory.Extends (m base : Memory) (l : LocalMemory) : Prop where
  parent : l.parent = base
  joined : l.joined = m
  size : m.size = l.size
  localSize : m.localSize = l.own.size
  lookup : ∀ moduleName name, m.lookup moduleName name = base.lookup moduleName name
  slots : ∀ a, m.get? a = l.get? a
  found : ∀ i, m.address? i = l.address? i
  next : ∀ cell v, (m.allocate cell v).1 = (l.allocate cell v).1

/-- What develops from constants has the same constants, with a level on top. -/
lemma Memory.Develops.extends {parent m : Memory} (h : parent.Develops m)
    (hcomplete : parent.Complete) (hconstants : parent.constants = parent.size) :
    ∃ l, m.Extends parent l := by
  obtain ⟨changes, rfl⟩ := h
  have hparent : ((LocalMemory.ofParent parent).replay changes).parent = parent := by
    refine LocalMemory.parent_replay (fun i hi => ?_) changes
    obtain ⟨v, hv, -⟩ := hcomplete.values i hi
    exact Option.isSome_of_eq_some hv
  have hjoined : ((LocalMemory.ofParent parent).replay changes).joined = parent.replay changes := by
    rw [LocalMemory.joined_replay, LocalMemory.joined_ofParent hconstants]
  generalize (LocalMemory.ofParent parent).replay changes = l at hparent hjoined
  subst hparent
  rw [← hjoined]
  exact ⟨l, rfl, rfl, l.size_joined, l.localSize_joined, l.lookup_joined, l.get?_joined,
    l.address?_joined, fun cell v => congrArg Prod.fst (l.allocate_joined cell v)⟩

namespace Script

variable {s s₀ : Script}

/-- **The memory of a run extends the constants** that were loaded by a level of its own, in the state that
it leaves and in every state that it passes. -/
lemma memory_extends_constants {opcodes : List Opcode} {natives : List Ty} {l : Loader} {config : Config}
    {modules : List Module} (hopcodes : ∀ op ∈ opcodes, op.Develops)
    (hl : Loader.make opcodes natives = .ok l) (hs : load { l with config } modules = .ok s₀)
    (hused : s₀.Used s) (outside : Nat → List String) (moduleName name : String)
    (argument : KeyMap String Stored) (token : Option String) :
    (∀ fuel r m, runOnAmid outside fuel moduleName name argument (s.machine token) = (r, m) →
      ∃ l, m.store.memory.Extends s₀.memory l) ∧
    ∀ stack m, s.Passes outside moduleName name argument token stack m →
      ∃ l, m.store.memory.Extends s₀.memory l := by
  obtain ⟨happlies, types, hmemory⟩ := applies_of_load hopcodes hl hs
  have hcomplete := Memory.complete_ofModules hmemory
  have hconstants := Memory.constants_eq_size hmemory
  have hmachine := (happlies.used hused).machine token
  have hstart := indexed_machine (memory_used hused) token
  refine ⟨fun fuel r m hr => ?_, fun stack m hpasses => ?_⟩
  · obtain ⟨-, effects, -⟩ := governs_effects.runOnAmid hmachine hr
    exact (hstart.effects effects).1.memory.extends hcomplete hconstants
  · obtain ⟨-, effects, -, -⟩ := governs_effects.passes hmachine hpasses
    exact (hstart.effects effects).1.memory.extends hcomplete hconstants

end Script

end CellMachine
