import CellMachine.Proofs.Reduction.Terms

/-!
What was done to memory, change by change. Slots are added at its end or outside of it, and slots without
values get one; nothing is taken away. So the slots that were there stay where they are, and the slots
that are allocated follow them in the order of their allocations, one place each.
-/

namespace CellMachine

namespace Memory

/-- One change of memory. -/
inductive Change where
  /-- A slot is allocated. -/
  | allocated (s : Slot)
  /-- A slot is made outside of memory. -/
  | detached (s : Slot)
  /-- A slot gets a value, unless it has one. -/
  | filled (a : Address) (v : Value)

namespace Change

def apply (m : Memory) : Change → Memory
  | allocated s => (m.allocate s.cell s.value).2
  | detached s => (m.allocateLoose s.cell s.value).2
  | filled a v => m.memoize a v

/-- The slot that a change allocates, if it does. -/
def slot? : Change → Option Slot
  | allocated s => some s
  | detached _ | filled .. => none

end Change

/-- The memory that changes make of another. -/
def replay (m : Memory) (changes : List Change) : Memory := changes.foldl Change.apply m

/-- The slots that changes allocate, in turn. -/
def allocations (changes : List Change) : List Slot := changes.filterMap Change.slot?

variable {base m m' m'' : Memory} {a : Address} {s : Slot} {changes : List Change}

@[simp] lemma replay_nil (m : Memory) : m.replay [] = m := rfl

@[simp] lemma replay_cons (m : Memory) (c : Change) (changes : List Change) :
    m.replay (c :: changes) = (c.apply m).replay changes := rfl

@[simp] lemma replay_append (m : Memory) (changes more : List Change) :
    m.replay (changes ++ more) = (m.replay changes).replay more := List.foldl_append

@[simp] lemma allocations_append (changes more : List Change) :
    allocations (changes ++ more) = allocations changes ++ allocations more := List.filterMap_append

/-! ### What changes leave -/

lemma retains_allocateLoose (m : Memory) (cell : Cell) (v : Option Value) :
    m.Retains (m.allocateLoose cell v).2 := by
  intro a s hs
  refine ⟨s, ?_, rfl, fun _ => id⟩
  cases a with
  | «at» i => exact hs
  | loose n =>
    have hn : n < m.loose.size := (Array.getElem?_eq_some_iff.mp hs).1
    show (m.loose.push ⟨cell, v⟩)[n]? = some s
    rw [Array.getElem?_push_lt hn, ← Array.getElem?_eq_getElem hn]
    exact hs

lemma retains_apply (m : Memory) (c : Change) : m.Retains (c.apply m) := by
  cases c with
  | allocated s => exact (m.over_allocate s.cell s.value).retains
  | detached s => exact m.retains_allocateLoose s.cell s.value
  | filled a v => exact m.retains_memoize a v

lemma retains_replay (m : Memory) (changes : List Change) : m.Retains (m.replay changes) := by
  induction changes generalizing m with
  | nil => exact .refl m
  | cons c changes ih => exact (m.retains_apply c).trans (ih _)

lemma get?_replay_of_isSome (hs : m.get? a = some s) (hv : s.value.isSome = true)
    (changes : List Change) : (m.replay changes).get? a = some s := by
  obtain ⟨v, hv⟩ := Option.isSome_iff_exists.mp hv
  obtain ⟨⟨cell, value⟩, hs', rfl, hkept⟩ := m.retains_replay changes a s hs
  obtain rfl : value = some v := hkept v hv
  rw [hs', ← hv]

@[simp] lemma constants_apply (m : Memory) (c : Change) : (c.apply m).constants = m.constants := by
  rcases c with _ | _ | ⟨_ | _, _⟩ <;> rfl

@[simp] lemma constants_replay (m : Memory) (changes : List Change) :
    (m.replay changes).constants = m.constants := by
  induction changes generalizing m with
  | nil => rfl
  | cons c changes ih => simp [ih]

/-! ### Where slots are allocated -/

lemma size_apply (m : Memory) (c : Change) : (c.apply m).size = m.size + (allocations [c]).length := by
  cases c with
  | allocated s => exact m.size_allocate s.cell s.value
  | detached s => rfl
  | filled a v => exact m.size_memoize a v

lemma size_replay (m : Memory) (changes : List Change) :
    (m.replay changes).size = m.size + (allocations changes).length := by
  induction changes generalizing m with
  | nil => rfl
  | cons c changes ih =>
    calc (m.replay (c :: changes)).size
        = (c.apply m).size + (allocations changes).length := ih (c.apply m)
      _ = m.size + (allocations [c]).length + (allocations changes).length := by rw [size_apply]
      _ = m.size + (allocations ([c] ++ changes)).length := by
        rw [allocations_append, List.length_append, Nat.add_assoc]

/-- **Slots follow each other in the order of their allocations**: the one that is allocated `k`-th is
found `k` places past those that were there, with its cell and with the value that it came with. -/
lemma exists_allocated {k : Nat} (h : (allocations changes)[k]? = some s) :
    ∃ s', (m.replay changes).get? (.at (m.size + k)) = some s' ∧ s'.cell = s.cell ∧
      ∀ v, s.value = some v → s'.value = some v := by
  -- On the changes, oldest first: what comes later keeps the slots there are.
  induction changes generalizing m k with
  | nil => cases h
  | cons c changes ih =>
    have hsize := m.size_apply c
    rw [replay_cons]
    cases c with
    | allocated t =>
      cases k with
      | zero =>
        obtain rfl : t = s := Option.some.inj h
        exact retains_replay _ changes _ _ (m.get?_allocate_self t.cell t.value)
      | succ k =>
        have hindex : (Change.apply m (.allocated t)).size + k = m.size + (k + 1) := by
          rw [hsize, Nat.add_assoc, Nat.add_comm k]
          rfl
        exact hindex ▸ ih h
    | detached t => exact ih h
    | filled b v =>
      have hindex : (Change.apply m (.filled b v)).size + k = m.size + k := by
        rw [hsize]
        rfl
      exact hindex ▸ ih h

/-! ### Development -/

/-- Memory that changes make of another. -/
def Develops (m m' : Memory) : Prop := ∃ changes, m' = m.replay changes

namespace Develops

lemma refl (m : Memory) : m.Develops m := ⟨[], rfl⟩

lemma trans (h : m.Develops m') (h' : m'.Develops m'') : m.Develops m'' := by
  obtain ⟨changes, rfl⟩ := h
  obtain ⟨more, rfl⟩ := h'
  exact ⟨changes ++ more, (m.replay_append changes more).symm⟩

lemma retains (h : m.Develops m') : m.Retains m' := by
  obtain ⟨changes, rfl⟩ := h
  exact m.retains_replay changes

lemma apply (m : Memory) (c : Change) : m.Develops (c.apply m) := ⟨[c], rfl⟩

end Develops

lemma replay_allocated (m : Memory) (slots : List Slot) :
    m.replay (slots.map .allocated) = { m with slots := m.slots ++ slots.toArray } := by
  induction slots generalizing m with
  | nil => simp
  | cons s slots ih =>
    rw [List.map_cons, replay_cons, ih]
    simp [Change.apply, allocate]

lemma Over.develops (h : base.Over m) : base.Develops m := by
  refine ⟨(m.slots.toList.drop base.slots.size).map .allocated, ?_⟩
  have hslots : base.slots ++ (m.slots.toList.drop base.slots.size).toArray = m.slots := by
    refine Array.ext_getElem? fun i => ?_
    rcases Nat.lt_or_ge i base.slots.size with hi | hi
    · rw [Array.getElem?_append_left hi, h.slots i hi]
    · rw [Array.getElem?_append_right hi]
      simp [Nat.add_sub_cancel' hi]
  obtain ⟨slots, constants, directory, loose⟩ := m
  obtain ⟨-, rfl, rfl, rfl⟩ := h
  rw [replay_allocated, hslots]

end Memory

/-- An opcode that does to memory what its tools do: slots are allocated, in memory or outside of it, and
filled. -/
def Opcode.Develops (op : Opcode) : Prop :=
  ∀ frame (s : Store), s.memory.Develops (op.evaluate frame s).2.memory

end CellMachine
