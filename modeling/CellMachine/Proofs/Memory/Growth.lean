import Mathlib.Tactic
import CellMachine.Memory.Basic
import CellMachine.Proofs.KeyMap

/-!
How memory grows: slots are added at its end, and a slot without a value may get one. Slots that have
values keep them, and no slot changes its cell.
-/

namespace CellMachine

namespace Memory

/-- Memory with the slots of another, and possibly more. -/
structure Over (base m : Memory) : Prop where
  slots : ∀ i < base.slots.size, m.slots[i]? = base.slots[i]?
  loose : m.loose = base.loose
  directory : m.directory = base.directory
  constants : m.constants = base.constants

/-- The directory leads to slots. -/
def Rooted (m : Memory) : Prop := ∀ id i, m.directory.get? id = some i → i < m.slots.size

variable {base m : Memory}

lemma Over.refl (m : Memory) : Over m m := ⟨fun _ _ => rfl, rfl, rfl, rfl⟩

lemma Over.size_le (h : Over base m) : base.slots.size ≤ m.slots.size := by
  by_contra hlt
  have hsize : m.slots.size < base.slots.size := by omega
  have hnone := h.slots m.slots.size hsize
  rw [Array.getElem?_eq_none le_rfl, Array.getElem?_eq_getElem hsize] at hnone
  cases hnone

lemma Over.trans {m' : Memory} (h : Over base m) (h' : Over m m') : Over base m' := by
  refine ⟨fun i hi => ?_, h'.loose.trans h.loose, h'.directory.trans h.directory,
    h'.constants.trans h.constants⟩
  rw [h'.slots i (lt_of_lt_of_le hi h.size_le), h.slots i hi]

lemma Over.get? (h : Over base m) {i : Nat} (hi : i < base.slots.size) :
    m.get? (.at i) = base.get? (.at i) := h.slots i hi

lemma Over.value? (h : Over base m) {i : Nat} (hi : i < base.slots.size) :
    m.value? (.at i) = base.value? (.at i) := by
  rw [Memory.value?, Memory.value?, h.get? hi]

lemma Over.typeOf (h : Over base m) {i : Nat} (hi : i < base.slots.size) :
    m.typeOf (.at i) = base.typeOf (.at i) := by
  rw [Memory.typeOf, Memory.typeOf, h.get? hi]

lemma lt_of_value? {i : Nat} {v : Value} (h : m.value? (.at i) = some v) : i < m.slots.size := by
  by_contra hle
  have hnone : m.get? (.at i) = none := Array.getElem?_eq_none (by omega)
  rw [Memory.value?, hnone] at h
  cases h

lemma Over.keeps (h : Over base m) {a : Address} {v : Value} (hv : base.value? a = some v) :
    m.value? a = some v := by
  cases a with
  | «at» i => exact (h.value? (lt_of_value? hv)).trans hv
  | loose n =>
    rw [Memory.value?, Memory.get?, h.loose]
    exact hv

lemma Over.kept (h : Over base m) {a : Address} {v : Value} (hv : m.value? a = some v)
    (hnew : ∀ i, base.slots.size ≤ i → m.value? (.at i) = none) : base.value? a = some v := by
  cases a with
  | «at» i =>
    rcases Nat.lt_or_ge i base.slots.size with hi | hi
    · exact (h.value? hi).symm.trans hv
    · cases (hnew i hi).symm.trans hv
  | loose n =>
    rw [Memory.value?, Memory.get?, ← h.loose]
    exact hv

lemma address?_of_lt {i : Nat} (h : i < m.slots.size) : m.address? i = some (.at i) := if_pos h

lemma Rooted.constant (hbase : base.Rooted) {moduleName name : String} :
    (base.lookup moduleName name).bind base.address? =
      (base.lookup moduleName name).map .at := by
  cases h : base.lookup moduleName name with
  | none => rfl
  | some i => exact address?_of_lt (hbase _ i h)

lemma Over.constant (h : Over base m) (hbase : base.Rooted) {moduleName name : String} :
    (m.lookup moduleName name).bind m.address? =
      (base.lookup moduleName name).bind base.address? := by
  rw [hbase.constant, lookup, h.directory, ← lookup]
  cases hi : base.lookup moduleName name with
  | none => rfl
  | some i => exact address?_of_lt (lt_of_lt_of_le (hbase _ i hi) h.size_le)

/-! ### New slots -/

lemma over_allocate (m : Memory) (cell : Cell) (v : Option Value) :
    Over m (m.allocate cell v).2 := by
  refine ⟨fun i hi => ?_, rfl, rfl, rfl⟩
  rw [allocate]
  exact Array.getElem?_push_lt hi ▸ (Array.getElem?_eq_getElem hi).symm

lemma size_allocate (m : Memory) (cell : Cell) (v : Option Value) :
    (m.allocate cell v).2.slots.size = m.slots.size + 1 := Array.size_push _

lemma get?_allocate_self (m : Memory) (cell : Cell) (v : Option Value) :
    (m.allocate cell v).2.get? (.at m.slots.size) = some ⟨cell, v⟩ := Array.getElem?_push_size

lemma value?_of_allocate_none {cell : Cell} {a : Address} {v : Value}
    (h : (m.allocate cell none).2.value? a = some v) : m.value? a = some v := by
  refine (m.over_allocate cell none).kept h fun i hi => ?_
  by_cases heq : i = m.slots.size
  · rw [heq, value?, get?_allocate_self]
    rfl
  · have hsize := m.size_allocate cell none
    have hnone : (m.allocate cell none).2.get? (.at i) = none :=
      Array.getElem?_eq_none (by omega)
    rw [value?, hnone]
    rfl

/-! ### Values of slots -/

lemma size_memoize (m : Memory) (a : Address) (v : Value) :
    (m.memoize a v).slots.size = m.slots.size := by
  cases a with
  | «at» i => exact Array.size_modify
  | loose n => rfl

lemma get?_memoize (m : Memory) (i j : Nat) (v : Value) :
    (m.memoize (.at i) v).get? (.at j) =
      if i = j then (m.get? (.at j)).map (Slot.fill v) else m.get? (.at j) := by
  simp only [memoize, Memory.get?, Array.getElem?_modify]

lemma typeOf_memoize (m : Memory) (i : Nat) (v : Value) (j : Nat) :
    (m.memoize (.at i) v).typeOf (.at j) = m.typeOf (.at j) := by
  rw [typeOf, typeOf, get?_memoize]
  by_cases h : i = j
  · rw [if_pos h]
    cases m.get? (.at j) <;> rfl
  · rw [if_neg h]

lemma value?_memoize_self {i : Nat} (hi : i < m.slots.size) (v : Value) :
    (m.memoize (.at i) v).value? (.at i) = (m.value? (.at i)).or (some v) := by
  rw [Memory.value?, get?_memoize, if_pos rfl, Memory.value?]
  have hget : m.get? (.at i) = some m.slots[i] := Array.getElem?_eq_getElem hi
  rw [hget]
  show (m.slots[i].value <|> some v) = m.slots[i].value.or (some v)
  cases m.slots[i].value <;> rfl

lemma value?_memoize_of_none {i : Nat} (hi : i < m.slots.size) (h : m.value? (.at i) = none)
    (v : Value) : (m.memoize (.at i) v).value? (.at i) = some v := by
  rw [value?_memoize_self hi, h, Option.none_or]

lemma isSome_memoize_self {i : Nat} (hi : i < m.slots.size) (v : Value) :
    ((m.memoize (.at i) v).value? (.at i)).isSome = true := by
  rw [value?_memoize_self hi]
  cases m.value? (.at i) <;> rfl

lemma value?_memoize_of_ne {i j : Nat} (h : i ≠ j) (v : Value) :
    (m.memoize (.at i) v).value? (.at j) = m.value? (.at j) := by
  rw [Memory.value?, get?_memoize, if_neg h, Memory.value?]

lemma value?_memoize_of_some {i : Nat} {a : Address} {u : Value} (h : m.value? a = some u)
    (v : Value) : (m.memoize (.at i) v).value? a = some u := by
  cases a with
  | «at» j =>
    by_cases hij : i = j
    · subst hij
      rw [value?_memoize_self (lt_of_value? h), h, Option.or_some]
      rfl
    · rw [value?_memoize_of_ne hij, h]
  | loose n => exact h

lemma value?_of_memoize {i : Nat} (hi : i < m.slots.size) {v : Value} {a : Address} {u : Value}
    (h : (m.memoize (.at i) v).value? a = some u) : m.value? a = some u ∨ a = .at i ∧ u = v := by
  cases a with
  | «at» j =>
    by_cases hij : i = j
    · subst hij
      rw [value?_memoize_self hi] at h
      cases hold : m.value? (.at i) with
      | some old =>
        rw [hold] at h
        exact .inl h
      | none =>
        rw [hold] at h
        cases h
        exact .inr ⟨rfl, rfl⟩
    · rw [value?_memoize_of_ne hij] at h
      exact .inl h
  | loose n => exact .inl h

lemma Over.memoize (h : Over base m) {i : Nat}
    (hi : base.slots.size ≤ i ∨ (m.value? (.at i)).isSome = true) (v : Value) :
    Over base (m.memoize (.at i) v) := by
  refine ⟨fun j hj => ?_, h.loose, h.directory, h.constants⟩
  rw [← h.slots j hj]
  have hget := get?_memoize m i j v
  rw [show (m.memoize (.at i) v).slots[j]? = (m.memoize (.at i) v).get? (.at j) from rfl, hget]
  split
  · next heq =>
    subst heq
    rcases hi with hi | hi
    · omega
    · obtain ⟨u, hu⟩ := Option.isSome_iff_exists.mp hi
      have hsome : ∃ s, m.get? (.at i) = some s ∧ s.value = some u := by
        rw [Memory.value?] at hu
        exact Option.bind_eq_some_iff.mp hu
      obtain ⟨s, hs, hsu⟩ := hsome
      show (m.get? (.at i)).map (Slot.fill v) = m.get? (.at i)
      rw [hs, Option.map_some, Slot.fill, hsu]
      obtain ⟨cell, value⟩ := s
      cases hsu
      rfl
  · rfl

end Memory

end CellMachine
