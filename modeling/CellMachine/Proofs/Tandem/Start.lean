import CellMachine.Proofs.Meaning.Start
import CellMachine.Proofs.Meaning.Trees
import CellMachine.Proofs.Tandem.Following

/-!
Where two machines side by side start, and what is read off them in the end: they start with the same
values in the same slots, and paired slots that have their values with all members are written out
alike.
-/

namespace CellMachine

/-- A value with its members written out in some way. -/
def Value.writtenBy (write : Address → Option Tree) : Value → Tree
  | .native n => .native n
  | .key k => .key k
  | .callable c => .callable c
  | .iterable items => .list (items.toList.map write)
  | .structured r => .record (r.toList.map fun e => (e.1, write e.2))

lemma Memory.expand_eq_writtenBy {memory : Memory} {k : Nat} {v : Value}
    (h : ∀ c ∈ v.members, memory.FullWithin k c) :
    memory.expand k v = v.writtenBy fun c => (memory.value? c).map (memory.expand (k - 1)) := by
  cases k with
  | succ k => cases v <;> rfl
  | zero =>
    -- Without members it does not matter how they are written out.
    have hnil : v.members = [] := List.eq_nil_iff_forall_not_mem.mpr h
    cases v with
    | iterable items =>
      have hitems : items.toList = [] := hnil
      rw [Memory.expand, Value.writtenBy, hitems]
      rfl
    | structured r =>
      have hentries : r.toList = [] := List.map_eq_nil_iff.mp hnil
      rw [Memory.expand, Value.writtenBy, hentries]
      rfl
    | _ => rfl

namespace Tandem

open Machine

variable {T : Tandem} {D : Nat → Nat → Prop} {m n : Machine} {a b : Address}

/-! ### Writing out -/

lemma Alike.writtenBy_eq {v w : Value} (hvw : T.Alike D v w) {write write' : Address → Option Tree}
    (hmembers : ∀ c ∈ v.members, ∀ d ∈ w.members, Paired D c d → write' d = write c) :
    w.writtenBy write' = v.writtenBy write := by
  cases hvw with
  | @iterable items items' _ _ hall =>
    change ∀ c ∈ items.toList, ∀ d ∈ items'.toList, _ at hmembers
    refine congrArg Tree.list ?_
    generalize items.toList = as at hall hmembers
    generalize items'.toList = bs at hall hmembers
    induction hall with
    | nil => rfl
    | cons hab _ ih =>
      rw [List.map_cons, List.map_cons, hmembers _ List.mem_cons_self _ List.mem_cons_self hab,
        ih fun c hc d hd => hmembers c (List.mem_cons_of_mem _ hc) d (List.mem_cons_of_mem _ hd)]
  | @structured r r' hkeys hall =>
    change ∀ c ∈ r.toList.map Prod.snd, ∀ d ∈ r'.toList.map Prod.snd, _ at hmembers
    refine congrArg Tree.record ?_
    have hentries := forall₂_entries hkeys hall
    generalize r.toList = as at hentries hmembers
    generalize r'.toList = bs at hentries hmembers
    induction hentries with
    | nil => rfl
    | cons hab _ ih =>
      rw [List.map_cons, List.map_cons, hab.1,
        hmembers _ List.mem_cons_self _ List.mem_cons_self hab.2,
        ih fun c hc d hd => hmembers c (List.mem_cons_of_mem _ hc) d (List.mem_cons_of_mem _ hd)]
  | _ => rfl

namespace Abreast

lemma full (h : T.Abreast D m n) (hab : Paired D a b) (ha : m.store.memory.Full a) :
    n.store.memory.Full b := by
  induction ha generalizing b with
  | mk hv _ ih =>
    obtain ⟨w, hw, hvw⟩ := h.exists_value hab hv
    obtain ⟨-⟩ := hab
    refine .mk hw fun d hd => ?_
    obtain ⟨c, hc, hcd⟩ := exists_of_mem hvw.members.flip hd
    exact ih c hc hcd

lemma expand_eq (h : T.Abreast D m n) {k l : Nat} (hab : Paired D a b)
    (ha : m.store.memory.FullWithin (k + 1) a) (hb : n.store.memory.FullWithin (l + 1) b) {v w : Value}
    (hv : m.store.memory.value? a = some v) (hw : n.store.memory.value? b = some w) :
    n.store.memory.expand l w = m.store.memory.expand k v := by
  -- On the depth that is enough for the leader; members need less on both sides.
  induction k using Nat.strong_induction_on generalizing l a b v w with
  | _ k ih =>
    obtain ⟨i, _, -, hv', hc⟩ := ha
    cases hv.symm.trans hv'
    obtain ⟨j, _, -, hw', hd⟩ := hb
    cases hw.symm.trans hw'
    obtain ⟨w', hw', hvw⟩ := h.exists_value hab hv
    cases hw.symm.trans hw'
    rw [Memory.expand_eq_writtenBy hc, Memory.expand_eq_writtenBy hd]
    refine hvw.writtenBy_eq fun c hcv d hdw hcd => ?_
    have hc := hc c hcv
    have hd := hd d hdw
    cases k with
    | zero => exact hc.elim
    | succ k =>
      cases l with
      | zero => exact hd.elim
      | succ l =>
        obtain ⟨_, x, -, hx, -⟩ := id hc
        obtain ⟨_, y, -, hy, -⟩ := id hd
        rw [hx, hy]
        exact congrArg some (ih k (Nat.lt_succ_self k) hcd hc hd hx hy)

/-- **Paired slots** that have their values with all members are written out alike. -/
lemma treeAt_eq (h : T.Abreast D m n) (hab : Paired D a b) (ha : m.store.memory.Full a) :
    n.store.memory.treeAt b = m.store.memory.treeAt a := by
  have hb := h.full hab ha
  obtain ⟨hv, -⟩ := id ha
  obtain ⟨hw, -⟩ := id hb
  rw [Memory.treeAt, Memory.treeAt, hv, hw]
  exact congrArg some (h.expand_eq hab (ha.within.mono (by omega)) (hb.within.mono (by omega)) hv hw)

end Abreast

/-! ### The start -/

lemma alike_of_filled {memory : Memory} (h : memory.Filled T.types T.admits) {i : Nat} {v : Value}
    (hv : memory.value? (.at i) = some v) :
    T.Alike (fun i j => i = j ∧ i < memory.slots.size) v v := by
  obtain ⟨w, hw, hrep⟩ := h.evaluated i (Memory.lt_of_value? hv)
  cases hv.symm.trans hw
  have own : ∀ a t, CellMachine.Own memory.slots.size a t →
      Paired (fun i j => i = j ∧ i < memory.slots.size) a a := by
    rintro a t ⟨j, hj, rfl, -⟩
    exact ⟨⟨rfl, hj⟩⟩
  cases v with
  | native x => exact .native x
  | key k => exact .key k
  | callable c => exact .callable (h.callables i c hv)
  | iterable items =>
    cases hrep with
    | list hwf hall =>
      refine .iterable hwf hwf (List.forall₂_same.mpr fun a ha => ?_)
      obtain ⟨t, -, ht⟩ := exists_of_mem hall ha
      exact own a t ht
  | structured r =>
    cases hrep with
    | record hexposed hall =>
      refine .structured rfl fun k => ?_
      cases ha : r.get? k with
      | none => exact .none
      | some a =>
        have hmem : (k, a) ∈ r.toList := KeyMap.mem_of_get? ((hexposed.get?_toList k).trans ha)
        obtain ⟨t, -, -, ht⟩ := exists_of_mem hall hmem
        exact .some (own a _ ht)

/-- **Two machines with one memory** are side by side: every slot is paired with itself. -/
lemma abreast_of_filled (hm : T.Rides T.leading m) (hn : T.Rides T.following n)
    (hmemory : n.store.memory = m.store.memory) (h : m.store.memory.Filled T.types T.admits)
    (hpending : ∀ i, m.pending.get? i = none) (hpending' : ∀ i, n.pending.get? i = none) :
    T.Abreast (fun i j => i = j ∧ i < m.store.memory.slots.size) m n := by
  refine ⟨hm, hn, fun i hi => ⟨rfl, lt_of_lt_of_le hi hm.memory.size_le⟩, ⟨?_, ?_⟩, ?_⟩
  · rintro i j k ⟨rfl, -⟩ ⟨rfl, -⟩
    rfl
  · rintro i j k ⟨rfl, -⟩ ⟨rfl, -⟩
    rfl
  · rintro i j ⟨rfl, hi⟩
    obtain ⟨v, hv, -⟩ := h.evaluated i hi
    obtain ⟨slot, hslot, hvalue⟩ := Option.bind_eq_some_iff.mp hv
    have htype : m.store.memory.typeOf (.at i) = slot.cell.type := by
      rw [Memory.typeOf, hslot]
    refine ⟨slot, slot, hslot, hmemory ▸ hslot, rfl, htype ▸ h.agree i hi, ?_, ?_, fun _ hnone => ?_⟩
    · rw [hvalue]
      exact .some (alike_of_filled h hv)
    · rw [hpending, hpending']
      exact .none
    · rw [hvalue] at hnone
      cases hnone

end Tandem

lemma Script.Loaded.sound {s : Script} {admits : Callable → Prop} (h : s.Loaded admits)
    (htyped : ∀ f, admits f → f.Typed s.types) {config : Config}
    (hregrouped : config.reduceStrategy = .pairwise →
      config.runtimeValidation = false ∧ ∀ f, admits f → ¬ f.Applies "nsum") :
    Tandem.Sound ⟨s.types, s.modules, s.memory, admits, {}, config⟩ where
  around := {
    tidy := h.tidy
    opcodes := fun mnemonic op hop =>
      Standard.regular h.tidy h.modules h.declared (Standard.mem_opcodes hop)
    rooted := h.constants.rooted
    constants := h.constants.filled.agree }
  modules := h.modules
  size := h.size.le
  valued := by
    intro i hi
    obtain ⟨v, hv, -⟩ := h.constants.filled.evaluated i hi
    exact Option.isSome_iff_exists.mpr ⟨v, hv⟩
  typed := htyped
  validation := fun _ => rfl
  sequential := rfl
  regrouped := hregrouped

end CellMachine
