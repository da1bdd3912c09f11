import CellMachine.Proofs.Meaning.Soundness
import CellMachine.Proofs.Memory.Forced

/-!
Reading a value off memory: what a slot that has its value with all its members is written out to is
the tree of its term. No chain of members is longer than there are slots, so that the writing out never
stops short.
-/

namespace CellMachine

namespace Memory

variable {memory : Memory} {a : Address}

/-- A slot has its value with all its members, and no chain of members is longer than a number. -/
def FullWithin (memory : Memory) : Nat → Address → Prop
  | 0, _ => False
  | n + 1, a => ∃ i v, a = .at i ∧ memory.value? a = some v ∧ ∀ c ∈ v.members, memory.FullWithin n c

lemma FullWithin.succ {n : Nat} (h : memory.FullWithin n a) : memory.FullWithin (n + 1) a := by
  induction n generalizing a with
  | zero => exact h.elim
  | succ n ih =>
    obtain ⟨i, v, rfl, hv, hall⟩ := h
    exact ⟨i, v, rfl, hv, fun c hc => ih (hall c hc)⟩

lemma FullWithin.mono {n n' : Nat} (hle : n ≤ n') (h : memory.FullWithin n a) :
    memory.FullWithin n' a := by
  induction hle with
  | refl => exact h
  | step _ ih => exact ih.succ

lemma Full.forced (h : memory.Full a) : memory.Forced a := by
  induction h with
  | mk hv _ ih => exact .mk hv ih

lemma Full.fullWithin {n : Nat} (h : memory.Full a) (hn : memory.ForcedWithin n a) :
    memory.FullWithin n a := by
  induction n generalizing a with
  | zero => exact hn
  | succ n ih =>
    obtain ⟨w, hw, hall⟩ := hn
    obtain ⟨hv, hmembers⟩ := h
    cases hv.symm.trans hw
    exact ⟨_, _, rfl, hv, fun c hc => ih (hmembers c hc) (hall c hc)⟩

/-- **No chain of members is longer than there are slots.** -/
lemma Full.within (h : memory.Full a) :
    memory.FullWithin (memory.slots.size + memory.loose.size) a :=
  h.fullWithin h.forced.within

end Memory

variable {p : Program} {terms : List Term} {m : Machine}

lemma map_written {D : Address → Term → Prop} {as : List Address} {ts : List Term}
    {rs : List Tree} {k : Nat} (hD : List.Forall₂ D as ts)
    (hrs : List.Forall₂ (fun t r => p.tree k t = some r) ts rs) {write : Address → Option Tree}
    (hwrite : ∀ a ∈ as, ∀ t r, D a t → p.Unfolds t r → write a = some r) :
    as.map write = rs.map some := by
  induction hD generalizing rs with
  | nil =>
    cases hrs
    rfl
  | cons hD _ ih =>
    obtain _ | ⟨hr, hrs⟩ := hrs
    rw [List.map_cons, List.map_cons, hwrite _ List.mem_cons_self _ _ hD ⟨k, hr⟩,
      ih hrs fun a ha => hwrite a (List.mem_cons_of_mem _ ha)]

lemma keys_eq {D : Address → Term → Prop} {entries : List (String × Address)}
    {ts : List (String × Term)} (h : List.Forall₂ (fun e f => e.1 = f.1 ∧ D e.2 f.2) entries ts) :
    ts.map Prod.fst = entries.map Prod.fst := by
  induction h with
  | nil => rfl
  | cons he _ ih => rw [List.map_cons, List.map_cons, ih, he.1]

/-- A value whose members are written out as the trees of their terms is written out as the tree of
its own. -/
lemma written {D : Address → Term → Prop} {v : Value} {head : Head} (hrep : Represents D v head)
    {t : Term} {r : Tree} (hhead : p.Yields t head) (hr : p.Unfolds t r)
    (write : Address → Option Tree)
    (hwrite : ∀ a ∈ v.members, ∀ u s, D a u → p.Unfolds u s → write a = some s) :
    r = match v with
      | .native n => .native n
      | .key k => .key k
      | .callable c => .callable c
      | .iterable items => .list (items.toList.map write)
      | .structured q => .record (q.toList.map fun e => (e.1, write e.2)) := by
  obtain ⟨k, hk⟩ := hr
  cases k with
  | zero =>
    rw [Program.tree] at hk
    cases hk
  | succ k =>
    rw [Program.tree_succ] at hk
    obtain ⟨head', hhead', hk⟩ := Option.bind_eq_some_iff.mp hk
    cases hhead.unique ⟨k, hhead'⟩
    cases hrep with
    | list hitems hD =>
      obtain ⟨rs, hrs, rfl⟩ := Option.map_eq_some_iff.mp hk
      exact congrArg Tree.list (map_written hD (Program.trees_eq_some_iff.mp hrs) hwrite).symm
    | @record q ts hq hD =>
      obtain ⟨rs, hrs, rfl⟩ := Option.map_eq_some_iff.mp hk
      have hmembers := (Represents.record hq hD).members
      refine congrArg Tree.record ?_
      rw [← map_written hmembers (Program.trees_eq_some_iff.mp hrs) hwrite, keys_eq hD]
      show (q.toList.map Prod.fst).zip ((q.toList.map Prod.snd).map write) = _
      rw [List.map_map, List.zip_map']
      rfl
    | _ => exact (Option.some.inj hk).symm

lemma expand_of_full (h : Models p terms m) {n : Nat} {a : Address} {t : Term} {r : Tree}
    (ha : Stands terms m a t) (hfull : m.store.memory.FullWithin (n + 1) a) {v : Value}
    (hv : m.store.memory.value? a = some v) (hr : p.Unfolds t r) :
    m.store.memory.expand n v = r := by
  obtain ⟨i, v', rfl, hv', hmembers⟩ := hfull
  cases hv.symm.trans hv'
  obtain ⟨head, hrep, hhead⟩ := h.exists_value ha hv
  induction n generalizing i t r v head with
  | zero =>
    rw [written hrep hhead hr (fun _ => none) fun c hc => (hmembers c hc).elim]
    cases v <;> rfl
  | succ n ih =>
    rw [written hrep hhead hr (fun c => (m.store.memory.value? c).map fun v =>
      m.store.memory.expand n v) fun c hc u s hu hs => ?_]
    · cases v <;> rfl
    · obtain ⟨j, w, rfl, hw, hall⟩ := hmembers c hc
      obtain ⟨head', hrep', hhead'⟩ := h.exists_value hu hw
      rw [hw, Option.map_some, ih hs j hu hw hw hall head' hrep' hhead']

/-- **What is read off a slot** that has its value with all its members is the tree of its term. -/
lemma treeAt_of_full (h : Models p terms m) {a : Address} {t : Term} {r : Tree}
    (ha : Stands terms m a t) (hfull : m.store.memory.Full a) (hr : p.Unfolds t r) :
    m.store.memory.treeAt a = some r := by
  obtain ⟨hv, -⟩ := id hfull
  rw [Memory.treeAt, hv, Option.map_some, Memory.tree]
  refine congrArg some (expand_of_full h ha ?_ hv hr)
  exact hfull.within.mono (by omega)

end CellMachine
