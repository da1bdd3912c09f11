import CellMachine.Proofs.Machine.Recursion
import CellMachine.Proofs.Meaning.Calls
import CellMachine.Standard.Opcodes

/-!
Two machines side by side, of which one leads and the other follows.

Their memories need not be the same. Slots belong together in pairs, one slot of each machine: paired
slots have cells of one type, they have values or have none, and their values differ in nothing but the
slots that hold their members, which are paired again. Slots outside of all pairs are private to a
machine, which may do with them what it likes.
-/

namespace CellMachine

/-- A cell of a callable applies an opcode. -/
def Callable.Applies (c : Callable) (mnemonic : String) : Prop :=
  ∃ i cell arguments explicit, c.cell? i = some cell ∧
    cell.kind = .opcode mnemonic arguments explicit

/-- What two machines have in common, and the settings of each. -/
structure Tandem where
  types : Registry
  modules : KeyMap String Module
  /-- The memory of the constants. -/
  constants : Memory
  /-- The callables that the machines may meet. -/
  admits : Callable → Prop
  leading : Config
  following : Config

/-- What a tandem relies on. The leader checks at least what the follower checks, and folds from the left;
where the follower folds neighbours, no floating point numbers are summed, whose sums depend on the
grouping, and nothing is checked on the way. -/
structure Tandem.Sound (T : Tandem) : Prop where
  around : Surrounds T.types (.ofList Standard.opcodes) T.modules T.constants
  modules : ModulesAgree T.types T.modules
  size : T.constants.constants ≤ T.constants.slots.size
  valued : ∀ i < T.constants.slots.size, (T.constants.value? (.at i)).isSome = true
  typed : ∀ c, T.admits c → c.Typed T.types
  validation : T.following.runtimeValidation = true → T.leading.runtimeValidation = true
  sequential : T.leading.reduceStrategy = .sequential
  regrouped : T.following.reduceStrategy = .pairwise →
    T.following.runtimeValidation = false ∧ ∀ c, T.admits c → ¬ c.Applies "nsum"

/-- Slots that belong together. -/
inductive Paired (D : Nat → Nat → Prop) : Address → Address → Prop
  | mk {i j : Nat} (h : D i j) : Paired D (.at i) (.at j)

lemma Paired.mono {D D' : Nat → Nat → Prop} (hD : ∀ i j, D i j → D' i j) {a b : Address}
    (h : Paired D a b) : Paired D' a b := by
  obtain ⟨h⟩ := h
  exact ⟨hD _ _ h⟩

namespace Tandem

variable {T : Tandem} {D D' : Nat → Nat → Prop}

/-! ### Values -/

/-- Values that differ in nothing but the slots of their members. -/
inductive Alike (T : Tandem) (D : Nat → Nat → Prop) : Value → Value → Prop
  | native (n : Native) : Alike T D (.native n) (.native n)
  | key (k : String) : Alike T D (.key k) (.key k)
  | callable {c : Callable} (h : T.admits c) : Alike T D (.callable c) (.callable c)
  | iterable {items items' : Sequence Address} (h : items.WellFormed) (h' : items'.WellFormed)
    (hall : List.Forall₂ (Paired D) items.toList items'.toList) :
    Alike T D (.iterable items) (.iterable items')
  | structured {r r' : Record Address} (hkeys : r'.keys = r.keys)
    (hall : ∀ k, Option.Rel (Paired D) (r.get? k) (r'.get? k)) :
    Alike T D (.structured r) (.structured r')

lemma rel_imp {α β : Type} {R S : α → β → Prop} (hRS : ∀ a b, R a b → S a b) {o : Option α}
    {o' : Option β} (h : Option.Rel R o o') : Option.Rel S o o' := by
  cases h with
  | some h => exact .some (hRS _ _ h)
  | none => exact .none

lemma isSome_eq_of_rel {α β : Type} {R : α → β → Prop} {o : Option α} {o' : Option β}
    (h : Option.Rel R o o') : o'.isSome = o.isSome := by
  cases h <;> rfl

lemma exists_of_rel {α β : Type} {R : α → β → Prop} {o : Option α} {o' : Option β}
    (h : Option.Rel R o o') {a : α} (ha : o = some a) : ∃ b, o' = some b ∧ R a b := by
  subst ha
  obtain ⟨h⟩ := h
  exact ⟨_, rfl, h⟩

lemma exists_of_mem {α β : Type} {R : α → β → Prop} {as : List α} {bs : List β}
    (h : List.Forall₂ R as bs) {a : α} (ha : a ∈ as) : ∃ b ∈ bs, R a b := by
  induction h with
  | nil => cases ha
  | cons hab _ ih =>
    rcases List.mem_cons.mp ha with rfl | ha
    · exact ⟨_, List.mem_cons_self, hab⟩
    · obtain ⟨b, hb, hab⟩ := ih ha
      exact ⟨b, List.mem_cons_of_mem _ hb, hab⟩

lemma Alike.mono (hD : ∀ i j, D i j → D' i j) {v w : Value} (h : T.Alike D v w) :
    T.Alike D' v w := by
  cases h with
  | native n => exact .native n
  | key k => exact .key k
  | callable h => exact .callable h
  | iterable h h' hall => exact .iterable h h' (hall.imp fun _ _ => .mono hD)
  | structured hkeys hall =>
    exact .structured hkeys fun k => rel_imp (fun _ _ => .mono hD) (hall k)

/-- The members that alike records show are paired, under the same keys. -/
lemma forall₂_entries {r r' : Record Address} (hkeys : r'.keys = r.keys)
    (hall : ∀ k, Option.Rel (Paired D) (r.get? k) (r'.get? k)) :
    List.Forall₂ (fun e f => e.1 = f.1 ∧ Paired D e.2 f.2) r.toList r'.toList := by
  rw [Record.toList_eq, Record.toList_eq, hkeys]
  exact Record.forall₂_shown hall r.keys

lemma Alike.members {v w : Value} (h : T.Alike D v w) :
    List.Forall₂ (Paired D) v.members w.members := by
  cases h with
  | iterable h h' hall => exact hall
  | structured hkeys hall =>
    have hentries := forall₂_entries hkeys hall
    simp only [Value.members, List.forall₂_map_left_iff, List.forall₂_map_right_iff]
    exact hentries.imp fun _ _ => And.right
  | _ => exact .nil

lemma Alike.asNative? {v w : Value} (h : T.Alike D v w) : w.asNative? = v.asNative? := by
  cases h <;> rfl

lemma Alike.asKey? {v w : Value} (h : T.Alike D v w) : w.asKey? = v.asKey? := by
  cases h <;> rfl

/-! ### Slots -/

/-- Two cells of activations of one compiled call. -/
structure Counterpart (T : Tandem) (D : Nat → Nat → Prop) (q q' : Pending) : Prop where
  node : q'.node = q.node
  callable : q'.activation.call.callable = q.activation.call.callable
  nodes : q'.activation.call.nodes = q.activation.call.nodes
  slots : ∀ k, Option.Rel (Paired D) (q.activation.slots.get? k) (q'.activation.slots.get? k)
  admits : T.admits q.activation.call.callable
  fits : Fits (.ofList Standard.opcodes) T.constants q.activation.call.callable
    q.activation.call.nodes

/-- Two slots, and the cells of activations that they are, if they are any. A slot that is none and has
no value is no call that was put off. -/
structure SameSlot (T : Tandem) (D : Nat → Nat → Prop) (s s' : Slot) (q q' : Option Pending) :
    Prop where
  type : s'.cell.type = s.cell.type
  agrees : T.types.Agrees s.cell.type
  value : Option.Rel (T.Alike D) s.value s'.value
  pending : Option.Rel (T.Counterpart D) q q'
  ready : q = none → s.value = none → ∀ f x, s.cell.kind ≠ .call f x

lemma Counterpart.mono (hD : ∀ i j, D i j → D' i j) {q q' : Pending} (h : T.Counterpart D q q') :
    T.Counterpart D' q q' :=
  { h with slots := fun k => rel_imp (fun _ _ => .mono hD) (h.slots k) }

lemma SameSlot.mono (hD : ∀ i j, D i j → D' i j) {s s' : Slot} {q q' : Option Pending}
    (h : T.SameSlot D s s' q q') : T.SameSlot D' s s' q q' :=
  { h with
    value := rel_imp (fun _ _ => .mono hD) h.value
    pending := rel_imp (fun _ _ => .mono hD) h.pending }

/-! ### Machines -/

/-- What the constant at an index compiles to when nothing is remembered. -/
def compilation (T : Tandem) (i : Nat) : Compilation :=
  (compileSlot (.ofList Standard.opcodes) T.modules T.constants (.at i) T.types.fresh).1

/-- What holds of either machine. -/
structure Rides (T : Tandem) (config : Config) (m : Machine) : Prop where
  opcodes : m.setting.opcodes = .ofList Standard.opcodes
  modules : m.setting.modules = T.modules
  config : m.setting.config = config
  recalls : T.types.Recalls m.store.types
  compiled : ∀ i c, m.compiled.get? i = some c → c.Same (T.compilation i)
  memory : T.constants.Over m.store.memory
  pending : ∀ i q, m.pending.get? i = some q → i < m.store.memory.slots.size

/-- **Two machines side by side.** The constants are paired with themselves. -/
structure Abreast (T : Tandem) (D : Nat → Nat → Prop) (m n : Machine) : Prop where
  leader : T.Rides T.leading m
  follower : T.Rides T.following n
  base : ∀ i < T.constants.slots.size, D i i
  unique : Relator.BiUnique D
  slots : ∀ i j, D i j → ∃ s s', m.store.memory.get? (.at i) = some s ∧
    n.store.memory.get? (.at j) = some s' ∧
    T.SameSlot D s s' (m.pending.get? i) (n.pending.get? j)

/-- How one machine goes on: no value changes, and no slot that is private. -/
structure Advances (shared : Nat → Prop) (m m' : Machine) : Prop where
  size : m.store.memory.slots.size ≤ m'.store.memory.slots.size
  values : ∀ a v, m.store.memory.value? a = some v → m'.store.memory.value? a = some v
  frame : ∀ i < m.store.memory.slots.size, ¬ shared i →
    m'.store.memory.get? (.at i) = m.store.memory.get? (.at i)
  pending : ∀ i < m.store.memory.slots.size, m'.pending.get? i = m.pending.get? i

/-- How two machines go on: new pairs are pairs of new slots. -/
structure Onward (D : Nat → Nat → Prop) (m n : Machine) (D' : Nat → Nat → Prop) (m' n' : Machine) :
    Prop where
  pairs : ∀ i j, D i j → D' i j
  fresh : ∀ i j, D' i j → D i j ∨
    m.store.memory.slots.size ≤ i ∧ n.store.memory.slots.size ≤ j
  leader : Advances (fun i => ∃ j, D i j) m m'
  follower : Advances (fun j => ∃ i, D i j) n n'

/-- What is left of a machine: its memory and the cells of its activations. -/
structure Still (T : Tandem) (config : Config) (m m' : Machine) : Prop where
  rides : T.Rides config m'
  memory : m'.store.memory = m.store.memory
  pending : m'.pending = m.pending

/-- A machine that did something with private slots only. -/
structure Aside (T : Tandem) (config : Config) (shared : Nat → Prop) (m m' : Machine) : Prop where
  rides : T.Rides config m'
  size : m.store.memory.slots.size ≤ m'.store.memory.slots.size
  values : ∀ a v, m.store.memory.value? a = some v → m'.store.memory.value? a = some v
  slots : ∀ i, shared i → m'.store.memory.get? (.at i) = m.store.memory.get? (.at i)
  pending : m'.pending = m.pending

section Order

variable {D'' : Nat → Nat → Prop} {m m' m'' n n' n'' : Machine} {shared : Nat → Prop}

lemma Advances.of_memory (h : m'.store.memory = m.store.memory) (hpending : m'.pending = m.pending) :
    Advances shared m m' :=
  ⟨h ▸ le_rfl, fun _ _ hv => h ▸ hv, fun _ _ _ => by rw [h], fun _ _ => by rw [hpending]⟩

lemma Advances.trans {shared' : Nat → Prop} (h : Advances shared m m')
    (h' : Advances shared' m' m'')
    (hshared : ∀ i < m.store.memory.slots.size, shared' i → shared i) : Advances shared m m'' := by
  refine ⟨h.size.trans h'.size, fun a v hv => h'.values a v (h.values a v hv), fun i hi hno => ?_,
    fun i hi => ?_⟩
  · have hlt := lt_of_lt_of_le hi h.size
    rw [h'.frame i hlt fun hs => hno (hshared i hi hs), h.frame i hi hno]
  · rw [h'.pending i (lt_of_lt_of_le hi h.size), h.pending i hi]

lemma Onward.refl (D : Nat → Nat → Prop) (m n : Machine) : Onward D m n D m n :=
  ⟨fun _ _ => id, fun _ _ => .inl, .of_memory rfl rfl, .of_memory rfl rfl⟩

lemma Onward.trans (h : Onward D m n D' m' n') (h' : Onward D' m' n' D'' m'' n'') :
    Onward D m n D'' m'' n'' := by
  refine ⟨fun i j hij => h'.pairs i j (h.pairs i j hij), fun i j hij => ?_,
    h.leader.trans h'.leader ?_, h.follower.trans h'.follower ?_⟩
  · rcases h'.fresh i j hij with hij | ⟨hi, hj⟩
    · exact h.fresh i j hij
    · exact .inr ⟨h.leader.size.trans hi, h.follower.size.trans hj⟩
  · rintro i hi ⟨j, hij⟩
    rcases h.fresh i j hij with hij | ⟨hle, -⟩
    · exact ⟨j, hij⟩
    · omega
  · rintro j hj ⟨i, hij⟩
    rcases h.fresh i j hij with hij | ⟨-, hle⟩
    · exact ⟨i, hij⟩
    · omega

lemma Onward.paired (h : Onward D m n D' m' n') {a b : Address} (hab : Paired D a b) :
    Paired D' a b := hab.mono h.pairs

lemma Onward.forall₂ (h : Onward D m n D' m' n') {as bs : List Address}
    (hab : List.Forall₂ (Paired D) as bs) : List.Forall₂ (Paired D') as bs :=
  hab.imp fun _ _ => h.paired

end Order

namespace Rides

variable {config : Config} {m : Machine}

/-- Verdicts may be added if they are true; steps and notices play no part. -/
lemma still (h : T.Rides config m) {m' : Machine} (hsetting : m'.setting = m.setting)
    (hmemory : m'.store.memory = m.store.memory) (hrecalls : T.types.Recalls m'.store.types)
    (hcompiled : ∀ i c, m'.compiled.get? i = some c → c.Same (T.compilation i))
    (hpending : m'.pending = m.pending) : T.Still config m m' := by
  refine ⟨⟨?opcodes, ?modules, ?config, hrecalls, hcompiled, ?memory, ?pending⟩, hmemory, hpending⟩
  case opcodes =>
    rw [hsetting, h.opcodes]
  case modules =>
    rw [hsetting, h.modules]
  case config =>
    rw [hsetting, h.config]
  case memory =>
    rw [hmemory]
    exact h.memory
  case pending =>
    rw [hmemory, hpending]
    exact h.pending

lemma withTypes (h : T.Rides config m) {types : Registry} (htypes : T.types.Recalls types) :
    T.Still config m { m with store := { m.store with types } } :=
  h.still rfl rfl htypes h.compiled rfl

lemma tick (h : T.Rides config m) : T.Still config m m.tick :=
  h.still rfl rfl h.recalls h.compiled rfl

lemma tell (h : T.Rides config m) (f : Memory → Notice) :
    T.Still config m (RunM.tell f m).2 := by
  rw [RunM.tell]
  split
  · exact h.still rfl rfl h.recalls h.compiled rfl
  · exact h.still rfl rfl h.recalls h.compiled rfl

lemma tellOpcode (h : T.Rides config m) (f : Memory → Notice) :
    T.Still config m (RunM.tellOpcode f m).2 := by
  rw [RunM.tellOpcode]
  split
  · exact h.still rfl rfl h.recalls h.compiled rfl
  · exact h.still rfl rfl h.recalls h.compiled rfl

lemma withMemory (h : T.Rides config m) {memory : Memory} (hover : T.constants.Over memory)
    (hsize : m.store.memory.slots.size ≤ memory.slots.size) :
    T.Rides config { m with store := { m.store with memory } } :=
  { h with memory := hover, pending := fun i q hq => lt_of_lt_of_le (h.pending i q hq) hsize }

end Rides

lemma Still.aside {config : Config} {shared : Nat → Prop} {m m' : Machine} (h : T.Still config m m') :
    T.Aside config shared m m' :=
  ⟨h.rides, h.memory ▸ le_rfl, fun _ _ hv => h.memory ▸ hv, fun _ _ => by rw [h.memory], h.pending⟩

lemma Still.trans {config : Config} {m m' m'' : Machine} (h : T.Still config m m')
    (h' : T.Still config m' m'') : T.Still config m m'' :=
  ⟨h'.rides, h'.memory.trans h.memory, h'.pending.trans h.pending⟩

namespace Abreast

variable {m m' n n' : Machine}

lemma aside (h : T.Abreast D m n) (hm : T.Aside T.leading (fun i => ∃ j, D i j) m m')
    (hn : T.Aside T.following (fun j => ∃ i, D i j) n n') : T.Abreast D m' n' := by
  refine ⟨hm.rides, hn.rides, h.base, h.unique, fun i j hij => ?_⟩
  rw [hm.slots i ⟨j, hij⟩, hn.slots j ⟨i, hij⟩, hm.pending, hn.pending]
  exact h.slots i j hij

lemma still (h : T.Abreast D m n) (hm : T.Still T.leading m m') (hn : T.Still T.following n n') :
    T.Abreast D m' n' ∧ Onward D m n D m' n' :=
  ⟨h.aside hm.aside hn.aside, fun _ _ => id, fun _ _ => .inl, .of_memory hm.memory hm.pending,
    .of_memory hn.memory hn.pending⟩

lemma tick (h : T.Abreast D m n) :
    T.Abreast D m.tick n.tick ∧ Onward D m n D m.tick n.tick :=
  h.still h.leader.tick h.follower.tick

lemma tell (h : T.Abreast D m n) (f g : Memory → Notice) :
    T.Abreast D (RunM.tell f m).2 (RunM.tell g n).2 ∧
      Onward D m n D (RunM.tell f m).2 (RunM.tell g n).2 :=
  h.still (h.leader.tell f) (h.follower.tell g)

lemma tellOpcode (h : T.Abreast D m n) (f g : Memory → Notice) :
    T.Abreast D (RunM.tellOpcode f m).2 (RunM.tellOpcode g n).2 ∧
      Onward D m n D (RunM.tellOpcode f m).2 (RunM.tellOpcode g n).2 :=
  h.still (h.leader.tellOpcode f) (h.follower.tellOpcode g)

/-! What is read of paired slots. -/

lemma lt_size (h : T.Abreast D m n) {i j : Nat} (hij : D i j) :
    i < m.store.memory.slots.size ∧ j < n.store.memory.slots.size := by
  obtain ⟨s, s', hs, hs', -⟩ := h.slots i j hij
  exact ⟨(Array.getElem?_eq_some_iff.mp hs).1, (Array.getElem?_eq_some_iff.mp hs').1⟩

lemma value? (h : T.Abreast D m n) {a b : Address} (hab : Paired D a b) :
    Option.Rel (T.Alike D) (m.store.memory.value? a) (n.store.memory.value? b) := by
  obtain ⟨hij⟩ := hab
  obtain ⟨s, s', hs, hs', hsame⟩ := h.slots _ _ hij
  rw [Memory.value?, Memory.value?, hs, hs']
  exact hsame.value

lemma exists_value (h : T.Abreast D m n) {a b : Address} (hab : Paired D a b) {v : Value}
    (hv : m.store.memory.value? a = some v) :
    ∃ w, n.store.memory.value? b = some w ∧ T.Alike D v w :=
  exists_of_rel (h.value? hab) hv

lemma isEvaluated (h : T.Abreast D m n) {a b : Address} (hab : Paired D a b) :
    n.store.memory.isEvaluated b = m.store.memory.isEvaluated a :=
  isSome_eq_of_rel (h.value? hab)

lemma typeOf (h : T.Abreast D m n) {a b : Address} (hab : Paired D a b) :
    n.store.memory.typeOf b = m.store.memory.typeOf a := by
  obtain ⟨hij⟩ := hab
  obtain ⟨s, s', hs, hs', hsame⟩ := h.slots _ _ hij
  rw [Memory.typeOf, Memory.typeOf, hs, hs']
  exact hsame.type

lemma agrees (h : T.Abreast D m n) {a b : Address} (hab : Paired D a b) :
    T.types.Agrees (m.store.memory.typeOf a) := by
  obtain ⟨hij⟩ := hab
  obtain ⟨s, s', hs, hs', hsame⟩ := h.slots _ _ hij
  rw [Memory.typeOf, hs]
  exact hsame.agrees

/-! ### Values for slots -/

lemma over_memoize (hT : T.Sound) {config : Config} (h : T.Rides config m) (i : Nat) (v : Value) :
    T.constants.Over (m.store.memory.memoize (.at i) v) := by
  refine h.memory.memoize ?_ v
  by_cases hi : i < T.constants.slots.size
  · right
    rw [h.memory.value? hi]
    exact hT.valued i hi
  · left
    omega

lemma advances_memoize {shared : Nat → Prop} {i : Nat} (hi : shared i) (v : Value) :
    Advances shared m
      { m with store := { m.store with memory := m.store.memory.memoize (.at i) v } } where
  size := (Memory.size_memoize _ _ _).ge
  values := fun _ _ hu => Memory.value?_memoize_of_some hu v
  frame := by
    intro k _ hno
    have hne : i ≠ k := fun heq => hno (heq ▸ hi)
    show (m.store.memory.memoize (.at i) v).get? (.at k) = _
    rw [Memory.get?_memoize, if_neg hne]
  pending := fun _ _ => rfl

lemma memoize (hT : T.Sound) (h : T.Abreast D m n) {a b : Address} (hab : Paired D a b)
    {v w : Value} (hvw : T.Alike D v w) :
    T.Abreast D { m with store := { m.store with memory := m.store.memory.memoize a v } }
        { n with store := { n.store with memory := n.store.memory.memoize b w } } ∧
      Onward D m n D { m with store := { m.store with memory := m.store.memory.memoize a v } }
        { n with store := { n.store with memory := n.store.memory.memoize b w } } := by
  obtain ⟨hij⟩ := hab
  rename_i i j
  refine ⟨⟨?_, ?_, h.base, h.unique, fun k l hkl => ?_⟩, ⟨fun _ _ => id, fun _ _ => .inl,
    advances_memoize ⟨j, hij⟩ v, advances_memoize ⟨i, hij⟩ w⟩⟩
  · exact h.leader.withMemory (over_memoize hT h.leader i v) (Memory.size_memoize _ _ _).ge
  · exact h.follower.withMemory (over_memoize hT h.follower j w) (Memory.size_memoize _ _ _).ge
  · obtain ⟨s, s', hs, hs', hsame⟩ := h.slots k l hkl
    -- Slots are paired with one another only, so the two are written to together.
    by_cases hik : i = k
    · subst hik
      obtain rfl : j = l := h.unique.2 hij hkl
      refine ⟨s.fill v, s'.fill w, ?_, ?_, { hsame with value := ?_, ready := ?_ }⟩
      · simp only [Memory.get?_memoize, if_true, hs, Option.map_some]
      · simp only [Memory.get?_memoize, if_true, hs', Option.map_some]
      · have hvalue := hsame.value
        simp only [Slot.fill]
        cases hsv : s.value with
        | none =>
          rw [hsv] at hvalue
          cases hsv' : s'.value with
          | none => exact .some hvw
          | some w' =>
            rw [hsv'] at hvalue
            cases hvalue
        | some v' =>
          rw [hsv] at hvalue
          obtain ⟨w', hw', hvw'⟩ := exists_of_rel hvalue rfl
          rw [hw']
          exact .some hvw'
      · intro _ hnone
        simp only [Slot.fill] at hnone
        cases hsv : s.value <;> rw [hsv] at hnone <;> cases hnone
    · have hjl : j ≠ l := fun heq => hik (h.unique.1 hij (heq ▸ hkl))
      refine ⟨s, s', ?_, ?_, hsame⟩
      · simp only [Memory.get?_memoize, if_neg hik, hs]
      · simp only [Memory.get?_memoize, if_neg hjl, hs']

/-! ### New slots -/

lemma advances_over {shared : Nat → Prop} (hm : m.store.memory.Over m'.store.memory)
    (hpending : ∀ i < m.store.memory.slots.size, m'.pending.get? i = m.pending.get? i) :
    Advances shared m m' :=
  ⟨hm.size_le, fun _ _ => hm.keeps, fun _ hi _ => hm.get? hi, hpending⟩

lemma pending_size {config : Config} (h : T.Rides config m) {i : Nat}
    (hi : m.store.memory.slots.size ≤ i) : m.pending.get? i = none := by
  cases hq : m.pending.get? i with
  | none => rfl
  | some q =>
    have := h.pending i q hq
    omega

lemma allocate (h : T.Abreast D m n) {cell cell' : Cell} (htype : cell'.type = cell.type)
    (hagrees : T.types.Agrees cell.type) (hkind : ∀ f x, cell.kind ≠ .call f x) :
    ∃ D', T.Abreast D'
        { m with store := { m.store with memory := (m.store.memory.allocate cell none).2 } }
        { n with store := { n.store with memory := (n.store.memory.allocate cell' none).2 } } ∧
      Onward D m n D'
        { m with store := { m.store with memory := (m.store.memory.allocate cell none).2 } }
        { n with store := { n.store with memory := (n.store.memory.allocate cell' none).2 } } ∧
      D' m.store.memory.slots.size n.store.memory.slots.size := by
  have hover := m.store.memory.over_allocate cell none
  have hover' := n.store.memory.over_allocate cell' none
  have hpairs : ∀ i j, D i j →
      D i j ∨ i = m.store.memory.slots.size ∧ j = n.store.memory.slots.size := fun _ _ => .inl
  -- The new slots are paired with one another, and are beyond all that were paired before.
  refine ⟨fun i j => D i j ∨ i = m.store.memory.slots.size ∧ j = n.store.memory.slots.size,
    ⟨?leader, ?follower, fun i hi => .inl (h.base i hi), ⟨?left, ?right⟩, ?slots⟩,
    ⟨hpairs, ?fresh, ?leading, ?following⟩, .inr ⟨rfl, rfl⟩⟩
  case leader =>
    exact h.leader.withMemory (h.leader.memory.trans hover) hover.size_le
  case follower =>
    exact h.follower.withMemory (h.follower.memory.trans hover') hover'.size_le
  case left =>
    rintro i i' j (hij | ⟨rfl, rfl⟩) (hij' | ⟨rfl, heq⟩)
    · exact h.unique.1 hij hij'
    · have := (h.lt_size hij).2
      omega
    · have := (h.lt_size hij').2
      omega
    · rfl
  case right =>
    rintro i j j' (hij | ⟨rfl, rfl⟩) (hij' | ⟨heq, rfl⟩)
    · exact h.unique.2 hij hij'
    · have := (h.lt_size hij).1
      omega
    · have := (h.lt_size hij').1
      omega
    · rfl
  case slots =>
    rintro i j (hij | ⟨rfl, rfl⟩)
    · obtain ⟨s, s', hs, hs', hsame⟩ := h.slots i j hij
      exact ⟨s, s', (hover.get? (h.lt_size hij).1).trans hs,
        (hover'.get? (h.lt_size hij).2).trans hs', hsame.mono hpairs⟩
    · refine ⟨⟨cell, none⟩, ⟨cell', none⟩, Memory.get?_allocate_self _ _ _,
        Memory.get?_allocate_self _ _ _, htype, hagrees, .none, ?_, fun _ _ => hkind⟩
      show Option.Rel _ (m.pending.get? _) (n.pending.get? _)
      rw [pending_size h.leader le_rfl, pending_size h.follower le_rfl]
      exact .none
  case fresh =>
    rintro i j (hij | ⟨rfl, rfl⟩)
    · exact .inl hij
    · exact .inr ⟨le_rfl, le_rfl⟩
  case leading =>
    exact advances_over hover fun _ _ => rfl
  case following =>
    exact advances_over hover' fun _ _ => rfl

end Abreast

end Tandem

end CellMachine
