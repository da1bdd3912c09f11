import CellMachine.Proofs.Call.Agreement
import CellMachine.Proofs.Meaning.Evaluator
import CellMachine.Proofs.Machine.Recursion
import CellMachine.Proofs.Value

/-!
How the slots of a running machine stand for terms.

Every slot stands for one term, from its allocation on. A slot that has a value has the value of its
term; a slot that is a cell of an activation stands for that cell, applied to what the argument's
slot stands for. Values are compared up to their members, which are slots on one side and terms on the
other.
-/

namespace CellMachine

/-- A value of memory is a value of a term, with members that stand for members. -/
inductive Represents (D : Address → Term → Prop) : Value → Head → Prop
  | native (n : Native) : Represents D (.native n) (.native n)
  | key (k : String) : Represents D (.key k) (.key k)
  | callable (c : Callable) : Represents D (.callable c) (.callable c)
  | list {items : Sequence Address} {ts : List Term} (hitems : items.WellFormed)
    (h : List.Forall₂ D items.toList ts) : Represents D (.iterable items) (.list ts)
  | record {r : Record Address} {ts : List (String × Term)} (hr : r.Exposed)
    (h : List.Forall₂ (fun e f => e.1 = f.1 ∧ D e.2 f.2) r.toList ts) :
    Represents D (.structured r) (.record ts)

lemma Represents.mono {D D' : Address → Term → Prop} (hD : ∀ a t, D a t → D' a t) {v : Value}
    {h : Head} (hv : Represents D v h) : Represents D' v h := by
  cases hv with
  | native n => exact .native n
  | key k => exact .key k
  | callable c => exact .callable c
  | list hitems h => exact .list hitems (h.imp hD)
  | record hr h => exact .record hr (h.imp fun e f hef => ⟨hef.1, hD _ _ hef.2⟩)

namespace Program

variable {p : Program}

/-- The types of a function's argument and result, by the function's type. -/
def signature? (p : Program) : Ty → Option (Ty × Ty)
  | .callable _ _ argument result =>
    match p.types.resolve argument, p.types.resolve result with
    | .ok argument, .ok result => some (argument, result)
    | _, _ => none
  | _ => none

lemma accepts_iff {f : Callable} {type argument : Ty} :
    p.accepts f type argument = true ↔ ∃ expected result, p.signature? type = some (expected, result)
      ∧ p.compiles f expected result = true ∧
        (argument.isRuntimeDetermined = true ∨ p.suits argument expected = true) := by
  cases type with
  | callable n s a r =>
    simp only [accepts, signature?]
    cases p.types.resolve a with
    | error e => simp
    | ok t =>
      cases p.types.resolve r with
      | error e => simp
      | ok u => simp
  | _ => simp [accepts, signature?]

/-- A compilation of a function of a type that is what it should be: it succeeded if the function
compiles, and then its nodes fit the function. -/
def Compiled (p : Program) (f : Callable) (type : Ty) : Compilation → Prop
  | .ok call => call.callable = f ∧ Fits p.opcodes p.constants f call.nodes ∧
      ∃ result, p.signature? type = some (call.argumentType, result) ∧
        p.compiles f call.argumentType result = true
  | .error _ => ∀ expected result, p.signature? type = some (expected, result) →
      p.compiles f expected result = false

/-- A compilation of a slot with a value, if it has one, and a type. -/
def CompiledSlot (p : Program) (type : Ty) (c : Compilation) : Option Value → Prop
  | some (.callable f) => p.Compiled f type c
  | _ => ∃ found, c = .error found

/-- A compilation of the constant at an index that is what it should be. -/
def Cached (p : Program) (i : Nat) (c : Compilation) : Prop :=
  p.CompiledSlot (p.constants.typeOf (.at i)) c (p.constants.value? (.at i))

/-- What evaluation relies on: standard opcodes, types that agree, and memory in which every slot has
its value. -/
structure Sound (p : Program) : Prop where
  around : Surrounds p.types p.opcodes p.modules p.constants
  standard : p.opcodes = .ofList Standard.opcodes
  modules : ModulesAgree p.types p.modules
  memory : p.constants.Over p.memory
  constants : p.constants.constants ≤ p.constants.slots.size
  evaluated : ∀ i < p.memory.slots.size, ∃ v, p.memory.value? (.at i) = some v ∧
    Represents (fun a t => ∃ j < p.memory.slots.size, a = .at j ∧ t = .slot (.at j)) v (.ofValue v)
  types : ∀ i < p.memory.slots.size, p.types.Agrees (p.memory.typeOf (.at i))
  callables : ∀ a c, p.memory.value? a = some (.callable c) → c.Conforms p.types

lemma Sound.tidy (hp : p.Sound) : p.types.Tidy := hp.around.tidy

lemma Sound.conforms (hp : p.Sound) {t : Term} {c : Callable} (h : p.Yields t (.callable c)) :
    c.Conforms p.types := by
  obtain ⟨n, hn⟩ := h
  obtain ⟨a, ha⟩ := exists_slot_of_callable hn
  exact hp.callables a c ha

end Program

/-- Nodes that get a slot of their own. -/
def NodeOp.isNew : NodeOp → Bool
  | argument => false
  | constant _ => false
  | _ => true

/-- A slot that has its value, or is a cell of an activation. -/
def Ready (m : Machine) (i : Nat) : Prop :=
  (m.store.memory.value? (.at i)).isSome = true ∨ (m.pending.get? i).isSome = true

/-- A slot that may be asked for its value stands for a term. -/
def Stands (terms : List Term) (m : Machine) (a : Address) (t : Term) : Prop :=
  ∃ i, a = .at i ∧ terms[i]? = some t ∧ Ready m i

/-- A slot is the cell of an activation: the activation's function is applied to a term, and the slots
of its nodes stand for their cells. -/
structure Activated (p : Program) (terms : List Term) (m : Machine) (i : Nat) (q : Pending)
    (x : Term) : Prop where
  term : terms[i]? = some (.cell q.activation.call.callable x q.node)
  own : q.activation.slots.get? q.node = some (.at i)
  node : ∃ node, q.activation.call.nodes.get? q.node = some node ∧ node.op.isNew = true
  conforms : q.activation.call.callable.Conforms p.types
  fits : Fits p.opcodes p.constants q.activation.call.callable q.activation.call.nodes
  slots : ∀ j node, q.activation.call.nodes.get? j = some node → ∃ a,
    q.activation.slots.get? j = some a ∧
      Stands terms m a (p.reference q.activation.call.callable x j)

/-- What holds in every state of a run: each slot stands for a term. -/
structure Models (p : Program) (terms : List Term) (m : Machine) : Prop where
  opcodes : m.setting.opcodes = p.opcodes
  modules : m.setting.modules = p.modules
  config : m.setting.config = {}
  recalls : p.types.Recalls m.store.types
  compiled : ∀ i c, m.compiled.get? i = some c → p.Cached i c
  memory : p.memory.Over m.store.memory
  length : terms.length = m.store.memory.slots.size
  base : ∀ i < p.memory.slots.size, terms[i]? = some (.slot (.at i))
  typed : ∀ i t, terms[i]? = some t → m.store.memory.typeOf (.at i) = p.typeOf t
  agrees : ∀ t ∈ terms, p.types.Agrees (p.typeOf t)
  known : ∀ i t v, terms[i]? = some t → m.store.memory.value? (.at i) = some v →
    ∃ h, Represents (Stands terms m) v h ∧ p.Yields t h
  pending : ∀ i q, m.pending.get? i = some q → ∃ x, Activated p terms m i q x

/-- A later state of a run, with possibly more slots. -/
structure Grows (terms : List Term) (m : Machine) (terms' : List Term) (m' : Machine) : Prop where
  terms : terms <+: terms'
  values : ∀ i v, m.store.memory.value? (.at i) = some v → m'.store.memory.value? (.at i) = some v
  pending : ∀ i q, m.pending.get? i = some q → m'.pending.get? i = some q

namespace Grows

variable {terms terms' terms'' : List Term} {m m' m'' : Machine}

lemma refl (terms : List Term) (m : Machine) : Grows terms m terms m :=
  ⟨List.prefix_rfl, fun _ _ => id, fun _ _ => id⟩

lemma trans (h : Grows terms m terms' m') (h' : Grows terms' m' terms'' m'') :
    Grows terms m terms'' m'' :=
  ⟨h.terms.trans h'.terms, fun i v hv => h'.values i v (h.values i v hv),
    fun i q hq => h'.pending i q (h.pending i q hq)⟩

lemma getElem? (h : Grows terms m terms' m') {i : Nat} {t : Term} (ht : terms[i]? = some t) :
    terms'[i]? = some t := by
  obtain ⟨rest, rfl⟩ := h.terms
  rw [List.getElem?_append_left (List.getElem?_eq_some_iff.mp ht).1, ht]

lemma isSome (h : Grows terms m terms' m') {i : Nat}
    (hi : (m.store.memory.value? (.at i)).isSome = true) :
    (m'.store.memory.value? (.at i)).isSome = true := by
  obtain ⟨v, hv⟩ := Option.isSome_iff_exists.mp hi
  exact Option.isSome_iff_exists.mpr ⟨v, h.values i v hv⟩

lemma ready (h : Grows terms m terms' m') {i : Nat} (hi : Ready m i) : Ready m' i := by
  rcases hi with hi | hi
  · exact .inl (h.isSome hi)
  · obtain ⟨q, hq⟩ := Option.isSome_iff_exists.mp hi
    exact .inr (Option.isSome_iff_exists.mpr ⟨q, h.pending i q hq⟩)

lemma stands (h : Grows terms m terms' m') {a : Address} {t : Term} (ha : Stands terms m a t) :
    Stands terms' m' a t := by
  obtain ⟨i, rfl, ht, hi⟩ := ha
  exact ⟨i, rfl, h.getElem? ht, h.ready hi⟩

lemma represents (h : Grows terms m terms' m') {v : Value} {head : Head}
    (hv : Represents (Stands terms m) v head) : Represents (Stands terms' m') v head :=
  hv.mono fun _ _ => h.stands

lemma activated {p : Program} (h : Grows terms m terms' m') {i : Nat} {q : Pending} {x : Term}
    (hq : Activated p terms m i q x) : Activated p terms' m' i q x := by
  refine { hq with term := h.getElem? hq.term, slots := fun j node hj => ?_ }
  obtain ⟨a, ha, hstands⟩ := hq.slots j node hj
  exact ⟨a, ha, h.stands hstands⟩

end Grows

namespace Models

variable {p : Program} {terms : List Term} {m : Machine}

/-- Verdicts may be added if they are true, and compilations if they are what they should be; steps and
notices play no part. -/
lemma congr (h : Models p terms m) (m' : Machine) (hsetting : m'.setting = m.setting)
    (hmemory : m'.store.memory = m.store.memory) (hrecalls : p.types.Recalls m'.store.types)
    (hcompiled : ∀ i c, m'.compiled.get? i = some c → p.Cached i c)
    (hpending : m'.pending = m.pending) : Models p terms m' ∧ Grows terms m terms m' := by
  have grows : Grows terms m terms m' :=
    ⟨List.prefix_rfl, fun _ _ hv => by rw [hmemory, hv], fun _ _ hq => by rw [hpending, hq]⟩
  refine ⟨⟨?opcodes, ?modules, ?config, hrecalls, hcompiled, ?memory, ?length, h.base, ?typed, h.agrees,
    ?known, ?pending⟩, grows⟩
  case opcodes =>
    rw [hsetting, h.opcodes]
  case modules =>
    rw [hsetting, h.modules]
  case config =>
    rw [hsetting, h.config]
  case memory =>
    rw [hmemory]
    exact h.memory
  case length =>
    rw [hmemory, h.length]
  case typed =>
    rw [hmemory]
    exact h.typed
  case known =>
    intro i t v ht hv
    rw [hmemory] at hv
    obtain ⟨head, hrep, hy⟩ := h.known i t v ht hv
    exact ⟨head, grows.represents hrep, hy⟩
  case pending =>
    intro i q hq
    rw [hpending] at hq
    exact (h.pending i q hq).imp fun _ => grows.activated

lemma tick (h : Models p terms m) : Models p terms m.tick ∧ Grows terms m terms m.tick :=
  h.congr _ rfl rfl h.recalls h.compiled rfl

lemma lt_size (h : Models p terms m) {i : Nat} {t : Term} (ht : terms[i]? = some t) :
    i < m.store.memory.slots.size :=
  h.length ▸ (List.getElem?_eq_some_iff.mp ht).1

lemma exists_value (h : Models p terms m) {a : Address} {t : Term} (ha : Stands terms m a t)
    {v : Value} (hv : m.store.memory.value? a = some v) :
    ∃ head, Represents (Stands terms m) v head ∧ p.Yields t head := by
  obtain ⟨i, rfl, ht, -⟩ := ha
  exact h.known i t v ht hv

lemma typeOf (h : Models p terms m) {a : Address} {t : Term} (ha : Stands terms m a t) :
    m.store.memory.typeOf a = p.typeOf t := by
  obtain ⟨i, rfl, ht, -⟩ := ha
  exact h.typed i t ht

lemma agrees_of_stands (h : Models p terms m) {a : Address} {t : Term} (ha : Stands terms m a t) :
    p.types.Agrees (p.typeOf t) := by
  obtain ⟨i, rfl, ht, -⟩ := ha
  exact h.agrees t (List.mem_of_getElem? ht)

lemma stands_slot (hp : p.Sound) (h : Models p terms m) {i : Nat} (hi : i < p.memory.slots.size) :
    Stands terms m (.at i) (.slot (.at i)) := by
  obtain ⟨v, hv, -⟩ := hp.evaluated i hi
  refine ⟨i, rfl, h.base i hi, .inl ?_⟩
  rw [h.memory.value? hi, hv]
  rfl

lemma stands_constant (hp : p.Sound) (h : Models p terms m) {a : Address}
    {moduleName name : String} (ha : p.constant? moduleName name = some a) :
    Stands terms m a (.slot a) := by
  obtain ⟨i, -, hi⟩ := Option.bind_eq_some_iff.mp ha
  rw [Memory.address?] at hi
  split at hi
  · next hlt =>
    cases hi
    exact h.stands_slot hp (lt_of_lt_of_le hlt hp.memory.size_le)
  · cases hi

lemma memoize (hp : p.Sound) (h : Models p terms m) {i : Nat} {t : Term} (ht : terms[i]? = some t)
    {v : Value} {head : Head} (hv : Represents (Stands terms m) v head) (hyields : p.Yields t head) :
    Models p terms { m with store := { m.store with memory := m.store.memory.memoize (.at i) v } } ∧
      Grows terms m terms
        { m with store := { m.store with memory := m.store.memory.memoize (.at i) v } } := by
  have hlt := h.lt_size ht
  have grows : Grows terms m terms
      { m with store := { m.store with memory := m.store.memory.memoize (.at i) v } } :=
    ⟨List.prefix_rfl, fun _ _ hu => Memory.value?_memoize_of_some hu v, fun _ _ => id⟩
  refine ⟨{ h with
    memory := ?memory, length := ?length, typed := ?typed, known := ?known, pending := ?pending }, grows⟩
  case memory =>
    refine h.memory.memoize ?_ v
    by_cases hi : i < p.memory.slots.size
    · obtain ⟨u, hu, -⟩ := hp.evaluated i hi
      exact .inr (Option.isSome_iff_exists.mpr ⟨u, (h.memory.value? hi).trans hu⟩)
    · exact .inl (by omega)
  case length =>
    rw [Memory.size_memoize]
    exact h.length
  case typed =>
    intro j u hu
    rw [Memory.typeOf_memoize]
    exact h.typed j u hu
  case known =>
    intro j u w hu hw
    rcases Memory.value?_of_memoize hlt hw with hw | ⟨heq, rfl⟩
    · obtain ⟨head', hrep, hy⟩ := h.known j u w hu hw
      exact ⟨head', grows.represents hrep, hy⟩
    · cases heq
      cases ht.symm.trans hu
      exact ⟨head, grows.represents hv, hyields⟩
  case pending =>
    intro j q hq
    exact (h.pending j q hq).imp fun _ => grows.activated

end Models

end CellMachine
