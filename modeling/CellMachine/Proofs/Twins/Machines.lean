import CellMachine.Proofs.Tandem.Calls

/-!
Two machines of one script that have the same memory and remember different things. What they remember
is verdicts and compilations; as long as both remember nothing but the truth, whatever one of them
computes the other computes too, and where one fails the other fails.
-/

namespace CellMachine

/-- Two failures, or twice the same, which has a property. -/
inductive Accord {ε α : Type} (P : α → Prop) : Except ε α → Except ε α → Prop
  | ok {a : α} (h : P a) : Accord P (.ok a) (.ok a)
  | error (p q : ε) : Accord P (.error p) (.error q)

lemma Accord.mono {ε α : Type} {P Q : α → Prop} (hPQ : ∀ a, P a → Q a) {x y : Except ε α}
    (h : Accord P x y) : Accord Q x y := by
  cases h with
  | ok h => exact .ok (hPQ _ h)
  | error p q => exact .error p q

lemma Accord.trans {ε α : Type} {P Q : α → Prop} {x y z : Except ε α} (h : Accord P x y)
    (h' : Accord Q y z) : Accord P x z := by
  cases h with
  | ok h =>
    cases h'
    exact .ok h
  | error p q =>
    cases h'
    exact .error p _

lemma Accord.symm {ε α : Type} {P : α → Prop} {x y : Except ε α} (h : Accord P x y) :
    Accord P y x := by
  cases h with
  | ok h => exact .ok h
  | error p q => exact .error q p

lemma Accord.of_iff {ε : Type} {x y : Except ε Unit} (h : x = .ok () ↔ y = .ok ()) :
    Accord (fun _ => True) x y := by
  cases x with
  | ok u =>
    rw [h.mp rfl]
    exact .ok trivial
  | error p =>
    cases y with
    | ok u => cases h.mpr rfl
    | error q => exact .error p q

/-- A call that a slot is compiled to tells the slot's index. -/
lemma index_of_compileSlot {opcodes : Opcodes} {modules : KeyMap String Module} {memory : Memory}
    {a : Address} {types : Registry} {call : CompiledCall}
    (h : (compileSlot opcodes modules memory a types).1 = .ok call) : call.index = a.index? := by
  by_cases hvalue : ∃ f, memory.value? a = some (.callable f)
  case neg =>
    rw [compileSlot_refused (.inl fun f hf => hvalue ⟨f, hf⟩)] at h
    cases h
  obtain ⟨f, hvalue⟩ := hvalue
  cases htype : memory.typeOf a with
  | callable name source argument result =>
    rw [compileSlot_callable hvalue htype] at h
    cases hargument : types.resolve argument with
    | error p =>
      rw [hargument] at h
      cases hresult : types.resolve result <;> rw [hresult] at h <;> cases h
    | ok expected =>
      rw [hargument] at h
      cases hresult : types.resolve result with
      | error p =>
        rw [hresult] at h
        cases h
      | ok returned =>
        rw [hresult] at h
        rw [(CompileEnv.compile_ok_iff.mp h).2]
  | _ =>
    rw [compileSlot_refused (.inr fun _ _ _ _ heq => by rw [htype] at heq; cases heq)] at h
    cases h

namespace Memory

lemma get?_of_allocate {m : Memory} {cell : Cell} {v : Option Value} {a : Address} {s : Slot}
    (h : (m.allocate cell v).2.get? a = some s) : m.get? a = some s ∨ s = ⟨cell, v⟩ := by
  cases a with
  | loose n => exact .inl h
  | «at» i =>
    rcases Nat.lt_trichotomy i m.slots.size with hi | rfl | hi
    · exact .inl (((m.over_allocate cell v).get? hi).symm.trans h)
    · rw [get?_allocate_self] at h
      exact .inr (Option.some.inj h).symm
    · have hsize := m.size_allocate cell v
      have hnone : (m.allocate cell v).2.get? (.at i) = none := Array.getElem?_eq_none (by omega)
      rw [hnone] at h
      cases h

end Memory

namespace Machine

/-- States of a machine that differ in nothing but verdicts, compilations and notices. -/
structure Unmoved (m m' : Machine) : Prop where
  setting : m'.setting = m.setting
  memory : m'.store.memory = m.store.memory
  cancelled : m'.store.cancelled = m.store.cancelled
  pending : m'.pending = m.pending
  steps : m'.steps = m.steps

end Machine

namespace Tandem

open Machine

variable {T : Tandem} {config : Config} {m m' n n' : Machine}

/-- A slot of a type that agrees, which holds no callables but those that are admitted. -/
structure RegularSlot (T : Tandem) (s : Slot) : Prop where
  agrees : T.types.Agrees s.cell.type
  admits : ∀ c, s.value = some (.callable c) → T.admits c

/-- What is remembered of a script: true verdicts, and of constants what they compile to when nothing is
remembered. -/
structure Remembered (T : Tandem) (types : Registry) (compiled : KeyMap Nat Compilation) : Prop where
  recalls : T.types.Recalls types
  compiled : ∀ i c, compiled.get? i = some c → Accord (fun _ => True) c (T.compilation i)

/-- A machine of a script, with a configuration. -/
structure Knows (T : Tandem) (config : Config) (m : Machine) : Prop where
  opcodes : m.setting.opcodes = .ofList Standard.opcodes
  modules : m.setting.modules = T.modules
  config : m.setting.config = config
  remembered : T.Remembered m.store.types m.compiled

/-- **Two machines with one memory.** They may remember different things; the token of the run was
cancelled on both or on neither. -/
structure Twin (T : Tandem) (config : Config) (m n : Machine) : Prop where
  left : T.Knows config m
  right : T.Knows config n
  memory : n.store.memory = m.store.memory
  pending : n.pending = m.pending
  steps : n.steps = m.steps
  token : n.setting.token = m.setting.token
  cancelled : n.store.isCancelled m.setting.token = m.store.isCancelled m.setting.token
  isOver : T.constants.Over m.store.memory
  loose : m.store.memory.loose = #[]
  slots : ∀ a s, m.store.memory.get? a = some s → T.RegularSlot s
  cells : ∀ i q, m.pending.get? i = some q → T.Usable q.activation.call

namespace Twin

lemma recalls (h : T.Twin config m n) :
    T.types.Recalls m.store.types ∧ T.types.Recalls n.store.types :=
  ⟨h.left.remembered.recalls, h.right.remembered.recalls⟩

/-- Either machine may remember something else that is true, and tell something. -/
lemma unmoved (h : T.Twin config m n) (hm : m.Unmoved m') (hn : n.Unmoved n')
    (hleft : T.Remembered m'.store.types m'.compiled)
    (hright : T.Remembered n'.store.types n'.compiled) : T.Twin config m' n' where
  left := ⟨hm.setting ▸ h.left.opcodes, hm.setting ▸ h.left.modules, hm.setting ▸ h.left.config, hleft⟩
  right := ⟨hn.setting ▸ h.right.opcodes, hn.setting ▸ h.right.modules, hn.setting ▸ h.right.config,
    hright⟩
  memory := by rw [hm.memory, hn.memory, h.memory]
  pending := by rw [hm.pending, hn.pending, h.pending]
  steps := by rw [hm.steps, hn.steps, h.steps]
  token := by rw [hm.setting, hn.setting, h.token]
  cancelled := by
    rw [hm.setting, Store.isCancelled, Store.isCancelled, hm.cancelled, hn.cancelled]
    exact h.cancelled
  isOver := hm.memory ▸ h.isOver
  loose := hm.memory ▸ h.loose
  slots := hm.memory ▸ h.slots
  cells := hm.pending ▸ h.cells

lemma withTypes (h : T.Twin config m n) {types types' : Registry} (ht : T.types.Recalls types)
    (ht' : T.types.Recalls types') :
    T.Twin config { m with store := { m.store with types } }
      { n with store := { n.store with types := types' } } :=
  h.unmoved ⟨rfl, rfl, rfl, rfl, rfl⟩ ⟨rfl, rfl, rfl, rfl, rfl⟩ ⟨ht, h.left.remembered.compiled⟩
    ⟨ht', h.right.remembered.compiled⟩

lemma withMemory (h : T.Twin config m n) {memory : Memory} (hover : T.constants.Over memory)
    (hloose : memory.loose = #[]) (hslots : ∀ a s, memory.get? a = some s → T.RegularSlot s) :
    T.Twin config { m with store := { m.store with memory } }
      { n with store := { n.store with memory } } :=
  { h with
    left := ⟨h.left.opcodes, h.left.modules, h.left.config, h.left.remembered⟩
    right := ⟨h.right.opcodes, h.right.modules, h.right.config, h.right.remembered⟩
    memory := rfl, isOver := hover, loose := hloose, slots := hslots }

lemma tick (h : T.Twin config m n) : T.Twin config m.tick n.tick :=
  { h with
    left := ⟨h.left.opcodes, h.left.modules, h.left.config, h.left.remembered⟩
    right := ⟨h.right.opcodes, h.right.modules, h.right.config, h.right.remembered⟩
    steps := congrArg (· + 1) h.steps }

lemma admits (h : T.Twin config m n) {a : Address} {c : Callable}
    (hc : m.store.memory.value? a = some (.callable c)) : T.admits c := by
  obtain ⟨s, hs, hsc⟩ := Option.bind_eq_some_iff.mp hc
  exact (h.slots a s hs).admits c hsc

lemma agrees (h : T.Twin config m n) (a : Address) :
    T.types.Agrees (m.store.memory.typeOf a) ∨
      m.store.memory.get? a = none ∧ m.store.memory.typeOf a = .runtimeDetermined := by
  rw [Memory.typeOf]
  cases hs : m.store.memory.get? a with
  | none => exact .inr ⟨rfl, rfl⟩
  | some s => exact .inl (h.slots a s hs).agrees

end Twin

/-! ### Computations -/

/-- A computation of one machine and one of the other, after which they are twins again and the results
are related. -/
def Alongside {α : Type} (T : Tandem) (config : Config) (m n : Machine) (x y : RunM α)
    (R : α → α → Prop) : Prop :=
  T.Twin config (x m).2 (y n).2 ∧ R (x m).1 (y n).1

namespace Alongside

variable {α β : Type} {x y : RunM α} {P R : α → α → Prop} {Q : β → β → Prop}

lemma pure (h : T.Twin config m n) {a b : α} (hab : R a b) :
    T.Alongside config m n (pure a) (pure b) R := ⟨h, hab⟩

lemma bind_of_eq {f g : α → RunM β} (hx : T.Alongside config m n x y R)
    (hf : ∀ a b m' n', T.Twin config m' n' → R a b → m' = (x m).2 →
      T.Alongside config m' n' (f a) (g b) Q) :
    T.Alongside config m n (x >>= f) (y >>= g) Q :=
  hf _ _ _ _ hx.1 hx.2 rfl

lemma bind {f g : α → RunM β} (hx : T.Alongside config m n x y R)
    (hf : ∀ a b m' n', T.Twin config m' n' → R a b → T.Alongside config m' n' (f a) (g b) Q) :
    T.Alongside config m n (x >>= f) (y >>= g) Q :=
  hx.bind_of_eq fun a b m' n' h hab _ => hf a b m' n' h hab

lemma memory (h : T.Twin config m n) {f g : Memory → RunM β}
    (hf : T.Alongside config m n (f m.store.memory) (g m.store.memory) Q) :
    T.Alongside config m n (RunM.memory >>= f) (RunM.memory >>= g) Q := by
  show T.Alongside config m n (f m.store.memory) (g n.store.memory) Q
  rw [h.memory]
  exact hf

lemma value? (h : T.Twin config m n) {a : Address} {f g : Option Value → RunM β}
    (hf : T.Alongside config m n (f (m.store.memory.value? a)) (g (m.store.memory.value? a)) Q) :
    T.Alongside config m n (RunM.value? a >>= f) (RunM.value? a >>= g) Q := by
  show T.Alongside config m n (f (m.store.memory.value? a)) (g (n.store.memory.value? a)) Q
  rw [h.memory]
  exact hf

lemma setting {f g : Setting → RunM β}
    (hf : T.Alongside config m n (f m.setting) (g n.setting) Q) :
    T.Alongside config m n (RunM.setting >>= f) (RunM.setting >>= g) Q := hf

lemma get {f g : Machine → RunM β} (hf : T.Alongside config m n (f m) (g n) Q) :
    T.Alongside config m n (MonadState.get >>= f) (MonadState.get >>= g) Q := hf

lemma quiet (h : T.Twin config m n)
    (hx : ∀ m, m.Unmoved (x m).2 ∧ (x m).2.store.types = m.store.types ∧ (x m).2.compiled = m.compiled)
    (hy : ∀ m, m.Unmoved (y m).2 ∧ (y m).2.store.types = m.store.types ∧
      (y m).2.compiled = m.compiled) :
    T.Alongside config m n x y fun _ _ => True := by
  obtain ⟨hm, htypes, hcompiled⟩ := hx m
  obtain ⟨hn, htypes', hcompiled'⟩ := hy n
  refine ⟨h.unmoved hm hn ?_ ?_, trivial⟩
  · rw [htypes, hcompiled]
    exact h.left.remembered
  · rw [htypes', hcompiled']
    exact h.right.remembered

lemma tell (h : T.Twin config m n) (f g : Memory → Notice) :
    T.Alongside config m n (RunM.tell f) (RunM.tell g) fun _ _ => True := by
  refine quiet h ?_ ?_ <;>
  · intro m
    unfold RunM.tell
    split <;> exact ⟨⟨rfl, rfl, rfl, rfl, rfl⟩, rfl, rfl⟩

lemma tellOpcode (h : T.Twin config m n) (f g : Memory → Notice) :
    T.Alongside config m n (RunM.tellOpcode f) (RunM.tellOpcode g) fun _ _ => True := by
  refine quiet h ?_ ?_ <;>
  · intro m
    unfold RunM.tellOpcode
    split <;> exact ⟨⟨rfl, rfl, rfl, rfl, rfl⟩, rfl, rfl⟩

lemma allocate (h : T.Twin config m n) {cell : Cell} (hcell : T.types.Agrees cell.type) :
    T.Alongside config m n (RunM.store (StoreM.allocate cell none))
      (RunM.store (StoreM.allocate cell none)) Eq := by
  have hover := m.store.memory.over_allocate cell none
  have htwin := h.withMemory (h.isOver.trans hover) (hover.loose.trans h.loose) fun a s hs => by
    rcases Memory.get?_of_allocate hs with hs | rfl
    · exact h.slots a s hs
    · exact ⟨hcell, nofun⟩
  have hright : RunM.store (StoreM.allocate cell none) n =
      (.at m.store.memory.slots.size, { n with
        store := { n.store with memory := (m.store.memory.allocate cell none).2 } }) := by
    rw [RunM.run_store, StoreM.allocate, h.memory]
    rfl
  rw [Alongside, hright]
  exact ⟨htwin, rfl⟩

lemma memoize (hT : T.Sound) (h : T.Twin config m n) (target : Address) {v : Value}
    (hv : ∀ c, v = .callable c → T.admits c) :
    T.Alongside config m n (RunM.store (StoreM.memoize target v))
      (RunM.store (StoreM.memoize target v)) fun _ _ => True := by
  have htwin : T.Twin config
      { m with store := { m.store with memory := m.store.memory.memoize target v } }
      { n with store := { n.store with memory := m.store.memory.memoize target v } } := by
    cases target with
    -- Slots outside of memory are gone after a compilation, so there is nothing to write to.
    | loose k =>
      have hsame : m.store.memory.memoize (.loose k) v = m.store.memory := by
        rw [Memory.memoize, h.loose]
        show { m.store.memory with loose := #[] } = m.store.memory
        rw [← h.loose]
      rw [hsame]
      exact h.withMemory h.isOver h.loose h.slots
    | «at» i =>
      refine h.withMemory (h.isOver.memoize ?_ v) h.loose fun a s hs => ?_
      · by_cases hi : i < T.constants.slots.size
        · rw [h.isOver.value? hi]
          exact .inr (hT.valued i hi)
        · exact .inl (by omega)
      · cases a with
        | loose k => exact h.slots (.loose k) s hs
        | «at» j =>
          rw [Memory.get?_memoize] at hs
          split at hs
          · obtain ⟨s₀, hs₀, rfl⟩ := Option.map_eq_some_iff.mp hs
            have hregular := h.slots _ s₀ hs₀
            refine ⟨hregular.agrees, fun c hc => ?_⟩
            simp only [Slot.fill] at hc
            cases hold : s₀.value with
            | none =>
              rw [hold] at hc
              exact hv c (Option.some.inj hc)
            | some u =>
              rw [hold] at hc
              exact hregular.admits c (hold.trans hc)
          · exact h.slots _ s hs
  refine ⟨?_, trivial⟩
  show T.Twin config _ { n with store := { n.store with memory := n.store.memory.memoize target v } }
  rw [h.memory]
  exact htwin

end Alongside

/-! ### Compilations -/

/-- A slot is compiled alike, whatever is remembered and whatever memory holds beside the constants. -/
lemma compileSlot_accord (hT : T.Sound) {memory memory' : Memory} (hover : T.constants.Over memory)
    (hover' : T.constants.Over memory') {types types' : Registry} (ht : T.types.Recalls types)
    (ht' : T.types.Recalls types') {a : Address} (hget : memory'.get? a = memory.get? a)
    (hslot : ∀ s, memory.get? a = some s → T.RegularSlot s) :
    Accord T.Usable (compileSlot (.ofList Standard.opcodes) T.modules memory a types).1
        (compileSlot (.ofList Standard.opcodes) T.modules memory' a types').1 ∧
      T.types.Recalls (compileSlot (.ofList Standard.opcodes) T.modules memory a types).2 := by
  have htype : memory'.typeOf a = memory.typeOf a := by rw [Memory.typeOf, Memory.typeOf, hget]
  have hvalue : memory'.value? a = memory.value? a := by rw [Memory.value?, Memory.value?, hget]
  cases hs : memory.get? a with
  | none =>
    have hnone : memory.value? a = none := by rw [Memory.value?, hs]; rfl
    rw [compileSlot_refused (.inl fun f hf => by rw [hnone] at hf; cases hf),
      compileSlot_refused (.inl fun f hf => by rw [hvalue, hnone] at hf; cases hf)]
    exact ⟨.error _ _, ht⟩
  | some s =>
    have hregular := hslot s hs
    have hagrees : T.types.Agrees (memory.typeOf a) := by
      rw [Memory.typeOf, hs]
      exact hregular.agrees
    have hadmits : ∀ c, memory.value? a = some (.callable c) → T.admits c := by
      intro c hc
      rw [Memory.value?, hs] at hc
      exact hregular.admits c hc
    obtain ⟨hsame, hrecalls⟩ := compileSlot_same hT hover hover' ht ht' htype hagrees
      (fun c => by rw [hvalue]) hadmits
    refine ⟨?_, hrecalls⟩
    have husable : ∀ call, (compileSlot (.ofList Standard.opcodes) T.modules memory a types).1 =
        .ok call → T.Usable call := fun _ hc => usable_compileSlot hT hover ht hagrees hadmits hc
    have hindex : ∀ call, (compileSlot (.ofList Standard.opcodes) T.modules memory a types).1 =
        .ok call → call.index = a.index? := fun _ hc => index_of_compileSlot hc
    have hindex' : ∀ call, (compileSlot (.ofList Standard.opcodes) T.modules memory' a types').1 =
        .ok call → call.index = a.index? := fun _ hc => index_of_compileSlot hc
    generalize (compileSlot (.ofList Standard.opcodes) T.modules memory a types).1 = c at *
    generalize (compileSlot (.ofList Standard.opcodes) T.modules memory' a types').1 = c' at *
    cases c with
    | error found =>
      cases c' with
      | error found' => exact .error _ _
      | ok call' => exact hsame.elim
    | ok call =>
      cases c' with
      | error found' => exact hsame.elim
      | ok call' =>
        -- Calls that are the same but for their indices have the same index too.
        have heq : { call with index := none } = { call' with index := none } := hsame
        have hidx := (hindex call rfl).trans (hindex' call' rfl).symm
        obtain ⟨index, callable, argumentType, resultType, nodes⟩ := call
        obtain ⟨index', callable', argumentType', resultType', nodes'⟩ := call'
        cases heq
        obtain rfl : index = index' := hidx
        exact .ok (husable _ rfl)

section Compiling

variable (hT : T.Sound) (h : T.Twin config m n)

include hT h

lemma along_compile (a : Address) :
    T.Alongside config m n (compile a) (compile a) (Accord T.Usable) := by
  have run : ∀ m, m.setting.opcodes = .ofList Standard.opcodes → m.setting.modules = T.modules →
      compile a m = ((compileSlot (.ofList Standard.opcodes) T.modules m.store.memory a
        m.store.types).1, { m with store := { m.store with types := (compileSlot
          (.ofList Standard.opcodes) T.modules m.store.memory a m.store.types).2 } }) := by
    intro m hopcodes hmodules
    rw [← hopcodes, ← hmodules]
    rfl
  obtain ⟨haccord, hrecalls⟩ := compileSlot_accord hT h.isOver h.isOver h.recalls.1 h.recalls.2 (a := a)
    rfl (h.slots a)
  obtain ⟨-, hrecalls'⟩ := compileSlot_accord hT h.isOver h.isOver h.recalls.2 h.recalls.1 (a := a) rfl
    (h.slots a)
  rw [Alongside, run m h.left.opcodes h.left.modules, run n h.right.opcodes h.right.modules, h.memory]
  exact ⟨h.withTypes hrecalls hrecalls', haccord⟩

lemma along_compileAt {index : Nat} (hindex : index < T.constants.slots.size) :
    T.Alongside config m n (compileAt index) (compileAt index) (Accord T.Usable) := by
  have hget : m.store.memory.get? (.at index) = T.constants.get? (.at index) := h.isOver.get? hindex
  have hregular : ∀ s, T.constants.get? (.at index) = some s → T.RegularSlot s :=
    fun s hs => h.slots _ s (hget.trans hs)
  have husable : Accord T.Usable (T.compilation index) (T.compilation index) :=
    (compileSlot_accord hT (.refl _) (.refl _) (.fresh _) (.fresh _) rfl hregular).1
  -- Either machine finds the compilation that is made when nothing is remembered, or makes it.
  have one : ∀ m : Machine, T.Knows config m → m.store.memory.get? (.at index) =
      T.constants.get? (.at index) → T.constants.Over m.store.memory →
      m.Unmoved (compileAt index m).2 ∧
      T.Remembered (compileAt index m).2.store.types (compileAt index m).2.compiled ∧
      Accord (fun _ => True) (compileAt index m).1 (T.compilation index) := by
    intro m hm hget hover
    unfold compileAt
    cases hc : m.compiled.get? index with
    | some c => exact ⟨⟨rfl, rfl, rfl, rfl, rfl⟩, hm.remembered, hm.remembered.compiled index c hc⟩
    | none =>
      rw [Memory.address?_of_lt (lt_of_lt_of_le hindex hover.size_le)]
      obtain ⟨haccord, hrecalls⟩ := compileSlot_accord hT hover (.refl T.constants)
        hm.remembered.recalls (.fresh T.types) hget.symm fun s hs => hregular s (hget.symm.trans hs)
      have haccord := haccord.mono (Q := fun _ => True) fun _ _ => trivial
      rw [← hm.opcodes, ← hm.modules] at haccord hrecalls
      refine ⟨⟨rfl, rfl, rfl, rfl, rfl⟩, ⟨hrecalls, fun i c hi => ?_⟩, ?_⟩
      · change (KeyMap.insert index _ m.compiled).get? i = some c at hi
        rw [KeyMap.get?_insert] at hi
        split at hi
        · next heq =>
          cases hi
          subst heq
          rw [compilation, ← hm.modules, ← hm.opcodes]
          exact haccord
        · exact hm.remembered.compiled i c hi
      · rw [compilation, ← hm.modules, ← hm.opcodes]
        exact haccord
  obtain ⟨hm, hremembered, haccord⟩ := one m h.left hget h.isOver
  obtain ⟨hn, hremembered', haccord'⟩ := one n h.right (h.memory ▸ hget) (h.memory ▸ h.isOver)
  refine ⟨h.unmoved hm hn hremembered hremembered', ?_⟩
  exact ((husable.trans haccord.symm).symm.trans haccord'.symm)

end Compiling

/-! ### Activations -/

lemma activate_congr (argument : Address) (nodes : List (Nat × Node)) {s s' : Store}
    (h : s'.memory = s.memory) :
    (activate argument nodes s').1 = (activate argument nodes s).1 ∧
      (activate argument nodes s').2 =
        { s' with memory := (activate argument nodes s).2.memory } := by
  obtain ⟨memory, types, cancelled⟩ := s
  obtain ⟨memory', types', cancelled'⟩ := s'
  obtain rfl : memory' = memory := h
  induction nodes generalizing memory' with
  | nil => exact ⟨rfl, rfl⟩
  | cons e nodes ih =>
    obtain ⟨index, node⟩ := e
    cases hop : node.op with
    | argument =>
      simp only [activate, hop]
      exact ⟨congrArg (fun slots => (index, argument) :: slots) (ih memory').1, (ih memory').2⟩
    | constant a =>
      simp only [activate, hop]
      exact ⟨congrArg (fun slots => (index, a) :: slots) (ih memory').1, (ih memory').2⟩
    | _ =>
      have hnext := ih (memory'.allocate node.cell none).2
      simp only [activate, hop]
      exact ⟨congrArg (fun slots => (index, Address.at memory'.slots.size) :: slots) hnext.1, hnext.2⟩

lemma get?_of_activate {argument : Address} {nodes : KeyMap Nat Node} {s : Store} {a : Address}
    {slot : Slot} (h : (activate argument nodes s).2.memory.get? a = some slot) :
    s.memory.get? a = some slot ∨ ∃ e ∈ nodes, slot = ⟨e.2.cell, none⟩ := by
  have hact := activates_activate argument nodes s
  cases a with
  | loose k => exact .inl (by rw [Memory.get?, ← hact.memory.loose]; exact h)
  | «at» i =>
    rcases Nat.lt_or_ge i s.memory.slots.size with hi | hi
    · exact .inl ((hact.memory.get? hi).symm.trans h)
    · obtain ⟨k, rfl⟩ := Nat.exists_eq_add_of_le hi
      cases hk : (newNodes nodes)[k]? with
      | some e =>
        rw [hact.new k e hk] at h
        exact .inr ⟨e, (List.mem_filter.mp (List.mem_of_getElem? hk)).1, (Option.some.inj h).symm⟩
      | none =>
        have hle : (newNodes nodes).length ≤ k := List.getElem?_eq_none_iff.mp hk
        have hsize := hact.size
        have hnone : (activate argument nodes s).2.memory.get? (.at (s.memory.slots.size + k)) =
            none := Array.getElem?_eq_none (by omega)
        rw [hnone] at h
        cases h

section Calling

variable (hT : T.Sound) (h : T.Twin config m n) {call : CompiledCall} (hcall : T.Usable call)

include hT h hcall

/-- **An activation** gives both machines the same slots. -/
lemma Twin.activated (argument : Address) :
    T.Twin config (m.activated call argument) (n.activated call argument) ∧
      (activate argument call.nodes n.store).1 = (activate argument call.nodes m.store).1 := by
  have hact := activates_activate argument call.nodes m.store
  obtain ⟨hslots, hstore⟩ := activate_congr argument call.nodes h.memory
  obtain ⟨-, hstore₀⟩ := activate_congr argument call.nodes (rfl : m.store.memory = m.store.memory)
  refine ⟨?_, hslots⟩
  have hmemory := h.withMemory (h.isOver.trans hact.memory) (hact.memory.loose.trans h.loose)
    fun a s hs => by
      rcases get?_of_activate hs with hs | ⟨e, he, rfl⟩
      · exact h.slots a s hs
      · have hcell := hcall.fits.cell _ _ (hcall.fits.ascending.get?_of_mem he)
        exact ⟨(hT.typed _ hcall.admits).types _ _ hcell, nofun⟩
  have hentered : n.pending = m.pending := h.pending
  -- Both memories are the same one, so the new slots are too.
  refine { hmemory with
    left := ?left, right := ?right, memory := ?memory, pending := ?pending, cancelled := ?cancelled
    isOver := hmemory.isOver, loose := hmemory.loose, slots := hmemory.slots, cells := ?cells }
  case left =>
    refine ⟨h.left.opcodes, h.left.modules, h.left.config, ?_⟩
    show T.Remembered (activate argument call.nodes m.store).2.types m.compiled
    rw [hact.types]
    exact h.left.remembered
  case right =>
    refine ⟨h.right.opcodes, h.right.modules, h.right.config, ?_⟩
    show T.Remembered (activate argument call.nodes n.store).2.types n.compiled
    rw [(activates_activate argument call.nodes n.store).types]
    exact h.right.remembered
  case memory =>
    show (activate argument call.nodes n.store).2.memory = (activate argument call.nodes m.store).2.memory
    rw [hstore]
  case pending =>
    show enterSlots ⟨call, (activate argument call.nodes n.store).1⟩ call.nodes n.pending =
      enterSlots ⟨call, (activate argument call.nodes m.store).1⟩ call.nodes m.pending
    rw [hslots, h.pending]
  case cancelled =>
    show (activate argument call.nodes n.store).2.isCancelled m.setting.token =
      (activate argument call.nodes m.store).2.isCancelled m.setting.token
    rw [hstore, hstore₀]
    exact h.cancelled
  case cells =>
    intro i q hq
    rcases exists_entered hq with hq | ⟨e, -, -, -, rfl⟩
    · exact h.cells i q hq
    · exact hcall

end Calling

end Tandem

end CellMachine
