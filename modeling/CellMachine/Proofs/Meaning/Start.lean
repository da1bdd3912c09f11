import CellMachine.Proofs.Meaning.Calls
import CellMachine.Proofs.Meaning.Conversion
import CellMachine.Proofs.Script.Loading

/-!
Where runs start. A script that was loaded is sound, and on a machine for it every slot stands for
itself; the compilations that loading has left are what they should be.
-/

namespace CellMachine

variable {p : Program} {m : Machine}

/-! ### Programs -/

/-- What makes a program sound, apart from its memory. -/
structure Program.Grounded (p : Program) : Prop where
  tidy : p.types.Tidy
  standard : p.opcodes = .ofList Standard.opcodes
  declared : ∀ t ∈ Standard.declaredTypes, p.types.Agrees t
  modules : ModulesAgree p.types p.modules
  loaded : p.constants.Constants p.types fun c => c.Conforms p.types
  size : p.constants.constants = p.constants.slots.size

/-- Memory that was filled on top of the constants makes a sound program. -/
lemma Program.Grounded.sound (h : p.Grounded)
    (hmemory : p.memory.Filled p.types fun c => c.Conforms p.types)
    (hover : p.constants.Over p.memory) : p.Sound where
  around := {
    tidy := h.tidy
    opcodes := fun mnemonic op hop =>
      Standard.regular h.tidy h.modules h.declared (Standard.mem_opcodes (h.standard ▸ hop))
    rooted := h.loaded.rooted
    constants := h.loaded.filled.agree }
  standard := h.standard
  modules := h.modules
  memory := hover
  constants := h.size.le
  evaluated := hmemory.evaluated
  types := hmemory.agree
  callables := by
    intro a c hc
    cases a with
    | «at» i => exact hmemory.callables i c hc
    | loose n =>
      rw [Memory.value?, Memory.get?, hmemory.loose] at hc
      cases hc

/-! ### Machines -/

/-- The slots of memory, as terms. -/
def ownTerms (n : Nat) : List Term := (List.range n).map fun i => .slot (.at i)

lemma getElem?_ownTerms {n i : Nat} (h : i < n) : (ownTerms n)[i]? = some (.slot (.at i)) := by
  rw [ownTerms, List.getElem?_map, List.getElem?_range h, Option.map_some]

lemma getElem?_ownTerms_eq_some {n i : Nat} {t : Term} (h : (ownTerms n)[i]? = some t) :
    i < n ∧ t = .slot (.at i) := by
  have hlt : i < n := by
    have := (List.getElem?_eq_some_iff.mp h).1
    rwa [ownTerms, List.length_map, List.length_range] at this
  rw [getElem?_ownTerms hlt] at h
  exact ⟨hlt, (Option.some.inj h).symm⟩

/-- **A machine at the start of a run**: every slot stands for itself. -/
lemma models_start (hp : p.Sound) (hopcodes : m.setting.opcodes = p.opcodes)
    (hmodules : m.setting.modules = p.modules) (hconfig : m.setting.config = {})
    (hmemory : m.store.memory = p.memory) (hrecalls : p.types.Recalls m.store.types)
    (hcompiled : ∀ i c, m.compiled.get? i = some c → p.Cached i c)
    (hpending : ∀ i, m.pending.get? i = none) :
    Models p (ownTerms p.memory.slots.size) m where
  opcodes := hopcodes
  modules := hmodules
  config := hconfig
  recalls := hrecalls
  compiled := hcompiled
  memory := hmemory ▸ .refl _
  length := by rw [hmemory, ownTerms, List.length_map, List.length_range]
  base := fun i hi => getElem?_ownTerms hi
  typed := by
    intro i t ht
    obtain ⟨-, rfl⟩ := getElem?_ownTerms_eq_some ht
    rw [hmemory]
    rfl
  agrees := by
    intro t ht
    obtain ⟨i, hi, rfl⟩ := List.mem_map.mp ht
    exact hp.types i (List.mem_range.mp hi)
  known := by
    intro i t v ht hv
    obtain ⟨hi, rfl⟩ := getElem?_ownTerms_eq_some ht
    rw [hmemory] at hv
    obtain ⟨w, hw, hrep⟩ := hp.evaluated i hi
    cases hv.symm.trans hw
    refine ⟨.ofValue v, hrep.mono ?_, Program.yields_of_headStep (n := 0) ?_⟩
    · rintro a t ⟨j, hj, rfl, rfl⟩
      obtain ⟨u, hu, -⟩ := hp.evaluated j hj
      refine ⟨j, rfl, getElem?_ownTerms hj, .inl ?_⟩
      rw [hmemory, hu]
      rfl
    · rw [Program.headStep, hv, Option.map_some]
  pending := by
    intro i q hq
    rw [hpending] at hq
    cases hq

/-! ### Compilations -/

lemma types_compileSlot {opcodes : Opcodes} (hopcodes : opcodes.KeepTypes)
    (modules : KeyMap String Module) (memory : Memory) (a : Address) (types : Registry) :
    (compileSlot opcodes modules memory a types).2.types = types.types := by
  by_cases hvalue : ∃ f, memory.value? a = some (.callable f)
  case neg => rw [compileSlot_refused (.inl fun f hf => hvalue ⟨f, hf⟩)]
  obtain ⟨f, hvalue⟩ := hvalue
  cases htype : memory.typeOf a with
  | callable name source argument result =>
    rw [compileSlot_callable hvalue htype]
    cases types.resolve argument with
    | ok x =>
      cases types.resolve result with
      | ok y =>
        have hkeep : (CompileEnv.mk opcodes modules memory f).opcodes.KeepTypes := hopcodes
        exact CompileEnv.types_compile hkeep a.index? x y types
      | error q => rfl
    | error p => cases types.resolve result <;> rfl
  | _ =>
    rw [compileSlot_refused (.inr fun _ _ _ _ h => ?_)]
    rw [htype] at h
    cases h

/-- What compilation leaves alone. -/
structure Machine.Recompiled (m m' : Machine) : Prop where
  setting : m'.setting = m.setting
  memory : m'.store.memory = m.store.memory
  types : m'.store.types.types = m.store.types.types
  pending : m'.pending = m.pending

lemma Machine.recompiled_compileAt (hopcodes : m.setting.opcodes.KeepTypes) (i : Nat) :
    m.Recompiled (Machine.compileAt i m).2 := by
  unfold Machine.compileAt
  cases m.compiled.get? i with
  | some c => exact ⟨rfl, rfl, rfl, rfl⟩
  | none =>
    dsimp only
    cases m.store.memory.address? i with
    | none => exact ⟨rfl, rfl, rfl, rfl⟩
    | some a => exact ⟨rfl, rfl, types_compileSlot hopcodes _ _ _ _, rfl⟩

namespace Script

/-- What holds of a script and is kept when a constant is compiled holds when all are. -/
lemma compileConstants_induction {P : Script → Prop}
    (hstep : ∀ s moduleName name index, P s → s.memory.lookup moduleName name = some index →
      P (s.compileAt index).2) (names : List (String × String)) {s : Script} (hs : P s) :
    P (compileConstants names s).2 := by
  induction names generalizing s with
  | nil => exact hs
  | cons e rest ih =>
    obtain ⟨moduleName, name⟩ := e
    unfold compileConstants
    dsimp only
    refine ih ?_
    cases hindex : s.memory.lookup moduleName name with
    | none => exact hs
    | some index =>
      dsimp only
      split
      · have hcompiled := hstep s moduleName name index hs hindex
        generalize s.compileAt index = r at hcompiled ⊢
        obtain ⟨c, s₁⟩ := r
        cases c <;> exact hcompiled
      · exact hs

/-- What compilation leaves of a script. -/
structure Recompiled (s s' : Script) : Prop where
  modules : s'.modules = s.modules
  opcodes : s'.opcodes = s.opcodes
  config : s'.config = s.config
  memory : s'.memory = s.memory
  types : s'.types.types = s.types.types
  attention : s'.attention = s.attention

lemma Recompiled.compileAt {s s' : Script} (h : s.Recompiled s') (hopcodes : s.opcodes.KeepTypes)
    (index : Nat) : s.Recompiled (s'.compileAt index).2 := by
  have hkeep : s'.opcodes.KeepTypes := by
    rw [h.opcodes]
    exact hopcodes
  have hkept : (s'.machine none).Recompiled _ := Machine.recompiled_compileAt hkeep index
  exact { h with types := hkept.types.trans h.types }

lemma recompiled_compileAll {s : Script} (hopcodes : s.opcodes.KeepTypes) :
    s.Recompiled s.compileAll.2 :=
  compileConstants_induction (P := s.Recompiled)
    (fun _ _ _ index hs' _ => hs'.compileAt hopcodes index) _ ⟨rfl, rfl, rfl, rfl, rfl, rfl⟩

/-- **What holds of a script that was loaded**: what holds before anything is compiled, if compilations
keep it. -/
lemma load_induction {l : Loader} {modules : List Module} {s : Script} (h : load l modules = .ok s) :
    ∃ types memory, l.types.fresh.Enlarges types ∧ Memory.ofModules types modules = .ok memory ∧
      ∀ {P : Script → Prop}, P { uncompiled l.opcodes modules memory types with config := l.config } →
        (∀ s' index, P s' → P (s'.compileAt index).2) → P s := by
  obtain ⟨types, memory, hlarger, hmemory, hcompiled⟩ := load_cases h
  refine ⟨types, memory, hlarger, hmemory, fun {P} hstart hstep => ?_⟩
  split at hcompiled
  · have hall : P (compileAll _).2 :=
      compileConstants_induction (fun s' _ _ index hs' _ => hstep s' index hs') _ hstart
    rwa [hcompiled] at hall
  · rwa [hcompiled]

lemma not_pending_machine {s : Script} {token : Option String} (i : Nat) (p : Pending) :
    (s.machine token).pending.get? i ≠ some p := by
  intro hp
  rw [Std.TreeMap.get?_eq_getElem?] at hp
  cases Std.TreeMap.getElem?_emptyc.symm.trans hp

lemma models_compileAt {s : Script} (hp : p.Sound) {terms : List Term}
    (h : Models p terms (s.machine none)) {index : Nat} (hindex : index < p.constants.slots.size) :
    Models p terms ((s.compileAt index).2.machine none) := by
  have hkeep : (s.machine none).setting.opcodes.KeepTypes := by
    intro mnemonic op hop
    rw [h.opcodes] at hop
    exact (hp.around.opcodes mnemonic op hop).keeps
  have hkept := Machine.recompiled_compileAt hkeep index
  obtain ⟨-, hm, -⟩ := h.compileAt hp hindex
  exact (hm.congr ((s.compileAt index).2.machine none) hkept.setting.symm hkept.memory.symm hm.recalls
    hm.compiled hkept.pending.symm).1

end Script

/-! ### Registries with the same types -/

section Types

variable {reg reg' : Registry}

lemma Registry.Agrees.of_types {t : Ty} (h : reg.Agrees t) (htypes : reg'.types = reg.types) :
    reg'.Agrees t := by
  intro u hu
  obtain ⟨v, hv, hsame⟩ := h u hu
  exact ⟨v, by rw [Registry.get?, htypes]; exact hv, hsame⟩

lemma Registry.Tidy.of_types (h : reg.Tidy) (htypes : reg'.types = reg.types) : reg'.Tidy := by
  have hget : ∀ name, reg'.get? name = reg.get? name := fun name => by
    rw [Registry.get?, Registry.get?, htypes]
  refine ⟨⟨fun n t ht => ?_, fun n t ht r hr hg => ?_⟩, fun n t ht => ?_, fun n t ht => ?_,
    fun n t ht => ?_⟩
  · exact h.resolved.name_eq n t (hget n ▸ ht)
  · exact htypes ▸ h.resolved.refs n t (hget n ▸ ht) r hr hg
  · exact (h.coherent n t (hget n ▸ ht)).of_types htypes
  · exact h.unmarked n t (hget n ▸ ht)
  · exact h.unbracketed n t (hget n ▸ ht)

lemma Memory.Constants.of_types {admits admits' : Callable → Prop} {memory : Memory}
    (h : memory.Constants reg admits) (htypes : reg'.types = reg.types)
    (hadmits : ∀ c, admits c → admits' c) : memory.Constants reg' admits' where
  filled := {
    loose := h.filled.loose
    evaluated := h.filled.evaluated
    agree := fun i hi => (h.filled.agree i hi).of_types htypes
    callables := fun i c hc => hadmits c (h.filled.callables i c hc) }
  rooted := h.rooted

end Types

namespace Script

/-- What is asked of the types of a script: no name has a mark or a bracket in it, every type that is
written in the registry, in a constant's type or in a callable is defined as the registered type of
its name, and no structure cell is of the open type. -/
structure Consistent (s : Script) (modules : List Module) : Prop where
  unmarked : s.types.Unmarked
  unbracketed : ∀ name t, s.types.get? name = some t → '[' ∉ t.name.toList
  coherent : s.types.Coherent
  constants : ∀ md ∈ modules, ∀ e ∈ md.constants, s.types.Agrees e.2.type
  callables : ∀ md ∈ modules, ∀ e ∈ md.constants, ∀ f, e.2.value.Holds f → f.Conforms s.types

/-- The program of a script, with memory for an argument. -/
def program (s : Script) (memory : Memory) : Program :=
  ⟨s.opcodes, s.modules, s.types, s.memory, memory⟩

/-- What holds of a script that was loaded, apart from what was compiled. -/
structure Loaded (s : Script) (admits : Callable → Prop) : Prop where
  tidy : s.types.Tidy
  standard : s.opcodes = .ofList Standard.opcodes
  declared : ∀ t ∈ Standard.declaredTypes, s.types.Agrees t
  modules : ModulesAgree s.types s.modules
  constants : s.memory.Constants s.types admits
  size : s.memory.constants = s.memory.slots.size

/-- What a script is before it is compiled, with nothing remembered. -/
structure Starts (start s : Script) : Prop where
  recompiled : start.Recompiled s
  verdicts : start.types.verdicts = []
  compiled : start.compiled = []
  config : start.config = {}

/-- A machine for a script before it is compiled remembers nothing. -/
lemma Starts.recalls {start s : Script} (h : start.Starts s) : s.types.Recalls start.types := by
  refine ⟨h.recompiled.types.symm, ?_⟩
  rw [h.verdicts]
  exact Registry.truthful_nil _

section Loading

variable {admits : Callable → Prop} {natives : List Ty} {l : Loader} {modules : List Module}
  {s : Script}

/-- A script of modules whose constants were converted, however it is configured and whatever was
compiled. -/
lemma loaded_of_recompiled (hl : Loader.make Standard.opcodes natives = .ok l) {types : Registry}
    {memory : Memory} (hlarger : l.types.Enlarges types)
    (hmemory : Memory.ofModules types modules = .ok memory) {config : Config}
    (hsame : Recompiled { uncompiled l.opcodes modules memory types with config } s)
    (hunmarked : s.types.Unmarked)
    (hunbracketed : ∀ name t, s.types.get? name = some t → '[' ∉ t.name.toList)
    (hcoherent : s.types.Coherent)
    (hconstants : ∀ md ∈ modules, ∀ e ∈ md.constants, s.types.Agrees e.2.type)
    (hcallables : ∀ md ∈ modules, ∀ e ∈ md.constants, ∀ f, e.2.value.Holds f → admits f) :
    s.Loaded admits := by
  obtain ⟨hopcodes, -, hreached, hdeclared⟩ := Loader.make_spec hl
  have htypes : s.types.types = types.types := hsame.types
  have htidy : s.types.Tidy := by
    refine ⟨⟨fun n t ht => ?_, fun n t ht r hr hg => ?_⟩, hcoherent, hunmarked, hunbracketed⟩
    · rw [Registry.get?, htypes] at ht
      exact (hlarger.reached hreached).resolved.name_eq n t ht
    · rw [Registry.get?, htypes] at ht
      rw [htypes]
      exact (hlarger.reached hreached).resolved.refs n t ht r hr hg
  have hloaded : memory.Constants types admits ∧ memory.constants = memory.slots.size :=
    Memory.constants_ofModules (htidy.of_types htypes.symm) hcallables hmemory
  refine ⟨htidy, hsame.opcodes.trans hopcodes, ?_, ?_, ?_, ?_⟩
  · refine Standard.agrees_declaredTypes fun t ht => ?_
    obtain ⟨op, hop, hin, hconcrete⟩ := Standard.exists_declared ht
    obtain ⟨v, hv, hsame⟩ := hdeclared op hop t hin hconcrete
    refine ⟨v, ?_, hsame⟩
    rw [Registry.get?, htypes]
    exact hlarger.get? hv
  · intro moduleName md name c hmd hconst
    rw [hsame.modules] at hmd
    obtain ⟨md', hin, heq⟩ := List.mem_map.mp (KeyMap.mem_of_get?_ofList hmd)
    cases heq
    exact hconstants md hin _ (KeyMap.mem_of_get? hconst)
  · rw [hsame.memory]
    exact hloaded.1.of_types htypes fun _ => id
  · rw [hsame.memory]
    exact hloaded.2

lemma keepTypes_of_make (hl : Loader.make Standard.opcodes natives = .ok l) :
    l.opcodes.KeepTypes := by
  rw [(Loader.make_spec hl).1]
  exact fun mnemonic op hop => Standard.keepsTypes (Standard.mem_opcodes hop)

/-- **A script that was loaded** with the standard opcodes, and what it was before it was compiled, with
which every configuration starts. -/
lemma loaded_of_make (hl : Loader.make Standard.opcodes natives = .ok l)
    (hs : load l modules = .ok s) (hunmarked : s.types.Unmarked)
    (hunbracketed : ∀ name t, s.types.get? name = some t → '[' ∉ t.name.toList)
    (hcoherent : s.types.Coherent)
    (hconstants : ∀ md ∈ modules, ∀ e ∈ md.constants, s.types.Agrees e.2.type)
    (hcallables : ∀ md ∈ modules, ∀ e ∈ md.constants, ∀ f, e.2.value.Holds f → admits f) :
    s.Loaded admits ∧ ∃ start : Script, start.Starts s ∧ start.compileAll = ([], s) ∧
      ∀ config, load { l with config } modules =
        if config.eagerCompile then
          unlessProblems (compileAll { start with config }).1 (compileAll { start with config }).2
        else .ok { start with config } := by
  obtain ⟨-, hconfig, hreached, -⟩ := Loader.make_spec hl
  obtain ⟨types, memory, hlarger, hmemory, hload⟩ := exists_load_eq hs
  rw [hreached.fresh] at hlarger
  have hcompiled : (uncompiled l.opcodes modules memory types).compileAll = ([], s) := by
    have heq := (hload l.config).symm.trans hs
    rw [hconfig] at heq
    obtain ⟨hnone, heq⟩ := unlessProblems_eq_ok_iff.mp heq
    exact Prod.ext hnone heq
  have hsame : (uncompiled l.opcodes modules memory types).Recompiled s := by
    have := recompiled_compileAll (s := uncompiled l.opcodes modules memory types)
      (keepTypes_of_make hl)
    rwa [hcompiled] at this
  have hsame' : Recompiled { uncompiled l.opcodes modules memory types with config := {} } s := hsame
  exact ⟨loaded_of_recompiled hl hlarger hmemory hsame' hunmarked hunbracketed hcoherent
    hconstants hcallables, _, ⟨hsame, (hlarger.reached hreached).verdicts, rfl, rfl⟩, hcompiled,
    hload⟩

end Loading

/-- **A loaded script is sound**, and a machine for it starts with every slot standing for itself. -/
lemma loaded_spec {natives : List Ty} {l : Loader} {modules : List Module} {s : Script}
    (hl : Loader.make Standard.opcodes natives = .ok l) (hs : load l modules = .ok s)
    (hc : s.Consistent modules) :
    (s.program s.memory).Grounded ∧
      Models (s.program s.memory) (ownTerms s.memory.slots.size) (s.machine none) := by
  obtain ⟨h, start, hstarts, hcompiled, -⟩ := loaded_of_make hl hs hc.unmarked hc.unbracketed
    hc.coherent hc.constants hc.callables
  have hsame := hstarts.recompiled
  have hgrounded : (s.program s.memory).Grounded :=
    ⟨h.tidy, h.standard, h.declared, h.modules, h.constants, h.size⟩
  have hsound : (s.program s.memory).Sound := hgrounded.sound hgrounded.loaded.filled (.refl _)
  refine ⟨hgrounded, ?_⟩
  -- Compiling all constants keeps what holds before any is compiled.
  have hstart : Models (s.program s.memory) (ownTerms s.memory.slots.size) (start.machine none) := by
    refine models_start hsound hsame.opcodes.symm hsame.modules.symm hstarts.config
      hsame.memory.symm hstarts.recalls (fun _ _ hc => ?_) fun i => Std.TreeMap.getElem?_emptyc
    rw [show (start.machine none).compiled = [] from hstarts.compiled] at hc
    cases hc
  have hend := compileConstants_induction
    (P := fun s' => s'.memory = s.memory ∧ Models (s.program s.memory)
      (ownTerms s.memory.slots.size) (s'.machine none))
    (fun s' moduleName name index h hindex =>
      ⟨h.1, models_compileAt hsound h.2 (hgrounded.loaded.rooted _ _ (h.1 ▸ hindex))⟩)
    start.constantNames ⟨hsame.memory.symm, hstart⟩
  change _ ∧ Models _ _ (start.compileAll.2.machine none) at hend
  rw [hcompiled] at hend
  exact hend.2

end Script

end CellMachine
