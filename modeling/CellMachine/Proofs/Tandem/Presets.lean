import CellMachine.Proofs.Script.Eager
import CellMachine.Proofs.Tandem.Start

/-!
What a function gives by default it gives under the other presets too: where more is checked, and where
nothing is checked, functions are compiled on their first call and neighbours are summed first.
-/

namespace CellMachine

open Machine

/-! ### Runs side by side -/

namespace Tandem

variable {T : Tandem} {m n m' : Machine} {moduleName name : String}
  {argument : KeyMap String Stored}

/-- A machine with nothing but the constants, where no cell of an activation waits. -/
structure Ready (T : Tandem) (config : Config) (m : Machine) : Prop where
  rides : T.Rides config m
  memory : m.store.memory = T.constants
  pending : ∀ i, m.pending.get? i = none

lemma Ready.still {config : Config} (h : T.Ready config m) (hstill : T.Still config m m') :
    T.Ready config m' := by
  refine ⟨hstill.rides, hstill.memory.trans h.memory, fun i => ?_⟩
  rw [hstill.pending]
  exact h.pending i

/-- The argument of a run is converted on both sides in the same way. -/
lemma convert_follows (hT : T.Sound) (hfilled : T.constants.Filled T.types T.admits)
    (hm : T.Ready T.leading m) (hn : T.Ready T.following n)
    (hargument : ∀ f, (Stored.record argument).Holds f → T.admits f) {type : Ty}
    (hagrees : T.types.Agrees type) {a : Address} {memory : Memory}
    (h : Conversion.convert m.store.types (Script.argumentsCell type) (.record argument)
      m.store.memory = (.ok a, memory)) :
    Conversion.convert n.store.types (Script.argumentsCell type) (.record argument)
      n.store.memory = (.ok a, memory) ∧
    ∃ D, Paired D a a ∧ T.Abreast D { m with store := { m.store with memory } }
      { n with store := { n.store with memory } } := by
  rw [Conversion.convert_congr hm.rides.recalls.resolve, hm.memory] at h
  rw [Conversion.convert_congr hn.rides.recalls.resolve, hn.memory]
  refine ⟨h, ?_⟩
  have hconverts := Conversion.converts hT.around.tidy (Script.argumentsCell type)
    (.record argument) T.constants hfilled hagrees hargument
  rw [h] at hconverts
  obtain ⟨i, hi, rfl, -⟩ := hconverts.result a rfl
  have hover : T.constants.Over memory := hconverts.isOver
  have hrides := hm.rides.withMemory hover (hm.memory ▸ hover.size_le)
  have hrides' := hn.rides.withMemory hover (hn.memory ▸ hover.size_le)
  exact ⟨_, ⟨⟨rfl, hi⟩⟩, abreast_of_filled hrides hrides' rfl hconverts.filled hm.pending hn.pending⟩

/-- A function that is prepared on the leader's side is prepared on the follower's. -/
lemma prepare_follows (hT : T.Sound) (hfilled : T.constants.Filled T.types T.admits)
    (hm : T.Ready T.leading m) (hn : T.Ready T.following n)
    (hargument : ∀ f, (Stored.record argument).Holds f → T.admits f) {call : CompiledCall}
    {action : Action} (h : Script.prepare moduleName name argument m = (.ok (call, action), m')) :
    ∃ D call' result result' n', action = .evaluate result .shallow ∧
      Script.prepare moduleName name argument n = (.ok (call', .evaluate result' .shallow), n') ∧
      T.Abreast D m' n' ∧ Paired D result result' := by
  cases hindex : T.constants.lookup moduleName name with
  | none =>
    obtain ⟨q, hq⟩ : ∃ q, Script.prepare moduleName name argument m = (.error q, m) :=
      Script.prepare_of_none (hm.memory ▸ hindex)
    cases h.symm.trans hq
  | some index =>
    have hlt : index < T.constants.slots.size := hT.around.rooted _ _ hindex
    have hadmits := hfilled.callables index
    obtain ⟨hsame, hstill, husable⟩ := compileAt_same hT hm.rides hlt hadmits
    obtain ⟨hsame', hstill', -⟩ := compileAt_same hT hn.rides hlt hadmits
    rw [Script.prepare_of_index (hm.memory ▸ hindex)] at h
    rw [Script.prepare_of_index (hn.memory ▸ hindex)]
    generalize compileAt index m = r at h hsame hstill husable
    generalize compileAt index n = r' at hsame' hstill'
    obtain ⟨c, m₁⟩ := r
    obtain ⟨c', n₁⟩ := r'
    cases c with
    | error found => cases h
    | ok compiled =>
      obtain ⟨compiled', hc', hcallable, htype, hnodes⟩ :=
        (hsame.trans hsame'.symm).exists_ok rfl
      obtain rfl : c' = .ok compiled' := hc'
      have hcall := husable compiled rfl
      dsimp only at h ⊢
      rw [htype]
      rcases hconvert : Conversion.convert m₁.store.types
        (Script.argumentsCell compiled.argumentType) (.record argument) m₁.store.memory with
        ⟨o, memory⟩
      rw [hconvert] at h
      cases o with
      | error found => cases h
      | ok a =>
        obtain ⟨hconvert', D, hpaired, h₂⟩ := convert_follows hT hfilled (hm.still hstill)
          (hn.still hstill') hargument hcall.agrees hconvert
        rw [hconvert']
        dsimp only at h ⊢
        rcases hconstruct : construct compiled a { m₁ with store := { m₁.store with memory } } with
          ⟨o, m₃⟩
        rw [hconstruct] at h
        cases o with
        | error q => cases h
        | ok action =>
          cases h
          obtain ⟨D', result, result', n', rfl, heq, h₃, -, hresult⟩ :=
            construct_follows hT h₂ hcall hcallable htype hnodes hpaired hconstruct
          rw [heq]
          exact ⟨D', compiled', result, result', n', rfl, rfl, h₃, hresult⟩

lemma full_of_deepened (hT : T.Sound) {D : Nat → Nat → Prop} (h : T.Abreast D m n) {x y : Action}
    (hxy : T.SameAction D x y) {fuel : Nat} {a : Address}
    (hs : Succeeds fuel (x.andThen .deepen) m a m') : m'.store.memory.Full a := by
  cases fuel with
  | zero => cases hs
  | succ fuel =>
    obtain ⟨b, m₁, hfirst, hlast⟩ := succeeds_andThen hs
    obtain ⟨D₁, b', n₁, -, h₁, -, hb⟩ := (follows hT fuel).awaited h hxy hfirst
    change Leads _ (force b .deep m₁.tick) a m' at hlast
    obtain ⟨rfl, hfull⟩ := Leading.forced hT (fun k _ => follows hT k)
      (fun k _ => Leading.reaching hT (follows hT k)) h₁ hb hlast
    exact hfull

lemma undisturbed {config : Config} (h : T.Rides config m) (hlimit : config.maxSteps = none)
    (htoken : m.setting.token = none) (result : Address) :
    Undisturbed [Job.ofAction ((Action.evaluate result .shallow).andThen .deepen)] m := by
  refine undisturbed_of_plain ((Action.plain_evaluate _ _).andThen rfl) ?_ htoken
  rw [h.config]
  exact hlimit

/-- **A run that succeeds** on the leader's side succeeds on the follower's, with the same value. -/
lemma runOn_follows (hT : T.Sound) (hfilled : T.constants.Filled T.types T.admits)
    (hm : T.Ready T.leading m) (hn : T.Ready T.following n)
    (hlimit : T.leading.maxSteps = none) (hlimit' : T.following.maxSteps = none)
    (htoken : m.setting.token = none) (htoken' : n.setting.token = none)
    (hargument : ∀ f, (Stored.record argument).Holds f → T.admits f) {fuel : Nat} {v : Tree}
    (hv : (Script.runOn fuel moduleName name argument m).1 = some (.ok v)) :
    ∃ fuel', (Script.runOn fuel' moduleName name argument n).1 = some (.ok v) := by
  rcases hprepare : Script.prepare moduleName name argument m with ⟨o, m₁⟩
  cases o with
  | error q =>
    rw [Script.runOn_of_error hprepare] at hv
    cases hv
  | ok e =>
    obtain ⟨call, action⟩ := e
    obtain ⟨D, call', result, result', n₁, rfl, hprepare', h₁, hresult⟩ :=
      prepare_follows hT hfilled hm hn hargument hprepare
    obtain ⟨a, m₂, hexecute, htree⟩ := (Script.runOn_eq_ok_iff hprepare).mp hv
    have hsetting := ((Script.routine_prepare moduleName name argument).upholds m).setting
    have hsetting' := ((Script.routine_prepare moduleName name argument).upholds n).setting
    rw [hprepare] at hsetting
    rw [hprepare'] at hsetting'
    obtain ⟨h₂, -⟩ := h₁.tell (fun _ => .started call.callable) (fun _ => .started call'.callable)
    have hfree := undisturbed h₂.leader hlimit (by rw [(Tame.tell _ m₁).2, hsetting, htoken]) result
    have hfree' :=
      undisturbed h₂.follower hlimit' (by rw [(Tame.tell _ n₁).2, hsetting', htoken']) result'
    obtain ⟨k, hk⟩ := (execute_iff_evaluate hfree).mp
      ⟨fuel, fun fuel' hle => takeTurns_mono hle hexecute⟩
    have hactions := SameAction.andThen (.evaluate hresult .shallow) (.deepen (T := T))
    obtain ⟨D', c, n₂, ⟨k', hk'⟩, h₃, -, hac⟩ := follows hT k h₂ hactions hk
    have hfull := full_of_deepened hT h₂ (.evaluate hresult .shallow) hk
    obtain ⟨fuel', hfuel'⟩ := (execute_iff_evaluate hfree').mpr ⟨k', hk'⟩
    refine ⟨fuel', (Script.runOn_eq_ok_iff hprepare').mpr ⟨c, n₂, hfuel' fuel' le_rfl, ?_⟩⟩
    rw [h₃.treeAt_eq hac hfull, htree]

end Tandem

/-! ### Scripts -/

/-- The types written in a callable agree with a registry, and it sums no floating point numbers, for
which it would matter how they are grouped. -/
structure Callable.Portable (reg : Registry) (f : Callable) : Prop where
  typed : f.Typed reg
  exactSums : ¬ f.Applies "nsum"

namespace Script

variable {s start : Script} {config : Config} {moduleName name : String}
  {argument : KeyMap String Stored}

/-- What is asked of a script that is to run alike with all presets: no type name has a mark or a
bracket in it, every type that is written in the registry, in a constant's type or in a callable is
defined as the registered type of its name, and no callable sums floating point numbers. -/
structure Portable (s : Script) (modules : List Module) : Prop where
  unmarked : s.types.Unmarked
  unbracketed : ∀ name t, s.types.get? name = some t → '[' ∉ t.name.toList
  coherent : s.types.Coherent
  constants : ∀ md ∈ modules, ∀ e ∈ md.constants, s.types.Agrees e.2.type
  callables : ∀ md ∈ modules, ∀ e ∈ md.constants, ∀ f, e.2.value.Holds f → f.Portable s.types

/-- A machine of the script with the default configuration leads one with another configuration. -/
def tandem (s : Script) (config : Config) : Tandem where
  types := s.types
  modules := s.modules
  constants := s.memory
  admits f := f.Portable s.types
  leading := {}
  following := config

lemma Loaded.sound_tandem (h : s.Loaded fun f => f.Portable s.types)
    (hpairwise : config.reduceStrategy = .pairwise → config.runtimeValidation = false) :
    (s.tandem config).Sound :=
  h.sound (fun _ hf => hf.typed) fun hstrategy => ⟨hpairwise hstrategy, fun _ hf => hf.exactSums⟩

/-! What is compiled does not depend on the configuration. -/

lemma compileAt_config (s : Script) (config : Config) (index : Nat) :
    compileAt { s with config } index =
      ((s.compileAt index).1, { (s.compileAt index).2 with config }) := by
  unfold compileAt Machine.compileAt machine
  cases s.compiled.get? index with
  | some c => rfl
  | none => cases s.memory.address? index <;> rfl

lemma compileConstants_config (names : List (String × String)) (s : Script) (config : Config) :
    compileConstants names { s with config } =
      ((compileConstants names s).1, { (compileConstants names s).2 with config }) := by
  induction names generalizing s with
  | nil => rfl
  | cons e rest ih =>
    obtain ⟨moduleName, name⟩ := e
    unfold compileConstants
    dsimp only
    cases s.memory.lookup moduleName name with
    | none => simp only [ih]
    | some index =>
      dsimp only
      split
      · rw [compileAt_config]
        rcases s.compileAt index with ⟨c, s₁⟩
        cases c <;> simp only [ih]
      · simp only [ih]

lemma Loaded.ready_start (h : s.Loaded fun f => f.Portable s.types) (hstart : start.Starts s)
    (config config' : Config) :
    (s.tandem config).Ready config' (machine { start with config := config' } none) := by
  have hsame := hstart.recompiled
  have hpending : ∀ i, (machine { start with config := config' } none).pending.get? i = none :=
    fun i => Std.TreeMap.getElem?_emptyc
  refine ⟨⟨?_, hsame.modules.symm, rfl, hstart.recalls, fun i c hc => ?_, ?_, fun i q hq => ?_⟩,
    hsame.memory.symm, hpending⟩
  · exact hsame.opcodes.symm.trans h.standard
  · rw [show (machine { start with config := config' } none).compiled = [] from hstart.compiled]
      at hc
    cases hc
  · show s.memory.Over start.memory
    rw [hsame.memory]
    exact .refl _
  · rw [hpending] at hq
    cases hq

lemma Loaded.ready_compileAll (h : s.Loaded fun f => f.Portable s.types) {config config' : Config}
    (hT : (s.tandem config).Sound) {s' : Script}
    (hs' : (s.tandem config).Ready config' (s'.machine none)) :
    (s.tandem config).Ready config' (s'.compileAll.2.machine none) := by
  refine compileConstants_induction
    (P := fun s' => (s.tandem config).Ready config' (s'.machine none))
    (fun s₁ moduleName name index h₁ hindex => ?_) s'.constantNames hs'
  have hmemory : s₁.memory = s.memory := h₁.memory
  have hlt : index < s.memory.slots.size := h.constants.rooted _ _ (hmemory ▸ hindex)
  obtain ⟨-, hstill, -⟩ := Tandem.compileAt_same hT h₁.rides hlt
    (h.constants.filled.callables index)
  exact ⟨{ h₁.rides with recalls := hstill.rides.recalls, compiled := hstill.rides.compiled },
    h₁.memory, h₁.pending⟩

/-- The script that another configuration loads is ready to follow the default one. -/
lemma exists_loaded {natives : List Ty} {l : Loader} {modules : List Module}
    (hl : Loader.make Standard.opcodes natives = .ok l) (hs : load l modules = .ok s)
    (hc : s.Portable modules) {config : Config}
    (hpairwise : config.reduceStrategy = .pairwise → config.runtimeValidation = false) :
    (s.tandem config).Sound ∧ s.memory.Filled s.types (fun f => f.Portable s.types) ∧
      (s.tandem config).Ready {} (s.machine none) ∧
      ∃ s', load { l with config } modules = .ok s' ∧
        (s.tandem config).Ready config (s'.machine none) := by
  obtain ⟨h, start, hstart, hcompiled, hload⟩ := loaded_of_make hl hs hc.unmarked hc.unbracketed
    hc.coherent hc.constants hc.callables
  have hT : (s.tandem config).Sound := h.sound_tandem hpairwise
  have hleader := h.ready_compileAll hT (h.ready_start hstart config start.config)
  rw [show compileAll { start with config := start.config } = ([], s) from hcompiled,
    hstart.config] at hleader
  have hready := h.ready_start hstart config config
  refine ⟨hT, h.constants.filled, hleader, ?_⟩
  rw [hload]
  split
  · have hfound : (compileAll { start with config }).1 = [] := by
      show (compileConstants start.constantNames { start with config }).1 = []
      rw [compileConstants_config]
      exact congrArg Prod.fst hcompiled
    exact ⟨_, unlessProblems_eq_ok_iff.mpr ⟨hfound, rfl⟩, h.ready_compileAll hT hready⟩
  · exact ⟨_, rfl, hready⟩

/-- **Presets agree on successful runs.** If a script whose types are consistent and that sums no
floating point numbers runs a function to a value by default, then loading it with the strict and with
the permissive preset succeeds too, and the function runs to the same value. -/
theorem presets_agree {natives : List Ty} {l : Loader} {modules : List Module}
    (hl : Loader.make Standard.opcodes natives = .ok l) (hs : load l modules = .ok s)
    (hc : s.Portable modules)
    (hargument : ∀ f, (Stored.record argument).Holds f → f.Portable s.types) {fuel : Nat} {v : Tree}
    (hv : (s.run fuel moduleName name argument none).1 = some (.ok v)) :
    ∀ config ∈ [Config.strict, Config.permissive], ∃ s', load { l with config } modules = .ok s' ∧
      ∃ fuel', (s'.run fuel' moduleName name argument none).1 = some (.ok v) := by
  intro config hconfig
  have hpreset : (config.reduceStrategy = .pairwise → config.runtimeValidation = false) ∧
      config.maxSteps = none := by
    simp only [List.mem_cons, List.not_mem_nil, or_false] at hconfig
    rcases hconfig with rfl | rfl
    · exact ⟨nofun, rfl⟩
    · exact ⟨fun _ => rfl, rfl⟩
  obtain ⟨hT, hfilled, hleader, s', hload, hfollower⟩ := exists_loaded hl hs hc hpreset.1
  rw [run_fst] at hv
  obtain ⟨fuel', hfuel'⟩ := Tandem.runOn_follows hT hfilled hleader hfollower rfl hpreset.2 rfl rfl
    hargument hv
  exact ⟨s', hload, fuel', (run_fst fuel' none).trans hfuel'⟩

end Script

/-! ### A sum with a call among its terms -/

/-- Whether no cell of a callable sums floating point numbers. -/
def Callable.sumsExactly (f : Callable) : Bool :=
  f.cells.all fun e => match e.2.kind with
    | .opcode mnemonic _ _ => mnemonic != "nsum"
    | _ => true

lemma Callable.portable_of_check {reg : Registry} {f : Callable} (htypes : f.conforms reg = true)
    (hsums : f.sumsExactly = true) : f.Portable reg := by
  refine ⟨(Callable.conforms_of_check htypes).typed, ?_⟩
  rintro ⟨i, cell, arguments, explicit, hcell, hkind⟩
  have hhere := List.all_eq_true.mp hsums _ (KeyMap.mem_of_get? hcell)
  simp [hkind] at hhere

namespace Script

namespace Sample

lemma sums_exactly : summing.sumsExactly = true ∧ adding.sumsExactly = true := by decide

lemma portable : script.Portable [sums] := by
  have hc : script.Consistent [sums] := consistent
  refine ⟨hc.unmarked, hc.unbracketed, hc.coherent, hc.constants,
    List.forall_mem_singleton.mpr fun e he f hf => ?_⟩
  simp only [sums, List.mem_cons, List.not_mem_nil, or_false] at he
  rcases he with rfl | rfl | rfl | rfl | rfl <;> cases hf
  exact Callable.portable_of_check checked.2.2.2.1 sums_exactly.1

lemma given_checked : ∀ f, (Stored.record given).Holds f →
    f.conforms script.types = true ∧ f.sumsExactly = true := by
  rintro f (_ | _ | ⟨he, hf⟩)
  simp only [given, List.mem_cons, List.not_mem_nil, or_false] at he
  rcases he with rfl | rfl <;> cases hf
  exact ⟨checked.2.2.2.2.1, sums_exactly.2⟩

lemma sums_run :
    (script.run 80 "m" "main" given none).1 = some (.ok (.native (.int 97))) :=
  eq_of_value? (eq_of_isInteger (by decide +kernel))

end Sample

/-- The sum comes to the same integer whatever is checked and however its terms are grouped. -/
theorem presets_agree_on_sum_of_call : ∃ l s fuel,
    Loader.make Standard.opcodes Standard.natives = .ok l ∧ load l [Sample.sums] = .ok s ∧
    s.Portable [Sample.sums] ∧ (∀ f, (Stored.record Sample.given).Holds f → f.Portable s.types) ∧
    (s.run fuel "m" "main" Sample.given none).1 = some (.ok (.native (.int 97))) ∧
    ∀ config ∈ [Config.strict, Config.permissive], ∃ s',
      load { l with config } [Sample.sums] = .ok s' ∧ ∃ fuel',
        (s'.run fuel' "m" "main" Sample.given none).1 = some (.ok (.native (.int 97))) := by
  obtain ⟨l, hl, hloaded⟩ := Sample.exists_loader
  have hgiven : ∀ f, (Stored.record Sample.given).Holds f → f.Portable Sample.script.types :=
    fun f hf => Callable.portable_of_check (Sample.given_checked f hf).1 (Sample.given_checked f hf).2
  exact ⟨l, _, 80, hl, hloaded, Sample.portable, hgiven, Sample.sums_run,
    presets_agree hl hloaded Sample.portable hgiven Sample.sums_run⟩

end Script

/-! ### Bindings that name a type which is not registered -/

namespace Script

namespace Sample

/-- A type that no cell has; only the bindings of opcodes mention it. -/
def hidden : Ty := .native "X" none "integer" (NativeView.is .int)

/-- One structure, written with the type of its member in place or by its name. -/
def owner (member : TyRef) : Ty := .structured "S" none [("f", member)]

def entry : Ty := .structured "E" none [("f", .inline Standard.integer)]

def entryKey : Ty := .keyOf "K" none (.inline entry)

def thunk : Ty := .callable "thunk" none (.inline nothing) (.inline .runtimeDetermined)

/-- Loads the member of a record, which is bound to be of the structure. -/
def loading (member : TyRef) : Callable where
  cells := [(0, ⟨.opcode "kload" [2, 3] [("S", owner member)], .runtimeDetermined, none⟩),
    (1, .external "x" nothing), (2, .constant "m" "one" entry), (3, .constant "m" "key" entryKey)]

def loads : Module where
  name := "m"
  constants := [("a", ⟨thunk, .callable (loading (.inline hidden)), none⟩),
    ("key", ⟨entryKey, .key "f", none⟩),
    ("main", ⟨thunk, .callable (loading (.named "X")), none⟩),
    ("one", ⟨entry, .record [("f", .native (.int 7))], none⟩)]

/-- What is loaded with a configuration. -/
def loadedWith (config : Config) : Except (List Problem) Script :=
  (Loader.make Standard.opcodes Standard.natives).bind fun l => load { l with config } [loads]

-- Kept closed, so that nothing but the kernel runs the loader.
@[irreducible] def scriptOf (config : Config) : Script :=
  (loadedWith config).toOption.getD ⟨[], [], {}, {}, .initial, [], .nothing, []⟩

/-- All types that the module writes down, those in bindings and inside of others included. -/
def writtenTypes : List Ty :=
  (loads.constants.map fun e => e.2.type).flatMap Ty.written ++
    [loading (.inline hidden), loading (.named "X")].flatMap fun f => f.cells.flatMap fun e =>
      e.2.type.written ++ match e.2.kind with
        | .opcode _ _ explicit => explicit.values.flatMap Ty.written
        | _ => []

lemma written_checked : ∀ t ∈ writtenTypes, '!' ∉ t.name.toList ∧ '[' ∉ t.name.toList ∧
    ∀ u ∈ writtenTypes, t.name = u.name → t.sameDefinition u = true := by
  decide +kernel

lemma loads_checked : (loadedWith {}).isOk = true ∧ (loadedWith .permissive).isOk = true ∧
    isInteger 7 (value? ((scriptOf {}).run 20 "m" "main" [] none).1) = true ∧
    ((scriptOf .permissive).run 20 "m" "main" [] none).1.any (!·.isOk) = true := by
  decide +kernel

lemma loadedWith_eq {config : Config} (h : (loadedWith config).isOk = true) {l : Loader}
    (hl : Loader.make Standard.opcodes Standard.natives = .ok l) :
    load { l with config } [loads] = .ok (scriptOf config) := by
  have heq : loadedWith config = load { l with config } [loads] := by
    rw [loadedWith, hl, Except.bind]
  unfold scriptOf
  rw [← heq]
  generalize loadedWith config = r at h
  cases r with
  | error found => cases h
  | ok s => rfl

end Sample

/-- **Presets may disagree on types that are only written in bindings**, which loading does not
register. All types of the module are of one definition for each name. By default both functions are
compiled at load; the first, which writes the bound structure's member in place, leaves a verdict on
the structure's name that the second profits from. If the second is compiled on its own, it fails, as
its binding names a type which is not registered. -/
theorem presets_disagree_on_unregistered_bindings : ∃ l s s',
    Loader.make Standard.opcodes Standard.natives = .ok l ∧
    (∀ t ∈ Sample.writtenTypes, '!' ∉ t.name.toList ∧ '[' ∉ t.name.toList ∧
      ∀ u ∈ Sample.writtenTypes, t.name = u.name → t.sameDefinition u = true) ∧
    load l [Sample.loads] = .ok s ∧
    (∃ fuel, (s.run fuel "m" "main" [] none).1 = some (.ok (.native (.int 7)))) ∧
    load { l with config := .permissive } [Sample.loads] = .ok s' ∧
    ∀ fuel v, (s'.run fuel "m" "main" [] none).1 ≠ some (.ok v) := by
  obtain ⟨hdefault, hpermissive, hseven, hfails⟩ := Sample.loads_checked
  obtain ⟨l, hl⟩ : ∃ l, Loader.make Standard.opcodes Standard.natives = .ok l := by
    obtain ⟨l, hl, -⟩ := Sample.exists_loader
    exact ⟨l, hl⟩
  have hconfig : { l with config := {} } = l := by rw [← (Loader.make_spec hl).2.1]
  have hs := Sample.loadedWith_eq hdefault hl
  rw [hconfig] at hs
  obtain ⟨p, hp⟩ := exists_error_of_any hfails
  exact ⟨l, _, _, hl, Sample.written_checked, hs,
    ⟨20, Sample.eq_of_value? (Sample.eq_of_isInteger hseven)⟩,
    Sample.loadedWith_eq hpermissive hl, run_ne_ok_of_error hp⟩

end Script

end CellMachine
