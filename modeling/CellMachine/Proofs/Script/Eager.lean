import CellMachine.Proofs.Machine.Routine
import CellMachine.Proofs.Safety.Runs

/-!
What a script knows that was compiled when it was loaded. Every constant of a callable type that a name
leads to has its compiled call, and no use of the script and no turn of a run takes it away. Functions
that are only held by lists and records are not among them: those may turn out not to compile when they
are called.
-/

namespace CellMachine

open Machine

namespace Machine

variable {m m' : Machine} {stack stack' : List Job} {outside : Nat → List String}

/-! ### Turns -/

lemma retains_turn (h : OrderlyPlain stack) {t : Turn} (ht : turn stack m = (t, m')) :
    m.Retains m' := by
  unfold turn at ht
  split at ht
  · cases ht
    exact .refl m
  · dsimp only at ht
    split at ht
    · cases ht
      exact .refl m
    · match stack, h with
      | j :: below, ⟨⟨a, ha, hwork, _⟩, _⟩ =>
        rw [advance] at ht
        cases hw : j.waiting with
        | cons next waiting =>
          rw [hw] at ht
          cases ht
          exact .refl m
        | nil =>
          rw [hw] at ht
          have hend : (conclusion j m.tick).2 = m' := congrArg Prod.snd ht
          rw [← hend]
          obtain ⟨p, hc⟩ | hc := conclusion_cases j m.tick
          · rw [hc]
            exact .refl m
          · rw [hc, hwork]
            exact ((routine_perform ha.here.1 _).upholds m.tick).compiled

/-- **No turn takes a compilation away**, whatever others cancel. -/
lemma retains_runsAmid (h : OrderlyPlain stack) (hruns : RunsAmid outside stack m stack' m') :
    m.Retains m' := by
  induction hruns with
  | refl => exact .refl _
  | step ht _ ih => exact (retains_turn h ht).trans (ih (orderly_turn (fun _ ha => ha) h ht))

lemma retains_takeTurnsAmid (fuel : Nat) (h : OrderlyPlain stack) :
    m.Retains (takeTurnsAmid outside fuel stack m).2 := by
  induction fuel generalizing stack m with
  | zero => exact .refl m
  | succ fuel ih =>
    rw [takeTurnsAmid]
    rcases ht : turn stack (m.disturbed outside) with ⟨t, m₁⟩
    have hturn : m.Retains m₁ := retains_turn (m := m.disturbed outside) h ht
    cases t with
    | finished o => exact hturn
    | running stack₁ => exact hturn.trans (ih (orderly_turn (fun _ ha => ha) h ht))

lemma Retains.bind {α β : Type} {x : RunM α} {f : α → RunM β} (hx : m.Retains (x m).2)
    (hf : ∀ a m', x m = (a, m') → m'.Retains (f a m').2) : m.Retains ((x >>= f) m).2 :=
  hx.trans (hf _ _ rfl)

lemma compileAt_of_compiled {index : Nat} {c : Compilation} (h : m.compiled.get? index = some c) :
    compileAt index m = (c, m) := by
  rw [compileAt, h]

lemma compiled_compileAt (index : Nat) (m : Machine) :
    (compileAt index m).2.compiled.get? index = some (compileAt index m).1 := by
  obtain ⟨c, hc, heq⟩ | ⟨c, types, -, -, heq⟩ := compileAt_cases index m
  · rw [heq]
    exact hc
  · rw [heq]
    exact KeyMap.get?_insert_self _ _ _

end Machine

namespace Script

variable {s s₀ : Script} {moduleName name : String} {argument : KeyMap String Stored}
  {outside : Nat → List String} {token : Option String}

/-! ### Uses -/

lemma routine_prepare (moduleName name : String) (argument : KeyMap String Stored) :
    Routine (prepare moduleName name argument) := by
  refine Routine.memory.bind fun memory => ?_
  cases memory.lookup moduleName name with
  | none => exact .pure _
  | some index =>
    refine (Routine.compileAt index).bind fun c => ?_
    cases c with
    | error found => exact .pure _
    | ok call =>
      refine (Routine.store _).bind fun o => ?_
      cases o with
      | error found => exact .pure _
      | ok a =>
        refine (routine_construct call a).bind fun o => ?_
        cases o <;> exact .pure _

lemma orderly_of_plain {action : Action} (h : action.Plain) :
    OrderlyPlain [Job.ofAction (action.andThen .deepen)] :=
  ⟨Job.serves_ofAction (h.andThen rfl), List.forall_mem_nil _⟩

lemma retains_tell (f : Memory → Notice) (m : Machine) : m.Retains (RunM.tell f m).2 :=
  ((Routine.tell f).upholds m).compiled

lemma retains_runOnAmid (fuel : Nat) (m : Machine) :
    m.Retains (runOnAmid outside fuel moduleName name argument m).2 := by
  refine .bind ((routine_prepare _ _ _).upholds m).compiled fun o m₁ hprepare => ?_
  cases o with
  | error p => exact .refl m₁
  | ok e =>
    obtain ⟨call, action⟩ := e
    refine .bind (retains_tell _ m₁) fun _ m₂ _ => ?_
    refine .bind (retains_takeTurnsAmid fuel (orderly_of_plain (quiet_prepare hprepare).plain))
      fun r m₃ _ => ?_
    cases r with
    | none => exact .refl m₃
    | some o =>
      cases o with
      | error p => exact .refl m₃
      | ok a =>
        refine .bind (retains_tell _ m₃) fun _ m₄ _ => ?_
        refine .bind (.refl m₄) fun memory m₅ _ => ?_
        cases memory.treeAt a <;> exact .refl m₅

lemma compiled_runAmid (fuel : Nat) {index : Nat} {c : Compilation}
    (hc : s.compiled.get? index = some c) :
    (s.runAmid outside fuel moduleName name argument token).2.1.compiled.get? index = some c := by
  have hretains : (s.machine token).Retains
      (runOnAmid outside fuel moduleName name argument (s.machine token)).2 :=
    retains_runOnAmid fuel _
  rcases hrun : runOnAmid outside fuel moduleName name argument (s.machine token) with
    ⟨_ | p | t, m⟩ <;> rw [hrun] at hretains
  · rw [runAmid_of_none hrun]
    exact hretains index c hc
  · rw [runAmid_of_error hrun]
    exact (hretains.trans (retains_tell _ m)) index c hc
  · rw [runAmid_of_ok hrun]
    exact hretains index c hc

/-- **No use of a script takes a compilation away.** -/
lemma Used.compiled (h : s₀.Used s) {index : Nat} {c : Compilation}
    (hc : s₀.compiled.get? index = some c) : s.compiled.get? index = some c := by
  induction h with
  | start => exact hc
  | run _ outside fuel moduleName name argument token ih => exact compiled_runAmid fuel ih
  | @compile s' _ index' ih =>
    exact (upholds_compileAt index' (s'.machine none)).compiled index c ih
  | cancel _ token ih => exact ih
  | watch _ h' ih =>
    unfold Script.watch at h'
    split at h'
    · cases h'
    · cases h'
      exact ih

/-! ### Loading -/

/-- A script whose failed compilations all have a reason. -/
def Explained (s : Script) : Prop := ∀ index, s.compiled.get? index ≠ some (.error [])

lemma explained_compileSlot (opcodes : Opcodes) (modules : KeyMap String Module) (memory : Memory)
    (types : Registry) (a : Address) : (compileSlot opcodes modules memory a types).1 ≠ .error [] := by
  by_cases hvalue : ∃ f, memory.value? a = some (.callable f)
  case neg =>
    rw [compileSlot_refused (.inl fun f hf => hvalue ⟨f, hf⟩)]
    exact nofun
  obtain ⟨f, hvalue⟩ := hvalue
  cases htype : memory.typeOf a with
  | callable name source argument result =>
    rw [compileSlot_callable hvalue htype]
    cases types.resolve argument with
    | error p => cases types.resolve result <;> exact nofun
    | ok x =>
      cases types.resolve result with
      | error q => exact nofun
      | ok y =>
        dsimp only
        intro h
        have hproblems : ∀ {ps : List Problem} {c : CompiledCall},
            unlessProblems ps c ≠ .error [] := by
          rintro (_ | ⟨p, ps⟩) c <;> exact nofun
        exact hproblems h
  | _ =>
    rw [compileSlot_refused (.inr fun _ _ _ _ h => ?_)]
    · exact nofun
    · rw [htype] at h
      cases h

lemma Explained.compileAt (h : s.Explained) (index : Nat) :
    (s.compileAt index).1 ≠ .error [] ∧ (s.compileAt index).2.Explained := by
  have hfst : (s.compileAt index).1 = (Machine.compileAt index (s.machine none)).1 := rfl
  have hsnd : (s.compileAt index).2.compiled =
      (Machine.compileAt index (s.machine none)).2.compiled := rfl
  unfold Explained
  rw [hfst, hsnd]
  obtain ⟨c, hc, heq⟩ | ⟨c, types, -, hnew, heq⟩ := compileAt_cases index (s.machine none)
  · rw [heq]
    refine ⟨?_, h⟩
    rintro rfl
    exact h index hc
  · have hreason : c ≠ .error [] := by
      obtain rfl | ⟨a, rfl⟩ := hnew
      · exact nofun
      · exact explained_compileSlot _ _ _ _ a
    rw [heq]
    refine ⟨hreason, fun i hi => ?_⟩
    change (s.compiled.insert index c).get? i = _ at hi
    rw [KeyMap.get?_insert] at hi
    split at hi
    · exact hreason (Option.some.inj hi)
    · exact h i hi

/-- The first of the constants is compiled if its type is callable, and then the others. -/
lemma compileConstants_cons (e : String × String) (rest : List (String × String)) (s : Script) :
    ∃ ps s₁, compileConstants (e :: rest) s =
        (ps ++ (compileConstants rest s₁).1, (compileConstants rest s₁).2) ∧
      (s₁ = s ∨ ∃ index, s₁ = (s.compileAt index).2) ∧
      ∀ index, s.memory.lookup e.1 e.2 = some index →
        (s.memory.typeOf (.at index)).category = .callable →
        s₁ = (s.compileAt index).2 ∧
          ∀ found, (s.compileAt index).1 = .error found → ps = [] → found = [] := by
  obtain ⟨moduleName, name⟩ := e
  rw [compileConstants]
  cases hindex : s.memory.lookup moduleName name with
  | none => exact ⟨[], s, rfl, .inl rfl, nofun⟩
  | some index =>
    by_cases hcallable : (s.memory.typeOf (.at index)).category = .callable
    · dsimp only
      rw [if_pos hcallable]
      rcases hc : s.compileAt index with ⟨c, s₁⟩
      cases c with
      | ok call =>
        refine ⟨[], s₁, rfl, .inr ⟨index, by rw [hc]⟩, fun i hi _ => ?_⟩
        cases hi
        rw [hc]
        exact ⟨rfl, nofun⟩
      | error found =>
        refine ⟨_, s₁, rfl, .inr ⟨index, by rw [hc]⟩, fun i hi _ => ?_⟩
        cases hi
        rw [hc]
        refine ⟨rfl, fun found' hfound hnone => ?_⟩
        cases hfound
        exact List.map_eq_nil_iff.mp hnone
    · dsimp only
      rw [if_neg hcallable]
      refine ⟨[], s, rfl, .inl rfl, fun i hi hcallable' => ?_⟩
      cases hi
      exact absurd hcallable' hcallable

lemma compiled_compileConstants_of_compiled (names : List (String × String)) {index : Nat}
    {c : Compilation} (h : s.compiled.get? index = some c) :
    (compileConstants names s).2.compiled.get? index = some c :=
  compileConstants_induction (P := fun s' => s'.compiled.get? index = some c)
    (fun s' _ _ i hs' _ => (upholds_compileAt i (s'.machine none)).compiled index c hs') names h

/-- **What is compiled at load**: each named constant of a callable type, unless there are problems. -/
lemma compiled_compileConstants {names : List (String × String)} (hs : s.Explained)
    (hnone : (compileConstants names s).1 = []) (hnamed : (moduleName, name) ∈ names) {index : Nat}
    (hindex : s.memory.lookup moduleName name = some index)
    (hcallable : (s.memory.typeOf (.at index)).category = .callable) :
    ∃ call, (compileConstants names s).2.compiled.get? index = some (.ok call) := by
  -- On the names: what is compiled for one is remembered while the others are.
  induction names generalizing s with
  | nil => cases hnamed
  | cons e rest ih =>
    obtain ⟨ps, s₁, heq, hs₁, hfirst⟩ := compileConstants_cons e rest s
    rw [heq] at hnone ⊢
    obtain ⟨hps, hrest⟩ := List.append_eq_nil_iff.mp hnone
    rcases List.mem_cons.mp hnamed with rfl | hnamed
    · obtain ⟨rfl, hreason⟩ := hfirst index hindex hcallable
      have hkept := compiled_compileAt index (s.machine none)
      cases hc : (s.compileAt index).1 with
      | ok call =>
        rw [show (Machine.compileAt index (s.machine none)).1 = .ok call from hc] at hkept
        exact ⟨call, compiled_compileConstants_of_compiled rest hkept⟩
      | error found =>
        rw [hreason found hc hps] at hc
        exact absurd hc (hs.compileAt index).1
    · obtain rfl | ⟨i, rfl⟩ := hs₁
      · exact ih hs hrest hnamed hindex hcallable
      · exact ih (hs.compileAt i).2 hrest hnamed hindex hcallable

/-- **Eager loading settles named functions.** Once a script was loaded eagerly, every constant of a
callable type that a name leads to has its compiled call: however the script was used since, it is
compiled before a run of it starts, and in every state that a run of any function passes, whatever others
cancel; so no run fails because such a function does not compile. -/
theorem eager_loading_settles_named_functions {l : Loader} {modules : List Module}
    (heager : l.config.eagerCompile = true) (hs : load l modules = .ok s₀) (hused : s₀.Used s)
    {index : Nat} (hnamed : (moduleName, name) ∈ s₀.constantNames)
    (hindex : s₀.memory.lookup moduleName name = some index)
    (hcallable : (s₀.memory.typeOf (.at index)).category = .callable) :
    ∃ call, (∀ token, Machine.compileAt index (s.machine token) = (.ok call, s.machine token)) ∧
      ∀ outside moduleName' name' argument token stack m,
        s.Passes outside moduleName' name' argument token stack m →
          Machine.compileAt index m = (.ok call, m) := by
  obtain ⟨types, memory, -, -, hcompiled⟩ := load_cases hs
  rw [if_pos heager] at hcompiled
  have hstart : Explained { uncompiled l.opcodes modules memory types with config := l.config } :=
    fun _ => nofun
  generalize { uncompiled l.opcodes modules memory types with config := l.config } = start at *
  have hsame : start.compileAll.2.modules = start.modules ∧
      start.compileAll.2.memory = start.memory :=
    compileConstants_induction (P := fun s' => s'.modules = start.modules ∧
      s'.memory = start.memory) (fun _ _ _ _ h _ => h) start.constantNames ⟨rfl, rfl⟩
  rw [hcompiled] at hsame
  have hnames : s₀.constantNames = start.constantNames := by
    unfold constantNames
    rw [hsame.1]
  rw [hnames] at hnamed
  rw [hsame.2] at hindex hcallable
  obtain ⟨call, hcall⟩ := compiled_compileConstants hstart (congrArg Prod.fst hcompiled) hnamed hindex
    hcallable
  have hused' : s.compiled.get? index = some (.ok call) := by
    refine hused.compiled ?_
    rw [show compileConstants start.constantNames start = ([], s₀) from hcompiled] at hcall
    exact hcall
  refine ⟨call, fun token => compileAt_of_compiled hused', ?_⟩
  rintro outside moduleName' name' argument token stack m ⟨call', action, m₁, hprepare, hruns⟩
  have hprepared := ((routine_prepare moduleName' name' argument).upholds (s.machine token)).compiled
  rw [hprepare] at hprepared
  have hrun := retains_runsAmid (orderly_of_plain (quiet_prepare hprepare).plain) hruns
  exact compileAt_of_compiled (((hprepared.trans (retains_tell _ m₁)).trans hrun) index _ hused')

/-! ### A function in a list -/

namespace Sample

/-- Applies an opcode that does not exist. -/
def unknown : Callable where
  cells := [(0, ⟨.opcode "nope" [] [], Standard.integer, none⟩), (1, .external "x" nothing)]

def functions : Ty := .iterable "functions" none (.inline function) .irrelevant

/-- Calls the first function of a list. -/
def callingFirst : Callable where
  cells := [(0, ⟨.call 2 1, Standard.integer, none⟩), (1, .external "x" nothing),
    (2, ⟨.opcode "peek" [3, 4] [], function, none⟩), (3, .constant "m" "functions" functions),
    (4, .constant "m" "main" function)]

def holding : Module where
  name := "m"
  constants := [("functions", ⟨functions, .list [.callable unknown], none⟩),
    ("main", ⟨function, .callable callingFirst, none⟩)]

/-- The script of this module. -/
def holdingScript : Script :=
  ((Loader.make Standard.opcodes Standard.natives).bind fun l => load l [holding]).toOption.getD
    ⟨[], [], {}, {}, .initial, [], .nothing, []⟩

/-- Whether a compilation failed for a single cause. -/
def failsFor (cause : Cause) : Compilation → Bool
  | .error [p] => p.cause == cause
  | _ => false

/-- Whether a step fails for a cause. -/
def stopsFor (cause : Cause) : Step Action → Bool
  | .error p => p.cause == cause
  | _ => false

/-- Whether a value is a callable. -/
def isCallable : Option Value → Bool
  | some (.callable _) => true
  | _ => false

lemma holding_checked :
    ((Loader.make Standard.opcodes Standard.natives).bind fun l => load l [holding]).isOk = true ∧
    ("m", "main") ∈ holdingScript.constantNames ∧
    holdingScript.memory.lookup "m" "main" = some 2 ∧
    (holdingScript.memory.typeOf (.at 2)).category = .callable ∧
    holdingScript.memory.constants = 3 ∧
    isCallable (holdingScript.memory.value? (.at 0)) = true ∧
    failsFor .unknownOpcode (holdingScript.compileAt 0).1 = true ∧
    stopsFor .unknownOpcode
      (Machine.call (.at 0) (.at 0) (.at 0) (holdingScript.machine none)).1 = true := by
  decide +kernel

lemma exists_holding : ∃ l, Loader.make Standard.opcodes Standard.natives = .ok l ∧
    l.config.eagerCompile = true ∧ load l [holding] = .ok holdingScript := by
  obtain ⟨l, hl, hs⟩ := exists_load holding_checked.1
  refine ⟨l, hl, ?_, hs⟩
  rw [(Loader.make_spec hl).2.1]

end Sample

/-- The function that has a name is compiled at load, and it stays so when it was run. -/
theorem named_function_stays_compiled : ∃ l s₀ s,
    Loader.make Standard.opcodes Standard.natives = .ok l ∧ l.config.eagerCompile = true ∧
    load l [Sample.holding] = .ok s₀ ∧ s₀.Used s ∧ ("m", "main") ∈ s₀.constantNames ∧
    s₀.memory.lookup "m" "main" = some 2 ∧
    (s₀.memory.typeOf (.at 2)).category = .callable ∧
    ∃ call, ∀ token, Machine.compileAt 2 (s.machine token) = (.ok call, s.machine token) := by
  obtain ⟨l, hl, heager, hs⟩ := Sample.exists_holding
  obtain ⟨-, hnamed, hindex, hcallable, -⟩ := Sample.holding_checked
  have hused : Sample.holdingScript.Used _ := .run .start (fun _ => []) 100 "m" "main" [] none
  obtain ⟨call, hcall, -⟩ :=
    eager_loading_settles_named_functions heager hs hused hnamed hindex hcallable
  exact ⟨l, _, _, hl, heager, hs, hused, hnamed, hindex, hcallable, call, hcall⟩

/-- **A function in a list need not compile**: loading the module eagerly finds no problem, yet the
function that its list holds is not compiled, and to call it fails for the same cause. -/
theorem held_function_does_not_compile : ∃ l s f p q,
    Loader.make Standard.opcodes Standard.natives = .ok l ∧ l.config.eagerCompile = true ∧
    load l [Sample.holding] = .ok s ∧
    0 < s.memory.constants ∧ s.memory.value? (.at 0) = some (.callable f) ∧
    (s.compileAt 0).1 = .error [p] ∧ p.cause = .unknownOpcode ∧
    (Machine.call (.at 0) (.at 0) (.at 0) (s.machine none)).1 = .error q ∧
    q.cause = .unknownOpcode := by
  obtain ⟨l, hl, heager, hs⟩ := Sample.exists_holding
  obtain ⟨-, -, -, -, hconstants, hvalue, hcompile, hcall⟩ := Sample.holding_checked
  obtain ⟨f, hf⟩ : ∃ f, Sample.holdingScript.memory.value? (.at 0) = some (.callable f) := by
    unfold Sample.isCallable at hvalue
    split at hvalue
    · next f hf => exact ⟨f, hf⟩
    · cases hvalue
  obtain ⟨p, hp, hpcause⟩ : ∃ p, (Sample.holdingScript.compileAt 0).1 = .error [p] ∧
      p.cause = .unknownOpcode := by
    unfold Sample.failsFor at hcompile
    split at hcompile
    · next p hp => exact ⟨p, hp, eq_of_beq hcompile⟩
    · cases hcompile
  obtain ⟨q, hq, hqcause⟩ : ∃ q, (Machine.call (.at 0) (.at 0) (.at 0)
      (Sample.holdingScript.machine none)).1 = .error q ∧ q.cause = .unknownOpcode := by
    unfold Sample.stopsFor at hcall
    split at hcall
    · next q hq => exact ⟨q, hq, eq_of_beq hcall⟩
    · cases hcall
  exact ⟨l, _, f, p, q, hl, heager, hs, hconstants ▸ by decide, hf, hp, hpcause, hq, hqcause⟩

end Script

end CellMachine
