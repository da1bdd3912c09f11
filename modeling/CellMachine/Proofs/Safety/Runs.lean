import CellMachine.Proofs.Meaning.Runs
import CellMachine.Proofs.Memory.Directory
import CellMachine.Proofs.Safety.Turns

/-!
Runs of loaded scripts. Whatever the configuration, the function, its argument and what others cancel,
a run of a script with the standard opcodes never ends with a problem that only a defect of the machine
explains, and on the way no slot is looked up in vain.
-/

namespace CellMachine

open Machine

namespace Script

/-! ### Runs with others -/

/-- Runs a function to the end and forces its result, while others cancel tokens. -/
def runOnAmid (outside : Nat → List String) (fuel : Nat) (moduleName name : String)
    (argument : KeyMap String Stored) : RunM (Option (Outcome Tree)) := do
  match ← prepare moduleName name argument with
  | .error p => pure (some (.error p))
  | .ok (call, action) =>
    RunM.tell fun _ => .started call.callable
    match ← takeTurnsAmid outside fuel [Job.ofAction (action.andThen .deepen)] with
    | none => pure none
    | some (.error p) => pure (some (.error p))
    | some (.ok a) =>
      RunM.tell fun m => .returned call.callable (m.kindAt a)
      let memory ← RunM.memory
      match memory.treeAt a with
      | some t => pure (some (.ok t))
      | none =>
        pure (some (.error (((Problem.mk .nonEvaluatedValue (memory.sourceOf a) []).set "module"
          moduleName).set "constant" name)))

/-- Runs a function of a script while others cancel tokens. -/
def runAmid (s : Script) (outside : Nat → List String) (fuel : Nat) (moduleName name : String)
    (argument : KeyMap String Stored) (token : Option String) :
    Option (Outcome Tree) × Script × List Notice :=
  let whole : RunM (Option (Outcome Tree)) := do
    let result ← runOnAmid outside fuel moduleName name argument
    match result with
    | some (.error p) => RunM.tell fun _ => .failed p
    | _ => pure ()
    pure result
  let (result, m) := whole (s.machine token)
  (result, s.after m, m.notices.reverse)

/-- A script after it was used in some way: functions were run or compiled, tokens cancelled, and a
watcher set. -/
inductive Used (s : Script) : Script → Prop
  | start : Used s s
  | run {s' : Script} (h : Used s s') (outside : Nat → List String) (fuel : Nat)
    (moduleName name : String) (argument : KeyMap String Stored) (token : Option String) :
    Used s (s'.runAmid outside fuel moduleName name argument token).2.1
  | compile {s' : Script} (h : Used s s') (index : Nat) : Used s (s'.compileAt index).2
  | cancel {s' : Script} (h : Used s s') (token : String) : Used s (s'.cancel token)
  | watch {s' s'' : Script} (h : Used s s') {attention : Attention}
    (h' : s'.watch attention = .ok s'') : Used s s''

/-- A stack and a state that a run of a function passes while others cancel tokens. -/
def Passes (s : Script) (outside : Nat → List String) (moduleName name : String)
    (argument : KeyMap String Stored) (token : Option String) (stack : List Job) (m : Machine) :
    Prop :=
  ∃ call action m₁, prepare moduleName name argument (s.machine token) = (.ok (call, action), m₁) ∧
    RunsAmid outside [Job.ofAction (action.andThen .deepen)]
      (RunM.tell (fun _ => .started call.callable) m₁).2 stack m

/-- What a run of a script relies on. -/
structure Safe (s : Script) : Prop where
  complete : s.memory.Complete
  rooted : s.memory.Rooted
  careful : ∀ mnemonic op, s.opcodes.get? mnemonic = some op → op.Careful
  verdicts : Registry.OrdinaryVerdicts s.types.verdicts
  compiled : ∀ i c, s.compiled.get? i = some c → c.Reliable s.opcodes s.memory

variable {s s₀ : Script} {moduleName name : String} {argument : KeyMap String Stored}
  {outside : Nat → List String} {fuel : Nat} {token : Option String}

/-- Without others it is the script's own run. -/
lemma runAmid_nothing : s.runAmid (fun _ => []) fuel moduleName name argument token =
    s.run fuel moduleName name argument token := by
  have hturns : takeTurnsAmid (fun _ => []) fuel = takeTurns fuel :=
    funext fun stack => funext fun m => takeTurnsAmid_nothing fuel stack m
  unfold runAmid run runOnAmid runOn execute
  exact hturns ▸ rfl

lemma runAmid_of_none {m : Machine}
    (h : runOnAmid outside fuel moduleName name argument (s.machine token) = (none, m)) :
    s.runAmid outside fuel moduleName name argument token =
      (none, s.after m, m.notices.reverse) := by
  unfold runAmid
  dsimp only
  rw [RunM.run_bind, h]
  rfl

lemma runAmid_of_ok {m : Machine} {t : Tree}
    (h : runOnAmid outside fuel moduleName name argument (s.machine token) = (some (.ok t), m)) :
    s.runAmid outside fuel moduleName name argument token =
      (some (.ok t), s.after m, m.notices.reverse) := by
  unfold runAmid
  dsimp only
  rw [RunM.run_bind, h]
  rfl

lemma runAmid_of_error {m : Machine} {p : Problem}
    (h : runOnAmid outside fuel moduleName name argument (s.machine token) = (some (.error p), m)) :
    s.runAmid outside fuel moduleName name argument token =
      (some (.error p), s.after (RunM.tell (fun _ => .failed p) m).2,
        (RunM.tell (fun _ => .failed p) m).2.notices.reverse) := by
  unfold runAmid
  dsimp only
  rw [RunM.run_bind, h]
  rfl

lemma fst_runAmid : (s.runAmid outside fuel moduleName name argument token).1 =
    (runOnAmid outside fuel moduleName name argument (s.machine token)).1 := by
  rcases hr : runOnAmid outside fuel moduleName name argument (s.machine token) with ⟨r, m⟩
  match r with
  | none => rw [runAmid_of_none hr]
  | some (.ok t) => rw [runAmid_of_ok hr]
  | some (.error p) => rw [runAmid_of_error hr]

lemma silent_prepare (moduleName name : String) (argument : KeyMap String Stored) :
    Silent (prepare moduleName name argument) fun o => ∀ call action, o = .ok (call, action) →
      action.Quiet := by
  unfold prepare
  refine Silent.memory.bind fun memory _ => ?_
  cases memory.lookup moduleName name with
  | none => exact .pure nofun
  | some index =>
    refine (silent_compileAt index).bind fun c _ => ?_
    cases c with
    | error found => exact .pure nofun
    | ok call =>
      refine (Silent.store _).bind fun o _ => ?_
      cases o with
      | error found => exact .pure nofun
      | ok a =>
        refine (silent_construct call a).bind fun o ho => ?_
        cases o with
        | error p => exact .pure nofun
        | ok action =>
          refine .pure fun _ _ heq => ?_
          cases heq
          exact ho

lemma quiet_prepare {m m₁ : Machine} {call : CompiledCall} {action : Action}
    (h : prepare moduleName name argument m = (.ok (call, action), m₁)) : action.Quiet :=
  (silent_prepare moduleName name argument m).1 call action (congrArg Prod.fst h)

/-- A run fails before its call is set up, or it executes the call and writes out the value if there is
one. -/
lemma runOnAmid_cases {m m' : Machine} {r : Option (Outcome Tree)}
    (h : runOnAmid outside fuel moduleName name argument m = (r, m')) :
    (∃ p, prepare moduleName name argument m = (.error p, m') ∧ r = some (.error p)) ∨
      ∃ call action m₁ executed m₂,
        prepare moduleName name argument m = (.ok (call, action), m₁) ∧
        takeTurnsAmid outside fuel [Job.ofAction (action.andThen .deepen)]
          (RunM.tell (fun _ => .started call.callable) m₁).2 = (executed, m₂) ∧
        match executed with
        | none => r = none ∧ m' = m₂
        | some (.error p) => r = some (.error p) ∧ m' = m₂
        | some (.ok a) =>
          m' = (RunM.tell (fun memory => .returned call.callable (memory.kindAt a)) m₂).2 ∧
            match m'.store.memory.treeAt a with
            | some t => r = some (.ok t)
            | none => ∃ p, r = some (.error p) := by
  unfold runOnAmid at h
  rcases hprepare : prepare moduleName name argument m with ⟨prepared, m₁⟩
  rw [RunM.run_bind, hprepare] at h
  cases prepared with
  | error p =>
    cases h
    exact .inl ⟨p, rfl, rfl⟩
  | ok e =>
    obtain ⟨call, action⟩ := e
    dsimp only at h
    rw [RunM.run_bind, RunM.run_bind] at h
    rcases hturns : takeTurnsAmid outside fuel [Job.ofAction (action.andThen .deepen)]
      (RunM.tell (fun _ => .started call.callable) m₁).2 with ⟨executed, m₂⟩
    rw [hturns] at h
    refine .inr ⟨call, action, m₁, executed, m₂, rfl, hturns, ?_⟩
    match executed with
    | none =>
      cases h
      exact ⟨rfl, rfl⟩
    | some (.error p) =>
      cases h
      exact ⟨rfl, rfl⟩
    | some (.ok a) =>
      dsimp only at h ⊢
      rw [RunM.run_bind] at h
      generalize (RunM.tell (fun memory => Notice.returned call.callable (memory.kindAt a))
        m₂).2 = m₃ at h ⊢
      rw [RunM.run_bind] at h
      dsimp only [RunM.memory] at h
      cases htree : m₃.store.memory.treeAt a <;> rw [htree] at h <;> cases h
      · exact ⟨rfl, by rw [htree]; exact ⟨_, rfl⟩⟩
      · exact ⟨rfl, by rw [htree]⟩

namespace Safe

lemma machine (h : s.Safe) (token : Option String) : (s.machine token).Safe s.memory :=
  .of_complete h.complete h.rooted h.careful (.refl _) h.complete h.verdicts h.compiled
    fun _ => Std.TreeMap.getElem?_emptyc

lemma after (h : s.Safe) {m : Machine} (hm : m.Safe s.memory)
    (later : (s.machine token).Precedes m) : (s.after m).Safe := by
  have hopcodes : m.setting.opcodes = s.opcodes := by
    rw [later.setting]
    rfl
  exact ⟨h.complete, h.rooted, h.careful, hm.verdicts, fun i c hc => hopcodes ▸ hm.compiled i c hc⟩

lemma compileAt (h : s.Safe) (index : Nat) : (s.compileAt index).2.Safe := by
  obtain ⟨hsafe, later, -⟩ := safely_compileAt (h.machine none) index
  exact h.after hsafe later

end Safe

/-! ### Preparation -/

lemma not_internal_inFunction {found : List Problem} (h : ∀ p ∈ found, ¬ p.Internal) :
    ¬ (inFunction moduleName name found).Internal := by
  unfold inFunction
  cases hfirst : firstOf found with
  | none => exact Problem.not_internal_of_ordinary rfl
  | some p =>
    dsimp only
    rw [Problem.internal_add (by decide), Problem.internal_add (by decide)]
    exact Problem.not_internal_of_firstOf h hfirst

/-- An argument is converted, before there are any activations, to a slot that has its value, or it is
refused. -/
lemma safely_convert {base : Memory} {m : Machine} (h : m.Safe base) (hmemory : m.store.memory.Complete)
    (hpending : ∀ i, m.pending.get? i = none) (cell : Cell) (value : Stored) :
    Safely base m (RunM.store (StoreM.convert cell value)) fun o m' =>
      (∀ found, o = .error found → ∀ p ∈ found, ¬ p.Internal) ∧ ∀ a, o = .ok a → m'.Held a := by
  have hgives : Conversion.Gives m.store.memory _
      (Conversion.convert m.store.types cell value m.store.memory) :=
    Conversion.gives_convert cell value m.store.memory
  have hcomplete := hgives.complete hmemory
  have hsafe : Machine.Safe base { m with store := { m.store with
      memory := (Conversion.convert m.store.types cell value m.store.memory).2 } } :=
    .of_complete h.complete h.rooted h.careful (h.memory.trans hgives.isOver) hcomplete h.verdicts
      h.compiled hpending
  refine ⟨hsafe, ⟨rfl, hgives.isOver.size_le, fun a v hv => ?_, fun _ _ => id⟩, ?_, ?_⟩
  · obtain ⟨slot, hslot, hvalue⟩ := Option.bind_eq_some_iff.mp hv
    exact Option.bind_eq_some_iff.mpr ⟨slot, hgives.isOver.get?_of_some a slot hslot, hvalue⟩
  · intro found hfound p hp
    exact Problem.not_internal_of_ordinary ((hgives.refused found hfound).2 p hp)
  · intro a ha
    obtain ⟨i, hi, rfl⟩ := Memory.Carries.inside hcomplete (hgives.result a ha).choose_spec.2.2
    obtain ⟨v, hv, -⟩ := hcomplete.values i hi
    exact ⟨i, rfl, .inl (Option.isSome_iff_exists.mpr ⟨v, hv⟩)⟩

/-- **Preparation** sets up a call that can be worked on, or says what is wrong. -/
lemma safely_prepare (h : s.Safe) (token : Option String) :
    Safely s.memory (s.machine token) (prepare moduleName name argument) fun o m =>
      Proper (fun e => e.2.Safe m) o := by
  have hm := h.machine token
  refine .memory ?_
  cases (s.machine token).store.memory.lookup moduleName name with
  | none => exact .pure hm (proper_error rfl)
  | some index =>
    have hkept := recompiled_compileAt hm.keepTypes index
    obtain ⟨hsafe, later, hreliable⟩ := safely_compileAt hm index
    have hcompile : Safely s.memory (s.machine token) (Machine.compileAt index) fun c m =>
        c.Reliable s.opcodes s.memory ∧ (s.machine token).Recompiled m :=
      ⟨hsafe, later, hreliable, hkept⟩
    refine hcompile.bind fun c m₁ h₁ _ hc => ?_
    obtain ⟨hreliable, hkept⟩ := hc
    have hsetting : m₁.setting.opcodes = s.opcodes := by
      rw [hkept.setting]
      rfl
    cases c with
    | error found => exact .pure h₁ (not_internal_inFunction hreliable)
    | ok call =>
      have hcomplete : m₁.store.memory.Complete := by
        rw [hkept.memory]
        exact h.complete
      have hpending : ∀ i, m₁.pending.get? i = none := by
        rw [hkept.pending]
        exact fun _ => Std.TreeMap.getElem?_emptyc
      refine (safely_convert h₁ hcomplete hpending (argumentsCell call.argumentType)
        (.record argument)).bind fun o m₂ h₂ later₂ ho => ?_
      cases o with
      | error found => exact .pure h₂ (not_internal_inFunction (ho.1 found rfl))
      | ok a =>
        have hfits : Fits m₂.setting.opcodes s.memory call.callable call.nodes := by
          rw [later₂.setting, hsetting]
          exact hreliable
        refine (safely_construct h₂ hfits (ho.2 a rfl)).bind fun o m₃ h₃ _ ho => ?_
        cases o with
        | error p => exact .pure h₃ (not_internal_inFunction (List.forall_mem_singleton.mpr ho))
        | ok action => exact .pure h₃ ho

/-! ### Runs -/

lemma working_start {m : Machine} {action : Action} (h : action.Safe m) :
    m.Working [Job.ofAction (action.andThen .deepen)] :=
  ⟨_, Job.pursues_ofAction (h.andThen trivial), .nil _⟩

lemma safely_runOnAmid (h : s.Safe) (outside : Nat → List String) (fuel : Nat)
    (token : Option String) :
    Safely s.memory (s.machine token) (runOnAmid outside fuel moduleName name argument) fun r _ =>
      ∀ o ∈ r, Proper (fun _ => True) o := by
  refine (safely_prepare h token).bind fun o m₁ h₁ _ ho => ?_
  cases o with
  | error p =>
    refine .pure h₁ fun o' ho' => ?_
    cases ho'
    exact ho
  | ok e =>
    obtain ⟨call, action⟩ := e
    refine (Safely.tell h₁ _).bind fun _ m₂ h₂ later₂ _ => ?_
    refine (safely_takeTurnsAmid outside fuel h₂ (working_start (Action.Safe.mono later₂ ho))).bind
      fun r m₃ h₃ _ hr => ?_
    cases r with
    | none => exact .pure h₃ fun _ ho => by cases ho
    | some o =>
      have houtcome := hr o rfl
      cases o with
      | error p =>
        refine .pure h₃ fun o' ho' => ?_
        cases ho'
        exact houtcome
      | ok a =>
        refine (Safely.tell h₃ _).bind fun _ m₄ h₄ later₄ _ => .memory ?_
        obtain ⟨v, hv⟩ := Option.isSome_iff_exists.mp (later₄.valued houtcome)
        have htree : m₄.store.memory.treeAt a = some (m₄.store.memory.tree v) := by
          rw [Memory.treeAt, hv, Option.map_some]
        rw [htree]
        refine .pure h₄ fun o' ho' => ?_
        cases ho'
        trivial

/-- A run ends with a value or with a problem that does not blame the machine, and leaves a script
whose runs are safe. -/
lemma Safe.runAmid (h : s.Safe) (outside : Nat → List String) (fuel : Nat)
    (moduleName name : String) (argument : KeyMap String Stored) (token : Option String) :
    (∀ p, (s.runAmid outside fuel moduleName name argument token).1 = some (.error p) →
      ¬ p.Internal) ∧ (s.runAmid outside fuel moduleName name argument token).2.1.Safe := by
  have hwhole : Safely s.memory (s.machine token) (do
      let result ← runOnAmid outside fuel moduleName name argument
      match result with
      | some (.error p) => RunM.tell fun _ => .failed p
      | _ => pure ()
      pure result) fun r _ => ∀ o ∈ r, Proper (fun _ => True) o := by
    refine (safely_runOnAmid h outside fuel token).bind fun r m₁ h₁ _ hr => ?_
    match r with
    | none => exact .pure h₁ hr
    | some (.ok t) => exact .pure h₁ hr
    | some (.error p) => exact (Safely.tell h₁ _).bind fun _ m₂ h₂ _ _ => .pure h₂ hr
  obtain ⟨hsafe, later, hr⟩ := hwhole
  exact ⟨fun p hp => hr _ hp, h.after hsafe later⟩

lemma Safe.used (h : s₀.Safe) (hused : s₀.Used s) : s.Safe := by
  induction hused with
  | start => exact h
  | run _ outside fuel moduleName name argument token ih =>
    exact (ih.runAmid outside fuel moduleName name argument token).2
  | compile _ index ih => exact ih.compileAt index
  | cancel _ token ih => exact ⟨ih.complete, ih.rooted, ih.careful, ih.verdicts, ih.compiled⟩
  | watch _ h' ih =>
    unfold watch at h'
    split at h'
    · cases h'
    · cases h'
      exact ⟨ih.complete, ih.rooted, ih.careful, ih.verdicts, ih.compiled⟩

lemma Safe.started (h : s.Safe) {call : CompiledCall} {action : Action} {m : Machine}
    (hprepare : prepare moduleName name argument (s.machine token) = (.ok (call, action), m)) :
    m.Precedes (RunM.tell (fun _ => .started call.callable) m).2 ∧
      (RunM.tell (fun _ => .started call.callable) m).2.setting = (s.machine token).setting := by
  obtain ⟨h₁, later, -⟩ : Safely s.memory (s.machine token) (prepare moduleName name argument) _ :=
    safely_prepare h token
  rw [hprepare] at h₁ later
  obtain ⟨-, later', -⟩ := Safely.tell h₁ fun _ => .started call.callable
  exact ⟨later', later'.setting.trans later.setting⟩

lemma Safe.passes (h : s.Safe) {stack : List Job} {m : Machine}
    (hpasses : s.Passes outside moduleName name argument token stack m) :
    m.Safe s.memory ∧ m.Working stack := by
  obtain ⟨call, action, m₁, hprepare, hruns⟩ := hpasses
  obtain ⟨h₁, -, haction⟩ : Safely s.memory (s.machine token) (prepare moduleName name argument) _ :=
    safely_prepare h token
  rw [hprepare] at h₁ haction
  obtain ⟨h₂, later, -⟩ := Safely.tell h₁ fun _ => .started call.callable
  exact safe_of_runsAmid h₂ (working_start (Action.Safe.mono later haction)) hruns

/-- **A script that was loaded** with the standard opcodes has safe runs, whatever its
configuration. -/
lemma safe_of_load {natives : List Ty} {l : Loader} {config : Config} {modules : List Module}
    (hl : Loader.make Standard.opcodes natives = .ok l)
    (hs : load { l with config } modules = .ok s) : s.Safe := by
  obtain ⟨hopcodes, -, hreached, -⟩ := Loader.make_spec hl
  obtain ⟨types, memory, hlarger, hmemory, hload⟩ := load_induction hs
  rw [hreached.fresh] at hlarger
  refine hload ⟨Memory.complete_ofModules hmemory, Memory.rooted_ofModules hmemory, ?_, ?_,
    fun _ _ hc => by cases hc⟩ fun s' index hs' => hs'.compileAt index
  · intro mnemonic op hop
    change l.opcodes.get? mnemonic = some op at hop
    rw [hopcodes] at hop
    exact Standard.careful (Standard.mem_opcodes hop)
  · intro key p hp
    change types.verdicts.get? key = some (some p) at hp
    rw [(hlarger.reached hreached).verdicts] at hp
    cases hp

/-- **Runs never blame the machine.** However a script with the standard opcodes is configured and was
used before, a run of a function on an argument, amid whatever others cancel, does not end with a
problem that only a defect of the machine explains. In every state on the way no action was told of such
a problem, in particular of a slot that was not found, and every cell of an activation that is still to
be evaluated has its node and the slots of all that it refers to. -/
theorem runs_never_blame_machine {natives : List Ty} {l : Loader} {config : Config}
    {modules : List Module} (hl : Loader.make Standard.opcodes natives = .ok l)
    (hs : load { l with config } modules = .ok s₀) (hused : s₀.Used s)
    (outside : Nat → List String) (fuel : Nat) (moduleName name : String)
    (argument : KeyMap String Stored) (token : Option String) :
    (∀ p, (s.runAmid outside fuel moduleName name argument token).1 = some (.error p) →
      ¬ p.Internal) ∧
    ∀ stack m, s.Passes outside moduleName name argument token stack m →
      (∀ j ∈ stack, ∀ p ∈ j.errors, ¬ p.Internal) ∧ m.Findable := by
  have hsafe : s.Safe := (safe_of_load hl hs).used hused
  refine ⟨(hsafe.runAmid outside fuel moduleName name argument token).1, fun stack m hpasses => ?_⟩
  obtain ⟨hm, hworking⟩ := hsafe.passes hpasses
  exact ⟨hworking.errors, hm.findable⟩

/-- The sum with a call among its terms, run again with a token that is cancelled before the fifth
turn. -/
theorem sum_of_call_never_blames_machine : ∃ l s₀ s,
    Loader.make Standard.opcodes Standard.natives = .ok l ∧ load l [Sample.sums] = .ok s₀ ∧
    s₀.Used s ∧ ∀ p, (s.runAmid (fun n => if n = 4 then ["halt"] else []) 100 "m" "main" Sample.given
      (some "halt")).1 = some (.error p) → ¬ p.Internal := by
  obtain ⟨l, hl, hloaded⟩ := Sample.exists_loader
  have hused : Sample.script.Used _ := .run .start (fun _ => []) 100 "m" "main" Sample.given none
  refine ⟨l, _, _, hl, hloaded, hused, ?_⟩
  exact (runs_never_blame_machine hl hloaded hused _ 100 "m" "main" Sample.given
    (some "halt")).1

end Script

end CellMachine
