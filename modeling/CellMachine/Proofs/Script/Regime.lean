import CellMachine.Proofs.Machine.Regime
import CellMachine.Proofs.Safety.Runs

/-!
What uses of a script keep to. Before the first turn of a run its call is set up, and after the last one
the outcome is told; where that stays within the regime of the turns, runs do as a whole, however they
end, and so does whatever the script is used for later.
-/

namespace CellMachine

open Machine

namespace Regime

/-- A computation that stays within the regime, and whose result has a property. -/
def Stays {α : Type} (R : Regime) (m : Machine) (x : RunM α) (Q : α → Prop) : Prop :=
  R.holds (x m).2 ∧ R.later m (x m).2 ∧ Q (x m).1

/-- **What governs the uses of scripts**: beside the turns, all that a run or a compilation does stays
within the regime, where the calls that come of compilation are good to be set up. When a run starts no
cell is waiting to be evaluated, so all that counts then are the opcodes and what is compiled. -/
structure Governs (R : Regime) (good : CompiledCall → Prop) : Prop where
  lawful : R.Lawful
  whole : ∀ m result, R.sound m ((Action.evaluate result .shallow).andThen .deepen)
  tell : ∀ {m} f, R.holds m → R.Stays m (RunM.tell f) fun _ => True
  compileAt : ∀ {m} i, R.holds m → R.Stays m (compileAt i) fun c => ∀ call, c = .ok call → good call
  grow : ∀ {m memory}, R.holds m → m.store.memory.Over memory →
    R.holds { m with store := { m.store with memory } } ∧
      R.later m { m with store := { m.store with memory } }
  construct : ∀ {m call} argument, R.holds m → good call → R.Stays m (construct call argument)
    fun o => ∀ action, o = .ok action → ∃ result, action = .evaluate result .shallow
  start : ∀ {s s' : Script} {m token token'}, R.holds (s.machine token) → R.holds m →
    s'.opcodes = s.opcodes → s'.compiled = m.compiled → R.holds (s'.machine token')

namespace Governs

variable {R : Regime} {good : CompiledCall → Prop} {m m' : Machine} {s s₀ : Script}
  {moduleName name : String} {argument : KeyMap String Stored} {outside : Nat → List String}
  {fuel : Nat} {token : Option String} {stack : List Job}

section Computations

variable {α β : Type} {x : RunM α} {Q : α → Prop} {Q' : β → Prop}

lemma pure (hR : R.Governs good) (h : R.holds m) {a : α} (ha : Q a) : R.Stays m (pure a) Q :=
  ⟨h, hR.lawful.refl m, ha⟩

lemma bind (hR : R.Governs good) {f : α → RunM β} (hx : R.Stays m x Q)
    (hf : ∀ a m', R.holds m' → Q a → R.Stays m' (f a) Q') : R.Stays m (x >>= f) Q' := by
  obtain ⟨h, later, ha⟩ := hx
  obtain ⟨h', later', hb⟩ := hf _ _ h ha
  exact ⟨h', hR.lawful.trans later later', hb⟩

end Computations

/-! ### Runs -/

/-- **Preparation** sets up an evaluation of the call's result, or fails. -/
lemma prepare (hR : R.Governs good) (h : R.holds m) (moduleName name : String)
    (argument : KeyMap String Stored) : R.Stays m (Script.prepare moduleName name argument) fun o =>
      ∀ e, o = .ok e → ∃ result, e.2 = .evaluate result .shallow := by
  unfold Script.prepare
  refine hR.bind (x := RunM.memory) (Q := fun _ => True) ⟨h, hR.lawful.refl m, trivial⟩
    fun memory m₁ h₁ _ => ?_
  cases memory.lookup moduleName name with
  | none => exact hR.pure h₁ nofun
  | some index =>
    refine hR.bind (hR.compileAt index h₁) fun c m₂ h₂ hc => ?_
    cases c with
    | error found => exact hR.pure h₂ nofun
    | ok call =>
      have hgives : Conversion.Gives m₂.store.memory _ (Conversion.convert m₂.store.types
          (Script.argumentsCell call.argumentType) (.record argument) m₂.store.memory) :=
        Conversion.gives_convert _ _ _
      obtain ⟨hconverted, later⟩ := hR.grow h₂ hgives.isOver
      refine hR.bind (Q := fun _ => True) ⟨hconverted, later, trivial⟩ fun o m₃ h₃ _ => ?_
      cases o with
      | error found => exact hR.pure h₃ nofun
      | ok a =>
        refine hR.bind (hR.construct a h₃ (hc call rfl)) fun o m₄ h₄ ho => ?_
        cases o with
        | error p => exact hR.pure h₄ nofun
        | ok action =>
          refine hR.pure h₄ ?_
          rintro _ ⟨⟩
          exact ho action rfl

lemma started (hR : R.Governs good) (h : R.holds m) {call : CompiledCall} {action : Action}
    {m₁ : Machine} (hprepare : Script.prepare moduleName name argument m = (.ok (call, action), m₁)) :
    let m₂ := (RunM.tell (fun _ => .started call.callable) m₁).2
    R.holds m₂ ∧ R.later m m₂ ∧ ∃ result, action = .evaluate result .shallow ∧
      R.Working m₂ (action.andThen .deepen) [Job.ofAction (action.andThen .deepen)] := by
  obtain ⟨h₁, later, hresult⟩ := hR.prepare h moduleName name argument
  rw [hprepare] at h₁ later hresult
  obtain ⟨result, rfl⟩ := hresult _ rfl
  obtain ⟨h₂, later', -⟩ := hR.tell (fun _ => .started call.callable) h₁
  exact ⟨h₂, hR.lawful.trans later later', result, rfl,
    working_ofAction hR.lawful (hR.whole _ result)⟩

/-- **A run** keeps to the regime, however it ends, and a value that it ends with is written out from a
slot that the evaluation of the call's result may come to. -/
lemma runOnAmid (hR : R.Governs good) (h : R.holds m) {r : Option (Outcome Tree)}
    (hr : Script.runOnAmid outside fuel moduleName name argument m = (r, m')) :
    R.holds m' ∧ R.later m m' ∧ ∀ t, r = some (.ok t) → ∃ result a,
      R.comes m' ((Action.evaluate result .shallow).andThen .deepen) a ∧
        m'.store.memory.treeAt a = some t := by
  obtain ⟨p, hprepare, rfl⟩ | ⟨call, action, m₁, executed, m₂, hprepare, hturns, hend⟩ :=
    Script.runOnAmid_cases hr
  · obtain ⟨h₁, later, -⟩ := hR.prepare h moduleName name argument
    rw [hprepare] at h₁ later
    exact ⟨h₁, later, nofun⟩
  · obtain ⟨h₁, later, result, rfl, hworking⟩ := hR.started h hprepare
    obtain ⟨h₂, later', hcomes⟩ := hR.lawful.takeTurnsAmid h₁ hworking hturns
    have executing := hR.lawful.trans later later'
    match executed with
    | none =>
      obtain ⟨rfl, rfl⟩ := hend
      exact ⟨h₂, executing, nofun⟩
    | some (.error p) =>
      obtain ⟨rfl, rfl⟩ := hend
      exact ⟨h₂, executing, nofun⟩
    | some (.ok a) =>
      obtain ⟨rfl, htree⟩ := hend
      obtain ⟨h₃, told, -⟩ := hR.tell (fun memory => .returned call.callable (memory.kindAt a)) h₂
      refine ⟨h₃, hR.lawful.trans executing told, ?_⟩
      rintro t rfl
      refine ⟨result, a, hR.lawful.comes told (hcomes a rfl), ?_⟩
      split at htree
      · next t' ht =>
        cases htree
        exact ht
      · obtain ⟨p, hp⟩ := htree
        cases hp

/-- **Every state that a run passes** keeps to the regime, and its stack works. -/
lemma passes (hR : R.Governs good) (h : R.holds (s.machine token))
    (hpasses : s.Passes outside moduleName name argument token stack m) :
    R.holds m ∧ R.later (s.machine token) m ∧ ∃ whole, R.Working m whole stack := by
  obtain ⟨call, action, m₁, hprepare, hruns⟩ := hpasses
  obtain ⟨h₁, later, -, -, hworking⟩ := hR.started h hprepare
  obtain ⟨hm, later', hworking'⟩ := hR.lawful.runsAmid h₁ hworking hruns
  exact ⟨hm, hR.lawful.trans later later', _, hworking'⟩

/-! ### Uses -/

lemma machine (hR : R.Governs good) (h : R.holds (s.machine none)) (token : Option String) :
    R.holds (s.machine token) :=
  hR.start h h rfl rfl

lemma runAmid (hR : R.Governs good) (h : R.holds (s.machine none)) (outside : Nat → List String)
    (fuel : Nat) (moduleName name : String) (argument : KeyMap String Stored)
    (token : Option String) :
    R.holds ((s.runAmid outside fuel moduleName name argument token).2.1.machine none) := by
  rcases hr : Script.runOnAmid outside fuel moduleName name argument (s.machine token) with ⟨r, m⟩
  obtain ⟨hm, -, -⟩ := hR.runOnAmid (hR.machine h token) hr
  match r with
  | none =>
    rw [Script.runAmid_of_none hr]
    exact hR.start h hm rfl rfl
  | some (.ok t) =>
    rw [Script.runAmid_of_ok hr]
    exact hR.start h hm rfl rfl
  | some (.error p) =>
    rw [Script.runAmid_of_error hr]
    exact hR.start h (hR.tell (fun _ => .failed p) hm).1 rfl rfl

lemma compiled (hR : R.Governs good) (h : R.holds (s.machine none)) (index : Nat) :
    R.holds ((s.compileAt index).2.machine none) :=
  hR.start h (hR.compileAt index h).1 rfl rfl

/-- **However a script is used**, its runs start within the regime. -/
lemma used (hR : R.Governs good) (h : R.holds (s₀.machine none)) (hused : s₀.Used s) :
    R.holds (s.machine none) := by
  induction hused with
  | start => exact h
  | run _ outside fuel moduleName name argument token ih =>
    exact hR.runAmid ih outside fuel moduleName name argument token
  | compile _ index ih => exact hR.compiled ih index
  | cancel _ token ih => exact hR.start ih ih rfl rfl
  | watch _ h' ih =>
    unfold Script.watch at h'
    split at h'
    · cases h'
    · cases h'
      exact hR.start ih ih rfl rfl

end Governs

end Regime

end CellMachine
