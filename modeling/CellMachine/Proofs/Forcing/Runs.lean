import CellMachine.Proofs.Forcing.Steps
import CellMachine.Proofs.Script.Effects
import CellMachine.Proofs.Twins.Opcodes

/-!
What opcodes and callers are given. Whatever a script's opcodes are, by the time one is applied its
arguments are evaluated as it declares, and nothing was done for those that it takes lazily; and the
value that a run returns has no member, at any depth, that is not evaluated.
-/

namespace CellMachine

open Machine

/-- How far an argument is evaluated before the opcode runs, if it is. -/
def Evaluation.depth? : Evaluation → Option Depth
  | .evaluated => some .deep
  | .shallow => some .shallow
  | .lazy => none

namespace Invocation

/-- An argument that is declared to be evaluated to a depth. -/
def Declares (i : Invocation) (a : Address) (depth : Depth) : Prop :=
  ∃ d, (d, a) ∈ i.opcode.signature.arguments.zip i.args ∧ d.evaluation.depth? = some depth

lemma mem_dependencies {i : Invocation} {d : Action} :
    d ∈ i.action.dependencies ↔ ∃ a depth, i.Declares a depth ∧ d = .evaluate a depth := by
  show d ∈ List.filterMap _ _ ↔ _
  rw [List.mem_filterMap]
  constructor
  · rintro ⟨⟨declared, a⟩, he, hd⟩
    cases hevaluation : declared.evaluation with
    | evaluated =>
      rw [hevaluation] at hd
      cases hd
      exact ⟨a, .deep, ⟨declared, he, by rw [hevaluation]; rfl⟩, rfl⟩
    | shallow =>
      rw [hevaluation] at hd
      cases hd
      exact ⟨a, .shallow, ⟨declared, he, by rw [hevaluation]; rfl⟩, rfl⟩
    | lazy =>
      rw [hevaluation] at hd
      cases hd
  · rintro ⟨a, depth, ⟨declared, he, hdepth⟩, rfl⟩
    refine ⟨(declared, a), he, ?_⟩
    cases hevaluation : declared.evaluation <;> rw [hevaluation] at hdepth <;> cases hdepth <;> rfl

end Invocation

namespace Job

/-- A job that applies the opcode of an invocation in the next turn: it waits for nothing more, and
nothing that it waited for failed. -/
structure Invokes (j : Job) (i : Invocation) : Prop where
  work : j.work = .invoke i
  waiting : j.waiting = []
  errors : j.errors = []

/-- A job for an action that brings a slot to a depth. -/
def Evaluates (j : Job) (a : Address) (depth : Depth) : Prop :=
  ∃ action : Action, action.Brings depth a ∧ j.work = action.work ∧ j.waiting <:+ action.dependencies

end Job

namespace Script

/-- What a run of a script relies on, whatever its opcodes are. -/
structure Lasting (s : Script) : Prop where
  opcodes : s.opcodes.Keep
  compiled : ∀ i c, s.compiled.get? i = some c → c.Keeps

variable {s s₀ : Script} {moduleName name : String} {argument : KeyMap String Stored}
  {outside : Nat → List String} {fuel : Nat} {token : Option String}

lemma Lasting.machine (h : s.Lasting) (token : Option String) : (s.machine token).Lasting :=
  ⟨h.opcodes, h.compiled, fun i p hp => absurd hp (not_pending_machine i p)⟩

lemma Lasting.of_machine (h : (s.machine token).Lasting) : s.Lasting := ⟨h.opcodes, h.compiled⟩

/-- Around the turns values last as well. -/
lemma governs_forcing : Regime.forcing.Governs CompiledCall.Keeps where
  lawful := Regime.lawful_forcing
  whole _ _ := (Action.forcing_evaluate _ _).andThen trivial
  tell f h := Lasts.tell h f
  compileAt i h := lasts_compileAt h i
  grow h hover := ⟨h.congr rfl rfl rfl, hover.isKeeps⟩
  construct argument h hcall := lasts_construct h hcall argument
  start h hm hopcodes hcompiled :=
    Lasting.machine ⟨hopcodes.symm ▸ h.opcodes, hcompiled.symm ▸ hm.compiled⟩ _

namespace Lasting

/-- **What a run returns** is written out without gaps; whatever it comes to, values last. -/
lemma runAmid (h : s.Lasting) (outside : Nat → List String) (fuel : Nat) (moduleName name : String)
    (argument : KeyMap String Stored) (token : Option String) :
    (s.runAmid outside fuel moduleName name argument token).2.1.Lasting ∧
      ∀ t, (s.runAmid outside fuel moduleName name argument token).1 = some (.ok t) → t.Whole := by
  refine ⟨.of_machine (governs_forcing.runAmid (h.machine none) outside fuel moduleName name argument
    token), fun t ht => ?_⟩
  rw [fst_runAmid] at ht
  obtain ⟨-, -, hcomes⟩ := governs_forcing.runOnAmid (h.machine token) (Prod.ext ht rfl)
  obtain ⟨result, a, hbrought, htree⟩ := hcomes t rfl
  obtain ⟨rfl, hforced⟩ := hbrought .deep result (.deepened rfl .evaluate)
  exact hforced.whole htree

lemma used (h : s₀.Lasting) (hused : s₀.Used s) : s.Lasting :=
  .of_machine (governs_forcing.used (h.machine none) hused)

lemma passes (h : s.Lasting) {stack : List Job} {m : Machine}
    (hpasses : s.Passes outside moduleName name argument token stack m) :
    ∃ whole, Regime.forcing.Working m whole stack :=
  (governs_forcing.passes (h.machine token) hpasses).2.2

end Lasting

/-- **A script that was loaded** with opcodes that keep memory has runs on which values last. -/
lemma lasting_of_load {opcodes : List Opcode} {natives : List Ty} {l : Loader} {config : Config}
    {modules : List Module} (hopcodes : ∀ op ∈ opcodes, op.Keeps)
    (hl : Loader.make opcodes natives = .ok l)
    (hs : load { l with config } modules = .ok s) : s.Lasting := by
  obtain ⟨happlies, -⟩ := applies_of_load hopcodes hl hs
  exact ⟨happlies.opcodes, fun i c hc call hcall => (happlies.compiled i c hc call hcall).keeps⟩

/-! ### What opcodes and callers are given -/

section Working

variable {m : Machine} {whole : Action} {stack : List Job} {i : Invocation}

lemma evaluatedTo_of_invokes {top : Job} {below : List Job}
    (h : Regime.forcing.Working m whole (top :: below)) (htop : top.Invokes i) {a : Address}
    {depth : Depth} (ha : i.Declares a depth) : m.store.memory.EvaluatedTo depth a := by
  obtain ⟨action, hpursues, -⟩ := h
  obtain ⟨bs, hbs⟩ := hpursues.came htop.waiting htop.errors
  have hwork : action.work = .invoke i := hpursues.work.symm.trans htop.work
  have hforcing := hpursues.1.here
  rw [hwork] at hforcing
  refine evaluatedTo_of_brought hbs ?_
  rw [hforcing.2]
  exact Invocation.mem_dependencies.mpr ⟨a, depth, ha, rfl⟩

lemma declares_of_pursues {j : Job} {action d : Action} {missing : List Action}
    (h : Regime.forcing.Pursues m action missing j) (hj : j.work = .invoke i)
    (hd : d ∈ action.dependencies) : ∃ a depth, i.Declares a depth ∧ d = .evaluate a depth := by
  have hwork : action.work = .invoke i := h.work.symm.trans hj
  have hforcing := h.1.here
  rw [hwork] at hforcing
  rw [hforcing.2] at hd
  exact Invocation.mem_dependencies.mp hd

lemma evaluates_of_neighbour {above below : List Job} {k j : Job}
    (h : Regime.forcing.Working m whole (above ++ k :: j :: below)) (hj : j.work = .invoke i) :
    ∃ a depth, i.Declares a depth ∧ k.Evaluates a depth := by
  obtain ⟨action, c, d, missing, hk, hpursues, hserves⟩ := h.neighbours
  have hd : d ∈ c.dependencies := by
    obtain ⟨-, done, os, hdeps, -, -⟩ := hpursues
    rw [hdeps]
    simp
  obtain ⟨a, depth, hdeclares, rfl⟩ := declares_of_pursues hpursues hj hd
  exact ⟨a, depth, hdeclares, action, hserves depth a .evaluate, hk.work, hk.waiting⟩

end Working

/-- **Opcodes see their arguments evaluated as declared, and results come back fully forced.** Take any
script, with whatever opcodes that keep memory, however it is configured and was used before, and a run
of a function amid whatever others cancel. Whenever an opcode is applied, its arguments are evaluated as
far as it declares. An invocation waits for no argument that is declared lazy, and what is done right
above it on the stack brings it one that is not. A value that the run returns is written out without
gaps: every member at any depth is evaluated. -/
theorem opcodes_see_evaluated_arguments {opcodes : List Opcode} {natives : List Ty} {l : Loader}
    {config : Config} {modules : List Module} (hopcodes : ∀ op ∈ opcodes, op.Keeps)
    (hl : Loader.make opcodes natives = .ok l) (hs : load { l with config } modules = .ok s₀)
    (hused : s₀.Used s) (outside : Nat → List String) (fuel : Nat) (moduleName name : String)
    (argument : KeyMap String Stored) (token : Option String) :
    (∀ stack m, s.Passes outside moduleName name argument token stack m →
      (∀ top below i, stack = top :: below → top.Invokes i →
        ∀ a depth, i.Declares a depth → m.store.memory.EvaluatedTo depth a) ∧
      (∀ j ∈ stack, ∀ i, j.work = .invoke i →
        ∀ d ∈ j.waiting, ∃ a depth, i.Declares a depth ∧ d = .evaluate a depth) ∧
      ∀ above k j below i, stack = above ++ k :: j :: below → j.work = .invoke i →
        ∃ a depth, i.Declares a depth ∧ k.Evaluates a depth) ∧
    ∀ t, (s.runAmid outside fuel moduleName name argument token).1 = some (.ok t) → t.Whole := by
  have hlasting : s.Lasting := (lasting_of_load hopcodes hl hs).used hused
  refine ⟨fun stack m hpasses => ?_,
    (hlasting.runAmid outside fuel moduleName name argument token).2⟩
  obtain ⟨whole, hworking⟩ := hlasting.passes hpasses
  refine ⟨?_, fun j hj i hi d hd => ?_, ?_⟩
  · rintro top below i rfl hi a depth ha
    exact evaluatedTo_of_invokes hworking hi ha
  · obtain ⟨action, missing, hpursues⟩ := hworking.pursues j hj
    exact declares_of_pursues hpursues hi (hpursues.waiting.subset hd)
  · rintro above k j below i rfl hi
    exact evaluates_of_neighbour hworking hi

end Script

/-! ### The standard opcodes -/

namespace Standard

lemma memory_loadConst (frame : Frame) (s : Store) :
    (loadConst.evaluate frame s).2.memory = s.memory := by
  simp only [loadConst, StoreM.run_bind, StoreM.run_memory]
  cases stringArg frame s.memory 0 with
  | none => rfl
  | some moduleName =>
    cases stringArg frame s.memory 1 with
    | none => rfl
    | some name =>
      dsimp only
      rw [StoreM.run_bind]
      rcases findConstant frame moduleName name s.types with ⟨_ | _, types⟩
      · rfl
      · dsimp only
        cases (s.memory.lookup moduleName name).bind s.memory.address? <;> rfl

/-- The standard opcodes only read memory. -/
lemma memory_evaluate {op : Opcode} (hop : op ∈ opcodes) (frame : Frame) (s : Store) :
    (op.evaluate frame s).2.memory = s.memory := by
  rcases reads_evaluate hop frame with rfl | hreads
  · exact memory_loadConst frame s
  · obtain ⟨r, -, hr⟩ := hreads s.memory
    rw [hr s rfl]

lemma keeps_of_mem {op : Opcode} (hop : op ∈ opcodes) : op.Keeps := by
  intro frame s
  rw [memory_evaluate hop]
  exact .refl _

end Standard

/-- The sum with a call among its terms, run again. -/
theorem Script.opcodes_of_sum_see_evaluated_arguments : ∃ l s₀ s,
    Loader.make Standard.opcodes Standard.natives = .ok l ∧ load l [Sample.sums] = .ok s₀ ∧
    (∀ op ∈ Standard.opcodes, op.Keeps) ∧ s₀.Used s ∧
    (∀ stack m, s.Passes (fun _ => []) "m" "main" Sample.given none stack m →
      ∀ top below i, stack = top :: below → top.Invokes i →
        ∀ a depth, i.Declares a depth → m.store.memory.EvaluatedTo depth a) ∧
    ∀ t, (s.runAmid (fun _ => []) 100 "m" "main" Sample.given none).1 = some (.ok t) →
      t.Whole := by
  obtain ⟨l, hl, hloaded⟩ := Sample.exists_loader
  have hkeep : ∀ op ∈ Standard.opcodes, op.Keeps := fun op hop => Standard.keeps_of_mem hop
  have hused : Sample.script.Used _ := .run .start (fun _ => []) 100 "m" "main" Sample.given none
  obtain ⟨hpasses, hwhole⟩ := opcodes_see_evaluated_arguments hkeep hl hloaded hused (fun _ => [])
    100 "m" "main" Sample.given none
  exact ⟨l, _, _, hl, hloaded, hkeep, hused, fun stack m h => (hpasses stack m h).1, hwhole⟩

end CellMachine
