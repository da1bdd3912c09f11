import CellMachine.Proofs.Ranking.Turns
import CellMachine.Proofs.Safety.Runs

/-!
Cells are evaluated once. A run starts with all slots at one rank; from there on its stack goes down, so
that a cell is never at work while it is at work already, nor once it has its value.
-/

namespace CellMachine

open Machine

namespace Machine

variable {base : Memory} {m : Machine}

lemma rank_zero (a : Address) : a.rank (fun _ => 0) = 0 := by
  cases a <;> rfl

lemma layered_zero (h : m.Safe base) (hmemory : m.store.memory.Complete)
    (hpending : ∀ i, m.pending.get? i = none) : m.Layered base fun _ => 0 where
  toSafe := h
  constants _ _ := le_rfl
  members a v hv := by
    obtain ⟨i, hi, rfl⟩ := h.inside_of_held (h.held_of_valued (Option.isSome_iff_exists.mpr ⟨v, hv⟩))
    obtain ⟨w, hw, hwithin⟩ := hmemory.values i hi
    cases hv.symm.trans hw
    refine hwithin.mono fun b hb => ⟨hb, ?_⟩
    rw [rank_zero, rank_zero]
    exact LowerSet.mem_Iic_iff.mpr le_rfl
  cells i p hp := by
    rw [hpending] at hp
    cases hp

end Machine

namespace Script

variable {s s₀ : Script} {moduleName name : String} {argument : KeyMap String Stored}
  {outside : Nat → List String} {token : Option String}

lemma complete_convert {m : Machine} (hmemory : m.store.memory.Complete) (cell : Cell)
    (value : Stored) :
    (RunM.store (StoreM.convert cell value) m).2.store.memory.Complete := by
  have hgives : Conversion.Gives m.store.memory _
      (Conversion.convert m.store.types cell value m.store.memory) :=
    Conversion.gives_convert cell value m.store.memory
  exact hgives.complete hmemory

/-- **Preparation** sets up a call that goes down. -/
lemma descends_prepare (h : s.Safe) (token : Option String) :
    Safely s.memory (s.machine token) (prepare moduleName name argument) fun o m =>
      ∀ call action, o = .ok (call, action) →
        ∃ ρ, m.Layered s.memory ρ ∧ action.Descends m ρ (.Iio 1) := by
  have hm := h.machine token
  refine .memory ?_
  cases (s.machine token).store.memory.lookup moduleName name with
  | none => exact .pure hm nofun
  | some index =>
    have hkept := recompiled_compileAt hm.keepTypes index
    obtain ⟨hsafe, later, hreliable⟩ := safely_compileAt hm index
    have hcompile : Safely s.memory (s.machine token) (Machine.compileAt index) fun c m =>
        c.Reliable s.opcodes s.memory ∧ (s.machine token).Recompiled m :=
      ⟨hsafe, later, hreliable, hkept⟩
    refine hcompile.bind fun c m₁ h₁ _ hc => ?_
    obtain ⟨hreliable, hkept⟩ := hc
    cases c with
    | error found => exact .pure h₁ nofun
    | ok call =>
      have hcomplete : m₁.store.memory.Complete := by
        rw [hkept.memory]
        exact h.complete
      -- Nothing waits before the first call, so all slots are of rank zero.
      have hpending : ∀ i, m₁.pending.get? i = none := by
        rw [hkept.pending]
        exact fun _ => Std.TreeMap.getElem?_emptyc
      let cell := argumentsCell call.argumentType
      have hconvert : Safely s.memory m₁ (RunM.store (StoreM.convert cell (.record argument)))
          fun o m => (∀ a, o = .ok a → m.Held a) ∧ m.store.memory.Complete ∧
            (∀ i, m.pending.get? i = none) ∧ m.setting.opcodes = s.opcodes := by
        obtain ⟨h₂, later₂, -, hheld⟩ := safely_convert h₁ hcomplete hpending cell (.record argument)
        refine ⟨h₂, later₂, hheld, complete_convert hcomplete cell _, hpending, ?_⟩
        rw [later₂.setting, hkept.setting]
        rfl
      refine hconvert.bind fun o m₂ h₂ _ ho => ?_
      obtain ⟨hheld, hcomplete₂, hpending₂, hopcodes⟩ := ho
      cases o with
      | error found => exact .pure h₂ nofun
      | ok a =>
        have hfits : Fits m₂.setting.opcodes s.memory call.callable call.nodes := by
          rw [hopcodes]
          exact hreliable
        have hbelow : m₂.Among (fun _ => 0) (.Iio 1) a := by
          refine ⟨h₂.inside_of_held (hheld a rfl), ?_⟩
          rw [rank_zero]
          exact LowerSet.mem_Iio_iff.mpr one_pos
        have hconstruct := confines_construct (layered_zero h₂ hcomplete₂ hpending₂) hfits
          (hheld a rfl) hbelow one_pos
        refine hconstruct.safely.bind fun o m₃ h₃ _ ho => ?_
        obtain ⟨ρ, hlayered, hdescends⟩ := ho
        cases o with
        | error p => exact .pure h₃ nofun
        | ok action =>
          refine .pure h₃ ?_
          rintro _ _ ⟨⟩
          exact ⟨ρ, hlayered, hdescends action rfl⟩

lemma Safe.graded (h : s.Safe) {stack : List Job} {m : Machine}
    (hpasses : s.Passes outside moduleName name argument token stack m) :
    m.Graded s.memory stack := by
  obtain ⟨call, action, m₁, hprepare, hruns⟩ := hpasses
  obtain ⟨h₁, -, haction⟩ : Safely s.memory (s.machine token) (prepare moduleName name argument) _ :=
    safely_prepare h token
  obtain ⟨-, -, hdescends⟩ : Safely s.memory (s.machine token)
      (prepare moduleName name argument) _ := descends_prepare h token
  rw [hprepare] at h₁ haction hdescends
  obtain ⟨ρ, hlayered, hdescends⟩ := hdescends call action rfl
  obtain ⟨h₂, later, -⟩ := Safely.tell h₁ fun _ => .started call.callable
  obtain ⟨ρ', hlayered', hconfined, -⟩ :=
    Confines.tell (U := ⊥) hlayered fun _ => .started call.callable
  have hstart : (action.andThen .deepen).Descends (RunM.tell (fun _ => .started call.callable) m₁).2
      ρ' (.Iio 1) :=
    Action.Descends.andThen (hdescends.calm hconfined) trivial (Work.fresh_of_none rfl)
  have hgraded : Graded s.memory [Job.ofAction (action.andThen .deepen)]
      (RunM.tell (fun _ => .started call.callable) m₁).2 :=
    ⟨working_start (Action.Safe.mono later haction), ρ', hlayered', _, Job.descends_ofAction hstart,
      .nil _⟩
  exact (hgraded.runsAmid hruns).1

/-- **Cells are evaluated once.** However a script with the standard opcodes is configured and was used
before, take any state that a run of a function passes, amid whatever others cancel, and any later one.
Values stay as they are, up to the last turn. Each cell of an activation keeps its slot, and work for the
cell is work for that slot: once the slot has a value, no job on the stack is about to invoke the cell's
opcode or to start its call, or still at work with either. At no time do two jobs on the stack produce
the value of one slot, so that what is in progress is not started again. -/
theorem cells_are_evaluated_once {natives : List Ty} {l : Loader} {config : Config}
    {modules : List Module} (hl : Loader.make Standard.opcodes natives = .ok l)
    (hs : load { l with config } modules = .ok s₀) (hused : s₀.Used s)
    (outside : Nat → List String) (moduleName name : String) (argument : KeyMap String Stored)
    (token : Option String) {stack stack' : List Job} {m m' : Machine}
    (hpasses : s.Passes outside moduleName name argument token stack m)
    (hruns : RunsAmid outside stack m stack' m') :
    (∀ a v, m.store.memory.value? a = some v → m'.store.memory.value? a = some v ∧
      ∀ t m'', turn stack' (m'.disturbed outside) = (t, m'') → m''.store.memory.value? a = some v) ∧
    (∀ i p, m.pending.get? i = some p → m'.pending.get? i = some p ∧
      p.activation.slots.get? p.node = some (.at i) ∧
      (∀ action a, (nodeAction p m').1 = .ok action → action.work.produces? = some a → a = .at i) ∧
      ((m.store.memory.value? (.at i)).isSome = true →
        ∀ j ∈ stack', j.work.produces? ≠ some (.at i))) ∧
    stack'.Pairwise fun j k => ∀ a, j.work.produces? = some a → k.work.produces? ≠ some a := by
  have hgraded := Safe.graded ((safe_of_load hl hs).used hused) hpasses
  obtain ⟨hgraded', later⟩ := hgraded.runsAmid hruns
  obtain ⟨ρ, -, hdescending⟩ := hgraded'.descending
  refine ⟨fun a v hv => ⟨later.values a v hv, fun t m'' hturn => ?_⟩, fun i p hp => ?_,
    hdescending.pairwise⟩
  · obtain ⟨-, later', -⟩ := safe_of_turn hgraded'.safe hgraded'.working hturn
    exact later'.values a v (later.values a v hv)
  · have hown := (hgraded.safe.pending i p hp).own
    have hpending := later.pending i p hp
    refine ⟨hpending, hown, fun action a haction ha => ?_, fun hsome j hj hproduces => ?_⟩
    · exact Option.some.inj (((silent_produces p m').1 action haction a ha).symm.trans hown)
    · obtain ⟨v, hv⟩ := Option.isSome_iff_exists.mp hsome
      have hnone := hdescending.fresh j hj i hproduces (Option.isSome_iff_exists.mpr ⟨p, hpending⟩)
      cases hnone.symm.trans (later.values _ v hv)

/-- The first turn of a run that nothing stops: what the call is to give is put on the stack. -/
lemma runs_first (h : s.Safe) (hlimit : s.config.maxSteps = none) {call : CompiledCall}
    {action : Action} {m : Machine}
    (hprepare : prepare moduleName name argument (s.machine none) = (.ok (call, action), m)) :
    RunsAmid (fun _ => []) [Job.ofAction (action.andThen .deepen)]
      (RunM.tell (fun _ => .started call.callable) m).2
      [Job.ofAction action, { Job.ofAction (action.andThen .deepen) with waiting := [] }]
      (RunM.tell (fun _ => .started call.callable) m).2.tick := by
  obtain ⟨-, hsetting⟩ := h.started hprepare
  generalize (RunM.tell (fun _ => .started call.callable) m).2 = m' at hsetting
  have hfree : m'.Free := by
    rw [Free, hsetting]
    exact ⟨hlimit, rfl⟩
  exact .step (turn_of_free hfree _) (.refl _ _)

/-- The sum with a call among its terms, from the start of its run to what its first turn leaves. -/
theorem sum_of_call_evaluates_cells_once : ∃ l stack m stack' m',
    Loader.make Standard.opcodes Standard.natives = .ok l ∧
    load l [Sample.sums] = .ok Sample.script ∧ Sample.script.Used Sample.script ∧
    Sample.script.Passes (fun _ => []) "m" "main" Sample.given none stack m ∧
    RunsAmid (fun _ => []) stack m stack' m' ∧ stack.length < stack'.length ∧
    (∀ i p, m.pending.get? i = some p → (m.store.memory.value? (.at i)).isSome = true →
      ∀ j ∈ stack', j.work.produces? ≠ some (.at i)) ∧
    stack'.Pairwise fun j k => ∀ a, j.work.produces? = some a → k.work.produces? ≠ some a := by
  obtain ⟨l, hl, hloaded⟩ := Sample.exists_loader
  have hprepared : (prepare "m" "main" Sample.given (Sample.script.machine none)).1.isOk = true ∧
      Sample.script.config.maxSteps = none := by
    decide +kernel
  obtain ⟨hprepared, hlimit⟩ := hprepared
  rcases hprepare : prepare "m" "main" Sample.given (Sample.script.machine none) with
    ⟨_ | ⟨call, action⟩, m₁⟩
  · rw [hprepare] at hprepared
    cases hprepared
  · have hpasses : Sample.script.Passes (fun _ => []) "m" "main" Sample.given none _ _ :=
      ⟨call, action, m₁, hprepare, .refl _ _⟩
    have hruns := runs_first (safe_of_load hl hloaded) hlimit hprepare
    obtain ⟨-, hcells, hapart⟩ := cells_are_evaluated_once hl hloaded .start (fun _ => []) "m"
      "main" Sample.given none hpasses hruns
    exact ⟨l, _, _, _, _, hl, hloaded, .start, hpasses, hruns, Nat.lt_succ_self 1,
      fun i p hp => (hcells i p hp).2.2.2, hapart⟩

end Script

end CellMachine
