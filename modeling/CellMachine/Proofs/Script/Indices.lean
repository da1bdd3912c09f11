import CellMachine.Proofs.Forcing.Runs
import CellMachine.Proofs.Machine.Entries
import CellMachine.Proofs.Script.Effects

/-!
What an index tells during a run. The slots of constants come first, and whatever is allocated follows in
the order of its allocation, from wherever in a run that is done. So an index stands for one slot as long
as the run lasts; and as the cells of activations are entered under the indices of their slots, a slot
that has no value yet is found by its index to be the cell that it was made for, and no other.
-/

namespace CellMachine

open Machine

namespace Memory

variable {m : Memory} {i : Nat} {a : Address}

lemma address?_eq_some_iff :
    m.address? i = some a ↔ a.index? = some i ∧ (m.get? a).isSome = true := by
  cases a with
  | «at» j =>
    simp only [address?, Address.index?, Memory.get?, Option.ite_none_right_eq_some, Option.some.injEq,
      Address.at.injEq, isSome_getElem?]
    constructor
    · rintro ⟨hlt, rfl⟩
      exact ⟨rfl, hlt⟩
    · rintro ⟨rfl, hlt⟩
      exact ⟨hlt, rfl⟩
  | loose n => simp [address?, Address.index?]

lemma address?_eq_none_iff : m.address? i = none ↔ m.size ≤ i := by
  simp [address?, size]

lemma constants_eq_size {types : Registry} {modules : List Module}
    (h : ofModules types modules = .ok m) : m.constants = m.size := by
  unfold ofModules at h
  generalize Memory.loadModules types [] modules {} = r at h
  obtain ⟨problems, m₁⟩ := r
  obtain ⟨-, rfl⟩ := unlessProblems_eq_ok_iff.mp h
  rfl

end Memory

namespace Machine

/-- **Indices identify slots**, on top of the constants, after some changes to memory. The slots that the
changes allocate have the indices from the number of constants on, in turn. Under an index there is the
slot with that index, for constants the one that was loaded, and past the end there is none. An entry is
for the cell, neither argument nor constant, whose slot has the index; all such cells of its activation
are entered, and none shares its slot with such a cell of another activation. -/
structure Identifies (parent : Memory) (changes : List Memory.Change) (m : Machine) : Prop where
  replayed : m.store.memory = parent.replay changes
  constants : m.store.memory.constants = parent.size
  size : m.store.memory.size = parent.size + (Memory.allocations changes).length
  allocated : ∀ k t, (Memory.allocations changes)[k]? = some t →
    ∃ s, m.store.memory.get? (.at (parent.size + k)) = some s ∧ s.cell = t.cell ∧
      ∀ v, t.value = some v → s.value = some v
  constant : ∀ i < parent.size, m.store.memory.get? (.at i) = parent.get? (.at i)
  found : ∀ i a, m.store.memory.address? i = some a ↔
    a.index? = some i ∧ (m.store.memory.get? a).isSome = true
  absent : ∀ i, m.store.memory.address? i = none ↔ m.store.memory.size ≤ i
  entry : ∀ i p, m.pending.get? i = some p → parent.size ≤ i ∧
    p.activation.slots.get? p.node = some (.at i) ∧
      ∃ node s, p.activation.call.nodes.get? p.node = some node ∧ node.op ≠ .argument ∧
        (∀ a, node.op ≠ .constant a) ∧ m.store.memory.get? (.at i) = some s ∧ s.cell = node.cell
  entered : ∀ i p, m.pending.get? i = some p → ∀ j node,
    p.activation.call.nodes.get? j = some node → node.op ≠ .argument →
      (∀ a, node.op ≠ .constant a) →
        ∃ k, p.activation.slots.get? j = some (.at k) ∧ m.pending.get? k = some ⟨p.activation, j⟩
  apart : ∀ i i' p p', m.pending.get? i = some p → m.pending.get? i' = some p' →
    ∀ j j' a, p.activation.slots.get? j = some a → p'.activation.slots.get? j' = some a →
      ∀ node node', p.activation.call.nodes.get? j = some node → node.op ≠ .argument →
        (∀ b, node.op ≠ .constant b) → p'.activation.call.nodes.get? j' = some node' →
          node'.op ≠ .argument → (∀ b, node'.op ≠ .constant b) →
            p.activation = p'.activation ∧ j = j'

variable {parent : Memory} {changes : List Memory.Change} {m : Machine}

lemma isNew_iff {op : NodeOp} : op.isNew = true ↔ op ≠ .argument ∧ ∀ a, op ≠ .constant a := by
  cases op <;> simp [NodeOp.isNew]

/-- What every state of a run keeps says what indices tell, on top of constants that have their values. -/
lemma Indexed.identifies (h : m.Indexed parent) (hcomplete : parent.Complete)
    (hconstants : parent.constants = parent.size)
    (hreplayed : m.store.memory = parent.replay changes) : m.Identifies parent changes where
  replayed := hreplayed
  constants := by rw [hreplayed, Memory.constants_replay, hconstants]
  size := by rw [hreplayed, Memory.size_replay]
  allocated k t ht := by
    rw [hreplayed]
    exact Memory.exists_allocated ht
  constant i hi := by
    obtain ⟨v, hv, -⟩ := hcomplete.values i hi
    obtain ⟨s, hs, hvalue⟩ := Option.bind_eq_some_iff.mp hv
    rw [hreplayed, hs]
    exact Memory.get?_replay_of_isSome hs (Option.isSome_iff_exists.mpr ⟨v, hvalue⟩) changes
  found _ _ := Memory.address?_eq_some_iff
  absent _ := Memory.address?_eq_none_iff
  entry i p hp := by
    obtain ⟨node, hnode, hnew, hentered⟩ := h.own i p hp
    obtain ⟨hargument, hconstant⟩ := isNew_iff.mp hnew
    obtain ⟨s, hs, hcell⟩ := hentered.cell
    exact ⟨hentered.past, hentered.slot, node, s, hnode, hargument, hconstant, hs, hcell⟩
  entered i p hp j node hj hargument hconstant := by
    obtain ⟨k, hk⟩ := h.computed i p hp j node hj (isNew_iff.mpr ⟨hargument, hconstant⟩)
    exact ⟨k, hk.slot, hk.entry⟩
  apart i i' p p' hp hp' j j' a ha ha' node node' hj hargument hconstant hj' hargument' hconstant' :=
    h.apart hp hp' hj (isNew_iff.mpr ⟨hargument, hconstant⟩) hj'
      (isNew_iff.mpr ⟨hargument', hconstant'⟩) ha ha'

end Machine

lemma Standard.develops_of_mem {op : Opcode} (hop : op ∈ opcodes) : op.Develops := by
  intro frame s
  rw [memory_evaluate hop]
  exact .refl _

namespace Script

variable {s s₀ : Script} {token : Option String}

lemma indexed_machine (h : s.memory = s₀.memory) (token : Option String) :
    (s.machine token).Indexed s₀.memory := by
  have hmemory : s₀.memory.Develops (s.machine token).store.memory := h ▸ .refl s.memory
  exact ⟨hmemory, fun i p hp => absurd hp (not_pending_machine i p),
    fun i p hp => absurd hp (not_pending_machine i p)⟩

/-- **Indices identify slots throughout a run.** Take any script whose opcodes do to memory no more than
their tools let them, which is to allocate slots and to fill them, however it is configured and was used
before, and a run of a function amid whatever others cancel. In the state that the run leaves, failed or
not, and in every state that it passes, indices identify slots on top of the constants that were loaded.
The changes of a state are the first of those of any later one; what is found under an index stays to be
found there, with its cell and the value that it has, and every entry stays. -/
theorem indices_identify_slots {opcodes : List Opcode} {natives : List Ty} {l : Loader}
    {config : Config} {modules : List Module} (hopcodes : ∀ op ∈ opcodes, op.Develops)
    (hl : Loader.make opcodes natives = .ok l) (hs : load { l with config } modules = .ok s₀)
    (hused : s₀.Used s) (outside : Nat → List String) (moduleName name : String)
    (argument : KeyMap String Stored) (token : Option String) :
    (∀ fuel r m, runOnAmid outside fuel moduleName name argument (s.machine token) = (r, m) →
      ∃ changes, m.Identifies s₀.memory changes) ∧
    ∀ stack m, s.Passes outside moduleName name argument token stack m →
      ∃ changes, m.Identifies s₀.memory changes ∧
        ∀ stack' m', RunsAmid outside stack m stack' m' →
          (∃ more, m'.Identifies s₀.memory (changes ++ more)) ∧
          (∀ i a, m.store.memory.address? i = some a → m'.store.memory.address? i = some a) ∧
          m.store.memory.Retains m'.store.memory ∧
          ∀ i p, m.pending.get? i = some p → m'.pending.get? i = some p := by
  obtain ⟨happlies, types, hmemory⟩ := applies_of_load hopcodes hl hs
  have hcomplete := Memory.complete_ofModules hmemory
  have hconstants := Memory.constants_eq_size hmemory
  have hmachine := (happlies.used hused).machine token
  have hstart := indexed_machine (memory_used hused) token
  refine ⟨fun fuel r m hr => ?_, fun stack m hpasses => ?_⟩
  · obtain ⟨-, effects, -⟩ := governs_effects.runOnAmid hmachine hr
    obtain ⟨hindexed, -⟩ := hstart.effects effects
    exact hindexed.memory.imp fun changes hreplayed =>
      hindexed.identifies hcomplete hconstants hreplayed
  · obtain ⟨hm, effects, whole, hworking⟩ := governs_effects.passes hmachine hpasses
    obtain ⟨hindexed, -⟩ := hstart.effects effects
    obtain ⟨changes, hreplayed⟩ := hindexed.memory
    refine ⟨changes, hindexed.identifies hcomplete hconstants hreplayed, fun stack' m' hruns => ?_⟩
    obtain ⟨-, onward, -⟩ := (Regime.lawful_effects _).runsAmid hm hworking hruns
    obtain ⟨hindexed', later⟩ := hindexed.effects onward
    obtain ⟨more, hmore⟩ := later.memory
    have hreplayed' : m'.store.memory = s₀.memory.replay (changes ++ more) := by
      rw [hmore, hreplayed, Memory.replay_append]
    have retains := later.memory.retains
    refine ⟨⟨more, hindexed'.identifies hcomplete hconstants hreplayed'⟩, fun i a ha => ?_, retains,
      later.entries⟩
    obtain ⟨hindex, hsome⟩ := Memory.address?_eq_some_iff.mp ha
    obtain ⟨t, ht⟩ := Option.isSome_iff_exists.mp hsome
    obtain ⟨t', ht', -⟩ := retains a t ht
    exact Memory.address?_eq_some_iff.mpr ⟨hindex, Option.isSome_iff_exists.mpr ⟨t', ht'⟩⟩

namespace Doubling

def integers : Ty := .iterable "integers" none (.inline Standard.integer) .finite

/-- A list of an integer, twice. -/
def doubled (f : Frame) : Attempt Value := do
  match f.args with
  | a :: _ =>
    let v ← Build.evaluated a
    Build.ofValues [v, v] Standard.integer
  | [] => Attempt.fail (f.problem .argumentCount)

/-- An opcode that makes slots of its own. -/
def double : Opcode where
  signature :=
    { mnemonic := "double", source := .core "double", result := .inline integers
      arguments := [⟨some "item", .inline Standard.integer, .evaluated⟩] }
  evaluate f := Result.ofOutcome <$> (doubled f).run

lemma develops_double : double.Develops := by
  refine Opcode.develops_of_made (fun _ => rfl) fun f => ?_
  unfold doubled
  split
  · exact (Build.Made.evaluated _).bind fun v => .ofValues [v, v] Standard.integer
  · exact .fail _

/-- Doubles the sum of a constant with itself. -/
def doubling : Callable where
  cells := [(0, ⟨.opcode "double" [2] [], integers, none⟩), (1, .external "x" Sample.nothing),
    (2, ⟨.opcode "iadd" [3, 3] [], Standard.integer, none⟩),
    (3, .constant "m" "one" Standard.integer)]

def doubles : Module where
  name := "m"
  constants := [("main", ⟨.callable "main" none (.inline Sample.nothing) (.inline integers),
      .callable doubling, none⟩),
    ("one", ⟨Standard.integer, .native (.int 1), none⟩)]

def loaded : Except (List Problem) Script :=
  (Loader.make (double :: Standard.opcodes) Standard.natives).bind fun l => load l [doubles]

def script : Script := loaded.toOption.getD ⟨[], [], {}, {}, .initial, [], .nothing, []⟩

def prepared : Outcome (CompiledCall × Action) × Machine := prepare "m" "main" [] (script.machine none)

lemma checked : loaded.isOk = true ∧ prepared.1.isOk = true ∧ script.memory.size = 2 ∧
    prepared.2.store.memory.size = 5 := by
  decide +kernel

end Doubling

/-- Two constants, the argument and two cells: when the run starts there are five slots, the last three
allocated in turn, and wherever the run goes from there they stay, whatever the opcode adds. -/
theorem doubled_sum_has_indices : ∃ l s₀ stack m changes,
    Loader.make (Doubling.double :: Standard.opcodes) Standard.natives = .ok l ∧
    load l [Doubling.doubles] = .ok s₀ ∧ s₀.Passes (fun _ => []) "m" "main" [] none stack m ∧
    s₀.memory.size = 2 ∧ (Memory.allocations changes).length = 3 ∧
    m.Identifies s₀.memory changes ∧ ∀ stack' m', RunsAmid (fun _ => []) stack m stack' m' →
      ∃ more, m'.Identifies s₀.memory (changes ++ more) := by
  obtain ⟨hloaded, hprepared, hconstants, hsize⟩ := Doubling.checked
  obtain ⟨l, hl, hs⟩ : ∃ l, Loader.make (Doubling.double :: Standard.opcodes) Standard.natives = .ok l ∧
      load l [Doubling.doubles] = .ok Doubling.script := Sample.exists_load hloaded
  have hopcodes : ∀ op ∈ Doubling.double :: Standard.opcodes, op.Develops :=
    List.forall_mem_cons.mpr ⟨Doubling.develops_double, fun _ => Standard.develops_of_mem⟩
  obtain ⟨⟨call, action⟩, hok⟩ : ∃ e, Doubling.prepared.1 = .ok e := by
    cases h : Doubling.prepared.1 with
    | ok e => exact ⟨e, rfl⟩
    | error p =>
      rw [h] at hprepared
      cases hprepared
  have hpasses : Doubling.script.Passes (fun _ => []) "m" "main" [] none
      [Job.ofAction (action.andThen .deepen)]
      (RunM.tell (fun _ => .started call.callable) Doubling.prepared.2).2 :=
    ⟨call, action, Doubling.prepared.2, Prod.ext hok rfl, .refl _ _⟩
  obtain ⟨changes, hidentifies, hlater⟩ :=
    (indices_identify_slots hopcodes hl hs .start (fun _ => []) "m" "main" [] none).2 _ _ hpasses
  refine ⟨l, _, _, _, changes, hl, hs, hpasses, hconstants, ?_, hidentifies,
    fun stack' m' hruns => (hlater stack' m' hruns).1⟩
  have htold : (RunM.tell (fun _ => .started call.callable) Doubling.prepared.2).2.store.memory.size =
      5 := by
    unfold RunM.tell
    split <;> exact hsize
  have := hidentifies.size
  omega

end Script

end CellMachine
