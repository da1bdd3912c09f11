import CellMachine.Proofs.Reduction.Terms

/-!
Opcodes that combine two terms into one: what one combination does to a machine, given that its checks
report nothing and that its evaluation is a function of the values of the two terms.
-/

namespace CellMachine

open Machine

/-- **A combining opcode**, for rooms of some type: its two arguments are evaluated with all their
members, its checks report nothing, and its evaluation is a function of the values of the two. The
evaluation may make new slots, for the members of what it comes to. -/
structure Opcode.Combines {α : Type} (op : Opcode) (R : Representation α) (f : α → α → α) (type : Ty) :
    Prop where
  arguments : op.signature.arguments.map Argument.evaluation = [.evaluated, .evaluated]
  valid : ∀ (frame : Frame) (memory : Memory) (types : Registry) (l r : Address) (x y : α),
    frame.args = [l, r] → R.holds memory l x → R.holds memory r y →
    (op.runtimeCheck frame memory types).1 = []
  evaluates : ∀ (frame : Frame) (s : Store) (l r : Address) (x y : α), frame.args = [l, r] →
    R.holds s.memory l x → R.holds s.memory r y → ∃ v s', op.evaluate frame s = (.value v, s') ∧
      s.memory.Over s'.memory ∧ s'.cancelled = s.cancelled ∧
      (∀ types, (op.resultCheck frame v s'.memory types).1 = []) ∧
      ∀ i, s'.memory.get? (.at i) = some ⟨reduceCell type, none⟩ →
        R.holds (s'.memory.memoize (.at i) v) (.at i) (f x y)

namespace Machine

variable {op : Opcode} {rooms : Nat → Prop} {m m' : Machine}

/-! ### What is told -/

lemma reducing_tellOpcode (f : Memory → Notice) (m : Machine) :
    Reducing op rooms m (RunM.tellOpcode f m).2 := by
  unfold RunM.tellOpcode
  split <;> exact .of_store rfl rfl rfl rfl

lemma invocations_started (function : Option Callable) (index : Nat) (cell : Cell) (m : Machine) :
    (RunM.tellOpcode (fun _ => .opcodeStarted function index cell) m).2.invocations =
      m.invocations + m.setting.heard := by
  unfold RunM.tellOpcode Setting.heard
  split
  · exact List.countP_cons_of_pos rfl
  · rfl

lemma invocations_resolved (i : Invocation) (m : Machine) :
    (i.resolved m).2.invocations = m.invocations := by
  unfold Invocation.resolved RunM.tellOpcode
  split
  · exact List.countP_cons_of_neg nofun
  · rfl

lemma store_resolved (i : Invocation) (m : Machine) : (i.resolved m).2.store = m.store := by
  unfold Invocation.resolved RunM.tellOpcode
  split <;> rfl

/-! ### Checks and evaluations -/

/-- A check of the opcode that finds nothing, whether it is asked or not. -/
lemma reducing_checking (asked : Config → Bool) {c : Check}
    (htypes : ∀ types, op.Leaves types (c m.store.memory types).2)
    (hnil : (c m.store.memory m.store.types).1 = []) : ∃ m',
      RunM.checking asked (StoreM.check c) m = ([], m') ∧ Reducing op rooms m m' ∧
      m'.store.memory = m.store.memory ∧ m'.invocations = m.invocations := by
  unfold RunM.checking
  split
  · refine ⟨{ m with store := { m.store with types := (c m.store.memory m.store.types).2 } }, ?_,
      .withTypes (htypes _), rfl, rfl⟩
    rw [RunM.run_store, StoreM.run_check, hnil]
  · exact ⟨m, rfl, .refl m, rfl, rfl⟩

lemma reducing_proceed {i : Invocation} {s : Nat} (htarget : i.target = .at s) (f : Frame) {v : Value}
    (hvalid : ∀ types, (i.opcode.resultCheck f v m.store.memory types).1 = []) : ∃ m',
      proceed i f (.value v) m = (.value (.at s), m') ∧ Reducing i.opcode (· = s) m m' ∧
      m'.store.memory = m.store.memory.memoize (.at s) v ∧ m'.invocations = m.invocations := by
  obtain ⟨m₁, hflaws, hchecked, hmemory, hcount⟩ : ∃ m₁, flaws i f v m = ([], m₁) ∧
      Reducing i.opcode (· = s) m m₁ ∧ m₁.store.memory = m.store.memory ∧
      m₁.invocations = m.invocations :=
    reducing_checking _ (fun _ => .resultCheck f v _ .same) (hvalid _)
  let m₂ : Machine :=
    { m₁ with store := { m₁.store with memory := m₁.store.memory.memoize (.at s) v } }
  have hwritten : Reducing i.opcode (· = s) m₁ m₂ :=
    ⟨rfl, rfl, rfl, rfl, .same, rfl, rfl, rfl, m₁.store.memory.retains_memoize (.at s) v, fun j _ hne => by
      rw [Memory.get?_memoize, if_neg (Ne.symm hne)]⟩
  have hresolved : Reducing i.opcode (· = s) m₂ (i.resolved m₂).2 := reducing_tellOpcode _ m₂
  refine ⟨(i.resolved m₂).2, by rw [proceed_of_no_flaws hflaws, htarget],
    (hchecked.trans hwritten fun _ => .inl).trans hresolved fun _ => .inl,
    ?_, (invocations_resolved i m₂).trans hcount⟩
  rw [store_resolved, ← hmemory]

lemma unready_eq_none_of_evaluated {i : Invocation} {memory : Memory}
    (h : ∀ a ∈ i.args, memory.isEvaluated a = true) : i.unready memory = none := by
  rw [Invocation.unready, List.findIdx?_eq_none_iff]
  rintro ⟨d, a⟩ he
  rw [h a (List.of_mem_zip he).2, Bool.not_true, Bool.and_false]

end Machine

namespace Opcode.Combines

variable {α : Type} {R : Representation α} {f : α → α → α} {op : Opcode} {type : Ty} {m : Machine}
  {l r : Address} {x y : α} {s : Nat}

/-- **A combination** writes the value of its two terms in its room, and is told of once. -/
lemma invoke (hop : op.Combines R f type) (hl : R.holds m.store.memory l x)
    (hr : R.holds m.store.memory r y)
    (hs : m.store.memory.get? (.at s) = some ⟨reduceCell type, none⟩) : ∃ m',
      Machine.invoke (Tandem.addition op type l r s) m = (.value (.at s), m') ∧
      R.holds m'.store.memory (.at s) (f x y) ∧ Reducing op (· = s) m m' ∧
      m'.invocations = m.invocations + m.setting.heard := by
  let i := Tandem.addition op type l r s
  let frame := Machine.frameOf i m
  have hargs : frame.args = [l, r] := rfl
  have hready : i.unready m.store.memory = none := by
    refine unready_eq_none_of_evaluated fun a ha => ?_
    rcases List.mem_pair.mp ha with rfl | rfl
    · exact (R.forced hl).isEvaluated
    · exact (R.forced hr).isEvaluated
  -- first the start is told
  have htold : Reducing op (· = s) m (RunM.tellOpcode
      (fun _ => .opcodeStarted i.function i.index i.cell) m).2 := reducing_tellOpcode _ m
  have hstarted := invocations_started i.function i.index i.cell m
  have hinvoke := invoke_eq_of_ready hready
  dsimp only at hinvoke
  generalize hm₁ : (RunM.tellOpcode (fun _ => .opcodeStarted i.function i.index i.cell) m).2 = m₁
    at htold hstarted hinvoke
  have hl₁ := R.retained htold.memory hl
  have hr₁ := R.retained htold.memory hr
  -- then nothing is found
  obtain ⟨m₂, hfound, hchecked, hmemory₂, hcount₂⟩ : ∃ m₂, findings i frame m₁ = ([], m₂) ∧
      Reducing op (· = s) m₁ m₂ ∧ m₂.store.memory = m₁.store.memory ∧
      m₂.invocations = m₁.invocations :=
    reducing_checking _ (fun _ => .runtimeCheck frame _ .same)
      (hop.valid frame _ _ l r x y hargs hl₁ hr₁)
  rw [show findings i (Machine.frameOf i m) m₁ = ([], m₂) from hfound] at hinvoke
  -- then the opcode runs
  obtain ⟨v, store', heval, hover, hcancelled, hresult, hholds⟩ :=
    hop.evaluates frame m₂.store l r x y hargs (hmemory₂ ▸ hl₁) (hmemory₂ ▸ hr₁)
  rw [show i.opcode.evaluate (Machine.frameOf i m) m₂.store = (.value v, store') from heval] at hinvoke
  have hran : Reducing op (· = s) m₂ { m₂ with store := store' } := by
    have htypes : op.Leaves m₂.store.types store'.types := by
      have hleft : op.Leaves m₂.store.types (op.evaluate frame m₂.store).2.types := .evaluate frame .same
      rwa [heval] at hleft
    exact ⟨rfl, rfl, rfl, hcancelled, htypes, hover.constants, hover.directory, hover.loose,
      hover.retains, fun j hj _ => hover.get? hj⟩
  -- and at last its result is written
  obtain ⟨m', hproceed, hwritten, hmemory', hcount'⟩ :=
    reducing_proceed (m := { m₂ with store := store' }) (i := i) rfl frame hresult
  have hroom : store'.memory.get? (.at s) = some ⟨reduceCell type, none⟩ := by
    refine hover.get?_of_some _ _ ?_
    rw [hmemory₂, ← hm₁]
    unfold RunM.tellOpcode
    split <;> exact hs
  refine ⟨m', hinvoke.trans hproceed, ?_, ?_, ?_⟩
  · rw [hmemory']
    exact hholds s hroom
  · exact ((htold.trans hchecked fun _ => .inl).trans hran fun _ => .inl).trans hwritten fun _ => .inl
  · rw [hcount', ← hstarted, ← hcount₂]
    rfl

end Opcode.Combines

end CellMachine
