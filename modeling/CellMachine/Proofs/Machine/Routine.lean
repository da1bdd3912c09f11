import CellMachine.Proofs.KeyMap
import CellMachine.Proofs.Machine.Actions

/-!
What the machine's own work is made of. Every piece of it is put together from a few parts, none of
which looks at the budget or counts a turn; so with another budget the work does the same, and what was
compiled before stays compiled.
-/

namespace CellMachine

/-- The machine with another budget. -/
def Machine.limited (limit : Option Nat) (m : Machine) : Machine :=
  { m with setting := { m.setting with config := { m.setting.config with maxSteps := limit } } }

/-- What was compiled stays compiled. -/
def Machine.Retains (m m' : Machine) : Prop :=
  ∀ index c, m.compiled.get? index = some c → m'.compiled.get? index = some c

/-- What no work of the machine's own changes: the setting, how many turns were counted, and the
compilations that there are. -/
structure Machine.Upholds (m m' : Machine) : Prop where
  setting : m'.setting = m.setting
  steps : m'.steps = m.steps
  compiled : m.Retains m'

/-- A computation that is put together from the parts of the machine's own work. -/
inductive Routine : {α : Type} → RunM α → Prop
  | pure {α : Type} (a : α) : Routine (Pure.pure a)
  | bind {α β : Type} {x : RunM α} {f : α → RunM β} (hx : Routine x) (hf : ∀ a, Routine (f a)) :
    Routine (x >>= f)
  /-- What depends on the machine, but not on its budget. -/
  | look {α : Type} {f : Machine → RunM α} (hlimited : ∀ limit m, f (m.limited limit) = f m)
    (hf : ∀ m, Routine (f m)) : Routine fun m => f m m
  | store {α : Type} (x : StoreM α) : Routine (RunM.store x)
  | tell (f : Memory → Notice) : Routine (RunM.tell f)
  | tellOpcode (f : Memory → Notice) : Routine (RunM.tellOpcode f)
  | compile (a : Address) : Routine (Machine.compile a)
  | compileAt (index : Nat) : Routine (Machine.compileAt index)
  | enter (activation : Activation) (nodes : List (Nat × Node)) :
    Routine (modify fun m => { m with pending := Machine.enterSlots activation nodes m.pending })

namespace Machine

variable {α β : Type} {m m' m'' : Machine}

lemma Retains.refl (m : Machine) : m.Retains m := fun _ _ => id

lemma Retains.trans (h : m.Retains m') (h' : m'.Retains m'') : m.Retains m'' :=
  fun index c hc => h' index c (h index c hc)

lemma Upholds.refl (m : Machine) : m.Upholds m := ⟨rfl, rfl, .refl m⟩

lemma Upholds.trans (h : m.Upholds m') (h' : m'.Upholds m'') : m.Upholds m'' :=
  ⟨h'.setting.trans h.setting, h'.steps.trans h.steps, h.compiled.trans h'.compiled⟩

/-- What is compiled is not compiled again; otherwise the compilation is added. -/
lemma compileAt_cases (index : Nat) (m : Machine) :
    (∃ c, m.compiled.get? index = some c ∧ compileAt index m = (c, m)) ∨
      ∃ c types, m.compiled.get? index = none ∧
        (c = .error [(Problem.mk .noSuchConstant none []).set "index" index] ∨
          ∃ a, c = (compileSlot m.setting.opcodes m.setting.modules m.store.memory a
            m.store.types).1) ∧
        compileAt index m = (c, { m with
          store := { m.store with types }, compiled := m.compiled.insert index c }) := by
  unfold compileAt
  cases hindex : m.compiled.get? index with
  | some c => exact .inl ⟨c, rfl, rfl⟩
  | none =>
    refine .inr ?_
    dsimp only
    cases m.store.memory.address? index with
    | none => exact ⟨_, m.store.types, rfl, .inl rfl, rfl⟩
    | some a => exact ⟨_, _, rfl, .inr ⟨a, rfl⟩, rfl⟩

lemma upholds_compileAt (index : Nat) (m : Machine) : m.Upholds (compileAt index m).2 := by
  obtain ⟨c, -, heq⟩ | ⟨c, types, hnone, -, heq⟩ := compileAt_cases index m
  · rw [heq]
    exact .refl m
  · rw [heq]
    refine ⟨rfl, rfl, fun i c' hc' => ?_⟩
    have hne : index ≠ i := by
      rintro rfl
      rw [hnone] at hc'
      cases hc'
    exact (KeyMap.get?_insert_of_ne hne _ _).trans hc'

end Machine

namespace Routine

variable {α β : Type} {x : RunM α}

lemma upholds (h : Routine x) (m : Machine) : m.Upholds (x m).2 := by
  induction h generalizing m with
  | pure a => exact .refl m
  | bind hx hf ihx ihf => exact (ihx m).trans (ihf _ _)
  | look _ _ ih => exact ih m m
  | store x => exact ⟨rfl, rfl, fun _ _ => id⟩
  | tell f =>
    unfold RunM.tell
    split <;> exact ⟨rfl, rfl, fun _ _ => id⟩
  | tellOpcode f =>
    unfold RunM.tellOpcode
    split <;> exact ⟨rfl, rfl, fun _ _ => id⟩
  | compile a => exact ⟨rfl, rfl, fun _ _ => id⟩
  | compileAt index => exact Machine.upholds_compileAt index m
  | enter activation nodes => exact ⟨rfl, rfl, fun _ _ => id⟩

lemma limited (h : Routine x) (limit : Option Nat) (m : Machine) :
    x (m.limited limit) = ((x m).1, (x m).2.limited limit) := by
  induction h generalizing m with
  | pure a => rfl
  | @bind α β x f hx hf ihx ihf =>
    show f (x (m.limited limit)).1 (x (m.limited limit)).2 = _
    rw [ihx m]
    exact ihf (x m).1 (x m).2
  | @look α f hlimited hf ih =>
    show f (m.limited limit) (m.limited limit) = _
    rw [hlimited]
    exact ih m m
  | store x => rfl
  | tell f =>
    unfold RunM.tell
    by_cases h : m.setting.attention = .nothing
    · rw [if_pos h]
      exact if_pos h
    · rw [if_neg h]
      exact if_neg h
  | tellOpcode f =>
    unfold RunM.tellOpcode
    by_cases h : m.setting.attention = .opcodes
    · rw [if_pos h]
      exact if_pos h
    · rw [if_neg h]
      exact if_neg h
  | compile a => rfl
  | compileAt index =>
    cases hc : m.compiled.get? index with
    | some c => simp only [Machine.compileAt, Machine.limited, hc]
    | none =>
      cases ha : m.store.memory.address? index with
      | some a =>
        simp only [Machine.compileAt, Machine.limited, hc, ha]
        rfl
      | none => simp only [Machine.compileAt, Machine.limited, hc, ha]
  | enter activation nodes => rfl

lemma congr {y : RunM α} (h : Routine x) (heq : ∀ m, y m = x m) : Routine y := funext heq ▸ h

lemma memory : Routine RunM.memory := .store StoreM.memory

lemma attempt (x : Attempt α) : Routine (RunM.attempt x) := .store x.run

lemma value? (a : Address) : Routine (RunM.value? a) := .store (StoreM.value? a)

lemma setting {f : Setting → RunM β} (hlimited : ∀ limit (m : Machine), f (m.limited limit).setting =
    f m.setting) (hf : ∀ s, Routine (f s)) : Routine (RunM.setting >>= f) :=
  .look (f := fun m => f m.setting) hlimited fun m => hf m.setting

lemma get {f : Machine → RunM β} (hlimited : ∀ limit (m : Machine), f (m.limited limit) = f m)
    (hf : ∀ m, Routine (f m)) : Routine (MonadState.get >>= f) :=
  .look (f := f) hlimited hf

end Routine

namespace Machine

/-! ### Own work -/

lemma routine_settle (target produced : Address) : Routine (settle target produced) := by
  refine (Routine.value? produced).bind fun v => ?_
  cases v with
  | some v => exact (Routine.store _).bind fun _ => .pure _
  | none => exact Routine.memory.bind fun _ => .pure _

lemma routine_deepen (a : Address) (v : Value) : Routine (deepen a v) := by
  refine Routine.memory.bind fun m => ?_
  split <;> exact .pure _

lemma routine_nodeAction (p : Pending) : Routine (nodeAction p) := by
  have hwork := cellWork_nodeAction p
  generalize nodeAction p = work at hwork
  cases hwork with
  | structured | iterable => exact (Routine.store _).bind fun _ => .pure _
  | _ => exact .pure _

lemma routine_resolve (a : Address) : Routine (resolve a) := by
  unfold resolve
  refine Routine.memory.bind fun m => ?_
  split
  · refine Routine.get (fun _ _ => rfl) fun s => ?_
    split
    · exact routine_nodeAction _
    · split
      · dsimp only
        split <;> exact .pure _
      · exact .pure _
  · exact .pure _
  · exact .pure _

lemma routine_force (a : Address) (depth : Depth) : Routine (force a depth) := by
  refine (Routine.value? a).bind fun v => ?_
  cases v with
  | some v =>
    cases depth with
    | shallow => exact .pure _
    | deep => exact routine_deepen a v
  | none =>
    refine (routine_resolve a).bind fun o => ?_
    cases o with
    | error p => exact .pure _
    | ok action => cases depth <;> exact .pure _

lemma routine_accept (call : CompiledCall) (argument : Address) : Routine (accept call argument) := by
  have judged : ∀ memory : Memory, Routine
      (if (memory.typeOf argument).isRuntimeDetermined then pure (.ok ()) else RunM.store
        (StoreM.matchTypes (memory.sourceOf argument) (memory.typeOf argument)
          (some call.argumentType))) := by
    intro memory
    split
    · exact .pure _
    · exact .store _
  refine (Routine.memory.bind judged).congr fun m => ?_
  rw [RunM.run_bind, RunM.run_memory, accept]
  dsimp only
  split <;> rfl

lemma routine_construct (call : CompiledCall) (argument : Address) :
    Routine (construct call argument) := by
  rw [construct_eq]
  refine (routine_accept call argument).bind fun accepted => ?_
  cases accepted with
  | error p => exact .pure _
  | ok _ =>
    refine (Routine.store _).bind fun slots => ?_
    cases KeyMap.get? slots Callable.resultCell with
    | none => exact .pure _
    | some result => exact (Routine.enter ⟨call, slots⟩ call.nodes).bind fun _ => .pure _

lemma routine_compilation (a : Address) : Routine (compilation a) := by
  cases a with
  | loose k => exact .compile _
  | «at» i =>
    have chosen : ∀ memory : Memory, Routine
        (if i < memory.constants then compileAt i else compile (.at i)) := by
      intro memory
      split
      · exact .compileAt i
      · exact .compile _
    refine (Routine.memory.bind chosen).congr fun m => ?_
    rw [RunM.run_bind, RunM.run_memory, compilation, compileFunction]
    split <;> rfl

lemma routine_call (function argument target : Address) :
    Routine (call function argument target) := by
  rw [call_eq]
  refine Routine.memory.bind fun memory => (routine_compilation function).bind fun c => ?_
  cases c with
  | error problems => exact .pure _
  | ok compiled =>
    refine (routine_construct compiled argument).bind fun o => ?_
    cases o with
    | error p => exact .pure _
    | ok action => exact (Routine.tell _).bind fun _ => .pure _

lemma routine_leave (target : Address) (function : Callable) (produced : Address) :
    Routine (leave target function produced) := by
  refine (routine_settle target produced).bind fun step => ?_
  cases step with
  | value a => exact (Routine.tell _).bind fun _ => .pure _
  | _ => exact .pure _

lemma routine_conclude (i : Invocation) (produced : Address) : Routine (conclude i produced) := by
  refine (routine_settle i.target produced).bind fun step => ?_
  cases step with
  | value a => exact (Routine.tellOpcode _).bind fun _ => .pure _
  | _ => exact .pure _

lemma routine_combine (c : Combiner) (left right : Address) : Routine (combine c left right) := by
  cases c with
  | opcode op context type => exact (Routine.store _).bind fun target => .pure _
  | function f first second context argumentType => exact Routine.attempt _

lemma routine_sequential (c : Combiner) (term : Address) (rest : List Address) :
    Routine (sequential c term rest) := by
  cases rest with
  | nil => exact routine_force term .shallow
  | cons next rest =>
    refine (routine_combine c term next).bind fun o => ?_
    cases o <;> exact .pure _

lemma routine_pairUp (c : Combiner) : ∀ terms, Routine (pairUp c terms)
  | [] => .pure _
  | [_] => .pure _
  | left :: right :: rest => by
    refine (routine_combine c left right).bind fun o => ?_
    cases o with
    | error p => exact .pure _
    | ok action =>
      refine (routine_pairUp c rest).bind fun o' => ?_
      cases o' <;> exact .pure _

lemma routine_pairwise (c : Combiner) (terms : List Address) : Routine (pairwise c terms) := by
  unfold pairwise
  split
  · exact .pure _
  · exact routine_force _ .shallow
  · refine (routine_pairUp c terms).bind fun o => ?_
    cases o <;> exact .pure _

lemma routine_reduceElements (c : Combiner) (initial iterable : Address) :
    Routine (reduceElements c initial iterable) := by
  unfold reduceElements
  refine Routine.memory.bind fun m => ?_
  split
  · refine Routine.setting (fun _ _ => rfl) fun s => ?_
    split
    · exact routine_sequential _ _ _
    · exact routine_pairwise _ _
  · exact .pure _

lemma routine_checking {asked : Config → Bool}
    (hasked : ∀ limit (m : Machine), asked (m.limited limit).setting.config = asked m.setting.config)
    (x : StoreM (List Problem)) : Routine (RunM.checking asked x) := by
  have checked : ∀ s : Setting, Routine (if asked s.config then RunM.store x else pure []) := by
    intro s
    split
    · exact .store x
    · exact .pure _
  refine (Routine.setting (fun limit m => by rw [hasked limit m]) checked).congr fun m => ?_
  rw [RunM.run_bind, RunM.run_setting, RunM.checking]
  split <;> rfl

lemma routine_confer (i : Invocation) (frame : Frame) (v : Value) : Routine (confer i frame v) := by
  refine (routine_checking (fun _ _ => rfl) _).bind fun found => ?_
  cases firstOf found with
  | some p => exact .pure _
  | none => exact (Routine.store _).bind fun _ => (Routine.tellOpcode _).bind fun _ => .pure _

lemma routine_proceed (i : Invocation) (frame : Frame) (r : Result) :
    Routine (proceed i frame r) := by
  cases r with
  | value v => exact proceed_value_eq i frame v ▸ routine_confer i frame v
  | error p => exact .pure _
  | lazy a => exact .pure _
  | reduce r =>
    refine Routine.get (fun _ _ => rfl) fun m => ?_
    dsimp only
    split <;> exact .pure _

lemma routine_apply (i : Invocation) (frame : Frame) : Routine (apply i frame) := by
  refine (routine_checking (fun _ _ => rfl) _).bind fun found => ?_
  cases firstOf found with
  | some p => exact .pure _
  | none => exact (Routine.store _).bind fun r => routine_proceed i frame r

lemma routine_invoke (i : Invocation) : Routine (invoke i) := by
  rw [invoke_eq]
  refine Routine.get (fun _ _ => rfl) fun m => ?_
  cases i.unready m.store.memory with
  | some position => exact .pure _
  | none => exact (Routine.tellOpcode _).bind fun _ => routine_apply i _

lemma routine_withResult (results : List Address) {f : Address → Stepped}
    (hf : ∀ a, Routine (f a)) : Routine (withResult results f) := by
  unfold withResult
  split
  · exact hf _
  · exact .pure _

/-- **The machine's own work** is put together from these parts. -/
lemma routine_perform {work : Work Action} (hw : work.isCustom = false) (results : List Address) :
    Routine (perform work results) := by
  cases work with
  | value a => exact .pure _
  | evaluate a depth => exact routine_force a depth
  | settle target => exact routine_withResult results fun a => routine_settle target a
  | deepen => exact routine_withResult results fun a => routine_force a .deep
  | call argument target => exact routine_withResult results fun f => routine_call f argument target
  | leave target function =>
    exact routine_withResult results fun a => routine_leave target function a
  | invoke i => exact routine_invoke i
  | conclude i => exact routine_withResult results fun a => routine_conclude i a
  | reduce c initial =>
    exact routine_withResult results fun a => routine_reduceElements c initial a
  | combine c rest => exact routine_withResult results fun a => routine_sequential c a rest
  | combineLevel c carry => exact routine_pairwise c _
  | custom run => cases hw

end Machine

end CellMachine
