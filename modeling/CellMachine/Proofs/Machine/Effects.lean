import CellMachine.Proofs.Call.Provenance
import CellMachine.Proofs.Machine.Regime
import CellMachine.Proofs.Machine.Routine
import CellMachine.Proofs.Memory.Factories

/-!
What a run is made of. However much work there is, all that it does to the state is one of a few things,
one after another: slots are added or filled, an opcode is applied, a compilation is noted, or a compiled
call is set up. What each of them keeps, runs keep. The opcodes that a run comes to apply are the
script's, so what they promise may be relied on wherever one is applied.
-/

namespace CellMachine

namespace Machine

/-- **One thing that a run does** to its state, with opcodes and compiled calls that promise something. -/
inductive Effect (P : Opcode → Prop) (m : Machine) : Machine → Prop
  /-- What concerns notices, steps, tokens or verdicts. -/
  | aside {m' : Machine} (setting : m'.setting = m.setting)
    (memory : m'.store.memory = m.store.memory) (compiled : m'.compiled = m.compiled)
    (pending : m'.pending = m.pending) : Effect P m m'
  /-- Slots are added. -/
  | grown {memory : Memory} (h : m.store.memory.Over memory) :
    Effect P m { m with store := { m.store with memory } }
  /-- A slot gets a value, unless it has one. -/
  | filled (a : Address) (v : Value) :
    Effect P m { m with store := { m.store with memory := m.store.memory.memoize a v } }
  /-- An opcode is applied. -/
  | applied {op : Opcode} (h : P op) (frame : Frame) :
    Effect P m { m with store := (op.evaluate frame m.store).2 }
  /-- A compilation is noted. -/
  | noted (index : Nat) {c : Compilation} (h : c.Applies P) :
    Effect P m { m with compiled := m.compiled.insert index c }
  /-- A compiled call is set up. -/
  | activated {call : CompiledCall} (h : call.Applies P) (argument : Address) :
    Effect P m (m.activated call argument)

/-- A state that a run leads to, effect by effect. -/
abbrev Effects (P : Opcode → Prop) : Machine → Machine → Prop := Relation.ReflTransGen (Effect P)

/-- Whatever opcode a run comes to apply promises something. -/
structure Applies (P : Opcode → Prop) (m : Machine) : Prop where
  opcodes : m.setting.opcodes.All P
  compiled : ∀ i c, m.compiled.get? i = some c → c.Applies P
  pending : ∀ i p, m.pending.get? i = some p → p.activation.call.Applies P

variable {P : Opcode → Prop} {m m' : Machine}

lemma Applies.effect (h : m.Applies P) (effect : Effect P m m') : m'.Applies P := by
  cases effect with
  | aside setting memory compiled pending =>
    exact ⟨setting ▸ h.opcodes, compiled ▸ h.compiled, pending ▸ h.pending⟩
  | grown _ => exact ⟨h.opcodes, h.compiled, h.pending⟩
  | filled _ _ => exact ⟨h.opcodes, h.compiled, h.pending⟩
  | applied _ _ => exact ⟨h.opcodes, h.compiled, h.pending⟩
  | noted index hc =>
    refine ⟨h.opcodes, fun i c hi => ?_, h.pending⟩
    rw [KeyMap.get?_insert] at hi
    split at hi
    · cases hi
      exact hc
    · exact h.compiled i c hi
  | activated hcall argument =>
    refine ⟨h.opcodes, h.compiled, fun i p hp => ?_⟩
    rcases exists_entered hp with hp | ⟨_, -, -, -, rfl⟩
    · exact h.pending i p hp
    · exact hcall

lemma Applies.effects (h : m.Applies P) (effects : Effects P m m') : m'.Applies P := by
  induction effects with
  | refl => exact h
  | tail _ effect ih => exact ih.effect effect

end Machine

/-! ### Work -/

open Machine

def Combiner.Applies (P : Opcode → Prop) : Combiner → Prop
  | .opcode op _ _ => P op
  | .function .. => True

def Work.Applies (P : Opcode → Prop) : Work Action → Prop
  | .invoke i => P i.opcode
  | .reduce c _ | .combine c _ | .combineLevel c _ => c.Applies P
  | .custom _ => False
  | .value _ | .evaluate .. | .settle _ | .deepen | .call .. | .leave .. | .conclude _ => True

def Action.Applies (P : Opcode → Prop) : Action → Prop := Every fun _ w => w.Applies P

/-- What a step goes on with, if it goes on, applies such opcodes. -/
def Step.Applies (P : Opcode → Prop) : Step Action → Prop
  | .action next => next.Applies P
  | .value _ | .error _ => True

/-- An action that was made, if it was made, applies such opcodes. -/
def Action.AppliesIfAny (P : Opcode → Prop) (o : Outcome Action) : Prop :=
  ∀ action, o = .ok action → action.Applies P

variable {P : Opcode → Prop} {m : Machine}

namespace Action

lemma applies_mk {ds : List Action} {w : Work Action} (hds : ∀ d ∈ ds, d.Applies P)
    (hw : w.Applies P) : Applies P (.mk ds w) := by
  refine .mk hw hds ?_
  rintro run rfl
  exact hw.elim

lemma applies_value (a : Address) : Applies P (value a) := applies_mk nofun trivial

lemma applies_evaluate (a : Address) (depth : Depth) : Applies P (evaluate a depth) :=
  applies_mk nofun trivial

lemma Applies.andThen {a : Action} (h : a.Applies P) {w : Work Action} (hw : w.Applies P) :
    Applies P (a.andThen w) :=
  applies_mk (fun _ hd => List.mem_singleton.mp hd ▸ h) hw

lemma applies_invocation {i : Invocation} (h : P i.opcode) : i.action.Applies P := by
  refine applies_mk (fun d hd => ?_) h
  obtain ⟨e, -, hd⟩ := List.mem_filterMap.mp hd
  split at hd <;> cases hd <;> exact applies_evaluate _ _

lemma appliesIfAny_ok {action : Action} (h : action.Applies P) : AppliesIfAny P (.ok action) := by
  rintro _ ⟨⟩
  exact h

end Action

namespace Machine

/-- A computation that does nothing but effects, and whose result has a property. -/
def Acts {α : Type} (P : Opcode → Prop) (m : Machine) (x : RunM α) (Q : α → Prop) : Prop :=
  Effects P m (x m).2 ∧ Q (x m).1

/-- A computation that goes on with work that applies such opcodes. -/
abbrev Moves (P : Opcode → Prop) (m : Machine) (x : Stepped) : Prop := Acts P m x (Step.Applies P)

namespace Acts

variable {α β : Type} {x : RunM α} {Q : α → Prop} {R : β → Prop}

lemma pure {a : α} (ha : Q a) : Acts P m (pure a) Q := ⟨.refl, ha⟩

lemma bind (h : m.Applies P) {f : α → RunM β} (hx : Acts P m x Q)
    (hf : ∀ a m', m'.Applies P → Q a → Acts P m' (f a) R) : Acts P m (x >>= f) R := by
  obtain ⟨effects, ha⟩ := hx
  obtain ⟨effects', hb⟩ := hf _ _ (h.effects effects) ha
  exact ⟨effects.trans effects', hb⟩

lemma memory {f : Memory → RunM β} (hf : Acts P m (f m.store.memory) R) :
    Acts P m (RunM.memory >>= f) R := hf

lemma setting {f : Setting → RunM β} (hf : Acts P m (f m.setting) R) :
    Acts P m (RunM.setting >>= f) R := hf

lemma value? {a : Address} {f : Option Value → RunM β}
    (hf : Acts P m (f (m.store.memory.value? a)) R) : Acts P m (RunM.value? a >>= f) R := hf

lemma get {f : Machine → RunM β} (hf : Acts P m (f m) R) : Acts P m (MonadState.get >>= f) R := hf

lemma reading {x : StoreM α} (hx : (x m.store).2.memory = m.store.memory) :
    Acts P m (RunM.store x) fun _ => True :=
  ⟨.single (.aside rfl hx rfl rfl), trivial⟩

lemma growing {x : StoreM α} (hx : m.store.memory.Over (x m.store).2.memory) (hQ : Q (x m.store).1) :
    Acts P m (RunM.store x) Q := by
  have grown : Effect P m { m with store := { m.store with memory := (x m.store).2.memory } } :=
    .grown hx
  exact ⟨.tail (.single grown) (.aside rfl rfl rfl rfl), hQ⟩

lemma checking (asked : Config → Bool) (c : Check) :
    Acts P m (RunM.checking asked (StoreM.check c)) fun _ => True := by
  unfold Acts RunM.checking
  split
  · exact reading rfl
  · exact ⟨.refl, trivial⟩

lemma memoize (a : Address) (v : Value) :
    Acts P m (RunM.store (StoreM.memoize a v)) fun _ => True := ⟨.single (.filled a v), trivial⟩

lemma tell (f : Memory → Notice) : Acts P m (RunM.tell f) fun _ => True := by
  unfold Acts RunM.tell
  split
  · exact ⟨.refl, trivial⟩
  · exact ⟨.single (.aside rfl rfl rfl rfl), trivial⟩

lemma tellOpcode (f : Memory → Notice) : Acts P m (RunM.tellOpcode f) fun _ => True := by
  unfold Acts RunM.tellOpcode
  split
  · exact ⟨.single (.aside rfl rfl rfl rfl), trivial⟩
  · exact ⟨.refl, trivial⟩

end Acts

/-! ### Slots -/

lemma moves_settle (h : m.Applies P) (target produced : Address) : Moves P m (settle target produced) := by
  refine .value? ?_
  cases m.store.memory.value? produced with
  | none => exact .memory (.pure trivial)
  | some v => exact (Acts.memoize target v).bind h fun _ _ _ _ => .pure trivial

lemma moves_leave (h : m.Applies P) (target : Address) (function : Callable) (produced : Address) :
    Moves P m (leave target function produced) := by
  refine (moves_settle h target produced).bind h fun step m' h' hstep => ?_
  cases step with
  | value b => exact (Acts.tell _).bind h' fun _ _ _ _ => .pure trivial
  | error p => exact .pure trivial
  | action next => exact .pure hstep

lemma moves_conclude (h : m.Applies P) (i : Invocation) (produced : Address) :
    Moves P m (conclude i produced) := by
  refine (moves_settle h i.target produced).bind h fun step m' h' hstep => ?_
  cases step with
  | value b => exact (Acts.tellOpcode _).bind h' fun _ _ _ _ => .pure trivial
  | error p => exact .pure trivial
  | action next => exact .pure hstep

lemma moves_deepen (a : Address) (v : Value) : Moves P m (deepen a v) := by
  refine .memory ?_
  split
  · exact .pure trivial
  · have hmembers : ∀ as : List Address,
        Action.Applies P (.mk (as.map fun a => .evaluate a .deep) (.value a)) := fun as =>
      Action.applies_mk (fun d hd => by
        obtain ⟨b, -, rfl⟩ := List.mem_map.mp hd
        exact Action.applies_evaluate b .deep) trivial
    exact .pure (hmembers _)

/-! ### Cells of activations -/

lemma acts_nodeAction (h : m.Applies P) {p : Pending} (hp : p.activation.call.Applies P) :
    Acts P m (nodeAction p) (Action.AppliesIfAny P) := by
  have built : ∀ slot v, Acts P m (do
      RunM.store (StoreM.memoize slot v)
      pure (.ok (.value slot))) (Action.AppliesIfAny P) := fun slot v =>
    (Acts.memoize slot v).bind h fun _ _ _ _ => .pure (Action.appliesIfAny_ok (Action.applies_value _))
  have hwork := cellWork_nodeAction p
  generalize nodeAction p = work at hwork
  cases hwork with
  | given => exact .pure (Action.appliesIfAny_ok (Action.applies_value _))
  | structured | iterable => exact built _ _
  | opcode hnode _ hop _ =>
    have happlies := hp.node p.node _ hnode
    rw [hop] at happlies
    exact .pure (Action.appliesIfAny_ok (Action.applies_invocation happlies))
  | call => exact .pure (Action.appliesIfAny_ok ((Action.applies_evaluate _ _).andThen trivial))
  | corrupt => exact .pure nofun

lemma acts_resolve (h : m.Applies P) (a : Address) :
    Acts P m (resolve a) (Action.AppliesIfAny P) := by
  have hwork := slotWork_resolve m a
  unfold Acts
  generalize resolve a m = r at hwork
  cases hwork with
  | pending _ _ hp => exact acts_nodeAction h (h.pending _ _ hp)
  | deferred =>
    exact ⟨.refl, Action.appliesIfAny_ok ((Action.applies_evaluate _ _).andThen trivial)⟩
  | unresolved q => exact ⟨.refl, nofun⟩

lemma moves_force (h : m.Applies P) (a : Address) (depth : Depth) : Moves P m (force a depth) := by
  refine .value? ?_
  cases m.store.memory.value? a with
  | some v =>
    cases depth with
    | shallow => exact .pure trivial
    | deep => exact moves_deepen a v
  | none =>
    refine (acts_resolve h a).bind h fun o m' h' ho => ?_
    cases o with
    | error p => exact .pure trivial
    | ok action =>
      have hsettled : (action.andThen (.settle a)).Applies P := (ho action rfl).andThen trivial
      cases depth with
      | shallow => exact .pure hsettled
      | deep =>
        have hdeepened : ((action.andThen (.settle a)).andThen .deepen).Applies P :=
          hsettled.andThen trivial
        exact .pure hdeepened

/-! ### Calls -/

lemma acts_compile (h : m.Applies P) (a : Address) :
    Acts P m (compile a) (Compilation.Applies P) := by
  refine ⟨.single (.aside rfl rfl rfl rfl), ?_⟩
  exact applies_compileSlot h.opcodes m.setting.modules m.store.memory a m.store.types

lemma acts_compileAt (h : m.Applies P) (i : Nat) :
    Acts P m (compileAt i) (Compilation.Applies P) := by
  obtain ⟨c, hc, heq⟩ | ⟨c, types, -, hc, heq⟩ := compileAt_cases i m
  · rw [Acts, heq]
    exact ⟨.refl, h.compiled i c hc⟩
  · have happlies : c.Applies P := by
      obtain rfl | ⟨a, rfl⟩ := hc
      · exact nofun
      · exact applies_compileSlot h.opcodes m.setting.modules m.store.memory a m.store.types
    rw [Acts, heq]
    have asked : Effect P m { m with store := { m.store with types } } := .aside rfl rfl rfl rfl
    exact ⟨.tail (.single asked) (.noted i happlies), happlies⟩

lemma acts_construct {call : CompiledCall} (hcall : call.Applies P) (argument : Address) :
    Acts P m (construct call argument) fun o => ∀ action, o = .ok action →
      ∃ result, action = .evaluate result .shallow := by
  obtain ⟨m₁, ⟨setting, memory, compiled, pending⟩, hends⟩ := setsUp_construct call argument m
  have judged : Effect P m m₁ := .aside setting memory compiled pending
  obtain ⟨p, heq⟩ | ⟨p, heq⟩ | ⟨result, heq⟩ := hends <;> rw [Acts, heq]
  · exact ⟨.single judged, fun _ heq => by cases heq⟩
  · obtain ⟨effects, -⟩ : Acts P m₁ (RunM.store (activate argument call.nodes)) fun _ => True :=
      .growing (activates_activate argument call.nodes m₁.store).memory trivial
    exact ⟨effects.head judged, fun _ heq => by cases heq⟩
  · refine ⟨.tail (.single judged) (.activated hcall argument), ?_⟩
    rintro _ ⟨⟩
    exact ⟨result, rfl⟩

lemma acts_compilation (h : m.Applies P) (a : Address) :
    Acts P m (compilation a) (Compilation.Applies P) := by
  cases a with
  | loose k => exact acts_compile h _
  | «at» i =>
    dsimp only [compilation, compileFunction, Acts]
    split
    · exact acts_compileAt h i
    · exact acts_compile h _

lemma moves_callCompiled (h : m.Applies P) {compiled : CompiledCall} (hcompiled : compiled.Applies P)
    (argument target : Address) : Moves P m (callCompiled compiled argument target) := by
  refine (acts_construct hcompiled argument).bind h fun o m' h' ho => ?_
  cases o with
  | error p => exact .pure trivial
  | ok action =>
    obtain ⟨result, rfl⟩ := ho action rfl
    have hstep : Action.Applies P
        ((Action.evaluate result .shallow).andThen (.leave target compiled.callable)) :=
      (Action.applies_evaluate _ _).andThen trivial
    exact (Acts.tell _).bind h' fun _ _ _ _ => .pure hstep

lemma moves_call (h : m.Applies P) (function argument target : Address) :
    Moves P m (call function argument target) := by
  rw [call_eq]
  refine .memory ((acts_compilation h function).bind h fun c m' h' hc => ?_)
  cases c with
  | error problems => exact .pure trivial
  | ok compiled => exact moves_callCompiled h' (hc compiled rfl) argument target

/-! ### Reductions -/

lemma acts_combine (h : m.Applies P) {c : Combiner} (hc : c.Applies P) (left right : Address) :
    Acts P m (combine c left right) (Action.AppliesIfAny P) := by
  cases c with
  | opcode op context type =>
    have hadded : Acts P m (RunM.store (StoreM.allocate (reduceCell type) none)) fun _ => True :=
      .growing (m.store.memory.over_allocate _ none) trivial
    exact hadded.bind h fun _ _ _ _ => .pure (Action.appliesIfAny_ok (Action.applies_invocation hc))
  | function f first second context type =>
    obtain ⟨x, heq, hadds, hx⟩ := combine_function f first second context type left right
    rw [heq]
    refine .growing (hadds _) fun a ha => ?_
    obtain ⟨b, rfl⟩ := hx m.store a ha
    exact Action.applies_evaluate b .shallow

lemma moves_sequential (h : m.Applies P) {c : Combiner} (hc : c.Applies P) (term : Address)
    (rest : List Address) : Moves P m (sequential c term rest) := by
  cases rest with
  | nil => exact moves_force h term .shallow
  | cons next rest =>
    refine (acts_combine h hc term next).bind h fun o m' _ ho => ?_
    cases o with
    | error p => exact .pure trivial
    | ok action =>
      have hcombined : (action.andThen (.combine c rest)).Applies P := (ho action rfl).andThen hc
      exact .pure hcombined

lemma acts_pairUp {c : Combiner} (hc : c.Applies P) : ∀ (terms : List Address) {m : Machine},
    m.Applies P → Acts P m (pairUp c terms) fun o =>
      ∀ actions carry, o = .ok (actions, carry) → ∀ a ∈ actions, a.Applies P
  | [], _, _ => .pure fun actions carry heq => by
    cases heq
    exact List.forall_mem_nil _
  | [_], _, _ => .pure fun actions carry heq => by
    cases heq
    exact List.forall_mem_nil _
  | left :: right :: rest, _, h => by
    refine (acts_combine h hc left right).bind h fun o m₁ h₁ ho => ?_
    cases o with
    | error p => exact .pure nofun
    | ok action =>
      refine (acts_pairUp hc rest h₁).bind h₁ fun o' m₂ _ ho' => ?_
      cases o' with
      | error p => exact .pure nofun
      | ok r =>
        refine .pure fun actions carry heq => ?_
        cases heq
        exact List.forall_mem_cons.mpr ⟨ho action rfl, ho' _ _ rfl⟩

lemma moves_pairwise (h : m.Applies P) {c : Combiner} (hc : c.Applies P) (terms : List Address) :
    Moves P m (pairwise c terms) := by
  unfold pairwise
  split
  · exact .pure trivial
  · exact moves_force h _ .shallow
  · refine (acts_pairUp hc terms h).bind h fun o m' _ ho => ?_
    cases o with
    | error p => exact .pure trivial
    | ok r =>
      have hlevel : (Action.mk r.1 (.combineLevel c r.2)).Applies P :=
        Action.applies_mk (ho _ _ rfl) hc
      exact .pure hlevel

lemma moves_reduceElements (h : m.Applies P) {c : Combiner} (hc : c.Applies P)
    (initial iterable : Address) : Moves P m (reduceElements c initial iterable) := by
  unfold reduceElements
  refine .memory ?_
  split
  · refine .setting ?_
    split
    · exact moves_sequential h hc initial _
    · exact moves_pairwise h hc _
  · exact .pure trivial

/-! ### Opcodes -/

lemma applies_combinerOf (h : m.Applies P) {r : Reducer} {type : Ty} {c : Combiner}
    (hc : combinerOf r type m = .ok c) : c.Applies P := by
  unfold combinerOf at hc
  dsimp only at hc
  split at hc
  · split at hc
    · next op hop =>
      cases hc
      exact h.opcodes _ op hop
    · cases hc
  · split at hc
    · split at hc
      · cases hc
      · cases hc
        trivial
    · cases hc

lemma moves_confer (h : m.Applies P) (i : Invocation) (frame : Frame) (v : Value) :
    Moves P m (confer i frame v) := by
  refine (Acts.checking _ _).bind h fun found m₁ h₁ _ => ?_
  cases firstOf found with
  | some p => exact .pure trivial
  | none =>
    exact (Acts.memoize i.target v).bind h₁ fun _ m₂ h₂ _ =>
      (Acts.tellOpcode _).bind h₂ fun _ _ _ _ => .pure trivial

lemma moves_proceed (h : m.Applies P) (i : Invocation) (frame : Frame) (r : Result) :
    Moves P m (proceed i frame r) := by
  cases r with
  | error p => exact .pure trivial
  | lazy a =>
    have hconcluded : ((Action.evaluate a .shallow).andThen (.conclude i)).Applies P :=
      (Action.applies_evaluate a .shallow).andThen trivial
    exact .pure hconcluded
  | value v => exact proceed_value_eq i frame v ▸ moves_confer h i frame v
  | reduce r =>
    refine .get ?_
    cases hc : combinerOf r i.cell.type m with
    | error p => exact .pure trivial
    | ok c =>
      have hreduced : Action.Applies P
          ((Action.evaluate r.terms.1 .shallow).andThen (.reduce c r.terms.2)) :=
        (Action.applies_evaluate _ .shallow).andThen (applies_combinerOf h hc)
      have hconcluded : Action.Applies P (((Action.evaluate r.terms.1 .shallow).andThen
          (.reduce c r.terms.2)).andThen (.conclude i)) := hreduced.andThen trivial
      exact .pure hconcluded

lemma moves_apply (h : m.Applies P) {i : Invocation} (hi : P i.opcode) (frame : Frame) :
    Moves P m (apply i frame) := by
  refine (Acts.checking _ _).bind h fun found m₁ h₁ _ => ?_
  cases firstOf found with
  | some p => exact .pure trivial
  | none =>
    have happlied : Acts P m₁ (RunM.store (i.opcode.evaluate frame)) fun _ => True :=
      ⟨.single (.applied hi frame), trivial⟩
    exact happlied.bind h₁ fun r m₂ h₂ _ => moves_proceed h₂ i frame r

lemma moves_invoke (h : m.Applies P) {i : Invocation} (hi : P i.opcode) : Moves P m (invoke i) := by
  rw [invoke_eq]
  refine .get ?_
  cases i.unready m.store.memory with
  | some position => exact .pure trivial
  | none => exact (Acts.tellOpcode _).bind h fun _ m₁ h₁ _ => moves_apply h₁ hi _

/-! ### Work -/

lemma moves_withResult {bs : List Address} {f : Address → Stepped} (hf : ∀ b, Moves P m (f b)) :
    Moves P m (withResult bs f) := by
  unfold withResult
  split
  · next b _ => exact hf b
  · exact .pure trivial

/-- **Work** does nothing but effects. -/
lemma moves_perform (h : m.Applies P) {w : Work Action} (hw : w.Applies P) (bs : List Address) :
    Moves P m (perform w bs) := by
  cases w with
  | value a => exact .pure trivial
  | evaluate a depth => exact moves_force h a depth
  | settle target => exact moves_withResult fun b => moves_settle h target b
  | deepen => exact moves_withResult fun b => moves_force h b .deep
  | call argument target => exact moves_withResult fun b => moves_call h b argument target
  | leave target function => exact moves_withResult fun b => moves_leave h target function b
  | invoke i => exact moves_invoke h hw
  | conclude i => exact moves_withResult fun b => moves_conclude h i b
  | reduce c initial => exact moves_withResult fun b => moves_reduceElements h hw initial b
  | combine c rest => exact moves_withResult fun b => moves_sequential h hw b rest
  | combineLevel c carry => exact moves_pairwise h hw _
  | custom run => exact hw.elim

end Machine

/-! ### Runs -/

/-- What runs keep to: effects, one after another. Where actions come to plays no part. -/
def Regime.effects (P : Opcode → Prop) : Regime where
  holds := Applies P
  later := Effects P
  sound _ a := a.Applies P
  comes _ _ _ := True
  serves _ _ := True

lemma Step.Applies.allows {a : Action} {step : Step Action} (h : step.Applies P) :
    (Regime.effects P).Allows m a step := by
  cases step with
  | value b => trivial
  | error p => trivial
  | action next => exact ⟨h, trivial⟩

/-- **Runs are made of effects.** -/
lemma Regime.lawful_effects (P : Opcode → Prop) : (Regime.effects P).Lawful where
  refl _ := .refl
  trans := .trans
  holds := by
    intro m steps cancelled h
    have effect : Effect P m { m with steps, store := { m.store with cancelled } } :=
      .aside rfl rfl rfl rfl
    exact ⟨h.effect effect, .single effect⟩
  sound _ h := h
  comes _ _ := trivial
  serves_refl _ := trivial
  serves_trans _ _ := trivial
  served _ _ := trivial
  dependencies h := h.dependencies
  perform := by
    rintro m ⟨ds, w⟩ bs h ha -
    obtain ⟨effects, hstep⟩ := moves_perform h ha.here bs
    exact ⟨h.effects effects, effects, hstep.allows⟩

end CellMachine
