import CellMachine.Proofs.Forcing.Machines
import CellMachine.Proofs.Machine.Regime

/-!
How far work evaluates slots. An evaluation that comes to a slot has evaluated it as far as was asked,
at any depth and whatever opcodes gave it its value; so by the time an opcode is applied, its arguments
are evaluated as it declares.
-/

namespace CellMachine

open Machine

/-- A slot that is evaluated as far as asked. -/
def Memory.EvaluatedTo (m : Memory) : Depth → Address → Prop
  | .shallow, a => m.isEvaluated a = true
  | .deep, a => m.Forced a

/-- An action that has evaluated a slot to a depth once it comes to that slot; it comes to no other. -/
inductive Action.Brings : Action → Depth → Address → Prop
  | evaluate {ds : List Action} {a : Address} {depth : Depth} :
    Brings (.mk ds (.evaluate a depth)) depth a
  | settled {ds : List Action} {a : Address} : Brings (.mk ds (.settle a)) .shallow a
  | deepened {ds : List Action} {d : Action} {a : Address} (hd : ds.getLast? = some d)
    (h : Brings d .shallow a) : Brings (.mk ds .deepen) .deep a
  | members {ds : List Action} {a : Address} (hds : ds ≠ []) : Brings (.mk ds (.value a)) .deep a

def Combiner.Keeps : Combiner → Prop
  | .opcode op _ _ => op.Keeps
  | .function .. => True

/-- Work that can keep what its action promises. A slot for whose members an action waits has no other
members that are still to be evaluated. -/
def Work.Forcing (m : Memory) (ds : List Action) : Work Action → Prop
  | .value a => ds ≠ [] → ∃ v, m.value? a = some v ∧
      ∀ c ∈ v.members, m.Forced c ∨ .evaluate c .deep ∈ ds
  | .settle target => (m.get? target).isSome = true
  | .invoke i => i.opcode.Keeps ∧ ds = i.action.dependencies
  | .reduce c _ | .combine c _ | .combineLevel c _ => c.Keeps
  | .custom _ => False
  | .evaluate .. | .deepen | .call .. | .leave .. | .conclude _ => True

def Action.Forcing (m : Memory) : Action → Prop := Every fun ds w => w.Forcing m ds

/-- A step to a slot that is evaluated as promised, or to work that promises the same. -/
def Step.Forcing (m : Memory) (promised : Depth → Address → Prop) : Step Action → Prop
  | .value b => ∀ depth a, promised depth a → b = a ∧ m.EvaluatedTo depth a
  | .error _ => True
  | .action next => next.Forcing m ∧ ∀ depth a, promised depth a → next.Brings depth a

/-- The slot alone is promised, to a depth. -/
def Promised (depth : Depth) (a : Address) : Depth → Address → Prop := fun d b => d = depth ∧ b = a

/-- Nothing is promised. -/
def NothingPromised : Depth → Address → Prop := fun _ _ => False

variable {memory memory' : Memory} {m m' : Machine}

lemma Memory.Keeps.evaluatedTo (h : memory.Keeps memory') {depth : Depth} {a : Address}
    (ha : memory.EvaluatedTo depth a) : memory'.EvaluatedTo depth a := by
  cases depth with
  | shallow => exact h.isEvaluated ha
  | deep => exact h.forced ha

/-! ### Actions -/

namespace Action

lemma forcing_mk {ds : List Action} {w : Work Action} (hds : ∀ d ∈ ds, Forcing memory d)
    (hw : w.Forcing memory ds) : Forcing memory (.mk ds w) := by
  refine .mk hw hds ?_
  rintro run rfl
  exact hw.elim

lemma forcing_value (a : Address) : Forcing memory (value a) := forcing_mk nofun fun h => absurd rfl h

lemma forcing_evaluate (a : Address) (depth : Depth) : Forcing memory (evaluate a depth) :=
  forcing_mk nofun trivial

lemma Forcing.andThen {a : Action} (h : a.Forcing memory) {w : Work Action}
    (hw : w.Forcing memory [a]) : Forcing memory (a.andThen w) :=
  forcing_mk (fun _ hd => List.mem_singleton.mp hd ▸ h) hw

lemma forcing_invocation {i : Invocation} (h : i.opcode.Keeps) : i.action.Forcing memory := by
  refine forcing_mk (fun d hd => ?_) ⟨h, rfl⟩
  obtain ⟨e, -, hd⟩ := List.mem_filterMap.mp hd
  split at hd <;> cases hd <;> exact forcing_evaluate _ _

end Action

lemma Work.Forcing.mono (h : memory.Keeps memory') {ds : List Action} {w : Work Action}
    (hw : w.Forcing memory ds) : w.Forcing memory' ds := by
  cases w with
  | value a =>
    intro hds
    obtain ⟨v, hv, hall⟩ := hw hds
    exact ⟨v, h.value? hv, fun c hc => (hall c hc).imp h.forced id⟩
  | settle target => exact h.isSome hw
  | _ => exact hw

lemma Action.Forcing.mono (h : memory.Keeps memory') {a : Action} (ha : a.Forcing memory) :
    a.Forcing memory' :=
  Every.mono (fun _ _ hw => hw.mono h) ha

lemma Step.Forcing.weaken {promised promised' : Depth → Address → Prop} {step : Step Action}
    (h : step.Forcing memory promised) (hle : ∀ depth a, promised' depth a → promised depth a) :
    step.Forcing memory promised' := by
  cases step with
  | value b => exact fun depth a ha => h depth a (hle depth a ha)
  | error p => trivial
  | action next => exact ⟨h.1, fun depth a ha => h.2 depth a (hle depth a ha)⟩

/-- An action that was made, if it was made, keeps its promise. -/
def ForcingIfAny (o : Outcome Action) (memory : Memory) : Prop :=
  ∀ action, o = .ok action → action.Forcing memory

lemma forcingIfAny_ok {action : Action} (h : action.Forcing memory) :
    ForcingIfAny (.ok action) memory := by
  rintro _ ⟨⟩
  exact h

namespace Machine

/-- A computation whose step is as promised afterwards. -/
def Forces (m : Machine) (x : Stepped) (promised : Depth → Address → Prop) : Prop :=
  Lasts m x fun step memory => step.Forcing memory promised

lemma Forces.weaken {x : Stepped} {promised promised' : Depth → Address → Prop}
    (h : Forces m x promised) (hle : ∀ depth a, promised' depth a → promised depth a) :
    Forces m x promised' := h.mono fun _ _ hstep => hstep.weaken hle

lemma forces_error (h : m.Lasting) (p : Problem) {promised : Depth → Address → Prop} :
    Forces m (pure (.error p)) promised := .pure h trivial

/-! ### Slots -/

lemma forces_settle (h : m.Lasting) {target : Address}
    (htarget : (m.store.memory.get? target).isSome = true) (produced : Address) :
    Forces m (settle target produced) (Promised .shallow target) := by
  refine .value? ?_
  cases m.store.memory.value? produced with
  | none => exact .memory (forces_error h _)
  | some v =>
    refine (Lasts.memoize h htarget v).bind fun _ m' h' _ hvalued => .pure h' ?_
    rintro depth a ⟨rfl, rfl⟩
    exact ⟨rfl, hvalued⟩

lemma lasts_settle (h : m.Lasting) (target produced : Address) :
    Forces m (settle target produced) NothingPromised := by
  refine .value? ?_
  cases m.store.memory.value? produced with
  | none => exact .memory (forces_error h _)
  | some v =>
    exact (Lasts.store h (Memory.keeps_memoize _ target v) (Q := fun _ _ => True) trivial).bind
      fun _ m' h' _ _ => .pure h' nofun

lemma Lasts.told {step : Step Action} (hstep : step.Forcing m.store.memory NothingPromised)
    {x : RunM Unit} (hx : Lasts m x fun _ _ => True) :
    Forces m (x >>= fun _ => Pure.pure step) NothingPromised := by
  refine hx.bind fun _ m' h' keeps _ => .pure h' ?_
  cases step with
  | value b => exact nofun
  | error p => trivial
  | action next => exact ⟨hstep.1.mono keeps, nofun⟩

lemma forces_leave (h : m.Lasting) (target : Address) (function : Callable) (produced : Address) :
    Forces m (leave target function produced) NothingPromised := by
  refine (lasts_settle h target produced).bind fun step m' h' _ hstep => ?_
  cases step with
  | value b => exact Lasts.told hstep (.tell h' _)
  | error p => exact .pure h' hstep
  | action next => exact .pure h' hstep

lemma forces_conclude (h : m.Lasting) (i : Invocation) (produced : Address) :
    Forces m (conclude i produced) NothingPromised := by
  refine (lasts_settle h i.target produced).bind fun step m' h' _ hstep => ?_
  cases step with
  | value b => exact Lasts.told hstep (.tellOpcode h' _)
  | error p => exact .pure h' hstep
  | action next => exact .pure h' hstep

lemma forced_of_not_open {v : Value} {c : Address} (hc : c ∈ v.members)
    (hclosed : c ∉ openMembers memory v) : memory.Forced c := by
  have hsettled : ∃ w, memory.value? c = some w ∧ w.members = [] := by
    by_contra hno
    refine hclosed (List.mem_filter.mpr ⟨hc, ?_⟩)
    cases hw : memory.value? c with
    | none => rfl
    | some w =>
      cases w with
      | iterable items => rfl
      | structured r => rfl
      | _ => exact absurd ⟨_, hw, rfl⟩ hno
  obtain ⟨w, hw, hnil⟩ := hsettled
  refine .mk hw fun d hd => ?_
  rw [hnil] at hd
  cases hd

/-- **The members that need work** are the dependencies of the action that follows. -/
lemma forces_deepen (h : m.Lasting) {a : Address} {v : Value}
    (hv : m.store.memory.value? a = some v) : Forces m (deepen a v) (Promised .deep a) := by
  refine .memory ?_
  split
  · next hopen =>
    refine .pure h ?_
    rintro depth b ⟨rfl, rfl⟩
    refine ⟨rfl, .mk hv fun c hc => forced_of_not_open hc ?_⟩
    rw [hopen]
    exact List.not_mem_nil
  · next hne =>
    refine .pure h ⟨Action.forcing_mk (fun d hd => ?_) fun _ => ⟨v, hv, fun c hc => ?_⟩, ?_⟩
    · obtain ⟨b, -, rfl⟩ := List.mem_map.mp hd
      exact Action.forcing_evaluate b .deep
    · by_cases hopen : c ∈ openMembers m.store.memory v
      · exact .inr (List.mem_map_of_mem hopen)
      · exact .inl (forced_of_not_open hc hopen)
    · rintro depth b ⟨rfl, rfl⟩
      exact .members fun hnil => hne (List.map_eq_nil_iff.mp hnil)

/-! ### Cells of activations -/

lemma lasts_nodeAction (h : m.Lasting) {p : Pending} (hp : p.activation.call.Keeps) :
    Lasts m (nodeAction p) ForcingIfAny := by
  have built : ∀ (slot : Address) (v : Value), Lasts m (do
      RunM.store (StoreM.memoize slot v)
      pure (.ok (.value slot))) ForcingIfAny := fun slot v =>
    (Lasts.store h (Memory.keeps_memoize _ slot v) (Q := fun _ _ => True) trivial).bind
      fun _ m' h' _ _ => .pure h' (forcingIfAny_ok (Action.forcing_value slot))
  have hwork := cellWork_nodeAction p
  generalize nodeAction p = work at hwork
  cases hwork with
  | given => exact .pure h (forcingIfAny_ok (Action.forcing_value _))
  | structured | iterable => exact built _ _
  | opcode hnode _ hop _ =>
    have hkeeps := hp _ _ hnode
    rw [hop] at hkeeps
    exact .pure h (forcingIfAny_ok (Action.forcing_invocation hkeeps))
  | call => exact .pure h (forcingIfAny_ok ((Action.forcing_evaluate _ _).andThen trivial))
  | corrupt => exact .pure h nofun

lemma lasts_resolve (h : m.Lasting) (a : Address) :
    Lasts m (resolve a) fun o memory => ∀ action, o = .ok action →
      action.Forcing memory ∧ (memory.get? a).isSome = true := by
  have hwork := slotWork_resolve m a
  unfold Lasts
  generalize resolve a m = r at hwork
  cases hwork with
  | pending _ hsome hp =>
    obtain ⟨h', keeps, ho⟩ := lasts_nodeAction h (h.pending _ _ hp)
    exact ⟨h', keeps, fun action haction => ⟨ho action haction, keeps.isSome hsome⟩⟩
  | deferred hslot =>
    refine ⟨h, .refl _, ?_⟩
    rintro _ ⟨⟩
    exact ⟨(Action.forcing_evaluate _ _).andThen trivial, Option.isSome_iff_exists.mpr ⟨_, hslot⟩⟩
  | unresolved q => exact ⟨h, .refl _, nofun⟩

/-- **An evaluation** comes to its slot, evaluated as far as asked, or goes on with work that does. -/
lemma forces_force (h : m.Lasting) (a : Address) (depth : Depth) :
    Forces m (force a depth) (Promised depth a) := by
  refine .value? ?_
  cases hv : m.store.memory.value? a with
  | some v =>
    cases depth with
    | shallow =>
      refine .pure h ?_
      rintro _ _ ⟨rfl, rfl⟩
      exact ⟨rfl, Option.isSome_iff_exists.mpr ⟨v, hv⟩⟩
    | deep => exact forces_deepen h hv
  | none =>
    refine (lasts_resolve h a).bind fun o m' h' _ ho => ?_
    cases o with
    | error p => exact forces_error h' p
    | ok action =>
      obtain ⟨haction, hsome⟩ := ho action rfl
      have hsettled : (action.andThen (.settle a)).Forcing m'.store.memory := haction.andThen hsome
      have hbrings : (action.andThen (.settle a)).Brings .shallow a := .settled
      cases depth with
      | shallow =>
        refine .pure h' ⟨hsettled, ?_⟩
        rintro _ _ ⟨rfl, rfl⟩
        exact hbrings
      | deep =>
        refine .pure h' ⟨hsettled.andThen trivial, ?_⟩
        rintro _ _ ⟨rfl, rfl⟩
        exact .deepened rfl hbrings

/-! ### Calls -/

lemma lasts_construct (h : m.Lasting) {call : CompiledCall} (hcall : call.Keeps)
    (argument : Address) : Lasts m (construct call argument) fun o _ => ∀ action, o = .ok action →
      ∃ result, action = .evaluate result .shallow := by
  obtain ⟨m₁, ⟨hsetting, hmemory, hcompiled, hpending⟩, hends⟩ := setsUp_construct call argument m
  have judged : m₁.Lasting := h.congr hsetting hcompiled hpending
  have hover := (activates_activate argument call.nodes m₁.store).memory
  obtain ⟨p, heq⟩ | ⟨p, heq⟩ | ⟨result, heq⟩ := hends <;> rw [Lasts, heq, ← hmemory]
  · exact ⟨judged, .refl _, fun _ heq => by cases heq⟩
  · exact ⟨judged.congr rfl rfl rfl, hover.isKeeps, fun _ heq => by cases heq⟩
  · refine ⟨lasting_activated judged hcall argument, hover.isKeeps, ?_⟩
    rintro _ ⟨⟩
    exact ⟨result, rfl⟩

lemma lasts_compilation (h : m.Lasting) (a : Address) :
    Lasts m (compilation a) fun c _ => c.Keeps := by
  cases a with
  | loose k => exact lasts_compile h _
  | «at» i =>
    dsimp only [compilation, compileFunction, Lasts]
    split
    · exact lasts_compileAt h i
    · exact lasts_compile h _

lemma forces_callCompiled (h : m.Lasting) {compiled : CompiledCall} (hcompiled : compiled.Keeps)
    (argument target : Address) :
    Forces m (callCompiled compiled argument target) NothingPromised := by
  refine (lasts_construct h hcompiled argument).bind fun o m' h' _ ho => ?_
  cases o with
  | error p => exact forces_error h' p
  | ok action =>
    obtain ⟨result, rfl⟩ := ho action rfl
    have hstep : Step.Forcing m'.store.memory NothingPromised
        (.action ((Action.evaluate result .shallow).andThen (.leave target compiled.callable))) :=
      ⟨(Action.forcing_evaluate _ _).andThen trivial, nofun⟩
    exact Lasts.told hstep (.tell h' _)

lemma forces_call (h : m.Lasting) (function argument target : Address) :
    Forces m (call function argument target) NothingPromised := by
  rw [call_eq]
  refine .memory ((lasts_compilation h function).bind fun c m' h' _ hc => ?_)
  cases c with
  | error problems => exact forces_error h' _
  | ok compiled => exact forces_callCompiled h' (hc compiled rfl) argument target

/-! ### Reductions -/

lemma lasts_combine (h : m.Lasting) {c : Combiner} (hc : c.Keeps) (left right : Address) :
    Lasts m (combine c left right) ForcingIfAny := by
  cases c with
  | opcode op context type =>
    have hadded : Lasts m (RunM.store (StoreM.allocate (reduceCell type) none)) fun _ _ => True :=
      .store h (m.store.memory.over_allocate _ none).isKeeps trivial
    exact hadded.bind fun target m' h' _ _ =>
      .pure h' (forcingIfAny_ok (Action.forcing_invocation hc))
  | function f first second context type =>
    obtain ⟨x, heq, hadds, hx⟩ := combine_function f first second context type left right
    rw [heq]
    refine .store h (hadds _).isKeeps fun a ha => ?_
    obtain ⟨b, rfl⟩ := hx m.store a ha
    exact Action.forcing_evaluate b .shallow

lemma forces_sequential (h : m.Lasting) {c : Combiner} (hc : c.Keeps) (term : Address)
    (rest : List Address) : Forces m (sequential c term rest) NothingPromised := by
  cases rest with
  | nil => exact (forces_force h term .shallow).weaken nofun
  | cons next rest =>
    refine (lasts_combine h hc term next).bind fun o m' h' _ ho => ?_
    cases o with
    | error p => exact forces_error h' p
    | ok action => exact .pure h' ⟨(ho action rfl).andThen hc, nofun⟩

lemma lasts_pairUp {c : Combiner} (hc : c.Keeps) : ∀ (terms : List Address) {m : Machine},
    m.Lasting → Lasts m (pairUp c terms) fun o memory => ∀ actions carry,
      o = .ok (actions, carry) → ∀ a ∈ actions, a.Forcing memory
  | [], _, h => .pure h fun actions carry heq => by
    cases heq
    exact List.forall_mem_nil _
  | [_], _, h => .pure h fun actions carry heq => by
    cases heq
    exact List.forall_mem_nil _
  | left :: right :: rest, _, h => by
    refine (lasts_combine h hc left right).bind fun o m₁ h₁ _ ho => ?_
    cases o with
    | error p => exact .pure h₁ nofun
    | ok action =>
      refine (lasts_pairUp hc rest h₁).bind fun o' m₂ h₂ keeps ho' => ?_
      cases o' with
      | error p => exact .pure h₂ nofun
      | ok r =>
        refine .pure h₂ fun actions carry heq => ?_
        cases heq
        exact List.forall_mem_cons.mpr ⟨(ho action rfl).mono keeps, ho' _ _ rfl⟩

lemma forces_pairwise (h : m.Lasting) {c : Combiner} (hc : c.Keeps) (terms : List Address) :
    Forces m (pairwise c terms) NothingPromised := by
  unfold pairwise
  split
  · exact forces_error h _
  · exact (forces_force h _ .shallow).weaken nofun
  · refine (lasts_pairUp hc terms h).bind fun o m' h' _ ho => ?_
    cases o with
    | error p => exact forces_error h' p
    | ok r => exact .pure h' ⟨Action.forcing_mk (ho _ _ rfl) hc, nofun⟩

lemma forces_reduceElements (h : m.Lasting) {c : Combiner} (hc : c.Keeps)
    (initial iterable : Address) : Forces m (reduceElements c initial iterable) NothingPromised := by
  unfold reduceElements
  refine .memory ?_
  split
  · refine .setting ?_
    split
    · exact forces_sequential h hc initial _
    · exact forces_pairwise h hc _
  · exact forces_error h _

/-! ### Opcodes -/

lemma keeps_combinerOf (h : m.Lasting) {r : Reducer} {type : Ty} {c : Combiner}
    (hc : combinerOf r type m = .ok c) : c.Keeps := by
  unfold combinerOf at hc
  dsimp only at hc
  split at hc
  · split at hc
    · next op hop =>
      cases hc
      exact h.opcodes _ op hop
    · cases hc
  · split at hc
    · split at hc
      · cases hc
      · cases hc
        trivial
    · cases hc

lemma forces_confer (h : m.Lasting) (i : Invocation) (frame : Frame) (v : Value) :
    Forces m (confer i frame v) NothingPromised := by
  refine (Lasts.checking h _ _).bind fun found m₁ h₁ _ _ => ?_
  cases firstOf found with
  | some p => exact forces_error h₁ _
  | none =>
    refine (Lasts.store h₁ (Memory.keeps_memoize _ i.target v) (Q := fun _ _ => True)
      trivial).bind fun _ m₂ h₂ _ _ => ?_
    have hstep : Step.Forcing m₂.store.memory NothingPromised (.value i.target) := nofun
    exact Lasts.told hstep (.tellOpcode h₂ _)

lemma forces_proceed (h : m.Lasting) (i : Invocation) (frame : Frame) (r : Result) :
    Forces m (proceed i frame r) NothingPromised := by
  cases r with
  | error p => exact forces_error h _
  | lazy a => exact .pure h ⟨(Action.forcing_evaluate a .shallow).andThen trivial, nofun⟩
  | value v => exact proceed_value_eq i frame v ▸ forces_confer h i frame v
  | reduce r =>
    refine .get ?_
    cases hc : combinerOf r i.cell.type m with
    | error p => exact forces_error h _
    | ok c =>
      have hreduced : Action.Forcing m.store.memory
          ((Action.evaluate r.terms.1 .shallow).andThen (.reduce c r.terms.2)) :=
        (Action.forcing_evaluate _ .shallow).andThen (keeps_combinerOf h hc)
      exact .pure h ⟨hreduced.andThen trivial, nofun⟩

lemma forces_apply (h : m.Lasting) {i : Invocation} (hi : i.opcode.Keeps) (frame : Frame) :
    Forces m (apply i frame) NothingPromised := by
  refine (Lasts.checking h _ _).bind fun found m₁ h₁ _ _ => ?_
  cases firstOf found with
  | some p => exact forces_error h₁ _
  | none =>
    exact (Lasts.store h₁ (hi _ _) (Q := fun _ _ => True) trivial).bind
      fun r m₂ h₂ _ _ => forces_proceed h₂ i frame r

lemma forces_invoke (h : m.Lasting) {i : Invocation} (hi : i.opcode.Keeps) :
    Forces m (invoke i) NothingPromised := by
  rw [invoke_eq]
  refine .get ?_
  cases i.unready m.store.memory with
  | some position => exact forces_error h _
  | none => exact (Lasts.tellOpcode h _).bind fun _ m₁ h₁ _ _ => forces_apply h₁ hi _

/-! ### Work -/

lemma forces_withResult (h : m.Lasting) {bs : List Address} {f : Address → Stepped}
    {promised : Depth → Address → Prop}
    (hf : ∀ b, bs.getLast? = some b → Forces m (f b) promised) :
    Forces m (withResult bs f) promised := by
  unfold withResult
  split
  · next b hb => exact hf b hb
  · exact forces_error h _

end Machine

/-- A slot that an action may come to is the one that it brings, evaluated as far as that. -/
def Machine.Brought (m : Machine) (a : Action) (b : Address) : Prop :=
  ∀ depth c, a.Brings depth c → b = c ∧ m.store.memory.EvaluatedTo depth c

/-- What runs keep to: values last, and evaluations reach as far as asked. -/
def Regime.forcing : Regime where
  holds := Lasting
  later m m' := m.store.memory.Keeps m'.store.memory
  sound m a := a.Forcing m.store.memory
  comes := Brought
  serves next a := ∀ depth c, a.Brings depth c → next.Brings depth c

namespace Machine

lemma forall₂_getLast? {ds : List Action} {bs : List Address} (h : List.Forall₂ m.Brought ds bs) :
    Option.Rel m.Brought ds.getLast? bs.getLast? := by
  rw [List.getLast?_eq_head?_reverse, List.getLast?_eq_head?_reverse]
  have hrev := List.rel_reverse h
  generalize ds.reverse = ds, bs.reverse = bs at hrev
  cases hrev with
  | nil => exact .none
  | cons hd _ => exact .some hd

lemma evaluatedTo_of_brought {ds : List Action} {bs : List Address}
    (h : List.Forall₂ m.Brought ds bs) {a : Address} {depth : Depth}
    (ha : .evaluate a depth ∈ ds) : m.store.memory.EvaluatedTo depth a := by
  induction h with
  | nil => cases ha
  | cons hd _ ih =>
    rcases List.mem_cons.mp ha with rfl | ha
    · exact (hd depth a .evaluate).2
    · exact ih ha

/-- **Work** evaluates as far as its action promises. -/
lemma forces_perform (h : m.Lasting) {ds : List Action} {w : Work Action} {bs : List Address}
    (hw : w.Forcing m.store.memory ds) (hbs : List.Forall₂ m.Brought ds bs) :
    Forces m (perform w bs) (Action.mk ds w).Brings := by
  -- Most work promises nothing.
  have nothing : ∀ {x}, (∀ depth a, ¬ (Action.mk ds w).Brings depth a) →
      Forces m x NothingPromised → Forces m x (Action.mk ds w).Brings :=
    fun hno hx => hx.weaken hno
  cases w with
  | value a =>
    refine .pure h ?_
    rintro _ _ (_ | _ | _ | hds)
    obtain ⟨v, hv, hall⟩ := hw hds
    exact ⟨rfl, .mk hv fun c hc => (hall c hc).elim id fun hin => evaluatedTo_of_brought hbs hin⟩
  | evaluate a depth =>
    refine (forces_force h a depth).weaken ?_
    rintro _ _ ⟨⟩
    exact ⟨rfl, rfl⟩
  | settle target =>
    refine forces_withResult h fun b _ => (forces_settle h hw b).weaken ?_
    rintro _ _ ⟨⟩
    exact ⟨rfl, rfl⟩
  | deepen =>
    refine forces_withResult h fun b hb => (forces_force h b .deep).weaken ?_
    rintro _ a (_ | _ | ⟨hd, hshallow⟩ | _)
    have hlast := forall₂_getLast? hbs
    rw [hd, hb] at hlast
    obtain ⟨hbrought⟩ := hlast
    exact ⟨rfl, (hbrought .shallow a hshallow).1.symm⟩
  | call argument target =>
    exact nothing nofun (forces_withResult h fun b _ => forces_call h b argument target)
  | leave target function =>
    exact nothing nofun (forces_withResult h fun b _ => forces_leave h target function b)
  | invoke i => exact nothing nofun (forces_invoke h hw.1)
  | conclude i => exact nothing nofun (forces_withResult h fun b _ => forces_conclude h i b)
  | reduce c initial =>
    exact nothing nofun (forces_withResult h fun b _ => forces_reduceElements h hw initial b)
  | combine c rest =>
    exact nothing nofun (forces_withResult h fun b _ => forces_sequential h hw b rest)
  | combineLevel c carry => exact nothing nofun (forces_pairwise h hw _)
  | custom run => exact hw.elim

end Machine

lemma Step.Forcing.allows {a : Action} {step : Step Action}
    (h : step.Forcing m.store.memory a.Brings) : Regime.forcing.Allows m a step := by
  cases step with
  | value b => exact h
  | error p => trivial
  | action next => exact h

/-- **Runs evaluate as far as asked.** -/
lemma Regime.lawful_forcing : Regime.forcing.Lawful where
  refl _ := .refl _
  trans := .trans
  holds _ _ h := ⟨h.congr rfl rfl rfl, .refl _⟩
  sound later h := h.mono later
  comes later h depth c hc := ⟨(h depth c hc).1, later.evaluatedTo (h depth c hc).2⟩
  serves_refl _ _ _ := id
  serves_trans h h' depth c hc := h depth c (h' depth c hc)
  served h hb depth c hc := hb depth c (h depth c hc)
  dependencies h := h.dependencies
  perform := by
    rintro m ⟨ds, w⟩ bs h ha hbs
    obtain ⟨hlasting, keeps, hstep⟩ := forces_perform h ha.here hbs
    exact ⟨hlasting, keeps, hstep.allows⟩

end CellMachine
