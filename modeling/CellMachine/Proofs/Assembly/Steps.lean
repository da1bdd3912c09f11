import CellMachine.Proofs.Assembly.Machines
import CellMachine.Proofs.Machine.Regime
import CellMachine.Proofs.Memory.Factories

/-!
How structures come to their values. Work that gives a value to a slot is for a slot that may be filled
with any; only the evaluation of a structure cell gives that cell's slot a value, and it is the one that
is assembled.
-/

namespace CellMachine

open Machine

def Combiner.Spares : Combiner → Prop
  | .opcode op _ _ => op.Spares
  | .function .. => True

/-- Work that only fills slots that may be filled, and only applies opcodes that leave structures alone. -/
def Work.Spares (m : Memory) : Work Action → Prop
  | .settle target | .call _ target | .leave target _ => m.Fillable target
  | .invoke i | .conclude i => i.opcode.Spares ∧ m.Fillable i.target
  | .reduce c _ | .combine c _ | .combineLevel c _ => c.Spares
  | .custom _ => False
  | .value _ | .evaluate .. | .deepen => True

def Action.Spares (m : Memory) : Action → Prop := Every fun _ w => w.Spares m

/-- What a step goes on with, if it goes on, is such work. -/
def Step.Spares (m : Memory) : Step Action → Prop
  | .action next => next.Spares m
  | .value _ | .error _ => True

/-- An action that was made, if it was made, is such work. -/
def SparesIfAny (o : Outcome Action) (memory : Memory) : Prop :=
  ∀ action, o = .ok action → action.Spares memory

variable {memory memory' : Memory} {m m' : Machine}

lemma sparesIfAny_ok {action : Action} (h : action.Spares memory) :
    SparesIfAny (.ok action) memory := by
  rintro _ ⟨⟩
  exact h

lemma Work.Spares.mono (h : memory.Retains memory') {w : Work Action} (hw : w.Spares memory) :
    w.Spares memory' := by
  cases w with
  | settle target => exact h.fillable hw
  | call argument target => exact h.fillable hw
  | leave target function => exact h.fillable hw
  | invoke i => exact ⟨hw.1, h.fillable hw.2⟩
  | conclude i => exact ⟨hw.1, h.fillable hw.2⟩
  | _ => exact hw

namespace Action

lemma Spares.mono (h : memory.Retains memory') {a : Action} (ha : a.Spares memory) :
    a.Spares memory' :=
  Every.mono (fun _ _ hw => hw.mono h) ha

lemma spares_mk {ds : List Action} {w : Work Action} (hds : ∀ d ∈ ds, Spares memory d)
    (hw : w.Spares memory) : Spares memory (.mk ds w) := by
  refine .mk hw hds ?_
  rintro run rfl
  exact hw.elim

lemma spares_value (a : Address) : Spares memory (value a) := spares_mk nofun trivial

lemma spares_evaluate (a : Address) (depth : Depth) : Spares memory (evaluate a depth) :=
  spares_mk nofun trivial

lemma Spares.andThen {a : Action} (h : a.Spares memory) {w : Work Action} (hw : w.Spares memory) :
    Spares memory (a.andThen w) :=
  spares_mk (fun _ hd => List.mem_singleton.mp hd ▸ h) hw

lemma spares_invocation {i : Invocation} (h : i.opcode.Spares) (htarget : memory.Fillable i.target) :
    i.action.Spares memory := by
  refine spares_mk (fun d hd => ?_) ⟨h, htarget⟩
  obtain ⟨e, -, hd⟩ := List.mem_filterMap.mp hd
  split at hd <;> cases hd <;> exact spares_evaluate _ _

end Action

namespace Machine

/-- A computation that goes on with work that leaves structures to be assembled. -/
def Proceeds (m : Machine) (x : Stepped) : Prop := Builds m x fun step memory => step.Spares memory

lemma proceeds_error (h : m.Assembling) (p : Problem) : Proceeds m (pure (.error p)) := .pure h trivial

/-! ### Slots -/

lemma proceeds_settle (h : m.Assembling) {target : Address}
    (htarget : m.store.memory.Fillable target) (produced : Address) :
    Proceeds m (settle target produced) := by
  refine .value? ?_
  cases m.store.memory.value? produced with
  | none => exact .memory (proceeds_error h _)
  | some v => exact (Builds.memoize h htarget v).bind fun _ m' h' _ _ => .pure h' trivial

lemma Builds.told {step : Step Action} (hstep : step.Spares m.store.memory) {x : RunM Unit}
    (hx : Builds m x fun _ _ => True) : Proceeds m (x >>= fun _ => Pure.pure step) := by
  refine hx.bind fun _ m' h' retains _ => .pure h' ?_
  cases step with
  | value b => trivial
  | error p => trivial
  | action next => exact hstep.mono retains

lemma proceeds_leave (h : m.Assembling) {target : Address}
    (htarget : m.store.memory.Fillable target) (function : Callable) (produced : Address) :
    Proceeds m (leave target function produced) := by
  refine (proceeds_settle h htarget produced).bind fun step m' h' _ hstep => ?_
  cases step with
  | value b => exact Builds.told hstep (.tell h' _)
  | error p => exact .pure h' hstep
  | action next => exact .pure h' hstep

lemma proceeds_conclude (h : m.Assembling) {i : Invocation}
    (htarget : m.store.memory.Fillable i.target) (produced : Address) :
    Proceeds m (conclude i produced) := by
  refine (proceeds_settle h htarget produced).bind fun step m' h' _ hstep => ?_
  cases step with
  | value b => exact Builds.told hstep (.tellOpcode h' _)
  | error p => exact .pure h' hstep
  | action next => exact .pure h' hstep

lemma proceeds_deepen (h : m.Assembling) (a : Address) (v : Value) : Proceeds m (deepen a v) := by
  refine .memory ?_
  split
  · exact .pure h trivial
  · refine .pure h (Action.spares_mk (fun d hd => ?_) trivial)
    obtain ⟨b, -, rfl⟩ := List.mem_map.mp hd
    exact Action.spares_evaluate b .deep

/-! ### Cells of activations -/

/-- **The work of a node** leaves its slot to be filled: a structure has its value by then, and any
other slot may be filled anyway. -/
lemma builds_nodeAction (h : m.Assembling) {i : Nat} {p : Pending} (hp : m.pending.get? i = some p) :
    Builds m (nodeAction p) fun o memory => ∀ action, o = .ok action →
      action.Spares memory ∧ memory.Fillable (.at i) := by
  obtain ⟨hregistered, hown, node, hnode, hnew⟩ := h.pending i p hp
  have hassembles := hregistered.call.node p.node node hnode
  have hwork := cellWork_nodeAction p
  generalize nodeAction p = work at hwork
  cases hwork with
  | given hnode' _ hop =>
    cases hnode.symm.trans hnode'
    obtain hop | ⟨a, hop⟩ := hop <;> rw [hop] at hnew <;> cases hnew
  | structured hnode' hslot hop has =>
    cases hnode.symm.trans hnode'
    cases hown.symm.trans hslot
    obtain ⟨-, s, -, -, hs, -⟩ := h.exists_slot hp
    refine ⟨h.assemble hp hnode hop ⟨_, has, rfl⟩, Memory.retains_memoize _ (.at i) _, ?_⟩
    rintro _ ⟨⟩
    exact ⟨Action.spares_value _, Memory.fillable_of_isEvaluated
      (Memory.isEvaluated_memoize (Option.isSome_iff_exists.mpr ⟨s, hs⟩) _)⟩
  | iterable hnode' hslot hop _ =>
    cases hnode.symm.trans hnode'
    cases hown.symm.trans hslot
    have hfill := h.fillable hp hnode (by rw [hop]; exact nofun)
    refine (Builds.memoize h hfill _).bind fun _ m' h' retains _ => .pure h' ?_
    rintro _ ⟨⟩
    exact ⟨Action.spares_value _, retains.fillable hfill⟩
  | opcode hnode' hslot hop _ =>
    cases hnode.symm.trans hnode'
    cases hown.symm.trans hslot
    have hfill := h.fillable hp hnode (by rw [hop]; exact nofun)
    refine .pure h ?_
    rintro _ ⟨⟩
    exact ⟨Action.spares_invocation (hassembles.opcode _ _ _ hop) hfill, hfill⟩
  | call hnode' hslot hop _ =>
    cases hnode.symm.trans hnode'
    cases hown.symm.trans hslot
    have hfill := h.fillable hp hnode (by rw [hop]; exact nofun)
    refine .pure h ?_
    rintro _ ⟨⟩
    exact ⟨(Action.spares_evaluate _ _).andThen hfill, hfill⟩
  | corrupt => exact .pure h nofun

lemma builds_resolve (h : m.Assembling) (a : Address) :
    Builds m (resolve a) fun o memory => ∀ action, o = .ok action →
      action.Spares memory ∧ memory.Fillable a := by
  have hwork := slotWork_resolve m a
  unfold Builds
  generalize resolve a m = r at hwork
  cases hwork with
  | pending hindex _ hp => exact hindex ▸ builds_nodeAction h hp
  | @deferred slot callable argument f x hslot hkind _ _ =>
    have hfill : m.store.memory.Fillable a :=
      ⟨slot, hslot, fun ⟨members, hmembers⟩ => nomatch hkind.symm.trans hmembers⟩
    refine ⟨h, .refl _, ?_⟩
    rintro _ ⟨⟩
    exact ⟨(Action.spares_evaluate _ _).andThen hfill, hfill⟩
  | unresolved q => exact ⟨h, .refl _, nofun⟩

lemma proceeds_force (h : m.Assembling) (a : Address) (depth : Depth) : Proceeds m (force a depth) := by
  refine .value? ?_
  cases m.store.memory.value? a with
  | some v =>
    cases depth with
    | shallow => exact .pure h trivial
    | deep => exact proceeds_deepen h a v
  | none =>
    refine (builds_resolve h a).bind fun o m' h' _ ho => ?_
    cases o with
    | error p => exact proceeds_error h' p
    | ok action =>
      obtain ⟨haction, hfill⟩ := ho action rfl
      have hsettled : (action.andThen (.settle a)).Spares m'.store.memory := haction.andThen hfill
      cases depth with
      | shallow => exact .pure h' hsettled
      | deep =>
        have hdeepened : ((action.andThen (.settle a)).andThen .deepen).Spares m'.store.memory :=
          hsettled.andThen trivial
        exact .pure h' hdeepened

/-! ### Calls -/

lemma builds_construct (h : m.Assembling) {call : CompiledCall} (hcall : call.Assembles)
    (argument : Address) : Builds m (construct call argument) fun o _ => ∀ action, o = .ok action →
      ∃ result, action = .evaluate result .shallow := by
  obtain ⟨m₁, ⟨hsetting, hmemory, hcompiled, hpending⟩, hends⟩ := setsUp_construct call argument m
  have judged : m₁.Assembling := h.congr hsetting hcompiled hpending hmemory
  have hover := (activates_activate argument call.nodes m₁.store).memory
  obtain ⟨p, heq⟩ | ⟨p, heq⟩ | ⟨result, heq⟩ := hends <;> rw [Builds, heq, ← hmemory]
  · exact ⟨judged, .refl _, fun _ heq => by cases heq⟩
  · exact ⟨judged.spared hover.spares rfl judged.compiled rfl, hover.retains,
      fun _ heq => by cases heq⟩
  · refine ⟨judged.activated hcall argument, hover.retains, ?_⟩
    rintro _ ⟨⟩
    exact ⟨result, rfl⟩

lemma builds_compilation (h : m.Assembling) (a : Address) :
    Builds m (compilation a) fun c _ => c.Assembles := by
  cases a with
  | loose k => exact builds_compile h _
  | «at» i =>
    dsimp only [compilation, compileFunction, Builds]
    split
    · exact builds_compileAt h i
    · exact builds_compile h _

lemma proceeds_callCompiled (h : m.Assembling) {compiled : CompiledCall} (hcompiled : compiled.Assembles)
    (argument : Address) {target : Address} (htarget : m.store.memory.Fillable target) :
    Proceeds m (callCompiled compiled argument target) := by
  refine (builds_construct h hcompiled argument).bind fun o m' h' retains ho => ?_
  cases o with
  | error p => exact proceeds_error h' p
  | ok action =>
    obtain ⟨result, rfl⟩ := ho action rfl
    have hstep : Step.Spares m'.store.memory
        (.action ((Action.evaluate result .shallow).andThen (.leave target compiled.callable))) :=
      (Action.spares_evaluate _ _).andThen (retains.fillable htarget)
    exact Builds.told hstep (.tell h' _)

lemma proceeds_call (h : m.Assembling) (function argument : Address) {target : Address}
    (htarget : m.store.memory.Fillable target) : Proceeds m (call function argument target) := by
  rw [call_eq]
  refine .memory ((builds_compilation h function).bind fun c m' h' retains hc => ?_)
  cases c with
  | error problems => exact proceeds_error h' _
  | ok compiled =>
    exact proceeds_callCompiled h' (hc compiled rfl) argument (retains.fillable htarget)

/-! ### Reductions -/

lemma fillable_allocate (m : Memory) {cell : Cell} (hcell : ¬ cell.kind.IsStructured)
    (v : Option Value) : (m.allocate cell v).2.Fillable (m.allocate cell v).1 :=
  ⟨_, m.get?_allocate_self cell v, fun hkind => absurd hkind hcell⟩

lemma builds_combine (h : m.Assembling) {c : Combiner} (hc : c.Spares) (left right : Address) :
    Builds m (combine c left right) SparesIfAny := by
  cases c with
  | opcode op context type =>
    have hadded : Builds m (RunM.store (StoreM.allocate (reduceCell type) none))
        fun target memory => memory.Fillable target :=
      .store h (m.store.memory.over_allocate _ none).spares
        (fillable_allocate m.store.memory (fun ⟨_, hkind⟩ => nomatch hkind) none)
    exact hadded.bind fun target m' h' _ htarget =>
      .pure h' (sparesIfAny_ok (Action.spares_invocation hc htarget))
  | function f first second context type =>
    obtain ⟨x, heq, hadds, hx⟩ := combine_function f first second context type left right
    rw [heq]
    refine .store h (hadds _).spares fun a ha => ?_
    obtain ⟨b, rfl⟩ := hx m.store a ha
    exact Action.spares_evaluate b .shallow

lemma proceeds_sequential (h : m.Assembling) {c : Combiner} (hc : c.Spares) (term : Address)
    (rest : List Address) : Proceeds m (sequential c term rest) := by
  cases rest with
  | nil => exact proceeds_force h term .shallow
  | cons next rest =>
    refine (builds_combine h hc term next).bind fun o m' h' _ ho => ?_
    cases o with
    | error p => exact proceeds_error h' p
    | ok action =>
      have hcombined : (action.andThen (.combine c rest)).Spares m'.store.memory :=
        (ho action rfl).andThen hc
      exact .pure h' hcombined

lemma builds_pairUp {c : Combiner} (hc : c.Spares) : ∀ (terms : List Address) {m : Machine},
    m.Assembling → Builds m (pairUp c terms) fun o memory => ∀ actions carry,
      o = .ok (actions, carry) → ∀ a ∈ actions, a.Spares memory
  | [], _, h => .pure h fun actions carry heq => by
    cases heq
    exact List.forall_mem_nil _
  | [_], _, h => .pure h fun actions carry heq => by
    cases heq
    exact List.forall_mem_nil _
  | left :: right :: rest, _, h => by
    refine (builds_combine h hc left right).bind fun o m₁ h₁ _ ho => ?_
    cases o with
    | error p => exact .pure h₁ nofun
    | ok action =>
      refine (builds_pairUp hc rest h₁).bind fun o' m₂ h₂ retains ho' => ?_
      cases o' with
      | error p => exact .pure h₂ nofun
      | ok r =>
        refine .pure h₂ fun actions carry heq => ?_
        cases heq
        exact List.forall_mem_cons.mpr ⟨(ho action rfl).mono retains, ho' _ _ rfl⟩

lemma proceeds_pairwise (h : m.Assembling) {c : Combiner} (hc : c.Spares) (terms : List Address) :
    Proceeds m (pairwise c terms) := by
  unfold pairwise
  split
  · exact proceeds_error h _
  · exact proceeds_force h _ .shallow
  · refine (builds_pairUp hc terms h).bind fun o m' h' _ ho => ?_
    cases o with
    | error p => exact proceeds_error h' p
    | ok r =>
      have hlevel : (Action.mk r.1 (.combineLevel c r.2)).Spares m'.store.memory :=
        Action.spares_mk (ho _ _ rfl) hc
      exact .pure h' hlevel

lemma proceeds_reduceElements (h : m.Assembling) {c : Combiner} (hc : c.Spares)
    (initial iterable : Address) : Proceeds m (reduceElements c initial iterable) := by
  unfold reduceElements
  refine .memory ?_
  split
  · refine .setting ?_
    split
    · exact proceeds_sequential h hc initial _
    · exact proceeds_pairwise h hc _
  · exact proceeds_error h _

/-! ### Opcodes -/

lemma spares_combinerOf (h : m.Assembling) {r : Reducer} {type : Ty} {c : Combiner}
    (hc : combinerOf r type m = .ok c) : c.Spares := by
  unfold combinerOf at hc
  dsimp only at hc
  split at hc
  · split at hc
    · next op hop =>
      cases hc
      exact h.spare _ op hop
    · cases hc
  · split at hc
    · split at hc
      · cases hc
      · cases hc
        trivial
    · cases hc

lemma proceeds_confer (h : m.Assembling) {i : Invocation}
    (htarget : m.store.memory.Fillable i.target) (frame : Frame) (v : Value) :
    Proceeds m (confer i frame v) := by
  refine (Builds.checking h _ _).bind fun found m₁ h₁ retains _ => ?_
  cases firstOf found with
  | some p => exact proceeds_error h₁ _
  | none =>
    refine (Builds.memoize h₁ (retains.fillable htarget) v).bind fun _ m₂ h₂ _ _ => ?_
    have hstep : Step.Spares m₂.store.memory (.value i.target) := trivial
    exact Builds.told hstep (.tellOpcode h₂ _)

lemma proceeds_proceed (h : m.Assembling) {i : Invocation} (hi : i.opcode.Spares)
    (htarget : m.store.memory.Fillable i.target) (frame : Frame) (r : Result) :
    Proceeds m (proceed i frame r) := by
  cases r with
  | error p => exact proceeds_error h _
  | lazy a =>
    have hconcluded : ((Action.evaluate a .shallow).andThen (.conclude i)).Spares m.store.memory :=
      (Action.spares_evaluate a .shallow).andThen ⟨hi, htarget⟩
    exact .pure h hconcluded
  | value v => exact proceed_value_eq i frame v ▸ proceeds_confer h htarget frame v
  | reduce r =>
    refine .get ?_
    cases hc : combinerOf r i.cell.type m with
    | error p => exact proceeds_error h _
    | ok c =>
      have hreduced : Action.Spares m.store.memory
          ((Action.evaluate r.terms.1 .shallow).andThen (.reduce c r.terms.2)) :=
        (Action.spares_evaluate _ .shallow).andThen (spares_combinerOf h hc)
      have hconcluded : Action.Spares m.store.memory (((Action.evaluate r.terms.1 .shallow).andThen
          (.reduce c r.terms.2)).andThen (.conclude i)) :=
        hreduced.andThen ⟨hi, htarget⟩
      exact .pure h hconcluded

lemma proceeds_apply (h : m.Assembling) {i : Invocation} (hi : i.opcode.Spares)
    (htarget : m.store.memory.Fillable i.target) (frame : Frame) : Proceeds m (apply i frame) := by
  refine (Builds.checking h _ _).bind fun found m₁ h₁ retains _ => ?_
  cases firstOf found with
  | some p => exact proceeds_error h₁ _
  | none =>
    have hfill := retains.fillable htarget
    exact (Builds.store h₁ (hi _ _) (Q := fun _ _ => True) trivial).bind
      fun r m₂ h₂ retains₂ _ => proceeds_proceed h₂ hi (retains₂.fillable hfill) frame r

lemma proceeds_invoke (h : m.Assembling) {i : Invocation} (hi : i.opcode.Spares)
    (htarget : m.store.memory.Fillable i.target) : Proceeds m (invoke i) := by
  rw [invoke_eq]
  refine .get ?_
  cases i.unready m.store.memory with
  | some position => exact proceeds_error h _
  | none =>
    exact (Builds.tellOpcode h _).bind fun _ m₁ h₁ retains _ =>
      proceeds_apply h₁ hi (retains.fillable htarget) _

/-! ### Work -/

lemma proceeds_withResult (h : m.Assembling) {bs : List Address} {f : Address → Stepped}
    (hf : ∀ b, Proceeds m (f b)) : Proceeds m (withResult bs f) := by
  unfold withResult
  split
  · next b _ => exact hf b
  · exact proceeds_error h _

/-- **Work** leaves structures to be assembled. -/
lemma proceeds_perform (h : m.Assembling) {w : Work Action} (hw : w.Spares m.store.memory)
    (bs : List Address) : Proceeds m (perform w bs) := by
  cases w with
  | value a => exact .pure h trivial
  | evaluate a depth => exact proceeds_force h a depth
  | settle target => exact proceeds_withResult h fun b => proceeds_settle h hw b
  | deepen => exact proceeds_withResult h fun b => proceeds_force h b .deep
  | call argument target => exact proceeds_withResult h fun b => proceeds_call h b argument hw
  | leave target function => exact proceeds_withResult h fun b => proceeds_leave h hw function b
  | invoke i => exact proceeds_invoke h hw.1 hw.2
  | conclude i => exact proceeds_withResult h fun b => proceeds_conclude h hw.2 b
  | reduce c initial => exact proceeds_withResult h fun b => proceeds_reduceElements h hw initial b
  | combine c rest => exact proceeds_withResult h fun b => proceeds_sequential h hw b rest
  | combineLevel c carry => exact proceeds_pairwise h hw _
  | custom run => exact hw.elim

end Machine

/-- What runs keep to: structures are assembled. Where actions come to plays no part. -/
def Regime.assembling : Regime where
  holds := Assembling
  later m m' := m.store.memory.Retains m'.store.memory
  sound m a := a.Spares m.store.memory
  comes _ _ _ := True
  serves _ _ := True

lemma Step.Spares.allows {a : Action} {step : Step Action} (h : step.Spares m.store.memory) :
    Regime.assembling.Allows m a step := by
  cases step with
  | value b => trivial
  | error p => trivial
  | action next => exact ⟨h, trivial⟩

/-- **Runs assemble structures** and give them no other values. -/
lemma Regime.lawful_assembling : Regime.assembling.Lawful where
  refl _ := .refl _
  trans := .trans
  holds _ _ h := ⟨h.congr rfl rfl rfl rfl, .refl _⟩
  sound later h := h.mono later
  comes _ _ := trivial
  serves_refl _ := trivial
  serves_trans _ _ := trivial
  served _ _ := trivial
  dependencies h := h.dependencies
  perform := by
    rintro m ⟨ds, w⟩ bs h ha -
    obtain ⟨hassembling, retains, hstep⟩ := proceeds_perform h ha.here bs
    exact ⟨hassembling, retains, hstep.allows⟩

end CellMachine
