import CellMachine.Proofs.Machine.Actions
import CellMachine.Proofs.Tandem.Steps
import CellMachine.Proofs.Twins.Opcodes

/-!
Work of twins: whatever they do, they come to the same slot, go on with the same action or both fail,
and are twins again.
-/

namespace CellMachine

namespace Tandem

open Machine

variable {T : Tandem} {config : Config} {m n : Machine}

/-! ### Work over the standard opcodes -/

/-- A standard opcode for a cell of a type that agrees. -/
structure Proper (T : Tandem) (op : Opcode) (type : Ty) : Prop where
  standard : op ∈ Standard.opcodes
  agrees : T.types.Agrees type

/-- Nothing is folded but with opcodes. -/
def ProperCombiner (T : Tandem) : Combiner → Prop
  | .opcode op _ type => T.Proper op type
  | .function .. => False

/-- Work that applies standard opcodes only. No work is a host's. -/
def ProperWork (T : Tandem) : Work Action → Prop
  | .invoke i | .conclude i => T.Proper i.opcode i.cell.type
  | .reduce c _ | .combine c _ | .combineLevel c _ => T.ProperCombiner c
  | .custom _ => False
  | _ => True

def ProperAction (T : Tandem) : Action → Prop := Action.Every fun _ w => T.ProperWork w

lemma ProperAction.mk {ds : List Action} {w : Work Action} (hds : ∀ d ∈ ds, T.ProperAction d)
    (hw : T.ProperWork w) : T.ProperAction (.mk ds w) := by
  refine Action.Every.mk hw hds ?_
  rintro run rfl
  exact hw.elim

lemma ProperAction.value (a : Address) : T.ProperAction (.value a) := .mk nofun trivial

lemma ProperAction.evaluate (a : Address) (depth : Depth) : T.ProperAction (.evaluate a depth) :=
  .mk nofun trivial

lemma ProperAction.andThen {x : Action} (hx : T.ProperAction x) {w : Work Action}
    (hw : T.ProperWork w) : T.ProperAction (x.andThen w) :=
  .mk (List.forall_mem_singleton.mpr hx) hw

lemma ProperAction.call (f x target : Address) :
    T.ProperAction ((Action.evaluate f .shallow).andThen (.call x target)) :=
  .andThen (.evaluate f .shallow) trivial

lemma ProperAction.invocation {i : Invocation} (hi : T.Proper i.opcode i.cell.type) :
    T.ProperAction i.action := by
  refine .mk (fun d hd => ?_) hi
  obtain ⟨e, -, he⟩ := List.mem_filterMap.mp hd
  split at he <;> cases he <;> exact .evaluate ..

/-- Two steps that are the same, or both failures. -/
inductive EqualStep (T : Tandem) : Step Action → Step Action → Prop
  | value (a : Address) : EqualStep T (.value a) (.value a)
  | error (p q : Problem) : EqualStep T (.error p) (.error q)
  | action {x : Action} (h : T.ProperAction x) : EqualStep T (.action x) (.action x)

/-! ### Slots -/

section Slots

variable (hT : T.Sound) (h : T.Twin config m n)

include hT h in
lemma along_settle (target produced : Address) :
    T.Alongside config m n (settle target produced) (settle target produced) T.EqualStep := by
  refine .value? h ?_
  cases hv : m.store.memory.value? produced with
  | none => exact .memory h (.pure h (.error _ _))
  | some v =>
    refine (Alongside.memoize hT h target fun c hc => h.admits (hc ▸ hv)).bind fun _ _ _ _ h₁ _ => ?_
    exact .pure h₁ (.value target)

include h in
lemma along_deepen (a : Address) (v : Value) :
    T.Alongside config m n (deepen a v) (deepen a v) T.EqualStep := by
  refine .memory h ?_
  cases openMembers m.store.memory v with
  | nil => exact .pure h (.value a)
  | cons b bs =>
    refine .pure h (.action (.mk (fun d hd => ?_) trivial))
    obtain ⟨c, -, rfl⟩ := List.mem_map.mp hd
    exact .evaluate c .deep

include hT h in
/-- A cell of an activation gets its value by the same work. -/
lemma along_nodeAction {q : Pending} (hq : T.Usable q.activation.call) :
    T.Alongside config m n (nodeAction q) (nodeAction q) (Accord T.ProperAction) := by
  have hwork := cellWork_nodeAction q
  generalize nodeAction q = x at hwork ⊢
  cases hwork with
  | corrupt => exact .pure h (.error _ _)
  | @given node slot => exact .pure h (.ok (.value slot))
  | @structured _ slot | @iterable _ slot =>
    refine (Alongside.memoize hT h slot fun c hc => by cases hc).bind fun _ _ _ _ h₁ _ => ?_
    exact .pure h₁ (.ok (.value slot))
  | opcode hnode hslot hop has =>
    have hagrees := (hT.typed _ hq.admits).types _ _ (hq.fits.cell _ _ hnode)
    obtain ⟨mnemonic, explicit, -, hget⟩ := (hop ▸ hq.fits.fits _ _ hnode).opcode
    exact .pure h (.ok (.invocation ⟨Standard.mem_opcodes hget, hagrees⟩))
  | call => exact .pure h (.ok (.call _ _ _))

include hT h in
lemma along_resolve (a : Address) :
    T.Alongside config m n (resolve a) (resolve a) (Accord T.ProperAction) := by
  refine .memory h ?_
  cases hs : m.store.memory.get? a with
  | none => cases a.index? <;> exact .pure h (.error _ _)
  | some slot =>
    cases a.index? with
    | none => exact .pure h (.error _ _)
    | some index =>
      refine .get ?_
      dsimp only
      rw [h.pending]
      cases hq : m.pending.get? index with
      | some q => exact along_nodeAction hT h (h.cells index q hq)
      | none =>
        dsimp only
        cases slot.cell.kind with
        | call callable argument =>
          dsimp only
          cases m.store.memory.address? callable with
          | none => exact .pure h (.error _ _)
          | some f =>
            cases m.store.memory.address? argument with
            | none => exact .pure h (.error _ _)
            | some x => exact .pure h (.ok (.call f x a))
        | _ => exact .pure h (.error _ _)

include hT h in
lemma along_force (a : Address) (depth : Depth) :
    T.Alongside config m n (force a depth) (force a depth) T.EqualStep := by
  refine .value? h ?_
  cases m.store.memory.value? a with
  | some v =>
    cases depth with
    | shallow => exact .pure h (.value a)
    | deep => exact along_deepen h a v
  | none =>
    refine (along_resolve hT h a).bind fun o o' m₁ n₁ h₁ ho => ?_
    cases ho with
    | error p q => exact .pure h₁ (.error p q)
    | ok hx =>
      have hsettled := hx.andThen (w := .settle a) trivial
      cases depth with
      | shallow => exact .pure h₁ (.action hsettled)
      | deep => exact .pure h₁ (.action (hsettled.andThen trivial))

end Slots

/-! ### Calls -/

section Calls

variable (hT : T.Sound) (h : T.Twin config m n) {call : CompiledCall} (hcall : T.Usable call)

include hT h hcall

lemma along_accept (argument : Address) : T.Alongside config m n (accept call argument)
    (accept call argument) (Accord fun _ => True) := by
  by_cases hopen : (m.store.memory.typeOf argument).isRuntimeDetermined = true
  · have heq : ∀ k : Machine, k.store.memory = m.store.memory →
        accept call argument k = (.ok (), k) := by
      intro k hk
      rw [accept, hk]
      exact if_pos hopen
    rw [Alongside, heq m rfl, heq n h.memory]
    exact ⟨h, .ok trivial⟩
  · have heq : ∀ k : Machine, k.store.memory = m.store.memory → accept call argument k =
        RunM.store (StoreM.matchTypes (m.store.memory.sourceOf argument)
          (m.store.memory.typeOf argument) (some call.argumentType)) k := by
      intro k hk
      rw [accept, hk]
      exact if_neg hopen
    have hagrees : T.types.Agrees (m.store.memory.typeOf argument) := by
      rcases h.agrees argument with hagrees | ⟨-, htype⟩
      · exact hagrees
      · rw [htype] at hopen
        exact absurd rfl hopen
    rw [Alongside, heq m rfl, heq n h.memory]
    exact Alongside.store h (consulted_matchTypes hT _ hagrees hcall.agrees)

lemma along_setUp (argument : Address) : T.Alongside config m n (setUp call argument)
    (setUp call argument) (Accord T.ProperAction) := by
  obtain ⟨htwin, hslots⟩ := h.activated hT hcall argument
  obtain ⟨node, hnode⟩ := Option.isSome_iff_exists.mp hcall.fits.result
  obtain ⟨result, hresult, -⟩ := exists_placed (activates_activate argument call.nodes m.store) hnode
  rw [Alongside, setUp_of_placed hresult, setUp_of_placed (hslots ▸ hresult)]
  exact ⟨htwin, .ok (.evaluate result .shallow)⟩

lemma along_construct (argument : Address) : T.Alongside config m n (construct call argument)
    (construct call argument) (Accord T.ProperAction) := by
  rw [construct_eq]
  refine (along_accept hT h hcall argument).bind fun o o' m₁ n₁ h₁ ho => ?_
  cases ho with
  | error p q => exact .pure h₁ (.error _ _)
  | ok _ => exact along_setUp hT h₁ hcall argument

end Calls

/-! ### Terms -/

lemma along_combine (h : T.Twin config m n) {c : Combiner} (hc : T.ProperCombiner c) (left right : Address) :
    T.Alongside config m n (combine c left right) (combine c left right)
      (Accord T.ProperAction) := by
  cases c with
  | function f first second context argumentType => exact hc.elim
  | opcode op context type =>
    have hcell : T.types.Agrees (reduceCell type).type := hc.agrees
    refine (Alongside.allocate h hcell).bind fun a b m₁ n₁ h₁ hab => ?_
    subst hab
    exact .pure h₁ (.ok (.invocation hc))

/-- The work for pairs of terms is proper. -/
lemma along_pairUp {c : Combiner} (hc : T.ProperCombiner c) :
    ∀ {m n : Machine} (_ : T.Twin config m n) (terms : List Address),
      T.Alongside config m n (pairUp c terms) (pairUp c terms)
        (Accord fun r => ∀ x ∈ r.1, T.ProperAction x)
  | _, _, h, [] => .pure h (.ok nofun)
  | _, _, h, [_] => .pure h (.ok nofun)
  | _, _, h, left :: right :: rest => by
    refine (along_combine h hc left right).bind fun o o' m₁ n₁ h₁ ho => ?_
    cases ho with
    | error p q => exact .pure h₁ (.error p q)
    | ok hx =>
      refine (along_pairUp hc h₁ rest).bind fun r r' m₂ n₂ h₂ hr => ?_
      cases hr with
      | error p q => exact .pure h₂ (.error p q)
      | ok hxs => exact .pure h₂ (.ok (List.forall_mem_cons.mpr ⟨hx, hxs⟩))

section Steps

variable (hT : T.Sound) (h : T.Twin config m n)

include hT h

lemma along_compilation (function : Address) :
    T.Alongside config m n (Machine.compilation function)
      (Machine.compilation function) (Accord T.Usable) := by
  cases function with
  | loose k => exact along_compile hT h (.loose k)
  | «at» i =>
    have heq : ∀ k : Machine, k.store.memory = m.store.memory → Machine.compilation (.at i) k =
        if i < m.store.memory.constants then compileAt i k else compile (.at i) k := by
      intro k hk
      rw [← hk]
      rfl
    rw [Alongside, heq m rfl, heq n h.memory]
    split
    · next hi =>
      rw [h.isOver.constants] at hi
      exact along_compileAt hT h (lt_of_lt_of_le hi hT.size)
    · exact along_compile hT h (.at i)

lemma along_callCompiled {call : CompiledCall} (hcall : T.Usable call) (argument target : Address) :
    T.Alongside config m n (callCompiled call argument target) (callCompiled call argument target)
      T.EqualStep := by
  refine (along_construct hT h hcall argument).bind fun o o' m₁ n₁ h₁ ho => ?_
  cases ho with
  | error p q => exact .pure h₁ (.error p q)
  | ok hx =>
    exact (Alongside.tell h₁ _ _).bind fun _ _ _ _ h₂ _ => .pure h₂ (.action (hx.andThen trivial))

lemma along_call (function argument target : Address) :
    T.Alongside config m n (call function argument target) (call function argument target)
      T.EqualStep := by
  rw [call_eq]
  refine .memory h ((along_compilation hT h function).bind fun c c' m₁ n₁ h₁ hc => ?_)
  cases hc with
  | error p q => exact .pure h₁ (.error _ _)
  | ok hcall => exact along_callCompiled hT h₁ hcall argument target

lemma along_leave (target : Address) (function : Callable) (produced : Address) :
    T.Alongside config m n (leave target function produced) (leave target function produced)
      T.EqualStep := by
  refine (along_settle hT h target produced).bind fun o o' m₁ n₁ h₁ ho => ?_
  cases ho with
  | value a => exact (Alongside.tell h₁ _ _).bind fun _ _ _ _ h₂ _ => .pure h₂ (.value a)
  | error p q => exact .pure h₁ (.error p q)
  | action hx => exact .pure h₁ (.action hx)

lemma along_conclude (i : Invocation) (produced : Address) :
    T.Alongside config m n (conclude i produced) (conclude i produced) T.EqualStep := by
  refine (along_settle hT h i.target produced).bind fun o o' m₁ n₁ h₁ ho => ?_
  cases ho with
  | value a => exact (Alongside.tellOpcode h₁ _ _).bind fun _ _ _ _ h₂ _ => .pure h₂ (.value a)
  | error p q => exact .pure h₁ (.error p q)
  | action hx => exact .pure h₁ (.action hx)

lemma along_sequential {c : Combiner} (hc : T.ProperCombiner c) (term : Address)
    (rest : List Address) :
    T.Alongside config m n (sequential c term rest) (sequential c term rest) T.EqualStep := by
  cases rest with
  | nil => exact along_force hT h term .shallow
  | cons next rest =>
    refine (along_combine h hc term next).bind fun o o' m₁ n₁ h₁ ho => ?_
    cases ho with
    | error p q => exact .pure h₁ (.error p q)
    | ok hx => exact .pure h₁ (.action (hx.andThen hc))

lemma along_pairwise {c : Combiner} (hc : T.ProperCombiner c) (terms : List Address) :
    T.Alongside config m n (pairwise c terms) (pairwise c terms) T.EqualStep := by
  unfold pairwise
  split
  · exact .pure h (.error _ _)
  · exact along_force hT h _ .shallow
  · refine (along_pairUp hc h terms).bind fun r r' m₁ n₁ h₁ hr => ?_
    cases hr with
    | error p q => exact .pure h₁ (.error p q)
    | ok hxs => exact .pure h₁ (.action (.mk hxs hc))

lemma along_reduceElements {c : Combiner} (hc : T.ProperCombiner c) (initial iterable : Address) :
    T.Alongside config m n (reduceElements c initial iterable) (reduceElements c initial iterable)
      T.EqualStep := by
  unfold reduceElements
  refine .memory h ?_
  split
  · refine .setting ?_
    rw [h.left.config, h.right.config]
    split
    · exact along_sequential hT h hc _ _
    · exact along_pairwise hT h hc _
  · exact .pure h (.error _ _)

/-! ### Invocations -/

lemma along_proceed {i : Invocation} (hi : T.Proper i.opcode i.cell.type) (f : Frame)
    {r r' : Result} (hr : EqualResult r r') :
    T.Alongside config m n (proceed i f r) (proceed i f r') T.EqualStep := by
  cases hr with
  | @value v hv =>
    -- No standard opcode has anything to say of its values.
    have heq : proceed i f (.value v) = (RunM.store (StoreM.memoize i.target v) >>= fun _ =>
        i.resolved >>= fun _ => pure (.value i.target)) :=
      funext fun k => proceed_of_value hi.standard f v k
    rw [heq]
    refine (Alongside.memoize hT h i.target fun c hc => (hv c hc).elim).bind fun _ _ _ _ h₁ _ => ?_
    exact (Alongside.tellOpcode h₁ _ _).bind fun _ _ _ _ h₂ _ => .pure h₂ (.value i.target)
  | error p q => exact .pure h (.error _ _)
  | «lazy» a => exact .pure h (.action (.andThen (.evaluate a .shallow) hi))
  | reduce mnemonic context items initial =>
    refine .get ?_
    dsimp only [combinerOf]
    rw [h.left.opcodes, h.right.opcodes]
    cases hop : (Opcodes.ofList Standard.opcodes).get? mnemonic with
    | none => exact .pure h (.error _ _)
    | some op =>
      have hc : T.ProperWork (.reduce (.opcode op context i.cell.type) initial) :=
        ⟨Standard.mem_opcodes hop, hi.agrees⟩
      exact .pure h (.action (.andThen (.andThen (.evaluate items .shallow) hc) hi))

lemma along_apply {i : Invocation} (hi : T.Proper i.opcode i.cell.type) {f : Frame}
    (hmodules : f.modules = T.modules) (htype : f.resultType = i.cell.type) :
    T.Alongside config m n (apply i f) (apply i f) T.EqualStep := by
  have hagrees : T.types.Agrees f.resultType := htype ▸ hi.agrees
  refine (Alongside.checking h (Standard.consulted_runtimeCheck hT hmodules hagrees
    hi.standard)).bind fun found found' m₁ n₁ h₁ hfound => ?_
  cases hfirst : firstOf found with
  | none =>
    rw [hfound.mp (firstOf_eq_none hfirst)]
    refine (Alongside.store h₁ (Standard.consulted_evaluate hT hmodules hagrees
      hi.standard)).bind fun r r' m₂ n₂ h₂ hr => ?_
    exact along_proceed hT h₂ hi f hr
  | some p =>
    cases hfirst' : firstOf found' with
    | some q => exact .pure h₁ (.error _ _)
    | none =>
      rw [hfound.mpr (firstOf_eq_none hfirst')] at hfirst
      cases hfirst

lemma along_invoke {i : Invocation} (hi : T.Proper i.opcode i.cell.type) :
    T.Alongside config m n (invoke i) (invoke i) T.EqualStep := by
  have hframe : frameOf i n = frameOf i m := by
    rw [frameOf, frameOf, h.left.modules, h.right.modules]
  rw [invoke_eq]
  refine .get ?_
  rw [h.memory, hframe]
  cases i.unready m.store.memory with
  | some position => exact .pure h (.error _ _)
  | none =>
    exact (Alongside.tellOpcode h _ _).bind fun _ _ _ _ h₁ _ => along_apply hT h₁ hi h.left.modules rfl

/-! ### All work -/

/-- **What one of two machines does, the other does.** -/
lemma along_perform {w : Work Action} (hw : T.ProperWork w) (results : List Address) :
    T.Alongside config m n (perform w results) (perform w results) T.EqualStep := by
  have awaited : ∀ f : Address → Stepped,
      (∀ a, T.Alongside config m n (f a) (f a) T.EqualStep) →
      T.Alongside config m n (withResult results f) (withResult results f) T.EqualStep := by
    intro f hf
    unfold withResult
    cases results.getLast? with
    | none => exact .pure h (.error _ _)
    | some a => exact hf a
  cases w with
  | value a => exact .pure h (.value a)
  | evaluate a depth => exact along_force hT h a depth
  | settle target => exact awaited _ fun a => along_settle hT h target a
  | deepen => exact awaited _ fun a => along_force hT h a .deep
  | call argument target => exact awaited _ fun f => along_call hT h f argument target
  | leave target function => exact awaited _ fun a => along_leave hT h target function a
  | invoke i => exact along_invoke hT h hw
  | conclude i => exact awaited _ fun a => along_conclude hT h i a
  | reduce c initial => exact awaited _ fun a => along_reduceElements hT h hw initial a
  | combine c rest => exact awaited _ fun a => along_sequential hT h hw a rest
  | combineLevel c carry => exact along_pairwise hT h hw _
  | custom run => exact hw.elim

end Steps

end Tandem

end CellMachine
