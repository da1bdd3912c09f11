import CellMachine.Proofs.Machine.Actions
import CellMachine.Proofs.Safety.Slots

/-!
What work comes to on a safe machine. Work that is given only slots that may be asked for their values
comes to a slot with its value, to further such work, or to a problem of the script; and most work
promises which slot that will be.
-/

namespace CellMachine

open Machine

/-! ### Actions -/

/-- The slot that work comes to, where that does not depend on the results it takes. -/
def Work.target? : Work Action → Option Address
  | .value a => some a
  | .evaluate a _ => some a
  | .settle target => some target
  | .call _ target => some target
  | .leave target _ => some target
  | .invoke i => some i.target
  | .conclude i => some i.target
  | .deepen | .reduce .. | .combine .. | .combineLevel .. | .custom _ => none

/-- An action that comes to a given slot, if it comes to any. -/
inductive Action.Gives : Action → Address → Prop
  | own {ds : List Action} {w : Work Action} {b : Address} (h : w.target? = some b) :
    Gives (.mk ds w) b
  | deepened {ds : List Action} {d : Action} {b : Address} (hd : ds.getLast? = some d)
    (h : Gives d b) : Gives (.mk ds .deepen) b

/-- A combiner of the standard kind, with a context that may be asked for its value. -/
def Combiner.Safe (m : Machine) : Combiner → Prop
  | .opcode op context _ => op.Careful ∧ ∀ a ∈ context, m.Held a
  | .function .. => False

/-- An invocation of a careful opcode for slots that may be asked for their values. -/
structure Invocation.Safe (m : Machine) (i : Invocation) : Prop where
  careful : i.opcode.Careful
  args : ∀ a ∈ i.args, m.Held a
  target : m.store.memory.Inside i.target

/-- Work on slots that may be asked for their values, after some dependencies. -/
def Work.Safe (m : Machine) (ds : List Action) : Work Action → Prop
  | .value a => m.Valued a
  | .evaluate a _ => m.Held a
  | .settle target => m.store.memory.Inside target
  | .deepen => True
  | .call argument target => m.Held argument ∧ m.store.memory.Inside target
  | .leave target _ => m.store.memory.Inside target
  | .invoke i => i.Safe m ∧ ds = i.action.dependencies
  | .conclude i => m.store.memory.Inside i.target
  | .reduce c initial => c.Safe m ∧ m.Held initial
  | .combine c rest => c.Safe m ∧ ∀ a ∈ rest, m.Held a
  | .combineLevel c carry => c.Safe m ∧ (∀ a ∈ carry, m.Held a) ∧ ds ≠ []
  | .custom _ => False

/-- An action all of whose work is safe, and has a result to take where it takes one. -/
def Action.Safe (m : Machine) : Action → Prop :=
  Every fun ds w => (w.takesResult = true → ds ≠ []) ∧ w.Safe m ds

/-- A step to a slot with its value, or to safe work; if some slots are promised, to these. -/
def Step.Safe (m : Machine) (promised : Address → Prop) : Step Action → Prop
  | .value b => m.Valued b ∧ ∀ a, promised a → b = a
  | .error p => ¬ p.Internal
  | .action next => next.Safe m ∧ ∀ a, promised a → next.Gives a

/-- Something with a property, or a problem that does not blame the machine. -/
def Proper {α : Type} (P : α → Prop) : Outcome α → Prop
  | .ok a => P a
  | .error p => ¬ p.Internal

variable {base : Memory} {m m' : Machine}

namespace Action

lemma safe_mk {ds : List Action} {w : Work Action} (hds : ∀ d ∈ ds, Safe m d)
    (hfed : w.takesResult = true → ds ≠ []) (hw : w.Safe m ds) : Safe m (.mk ds w) := by
  refine .mk ⟨hfed, hw⟩ hds ?_
  rintro run rfl
  exact hw.elim

lemma safe_value {a : Address} (h : m.Valued a) : Safe m (value a) := safe_mk nofun nofun h

lemma safe_evaluate {a : Address} (h : m.Held a) (depth : Depth) : Safe m (evaluate a depth) :=
  safe_mk nofun nofun h

lemma Safe.andThen {a : Action} (h : a.Safe m) {w : Work Action} (hw : w.Safe m [a]) :
    Safe m (a.andThen w) :=
  safe_mk (fun _ hd => List.mem_singleton.mp hd ▸ h) (fun _ => List.cons_ne_nil _ _) hw

lemma safe_invocation {i : Invocation} (h : i.Safe m) : i.action.Safe m := by
  refine safe_mk (fun d hd => ?_) nofun ⟨h, rfl⟩
  obtain ⟨e, he, hd⟩ := List.mem_filterMap.mp hd
  have hheld := h.args e.2 (List.of_mem_zip he).2
  split at hd <;> cases hd <;> exact safe_evaluate hheld _

end Action

lemma Combiner.Safe.mono (later : m.Precedes m') {c : Combiner} (h : c.Safe m) : c.Safe m' := by
  cases c with
  | opcode op context type => exact ⟨h.1, fun a ha => later.held (h.2 a ha)⟩
  | function f first second context type => exact h

lemma Invocation.Safe.mono (later : m.Precedes m') {i : Invocation} (h : i.Safe m) : i.Safe m' :=
  ⟨h.careful, fun a ha => later.held (h.args a ha), later.inside h.target⟩

lemma Work.Safe.mono (later : m.Precedes m') {ds : List Action} {w : Work Action}
    (h : w.Safe m ds) : w.Safe m' ds := by
  cases w with
  | value a => exact later.valued h
  | evaluate a depth => exact later.held h
  | settle target => exact later.inside h
  | deepen => trivial
  | call argument target => exact ⟨later.held h.1, later.inside h.2⟩
  | leave target function => exact later.inside h
  | invoke i => exact ⟨h.1.mono later, h.2⟩
  | conclude i => exact later.inside h
  | reduce c initial => exact ⟨h.1.mono later, later.held h.2⟩
  | combine c rest => exact ⟨h.1.mono later, fun a ha => later.held (h.2 a ha)⟩
  | combineLevel c carry => exact ⟨h.1.mono later, fun a ha => later.held (h.2.1 a ha), h.2.2⟩
  | custom run => exact h

lemma Action.Safe.mono (later : m.Precedes m') {a : Action} (h : a.Safe m) : a.Safe m' :=
  Every.mono (fun _ _ hw => ⟨hw.1, hw.2.mono later⟩) h

lemma Step.Safe.weaken {promised promised' : Address → Prop} {step : Step Action}
    (h : step.Safe m promised) (hle : ∀ a, promised' a → promised a) : step.Safe m promised' := by
  cases step with
  | value b => exact ⟨h.1, fun a ha => h.2 a (hle a ha)⟩
  | error p => exact h
  | action next => exact ⟨h.1, fun a ha => h.2 a (hle a ha)⟩

lemma proper_error {α : Type} {P : α → Prop} {p : Problem} (h : p.cause.isOrdinary = true) :
    Proper P (.error p) := Problem.not_internal_of_ordinary h

lemma Invocation.safe_failure (i : Invocation) {p : Problem} (hp : p.cause.isOrdinary = true)
    {promised : Address → Prop} : (i.failure p).Safe m promised :=
  Problem.not_internal_of_ordinary hp

namespace Machine

/-- A computation whose step is safe afterwards. -/
def Steps (base : Memory) (m : Machine) (x : Stepped) (promised : Address → Prop) : Prop :=
  Safely base m x fun step m' => step.Safe m' promised

lemma Safely.after {α : Type} {x y : RunM α} {Q : α → Machine → Prop} (heq : x m = y m')
    (later : m.Precedes m') (hy : Safely base m' y Q) : Safely base m x Q := by
  rw [Safely, heq]
  exact ⟨hy.1, later.trans hy.2.1, hy.2.2⟩

/-! ### Slots -/

lemma steps_settle (h : m.Safe base) {target produced : Address}
    (htarget : m.store.memory.Inside target) (hproduced : m.Valued produced) :
    Steps base m (settle target produced) (Eq target) := by
  obtain ⟨v, hv⟩ := Option.isSome_iff_exists.mp hproduced
  refine .value? ?_
  rw [hv]
  exact (Safely.memoize h htarget (h.values _ _ hv)).bind fun _ m' h' _ hvalued =>
    .pure h' ⟨hvalued, fun _ => id⟩

lemma Safely.told {step : Step Action} {promised : Address → Prop}
    (hstep : step.Safe m promised) {x : RunM Unit} (hx : Safely base m x fun _ _ => True) :
    Steps base m (x >>= fun _ => Pure.pure step) promised := by
  refine hx.bind fun _ m' h' later _ => .pure h' ?_
  cases step with
  | value b => exact ⟨later.valued hstep.1, hstep.2⟩
  | error p => exact hstep
  | action next => exact ⟨hstep.1.mono later, hstep.2⟩

lemma steps_leave (h : m.Safe base) {target produced : Address} (function : Callable)
    (htarget : m.store.memory.Inside target) (hproduced : m.Valued produced) :
    Steps base m (leave target function produced) (Eq target) := by
  refine (steps_settle h htarget hproduced).bind fun step m' h' _ hstep => ?_
  cases step with
  | value b => exact Safely.told hstep (.tell h' _)
  | error p => exact .pure h' hstep
  | action next => exact .pure h' hstep

lemma steps_conclude (h : m.Safe base) {i : Invocation} {produced : Address}
    (htarget : m.store.memory.Inside i.target) (hproduced : m.Valued produced) :
    Steps base m (conclude i produced) (Eq i.target) := by
  refine (steps_settle h htarget hproduced).bind fun step m' h' _ hstep => ?_
  cases step with
  | value b => exact Safely.told hstep (.tellOpcode h' _)
  | error p => exact .pure h' hstep
  | action next => exact .pure h' hstep

lemma steps_deepen (h : m.Safe base) {a : Address} {v : Value}
    (hv : m.store.memory.value? a = some v) : Steps base m (deepen a v) (Eq a) := by
  have hvalued : m.Valued a := Option.isSome_iff_exists.mpr ⟨v, hv⟩
  have hmembers := (h.values a v hv).members
  refine .memory ?_
  split
  · exact .pure h ⟨hvalued, fun _ => id⟩
  · next hopen =>
    refine .pure h ⟨Action.safe_mk (fun d hd => ?_) nofun hvalued, ?_⟩
    · obtain ⟨b, hb, rfl⟩ := List.mem_map.mp hd
      exact Action.safe_evaluate (hmembers b (List.mem_filter.mp hb).1) _
    · rintro _ rfl
      exact .own rfl

/-! ### Cells of activations -/

lemma Resolvable.exists_slotsOf {i : Nat} {p : Pending} (hp : m.Resolvable base i p)
    {indices : List Nat} (hin : ∀ j ∈ indices, (p.activation.call.nodes.get? j).isSome = true) :
    ∃ as, slotsOf p.activation indices = some as ∧ as.length = indices.length ∧
      ∀ a ∈ as, m.Held a := by
  obtain ⟨as, has, hall⟩ := forall₂_slotsOf fun j hj => by
    obtain ⟨node, hnode⟩ := Option.isSome_iff_exists.mp (hin j hj)
    exact hp.slots j node hnode
  have hheld : List.Forall₂ (fun a (_ : Nat) => m.Held a ∧ True) as indices :=
    hall.flip.imp fun _ _ ha => ⟨ha, trivial⟩
  exact ⟨as, has, hall.length_eq.symm, ((List.forall₂_and_left _ _).mp hheld).1⟩

/-- **A cell of an activation can be worked on**: nothing that its node needs is missing. -/
lemma safely_nodeAction (h : m.Safe base) {i : Nat} {p : Pending} (hp : m.Resolvable base i p) :
    Safely base m (nodeAction p) fun o m' => ∃ action, o = .ok action ∧ action.Safe m' := by
  obtain ⟨node, hnode, hnew⟩ := hp.node
  have hinside : m.store.memory.Inside (.at i) := ⟨i, hp.inside, rfl⟩
  have hfits := hp.fits.fits _ _ hnode
  have hrefs := hp.fits.refs _ _ hnode
  have built : ∀ v : Value, v.Within m.Held → Safely base m (do
      RunM.store (StoreM.memoize (.at i) v)
      pure (.ok (.value (.at i)))) fun (o : Outcome Action) m' =>
        ∃ action, o = .ok action ∧ action.Safe m' := fun v hv =>
    (Safely.memoize h hinside hv).bind fun _ m' h' _ hvalued =>
      .pure h' ⟨_, rfl, Action.safe_value hvalued⟩
  cases hkind : node.cell.kind with
  -- Cells of arguments and constants are given their slots at the start, so no slot waits for them.
  | external name =>
    rw [hkind] at hfits
    rw [hfits] at hnew
    cases hnew
  | constant moduleName name =>
    rw [hkind] at hfits
    obtain ⟨a, -, hop⟩ := hfits
    rw [hop] at hnew
    cases hnew
  | structured members =>
    rw [hkind] at hfits hrefs
    obtain ⟨as, has, -, hheld⟩ : ∃ as, slotsOf p.activation members.values = some as ∧ _ :=
      hp.exists_slotsOf hrefs
    rw [nodeAction_structured hnode hp.own hfits.1 has]
    refine built _ (.structured fun k a ha => ?_)
    rw [Record.get?_ofLayer] at ha
    exact hheld a (List.of_mem_zip (KeyMap.mem_of_get?_ofList ha)).2
  | iterable items =>
    rw [hkind] at hfits hrefs
    obtain ⟨as, has, -, hheld⟩ : ∃ as, slotsOf p.activation items = some as ∧ _ :=
      hp.exists_slotsOf hrefs
    rw [nodeAction_iterable hnode hp.own hfits has]
    exact built _ (Value.within_ofList hheld)
  | opcode mnemonic arguments explicit =>
    rw [hkind] at hfits hrefs
    obtain ⟨op, bindings, hop, -, hnodeop⟩ := hfits
    obtain ⟨as, has, -, hheld⟩ : ∃ as, slotsOf p.activation arguments = some as ∧ _ :=
      hp.exists_slotsOf hrefs
    rw [nodeAction_opcode hnode hp.own hnodeop has]
    exact .pure h ⟨_, rfl, Action.safe_invocation ⟨h.careful _ _ hop, hheld, hinside⟩⟩
  | call callable argument =>
    rw [hkind] at hfits hrefs
    obtain ⟨as, has, hlen, hheld⟩ : ∃ as, slotsOf p.activation [callable, argument] = some as ∧ _ :=
      hp.exists_slotsOf hrefs
    match as, hlen with
    | [f, x], _ =>
      rw [nodeAction_call hnode hp.own hfits has]
      refine .pure h ⟨_, rfl, (Action.safe_evaluate (hheld f ?_) _).andThen ⟨hheld x ?_, hinside⟩⟩
      · exact List.mem_cons_self
      · exact List.mem_cons_of_mem _ List.mem_cons_self

/-- **Every slot that may be asked for its value is resolved** to work that can be done. -/
lemma safely_resolve (h : m.Safe base) {a : Address} (ha : m.Held a)
    (hnone : m.store.memory.value? a = none) :
    Safely base m (resolve a) fun o m' => ∃ action, o = .ok action ∧ action.Safe m' := by
  obtain ⟨i, rfl, hready⟩ := ha
  rw [Ready, hnone] at hready
  obtain ⟨p, hp⟩ := Option.isSome_iff_exists.mp (hready.resolve_left nofun)
  have hresolvable := h.pending i p hp
  exact .after (resolve_of_pending hresolvable.inside hp) (.refl m)
    (safely_nodeAction h hresolvable)

/-- **A slot that may be asked for its value** comes to it, or to work that gives it. -/
lemma steps_force (h : m.Safe base) {a : Address} (ha : m.Held a) (depth : Depth) :
    Steps base m (force a depth) (Eq a) := by
  refine .value? ?_
  cases hv : m.store.memory.value? a with
  | some v =>
    cases depth with
    | shallow => exact .pure h ⟨Option.isSome_iff_exists.mpr ⟨v, hv⟩, fun _ => id⟩
    | deep => exact steps_deepen h hv
  | none =>
    refine (safely_resolve h ha hv).bind fun o m' h' later ho => ?_
    obtain ⟨action, rfl, hsafe⟩ := ho
    have hsettled : (action.andThen (.settle a)).Safe m' :=
      hsafe.andThen (later.inside (h.inside_of_held ha))
    have hgives : (action.andThen (.settle a)).Gives a := .own rfl
    cases depth with
    | shallow => exact .pure h' ⟨hsettled, fun _ ha' => ha' ▸ hgives⟩
    | deep => exact .pure h' ⟨hsettled.andThen trivial, fun _ ha' => .deepened rfl (ha' ▸ hgives)⟩

/-! ### Calls -/

lemma safely_accept (h : m.Safe base) (call : CompiledCall) (argument : Address) :
    Safely base m (accept call argument) fun o _ => Registry.OrdinaryOutcome o := by
  obtain ⟨hfail, hverdicts⟩ := Registry.ordinary_matchTypes h.verdicts
    (m.store.memory.sourceOf argument) (m.store.memory.typeOf argument) (some call.argumentType)
  by_cases hopen : (m.store.memory.typeOf argument).isRuntimeDetermined = true
  · exact .after (if_pos hopen) (.refl m) (.pure h (Registry.ordinary_ok ()))
  · exact .after (if_neg hopen) (.refl m) (.of_congr h rfl rfl hverdicts h.compiled rfl hfail)

lemma safely_setUp (h : m.Safe base) {call : CompiledCall}
    (hfits : Fits m.setting.opcodes base call.callable call.nodes) {argument : Address}
    (hargument : m.Held argument) :
    Safely base m (setUp call argument) fun o m' => Proper (Action.Safe m') o := by
  obtain ⟨node, hnode⟩ := Option.isSome_iff_exists.mp hfits.result
  obtain ⟨result, hresult, hheld⟩ := held_activated h hfits hargument hnode
  have hentered : Safely base (m.activated call argument)
      (pure (.ok (.evaluate result .shallow))) fun o m' => Proper (Action.Safe m') o :=
    .pure (safe_activated h hfits hargument) (Action.safe_evaluate hheld .shallow)
  exact .after (setUp_of_placed hresult) (precedes_activated h hfits) hentered

lemma safely_construct (h : m.Safe base) {call : CompiledCall}
    (hfits : Fits m.setting.opcodes base call.callable call.nodes) {argument : Address}
    (hargument : m.Held argument) :
    Safely base m (construct call argument) fun o m' => Proper (Action.Safe m') o := by
  rw [construct_eq]
  refine (safely_accept h call argument).bind fun o m₁ h₁ later ho => ?_
  cases o with
  | error p => exact .pure h₁ (proper_error (ho p rfl))
  | ok _ => exact safely_setUp h₁ (later.setting ▸ hfits) (later.held hargument)

lemma safely_compile (h : m.Safe base) (a : Address) :
    Safely base m (compile a) fun c _ => c.Reliable m.setting.opcodes base := by
  obtain ⟨hreliable, hverdicts⟩ := reliable_compileSlot h.keepTypes h.checkOrdinarily
    m.setting.modules m.store.memory a h.verdicts
  refine .of_congr h rfl rfl hverdicts h.compiled rfl ?_
  change Compilation.Reliable _ _
    (compileSlot m.setting.opcodes m.setting.modules m.store.memory a m.store.types).1
  generalize (compileSlot m.setting.opcodes m.setting.modules m.store.memory a m.store.types).1 = c
    at hreliable ⊢
  cases c with
  | ok call => exact hreliable.of_over h.memory h.rooted
  | error found => exact hreliable

lemma safely_compileAt (h : m.Safe base) (i : Nat) :
    Safely base m (compileAt i) fun c _ => c.Reliable m.setting.opcodes base := by
  -- What is compiled anew is kept.
  have kept : ∀ {c m₁}, m₁.Safe base → m.Precedes m₁ → c.Reliable m.setting.opcodes base →
      compileAt i m = (c, { m₁ with compiled := m₁.compiled.insert i c }) →
      Safely base m (compileAt i) fun c _ => c.Reliable m.setting.opcodes base := by
    intro c m₁ h₁ later hc heq
    have hsetting := later.setting
    obtain ⟨hsafe, later'⟩ := h₁.congr { m₁ with compiled := m₁.compiled.insert i c } rfl rfl
      h₁.verdicts (fun j d hj => by
        rw [KeyMap.get?_insert] at hj
        split at hj
        · cases hj
          rw [hsetting]
          exact hc
        · exact h₁.compiled j d hj) rfl
    rw [Safely, heq]
    exact ⟨hsafe, later.trans later', hc⟩
  cases hcached : m.compiled.get? i with
  | some c =>
    have heq : compileAt i m = (c, m) := by rw [compileAt, hcached]
    exact .after heq (.refl m) (.pure h (h.compiled i c hcached))
  | none =>
    cases ha : m.store.memory.address? i with
    | some a =>
      obtain ⟨hsafe, later, hc⟩ := safely_compile h a
      refine kept hsafe later hc ?_
      rw [compileAt, hcached]
      dsimp only
      rw [ha]
      rfl
    | none =>
      refine kept (c := .error [(Problem.mk .noSuchConstant none []).set "index" i]) h (.refl m)
        (List.forall_mem_singleton.mpr (Problem.not_internal_of_ordinary rfl)) ?_
      rw [compileAt, hcached]
      dsimp only
      rw [ha]

lemma safely_compileFunction (h : m.Safe base) (i : Nat) :
    Safely base m (compileFunction i) fun c _ => c.Reliable m.setting.opcodes base := by
  by_cases hi : i < m.store.memory.constants
  · exact .after (if_pos hi) (.refl m) (safely_compileAt h i)
  · exact .after (if_neg hi) (.refl m) (safely_compile h (.at i))

/-- **A call** goes on with the result of the function that a slot holds, or says what is wrong. -/
lemma steps_call (h : m.Safe base) {function argument target : Address} (hfunction : m.Valued function)
    (hargument : m.Held argument) (htarget : m.store.memory.Inside target) :
    Steps base m (call function argument target) (Eq target) := by
  obtain ⟨i, rfl, -⟩ := h.held_of_valued hfunction
  obtain ⟨h₁, later, hreliable⟩ := safely_compileFunction h i
  cases hc : (compileFunction i m).1 with
  | error problems =>
    rw [hc] at hreliable
    refine .after (call_of_error hc) later (.pure h₁ ?_)
    show ¬ ((firstOf problems).getD _).Internal
    cases hfirst : firstOf problems with
    | none => exact Problem.not_internal_of_ordinary rfl
    | some p => exact Problem.not_internal_of_firstOf hreliable hfirst
  | ok compiled =>
    rw [hc] at hreliable
    change Fits m.setting.opcodes base compiled.callable compiled.nodes at hreliable
    rw [← later.setting] at hreliable
    refine .after (call_of_ok hc) later ?_
    refine (safely_construct h₁ hreliable (later.held hargument)).bind fun o m₂ h₂ later₂ ho => ?_
    cases o with
    | error p => exact .pure h₂ ho
    | ok action =>
      have hstep : Step.Safe m₂ (Eq target)
          (.action (action.andThen (.leave target compiled.callable))) := by
        refine ⟨Action.Safe.andThen ho (later₂.inside (later.inside htarget)), ?_⟩
        rintro _ rfl
        exact .own rfl
      exact Safely.told hstep (.tell h₂ _)

/-! ### Reductions -/

lemma safely_combine (h : m.Safe base) {c : Combiner} (hc : c.Safe m) {left right : Address}
    (hleft : m.Held left) (hright : m.Held right) :
    Safely base m (combine c left right) fun o m' => ∃ action, o = .ok action ∧ action.Safe m' := by
  cases c with
  | function f first second context type => exact hc.elim
  | opcode op context type =>
    refine (Safely.allocate h (reduceCell type)).bind fun target m' h' later htarget => ?_
    refine .pure h' ⟨_, rfl, Action.safe_invocation ⟨hc.1, fun a ha => later.held ?_, htarget⟩⟩
    rcases List.mem_cons.mp ha with rfl | ha
    · exact hleft
    · rcases List.mem_cons.mp ha with rfl | ha
      · exact hright
      · exact hc.2 a (Option.mem_toList.mp ha)

lemma steps_sequential (h : m.Safe base) {c : Combiner} (hc : c.Safe m) {term : Address}
    (hterm : m.Held term) {rest : List Address} (hrest : ∀ a ∈ rest, m.Held a) :
    Steps base m (sequential c term rest) fun _ => False := by
  cases rest with
  | nil => exact (steps_force h hterm .shallow).mono fun _ _ hstep => hstep.weaken nofun
  | cons next rest =>
    obtain ⟨hnext, hrest⟩ := List.forall_mem_cons.mp hrest
    refine (safely_combine h hc hterm hnext).bind fun o m' h' later ho => ?_
    obtain ⟨action, rfl, hsafe⟩ := ho
    exact .pure h' ⟨hsafe.andThen ⟨hc.mono later, fun a ha => later.held (hrest a ha)⟩, nofun⟩

/-- The work for pairs of terms, of which there is some when there are two terms. -/
lemma safely_pairUp {c : Combiner} : ∀ (terms : List Address) {m : Machine}, m.Safe base → c.Safe m →
    (∀ a ∈ terms, m.Held a) → Safely base m (pairUp c terms) fun o m' => ∃ actions carry,
      o = .ok (actions, carry) ∧ (∀ d ∈ actions, d.Safe m') ∧ (∀ a ∈ carry, m'.Held a) ∧
        (1 < terms.length → actions ≠ [])
  | [], _, h, _, _ => .pure h ⟨_, _, rfl, nofun, nofun, nofun⟩
  | [term], _, h, _, hterms => by
    refine .pure h ⟨_, _, rfl, nofun, fun a ha => ?_, fun hlt => absurd hlt (lt_irrefl 1)⟩
    cases ha
    exact hterms term List.mem_cons_self
  | left :: right :: rest, _, h, hc, hterms => by
    obtain ⟨hleft, hterms⟩ := List.forall_mem_cons.mp hterms
    obtain ⟨hright, hrest⟩ := List.forall_mem_cons.mp hterms
    refine (safely_combine h hc hleft hright).bind fun o m₁ h₁ later₁ ho => ?_
    obtain ⟨action, rfl, hsafe⟩ := ho
    refine (safely_pairUp rest h₁ (hc.mono later₁) fun a ha => later₁.held (hrest a ha)).bind
      fun o m₂ h₂ later₂ ho => ?_
    obtain ⟨actions, carry, rfl, hactions, hcarry, -⟩ := ho
    refine .pure h₂ ⟨_, _, rfl, ?_, hcarry, fun _ => List.cons_ne_nil _ _⟩
    exact List.forall_mem_cons.mpr ⟨hsafe.mono later₂, hactions⟩

lemma steps_pairwise (h : m.Safe base) {c : Combiner} (hc : c.Safe m) {terms : List Address}
    (hne : terms ≠ []) (hterms : ∀ a ∈ terms, m.Held a) :
    Steps base m (pairwise c terms) fun _ => False := by
  match terms with
  | [] => exact absurd rfl hne
  | [term] =>
    exact (steps_force h (hterms term List.mem_cons_self) .shallow).mono fun _ _ hstep =>
      hstep.weaken nofun
  | left :: right :: rest =>
    refine (safely_pairUp (left :: right :: rest) h hc hterms).bind fun o m' h' later ho => ?_
    obtain ⟨actions, carry, rfl, hactions, hcarry, hsome⟩ := ho
    refine .pure h' ⟨Action.safe_mk hactions nofun ⟨hc.mono later, hcarry, hsome ?_⟩, nofun⟩
    exact Nat.succ_lt_succ (Nat.succ_pos _)

lemma steps_reduceElements (h : m.Safe base) {c : Combiner} (hc : c.Safe m)
    {initial iterable : Address} (hinitial : m.Held initial) :
    Steps base m (reduceElements c initial iterable) fun _ => False := by
  refine .memory ?_
  cases hv : m.store.memory.value? iterable with
  | none => exact .pure h (Problem.not_internal_of_ordinary rfl)
  | some v =>
    cases v with
    | iterable items =>
      have hitems : ∀ a ∈ items.toList, m.Held a := (h.values _ _ hv).members
      refine .setting ?_
      split
      · exact steps_sequential h hc hinitial hitems
      · exact steps_pairwise h hc (List.cons_ne_nil _ _) (List.forall_mem_cons.mpr ⟨hinitial, hitems⟩)
    | _ => exact .pure h (Problem.not_internal_of_ordinary rfl)

/-! ### Opcodes -/

lemma Safely.checking (h : m.Safe base) {asked : Config → Bool} {x : StoreM (List Problem)}
    (hx : Safely base m (RunM.store x) fun found _ => ∀ p ∈ found, p.cause.isOrdinary = true) :
    Safely base m (RunM.checking asked x) fun found _ => ∀ p ∈ found, p.cause.isOrdinary = true := by
  by_cases hasked : asked m.setting.config = true
  · exact .after (if_pos hasked) (.refl m) hx
  · exact .after (if_neg hasked) (.refl m) (.pure h (List.forall_mem_nil _))

lemma steps_confer (h : m.Safe base) {i : Invocation} (hi : i.Safe m) (frame : Frame)
    {v : Value} (hv : v.Within m.Held) : Steps base m (confer i frame v) (Eq i.target) := by
  refine (Safely.checking h (.store h (Reading.check (hi.careful.result frame v _)))).bind
    fun found m₁ h₁ later hfound => ?_
  cases hfirst : firstOf found with
  | some p => exact .pure h₁ (i.safe_failure (Problem.isOrdinary_of_firstOf hfound hfirst))
  | none =>
    refine (Safely.memoize h₁ (later.inside hi.target) (hv.mono fun _ => later.held)).bind
      fun _ m₂ h₂ _ hvalued => ?_
    have hstep : Step.Safe m₂ (Eq i.target) (.value i.target) := ⟨hvalued, fun _ => id⟩
    exact Safely.told hstep (.tellOpcode h₂ _)

lemma steps_proceed (h : m.Safe base) {i : Invocation} (hi : i.Safe m) (frame : Frame)
    {r : Result} (hr : r.Safe m.Held) : Steps base m (proceed i frame r) (Eq i.target) := by
  cases r with
  | value v => exact proceed_value_eq i frame v ▸ steps_confer h hi frame hr
  | error p => exact .pure h (i.safe_failure hr)
  | lazy a =>
    refine .pure h ⟨(Action.safe_evaluate hr .shallow).andThen hi.target, ?_⟩
    rintro _ rfl
    exact .own rfl
  | reduce r =>
    cases r with
    | function f first second contextKey context iterable initial => exact hr.elim
    | opcode mnemonic context iterable initial =>
      obtain ⟨hcontext, hiterable, hinitial⟩ := hr
      refine .get ?_
      unfold combinerOf
      dsimp only
      cases hop : KeyMap.get? m.setting.opcodes mnemonic with
      | none => exact .pure h (i.safe_failure rfl)
      | some op =>
        have hreduced : Work.Safe m [.evaluate iterable .shallow]
            (.reduce (.opcode op context i.cell.type) initial) :=
          ⟨⟨h.careful _ _ hop, hcontext⟩, hinitial⟩
        refine .pure h ⟨((Action.safe_evaluate hiterable .shallow).andThen hreduced).andThen
          hi.target, ?_⟩
        rintro _ rfl
        exact .own rfl

lemma steps_apply (h : m.Safe base) {i : Invocation} (hi : i.Safe m) {frame : Frame}
    (hargs : frame.args = i.args) (hserved : i.opcode.Served frame m.store.memory) :
    Steps base m (apply i frame) (Eq i.target) := by
  refine (Safely.checking h (.store h (Reading.check (hi.careful.runtime hserved)))).bind
    fun found m₁ h₁ later hfound => ?_
  cases hfirst : firstOf found with
  | some p => exact .pure h₁ (i.safe_failure (Problem.isOrdinary_of_firstOf hfound hfirst))
  | none =>
    have hserved₁ : i.opcode.Served frame m₁.store.memory :=
      fun e he hlazy => later.valued (hserved e he hlazy)
    have hleads : Opcode.Leads m₁.Held frame m₁.store.memory :=
      ⟨fun a ha => later.held (hi.args a (hargs ▸ ha)), fun a v _ => h₁.values a v,
        fun _ _ _ ha => h₁.held_constant ha⟩
    exact (Safely.store h₁ (hi.careful.evaluate hserved₁ hleads)).bind
      fun r m₂ h₂ later₂ hr => steps_proceed h₂ ((hi.mono later).mono later₂) frame
        (hr.mono fun _ => later₂.held)

/-- **An opcode is invoked** when its arguments are there, and comes to what its invocation promises. -/
lemma steps_invoke (h : m.Safe base) {i : Invocation} (hi : i.Safe m)
    (hready : ∀ e ∈ i.opcode.signature.arguments.zip i.args, e.1.evaluation ≠ .lazy →
      m.Valued e.2) : Steps base m (invoke i) (Eq i.target) := by
  have hnone : i.unready m.store.memory = none := by
    rw [Invocation.unready, List.findIdx?_eq_none_iff]
    intro e he
    by_cases hlazy : e.1.evaluation = .lazy
    · rw [hlazy]
      rfl
    · rw [hready e he hlazy, Bool.not_true, Bool.and_false]
  rw [invoke_eq]
  refine .get ?_
  rw [hnone]
  exact (Safely.tellOpcode h _).bind fun _ m₁ h₁ later _ =>
    steps_apply h₁ (hi.mono later) rfl fun e he hlazy => later.valued (hready e he hlazy)

/-! ### Work -/

/-- A slot that an action came to: it has its value, and is the one that the action gives. -/
def Came (m : Machine) (d : Action) (b : Address) : Prop := m.Valued b ∧ ∀ a, d.Gives a → b = a

lemma exists_last {ds : List Action} {bs : List Address} (h : List.Forall₂ (Came m) ds bs)
    (hne : ds ≠ []) : ∃ d b, ds.getLast? = some d ∧ bs.getLast? = some b ∧ m.Came d b := by
  induction h with
  | nil => exact absurd rfl hne
  | @cons d b ds bs hd hds ih =>
    cases hds with
    | nil => exact ⟨d, b, rfl, rfl, hd⟩
    | @cons d' b' ds bs hd' hds =>
      obtain ⟨dl, bl, hdl, hbl, hcame⟩ := ih (List.cons_ne_nil _ _)
      exact ⟨dl, bl, by rw [List.getLast?_cons_cons, hdl], by rw [List.getLast?_cons_cons, hbl], hcame⟩

lemma held_of_came (h : m.Safe base) {ds : List Action} {bs : List Address}
    (hbs : List.Forall₂ (Came m) ds bs) : ∀ b ∈ bs, m.Held b := by
  induction hbs with
  | nil => exact List.forall_mem_nil _
  | cons hd _ ih => exact List.forall_mem_cons.mpr ⟨h.held_of_valued hd.1, ih⟩

lemma valued_of_came {i : Invocation} {bs : List Address}
    (h : List.Forall₂ (Came m) i.action.dependencies bs) :
    ∀ e ∈ i.opcode.signature.arguments.zip i.args, e.1.evaluation ≠ .lazy → m.Valued e.2 := by
  have evaluated : ∀ {a} (depth : Depth), Action.evaluate a depth ∈ i.action.dependencies →
      m.Valued a := by
    intro a depth ha
    generalize i.action.dependencies = ds at h ha
    induction h with
    | nil => cases ha
    | @cons d b ds bs hd _ ih =>
      rcases List.mem_cons.mp ha with rfl | ha
      · have heq : b = a := hd.2 a (.own rfl)
        exact heq ▸ hd.1
      · exact ih ha
  intro e he hlazy
  cases hevaluation : e.1.evaluation with
  | lazy => exact absurd hevaluation hlazy
  | evaluated =>
    exact evaluated .deep (List.mem_filterMap.mpr ⟨e, he, by rw [hevaluation]⟩)
  | shallow =>
    exact evaluated .shallow (List.mem_filterMap.mpr ⟨e, he, by rw [hevaluation]⟩)

/-- **Safe work**, done with what its dependencies came to, is a safe step to what the action gives. -/
lemma steps_perform (h : m.Safe base) {ds : List Action} {w : Work Action} {bs : List Address}
    (hfed : w.takesResult = true → ds ≠ []) (hw : w.Safe m ds)
    (hbs : List.Forall₂ (Came m) ds bs) :
    Steps base m (perform w bs) (Action.mk ds w).Gives := by
  -- Work that takes a result takes that of the last dependency.
  have fed : ∀ {f : Address → Stepped} {promised : Address → Prop}, w.takesResult = true →
      (∀ d b, ds.getLast? = some d → m.Came d b → Steps base m (f b) promised) →
      Steps base m (withResult bs f) promised := by
    intro f promised htakes hf
    obtain ⟨d, b, hd, hb, hcame⟩ := exists_last hbs (hfed htakes)
    rw [withResult, hb]
    exact hf d b hd hcame
  -- Work with a target of its own gives that, other work gives nothing.
  have own : ∀ {x b}, w.target? = some b → w ≠ .deepen → Steps base m x (Eq b) →
      Steps base m x (Action.mk ds w).Gives := by
    intro x b hb hdeepen hx
    refine hx.mono fun step m' hstep => hstep.weaken fun a ha => ?_
    cases ha with
    | own ha => exact Option.some.inj (hb.symm.trans ha)
    | deepened _ _ => exact absurd rfl hdeepen
  have other : ∀ {x}, w.target? = none → w ≠ .deepen → Steps base m x (fun _ => False) →
      Steps base m x (Action.mk ds w).Gives := by
    intro x hnone hdeepen hx
    refine hx.mono fun step m' hstep => hstep.weaken fun a ha => ?_
    cases ha with
    | own ha => cases hnone.symm.trans ha
    | deepened _ _ => exact hdeepen rfl
  cases w with
  | value a => exact own rfl nofun (.pure h ⟨hw, fun _ => id⟩)
  | evaluate a depth => exact own rfl nofun (steps_force h hw depth)
  | settle target =>
    exact own rfl nofun (fed rfl fun _ _ _ hb => steps_settle h hw hb.1)
  | deepen =>
    refine fed rfl fun d b hd hb => ?_
    refine (steps_force h (h.held_of_valued hb.1) .deep).mono fun step m' hstep =>
      hstep.weaken fun a ha => ?_
    cases ha with
    | own ha => cases ha
    | deepened hd' ha =>
      cases hd.symm.trans hd'
      exact hb.2 a ha
  | call argument target =>
    exact own rfl nofun (fed rfl fun _ _ _ hb => steps_call h hb.1 hw.1 hw.2)
  | leave target function =>
    exact own rfl nofun (fed rfl fun _ _ _ hb => steps_leave h function hw hb.1)
  | invoke i =>
    obtain ⟨hi, rfl⟩ := hw
    exact own rfl nofun (steps_invoke h hi (valued_of_came hbs))
  | conclude i => exact own rfl nofun (fed rfl fun _ _ _ hb => steps_conclude h hw hb.1)
  | reduce c initial =>
    exact other rfl nofun (fed rfl fun _ _ _ _ => steps_reduceElements h hw.1 hw.2)
  | combine c rest =>
    exact other rfl nofun (fed rfl fun _ _ _ hb =>
      steps_sequential h hw.1 (h.held_of_valued hb.1) hw.2)
  | combineLevel c carry =>
    obtain ⟨hc, hcarry, hne⟩ := hw
    refine other rfl nofun (steps_pairwise h hc ?_ fun a ha => ?_)
    · cases hbs with
      | nil => exact absurd rfl hne
      | cons _ _ => exact List.cons_ne_nil _ _
    · rcases List.mem_append.mp ha with ha | ha
      · exact held_of_came h hbs a ha
      · exact hcarry a (Option.mem_toList.mp ha)
  | custom run => exact hw.elim

end Machine

end CellMachine
