import CellMachine.Proofs.Meaning.Start
import CellMachine.Proofs.Ranking.Work

/-!
What work comes to on ranked slots. Work that is ranked comes to a slot of its ranks, or to work that
goes down among them; on the way, no slot outside of these ranks is given a value.
-/

namespace CellMachine

open Machine

namespace Machine

variable {base : Memory} {m m' : Machine} {ρ ρ' : Nat → ℚ} {U V : LowerSet ℚ}

/-- A computation whose step goes down among some ranks, and that gives values to no other slots. -/
def Paces (base : Memory) (U : LowerSet ℚ) (ρ : Nat → ℚ) (m : Machine) (x : Stepped) : Prop :=
  Confines base U ρ m x fun step ρ' m' => step.Descends m' ρ' U

lemma Confines.told {step : Step Action} (hstep : step.Descends m ρ U)
    {x : RunM Unit} (hx : Confines base ⊥ ρ m x fun _ _ _ => True) :
    Paces base U ρ m (x >>= fun _ => Pure.pure step) :=
  hx.bind bot_le fun _ _ _ h' hconfined _ => .pure h' (hstep.calm hconfined)

/-! ### Slots -/

lemma paces_settle (h : m.Layered base ρ) {target produced : Address}
    (htarget : m.Among ρ U target) (hproduced : m.Among ρ (.Iic (target.rank ρ)) produced) :
    Paces base U ρ m (settle target produced) := by
  refine .value? ?_
  cases hv : m.store.memory.value? produced with
  | none => exact .memory (.pure h trivial)
  | some v =>
    have hwithin : v.Within fun b => m.Held b ∧ m.Among ρ (.Iic (target.rank ρ)) b :=
      (h.within hv).mono fun b hb => ⟨hb.1, hb.2.le hproduced.2⟩
    exact (Confines.memoize h htarget hwithin).bind le_rfl fun _ _ _ h' _ hamong => .pure h' hamong

lemma paces_leave (h : m.Layered base ρ) {target produced : Address} (function : Callable)
    (htarget : m.Among ρ U target) (hproduced : m.Among ρ (.Iio (target.rank ρ)) produced) :
    Paces base U ρ m (leave target function produced) := by
  refine (paces_settle h htarget hproduced.of_lt).bind le_rfl
    fun step _ _ h' _ hstep => ?_
  cases step with
  | value b => exact Confines.told hstep (.tell h' _)
  | error p => exact .pure h' hstep
  | action next => exact .pure h' hstep

lemma paces_conclude (h : m.Layered base ρ) {i : Invocation} {produced : Address}
    (htarget : m.Among ρ U i.target) (hproduced : m.Among ρ (.Iio (i.target.rank ρ)) produced) :
    Paces base U ρ m (conclude i produced) := by
  refine (paces_settle h htarget hproduced.of_lt).bind le_rfl
    fun step _ _ h' _ hstep => ?_
  cases step with
  | value b => exact Confines.told hstep (.tellOpcode h' _)
  | error p => exact .pure h' hstep
  | action next => exact .pure h' hstep

lemma paces_deepen (h : m.Layered base ρ) {a : Address} (ha : m.Among ρ U a) {v : Value}
    (hv : m.store.memory.value? a = some v) : Paces base U ρ m (deepen a v) := by
  have hmembers : ∀ b ∈ v.members, m.Among ρ U b := fun b hb =>
    have hbelow := (h.members a v hv).members b hb
    ⟨hbelow.1, U.lower hbelow.2 ha.2⟩
  refine .memory ?_
  split
  · exact .pure h ha
  · next hopen =>
    refine .pure h (.mk ha (Work.fresh_of_none rfl) (fun d hd => ?_) fun d hd => ?_)
    · obtain ⟨b, hb, rfl⟩ := List.mem_map.mp hd
      exact Action.descends_evaluate (hmembers b (List.mem_filter.mp hb).1) .deep
    · obtain ⟨b, -, rfl⟩ := List.mem_map.mp (List.mem_of_mem_tail hd)
      exact Action.idle_evaluate b .deep

/-! ### Cells of activations -/

lemma Layered.exists_slotsOf (h : m.Layered base ρ) {i : Nat} {p : Pending}
    (hp : m.pending.get? i = some p) {node : Node}
    (hnode : p.activation.call.nodes.get? p.node = some node) :
    ∃ as, slotsOf p.activation node.cell.kind.references = some as ∧
      as.length = node.cell.kind.references.length ∧
      ∀ a ∈ as, m.Held a ∧ m.Among ρ (.Iio (ρ i)) a := by
  have hslots : ∀ r ∈ node.cell.kind.references, ∃ a, p.activation.slots.get? r = some a ∧
      m.Held a ∧ m.Among ρ (.Iio (ρ i)) a := by
    intro r hr
    obtain ⟨node', hr'⟩ := Option.isSome_iff_exists.mp ((h.pending i p hp).fits.refs _ _ hnode r hr)
    obtain ⟨a, ha, hheld⟩ := (h.pending i p hp).slots r node' hr'
    exact ⟨a, ha, hheld, (h.cells i p hp).references node hnode r hr a ha⟩
  obtain ⟨as, has, hall⟩ := forall₂_slotsOf hslots
  have hbelow : List.Forall₂ (fun a (_ : Nat) => (m.Held a ∧ m.Among ρ (.Iio (ρ i)) a) ∧ True) as
      node.cell.kind.references := hall.flip.imp fun _ _ ha => ⟨ha, trivial⟩
  exact ⟨as, has, hall.length_eq.symm, ((List.forall₂_and_left _ _).mp hbelow).1⟩

lemma silent_produces (p : Pending) : Silent (nodeAction p) fun o => ∀ action, o = .ok action →
    ∀ a, action.work.produces? = some a → p.activation.slots.get? p.node = some a := by
  have none_of : ∀ {action : Action}, action.work.produces? = none → ∀ action',
      (.ok action : Outcome Action) = .ok action' → ∀ a, action'.work.produces? = some a →
        p.activation.slots.get? p.node = some a := by
    rintro action hnone _ ⟨⟩ a ha
    cases hnone.symm.trans ha
  have own : ∀ {action : Action} {slot : Address}, p.activation.slots.get? p.node = some slot →
      action.work.produces? = some slot → ∀ action', (.ok action : Outcome Action) = .ok action' →
        ∀ a, action'.work.produces? = some a → p.activation.slots.get? p.node = some a := by
    rintro action slot hslot hproduces _ ⟨⟩ a ha
    cases hproduces.symm.trans ha
    exact hslot
  have hwork := cellWork_nodeAction p
  generalize nodeAction p = work at hwork
  cases hwork with
  | given => exact .pure (none_of rfl)
  | structured | iterable => exact (Silent.store _).bind fun _ _ => .pure (none_of rfl)
  | opcode _ hslot => exact .pure (own hslot rfl)
  | call _ hslot => exact .pure (own hslot rfl)
  | corrupt => exact .pure nofun

lemma confines_built (h : m.Layered base ρ) {a : Address} (ha : m.Among ρ U a) {v : Value}
    (hv : v.Within fun b => m.Held b ∧ m.Among ρ (.Iio (a.rank ρ)) b) :
    Confines base U ρ m (do
      RunM.store (StoreM.memoize a v)
      pure (.ok (.value a))) fun (o : Outcome Action) ρ' m' =>
        ∀ action, o = .ok action → action.Descends m' ρ' U := by
  refine (Confines.memoize h ha (hv.mono fun b hb => ⟨hb.1, hb.2.of_lt⟩)).bind le_rfl
    fun _ ρ' m' h' _ hamong => .pure h' ?_
  rintro _ ⟨⟩
  exact Action.descends_value hamong

/-- **A cell without a value** is worked on by going down from its slot. -/
lemma confines_nodeAction (h : m.Layered base ρ) {i : Nat} {p : Pending}
    (hp : m.pending.get? i = some p) (hnone : m.store.memory.value? (.at i) = none) :
    Confines base (.Iic (ρ i)) ρ m (nodeAction p) fun o ρ' m' =>
      ∀ action, o = .ok action → action.Descends m' ρ' (.Iic (ρ i)) := by
  have hresolvable := h.pending i p hp
  obtain ⟨node, hnode, hnew⟩ := hresolvable.node
  have hfits := hresolvable.fits.fits _ _ hnode
  have hown : m.Among ρ (.Iic (ρ i)) (.at i) :=
    ⟨⟨i, hresolvable.inside, rfl⟩, LowerSet.mem_Iic_iff.mpr le_rfl⟩
  have hpos : 0 < ρ i := (h.cells i p hp).positive
  have hfresh : ∀ {w : Work Action}, w.produces? = some (.at i) → w.Fresh m := by
    intro w hw j hj _
    cases hw.symm.trans hj
    exact hnone
  obtain ⟨as, has, hlen, hall⟩ := h.exists_slotsOf hp hnode
  cases hkind : node.cell.kind with
  | external name =>
    rw [hkind] at hfits
    rw [hfits] at hnew
    cases hnew
  | constant moduleName name =>
    rw [hkind] at hfits
    obtain ⟨a, -, hop⟩ := hfits
    rw [hop] at hnew
    cases hnew
  | structured members =>
    rw [hkind] at hfits has
    rw [nodeAction_structured hnode hresolvable.own hfits.1 has]
    refine confines_built h hown (.structured fun k a ha => ?_)
    rw [Record.get?_ofLayer] at ha
    exact hall a (List.of_mem_zip (KeyMap.mem_of_get?_ofList ha)).2
  | iterable items =>
    rw [hkind] at hfits has
    rw [nodeAction_iterable hnode hresolvable.own hfits has]
    exact confines_built h hown (Value.within_ofList hall)
  | opcode mnemonic arguments explicit =>
    rw [hkind] at hfits has
    obtain ⟨op, bindings, -, -, hnodeop⟩ := hfits
    rw [nodeAction_opcode hnode hresolvable.own hnodeop has]
    refine .pure h ?_
    rintro _ ⟨⟩
    exact Action.descends_invocation ⟨hown, hpos, fun a ha => (hall a ha).2⟩ (hfresh rfl)
  | call callable argument =>
    rw [hkind] at hfits has hlen
    obtain ⟨f, x, rfl⟩ := List.length_eq_two.mp hlen
    rw [nodeAction_call hnode hresolvable.own hfits has]
    refine .pure h ?_
    rintro _ ⟨⟩
    have hf := (hall f List.mem_cons_self).2
    have hx := (hall x (List.mem_cons_of_mem _ List.mem_cons_self)).2
    exact (Action.descends_evaluate (show m.Among ρ _ f from hf) .shallow).andThen
      ⟨hown, hpos, hx⟩ (hfresh rfl)

/-- **A slot is asked for its value**: that is there, or is worked on by going down from the slot. -/
lemma paces_force (h : m.Layered base ρ) {a : Address} (hheld : m.Held a) (ha : m.Among ρ U a)
    (depth : Depth) : Paces base U ρ m (force a depth) := by
  refine .value? ?_
  cases hv : m.store.memory.value? a with
  | some v =>
    cases depth with
    | shallow => exact .pure h ha
    | deep => exact paces_deepen h ha hv
  | none =>
    obtain ⟨i, rfl, hready⟩ := hheld
    rw [Ready, hv] at hready
    obtain ⟨p, hp⟩ := Option.isSome_iff_exists.mp (hready.resolve_left Bool.false_ne_true)
    have hle : LowerSet.Iic (ρ i) ≤ U := fun _ hx => U.lower hx ha.2
    have hresolve : Confines base (.Iic (ρ i)) ρ m (resolve (.at i)) fun o ρ' m' =>
        ∀ action, o = .ok action → action.Descends m' ρ' (.Iic (ρ i)) :=
      .after (resolve_of_pending (h.pending i p hp).inside hp) (.refl _ ρ m)
        (confines_nodeAction h hp hv)
    refine hresolve.bind hle fun o ρ' m' h' hconfined ho => ?_
    cases o with
    | error p => exact .pure h' trivial
    | ok action =>
      have ha' := hconfined.among ha
      have hrank : (Address.at i).rank ρ' = ρ i := hconfined.rank ha.1
      have hbound : (Work.settle (.at i)).bound ρ' U = .Iic (ρ i) := congrArg LowerSet.Iic hrank
      have hsettled : (action.andThen (.settle (.at i))).Descends m' ρ' U :=
        (hbound ▸ ho action rfl : action.Descends m' ρ' _).andThen ha' (Work.fresh_of_none rfl)
      cases depth with
      | shallow => exact .pure h' hsettled
      | deep => exact .pure h' (hsettled.andThen trivial (Work.fresh_of_none rfl))

/-! ### Calls -/

lemma confines_accept (h : m.Layered base ρ) (call : CompiledCall) (argument : Address) :
    Confines base ⊥ ρ m (accept call argument) fun _ _ _ => True := by
  have hkept : (accept call argument m).2.store.memory = m.store.memory ∧
      (accept call argument m).2.pending = m.pending := by
    unfold accept
    dsimp only
    split <;> exact ⟨rfl, rfl⟩
  exact (Confines.of_same h (safely_accept h.toSafe call argument) hkept.1 hkept.2).any

lemma confines_setUp (h : m.Layered base ρ) {call : CompiledCall}
    (hfits : Fits m.setting.opcodes base call.callable call.nodes) {argument : Address} {x : ℚ}
    (hheld : m.Held argument) (hargument : m.Among ρ (.Iio x) argument) (hx : 0 < x) :
    Confines base ⊥ ρ m (setUp call argument) fun o ρ' m' =>
      ∀ action, o = .ok action → action.Descends m' ρ' (.Iio x) := by
  obtain ⟨node, hnode⟩ := Option.isSome_iff_exists.mp hfits.result
  obtain ⟨result, hresult, -⟩ := held_activated h.toSafe hfits hheld hnode
  obtain ⟨ρ', h', hconfined, hbelow⟩ :=
    exists_ranks_activated h hfits hheld (LowerSet.mem_Iio_iff.mp hargument.2) hx
  refine .after (setUp_of_placed hresult) hconfined (.pure h' ?_)
  rintro _ ⟨⟩
  exact Action.descends_evaluate (hbelow _ result hfits.result hresult) .shallow

lemma confines_construct (h : m.Layered base ρ) {call : CompiledCall}
    (hfits : Fits m.setting.opcodes base call.callable call.nodes) {argument : Address} {x : ℚ}
    (hheld : m.Held argument) (hargument : m.Among ρ (.Iio x) argument) (hx : 0 < x) :
    Confines base ⊥ ρ m (construct call argument) fun o ρ' m' =>
      ∀ action, o = .ok action → action.Descends m' ρ' (.Iio x) := by
  rw [construct_eq]
  refine (confines_accept h call argument).bind le_rfl fun o ρ₁ m₁ h₁ hconfined _ => ?_
  cases o with
  | error p => exact .pure h₁ nofun
  | ok _ =>
    exact confines_setUp h₁ (hconfined.setting ▸ hfits) (hconfined.held hheld)
      (hconfined.among hargument) hx

lemma confines_compileFunction (h : m.Layered base ρ) (i : Nat) :
    Confines base ⊥ ρ m (compileFunction i) fun c _ _ => c.Reliable m.setting.opcodes base := by
  have hkept : (compileFunction i m).2.store.memory = m.store.memory ∧
      (compileFunction i m).2.pending = m.pending := by
    unfold compileFunction
    split
    · have hkept := recompiled_compileAt h.keepTypes i
      exact ⟨hkept.memory, hkept.pending⟩
    · exact ⟨rfl, rfl⟩
  exact .of_same h (safely_compileFunction h.toSafe i) hkept.1 hkept.2

/-- **A call** goes on below the slot that its result is for. -/
lemma paces_call (h : m.Layered base ρ) {function argument target : Address}
    (hfunction : m.store.memory.Inside function) (hheld : m.Held argument)
    (hranked : (Work.call argument target).Ranked m ρ U) (hfresh : (Work.call argument target).Fresh m) :
    Paces base U ρ m (call function argument target) := by
  obtain ⟨i, -, rfl⟩ := hfunction
  obtain ⟨htarget, hpos, hargument⟩ := hranked
  obtain ⟨ρ₁, h₁, hconfined, hreliable⟩ := confines_compileFunction h i
  cases hc : (compileFunction i m).1 with
  | error problems =>
    refine .after (call_of_error hc) (hconfined.mono bot_le) (.pure h₁ trivial)
  | ok compiled =>
    rw [hc] at hreliable
    change Fits m.setting.opcodes base compiled.callable compiled.nodes at hreliable
    rw [← hconfined.setting] at hreliable
    refine .after (call_of_ok hc) (hconfined.mono bot_le) ?_
    refine (confines_construct h₁ hreliable (hconfined.held hheld) (hconfined.among hargument)
      hpos).bind bot_le fun o ρ₂ m₂ h₂ hconfined₂ ho => ?_
    cases o with
    | error p => exact .pure h₂ trivial
    | ok action =>
      have hconfined' := hconfined.trans hconfined₂
      have hrank : target.rank ρ₂ = target.rank ρ := hconfined'.rank htarget.1
      have hfresh₂ : (Work.leave target compiled.callable).Fresh m₂ :=
        hfresh.later (U := U) ⟨htarget, hpos, hargument⟩ hconfined' fun _ _ => LowerSet.notMem_bot
      have hbound : (Work.leave target compiled.callable).bound ρ₂ U = .Iio (target.rank ρ) :=
        congrArg LowerSet.Iio hrank
      have hnext : (action.andThen (.leave target compiled.callable)).Descends m₂ ρ₂ U :=
        (hbound ▸ ho action rfl : action.Descends m₂ ρ₂ _).andThen (hconfined'.among htarget) hfresh₂
      have hstep : (Step.action (action.andThen (.leave target compiled.callable))).Descends m₂ ρ₂ U :=
        hnext
      exact .told hstep (.tell h₂ _)

/-! ### Reductions -/

lemma confines_combine (h : m.Layered base ρ) (hroomy : Roomy U) {c : Combiner} (hc : c.Safe m)
    (hranked : c.Ranked m ρ U) {left right : Address} (hleft : m.Among ρ U left)
    (hright : m.Among ρ U right) :
    Confines base ⊥ ρ m (combine c left right) fun o ρ' m' =>
      ∀ action, o = .ok action → action.Descends m' ρ' U ∧ action.Idle m' := by
  cases c with
  | function f first second context type => exact hc.elim
  | opcode op context type =>
    have hterms : ∀ a ∈ left :: right :: context.toList, m.Among ρ U a :=
      List.forall_mem_cons.mpr ⟨hleft, List.forall_mem_cons.mpr ⟨hright, fun a ha =>
        hranked a (Option.mem_toList.mp ha)⟩⟩
    obtain ⟨r, hr, hpos, hbelow⟩ := hroomy.exists_above hterms
    refine (Confines.allocate h (reduceCell type) r).bind le_rfl
      fun target ρ' m' h' hconfined htarget => .pure h' ?_
    obtain ⟨hinside, rfl, hnone⟩ := htarget
    rintro _ ⟨⟩
    let i : Invocation :=
      ⟨op, left :: right :: context.toList, [], reduceCell type, none, target.index?.getD 0, target⟩
    have haside : (Work.invoke i).Aside m' := by
      rintro j hj
      obtain ⟨k, hk, rfl⟩ := hinside
      cases hj
      exact ⟨hk, hnone j rfl⟩
    exact ⟨Action.descends_invocation (i := i) ⟨⟨hinside, hr⟩, hpos, fun a ha =>
      hconfined.among (hbelow a ha)⟩ haside.fresh, Action.idle_invocation haside⟩

lemma paces_sequential (h : m.Layered base ρ) (hroomy : Roomy U) {c : Combiner} (hc : c.Safe m)
    (hranked : c.Ranked m ρ U) {term : Address} (hheld : m.Held term) (hterm : m.Among ρ U term)
    {rest : List Address} (hrest : ∀ a ∈ rest, m.Among ρ U a) :
    Paces base U ρ m (sequential c term rest) := by
  cases rest with
  | nil => exact paces_force h hheld hterm .shallow
  | cons next rest =>
    obtain ⟨hnext, hrest⟩ := List.forall_mem_cons.mp hrest
    refine (confines_combine h hroomy hc hranked hterm hnext).bind bot_le
      fun o ρ' m' h' hconfined ho => ?_
    cases o with
    | error p => exact .pure h' trivial
    | ok action =>
      have hcombine : (action.andThen (.combine c rest)).Descends m' ρ' U :=
        Action.Descends.andThen (ho action rfl).1 ⟨hroomy, hranked.later hconfined, fun a ha =>
          hconfined.among (hrest a ha)⟩ (Work.fresh_of_none rfl)
      exact .pure h' hcombine

/-- Neighbours are combined in new slots, none of which is a cell. -/
lemma confines_pairUp {c : Combiner} (hroomy : Roomy U) : ∀ (terms : List Address) {m : Machine}
    {ρ : Nat → ℚ}, m.Layered base ρ → c.Safe m → c.Ranked m ρ U → (∀ a ∈ terms, m.Among ρ U a) →
    Confines base ⊥ ρ m (pairUp c terms) fun o ρ' m' => ∀ actions carry, o = .ok (actions, carry) →
      (∀ d ∈ actions, d.Descends m' ρ' U ∧ d.Idle m') ∧ ∀ a ∈ carry, m'.Among ρ' U a
  | [], _, _, h, _, _, _ => by
    refine .pure h ?_
    rintro _ _ ⟨⟩
    exact ⟨nofun, nofun⟩
  | [term], _, _, h, _, _, hterms => by
    refine .pure h ?_
    rintro _ _ ⟨⟩
    refine ⟨nofun, ?_⟩
    rintro a ⟨⟩
    exact hterms term List.mem_cons_self
  | left :: right :: rest, _, _, h, hc, hranked, hterms => by
    obtain ⟨hleft, hterms⟩ := List.forall_mem_cons.mp hterms
    obtain ⟨hright, hrest⟩ := List.forall_mem_cons.mp hterms
    refine (confines_combine h hroomy hc hranked hleft hright).bind le_rfl
      fun o ρ₁ m₁ h₁ hconfined₁ ho => ?_
    cases o with
    | error p => exact .pure h₁ nofun
    | ok action =>
      obtain ⟨hdescends, hidle⟩ := ho action rfl
      refine (confines_pairUp hroomy rest h₁ (hc.mono hconfined₁.toPrecedes)
        (hranked.later hconfined₁) fun a ha => hconfined₁.among (hrest a ha)).bind le_rfl
          fun o ρ₂ m₂ h₂ hconfined₂ ho => ?_
      cases o with
      | error p => exact .pure h₂ nofun
      | ok r =>
        obtain ⟨actions, carry⟩ := r
        obtain ⟨hactions, hcarry⟩ := ho actions carry rfl
        refine .pure h₂ ?_
        rintro _ _ ⟨⟩
        exact ⟨List.forall_mem_cons.mpr
          ⟨⟨hdescends.calm hconfined₂, hidle.later hconfined₂⟩, hactions⟩, hcarry⟩

lemma paces_pairwise (h : m.Layered base ρ) (hroomy : Roomy U) {c : Combiner} (hc : c.Safe m)
    (hranked : c.Ranked m ρ U) {terms : List Address}
    (hterms : ∀ a ∈ terms, m.Held a ∧ m.Among ρ U a) :
    Paces base U ρ m (pairwise c terms) := by
  match terms with
  | [] => exact .pure h trivial
  | [term] =>
    obtain ⟨hheld, hterm⟩ := hterms term List.mem_cons_self
    exact paces_force h hheld hterm .shallow
  | left :: right :: rest =>
    refine (confines_pairUp hroomy (left :: right :: rest) h hc hranked fun a ha =>
      (hterms a ha).2).bind bot_le fun o ρ' m' h' hconfined ho => ?_
    cases o with
    | error p => exact .pure h' trivial
    | ok r =>
      obtain ⟨actions, carry⟩ := r
      obtain ⟨hactions, hcarry⟩ := ho actions carry rfl
      have hlevel : (Action.mk actions (.combineLevel c carry)).Descends m' ρ' U :=
        .mk ⟨hroomy, hranked.later hconfined, hcarry⟩ (Work.fresh_of_none rfl)
          (fun d hd => (hactions d hd).1) fun d hd => (hactions d (List.mem_of_mem_tail hd)).2
      exact .pure h' hlevel

lemma paces_reduceElements (h : m.Layered base ρ) (hroomy : Roomy U) {c : Combiner} (hc : c.Safe m)
    (hranked : c.Ranked m ρ U) {initial iterable : Address} (hheld : m.Held initial)
    (hinitial : m.Among ρ U initial) (hiterable : m.Among ρ U iterable) :
    Paces base U ρ m (reduceElements c initial iterable) := by
  refine .memory ?_
  cases hv : m.store.memory.value? iterable with
  | none => exact .pure h trivial
  | some v =>
    cases v with
    | iterable items =>
      have hitems : ∀ a ∈ items.toList, m.Held a ∧ m.Among ρ U a := fun a ha =>
        have hbelow := (h.within hv).members a ha
        ⟨hbelow.1, hbelow.2.1, U.lower hbelow.2.2 hiterable.2⟩
      refine .setting ?_
      split
      · exact paces_sequential h hroomy hc hranked hheld hinitial fun a ha => (hitems a ha).2
      · exact paces_pairwise h hroomy hc hranked
          (List.forall_mem_cons.mpr ⟨⟨hheld, hinitial⟩, hitems⟩)
    | _ => exact .pure h trivial

/-! ### Opcodes -/

section Invocations

variable {i : Invocation}

lemma descends_conclude (hranked : (Work.invoke i).Ranked m ρ U) (hfresh : (Work.invoke i).Fresh m)
    {next : Action} (hnext : next.Descends m ρ (.Iio (i.target.rank ρ))) :
    (next.andThen (.conclude i)).Descends m ρ U :=
  hnext.andThen (w := .conclude i) hranked.1 fun j hj => hfresh j hj

lemma Confines.checking (h : m.Layered base ρ) {asked : Config → Bool} {x : StoreM (List Problem)}
    {P : List Problem → Prop} (hx : Reading m.store.memory x P) :
    Confines base U ρ m (RunM.checking asked x) fun _ _ _ => True := by
  by_cases hasked : asked m.setting.config = true
  · exact .after (if_pos hasked) (.refl U ρ m) (Confines.store h hx).any
  · exact .after (if_neg hasked) (.refl U ρ m) (.pure h trivial)

lemma paces_confer (h : m.Layered base ρ) (hi : i.Safe m) (frame : Frame)
    (htarget : m.Among ρ U i.target) {v : Value}
    (hv : v.Within fun a => m.Held a ∧ m.Among ρ (.Iio (i.target.rank ρ)) a) :
    Paces base U ρ m (confer i frame v) := by
  refine (Confines.checking h (Reading.check (hi.careful.result frame v _))).bind bot_le
    fun found ρ₁ m₁ h₁ hconfined _ => ?_
  cases firstOf found with
  | some p => exact .pure h₁ trivial
  | none =>
    have hv₁ : v.Within fun a => m₁.Held a ∧ m₁.Among ρ₁ (.Iic (i.target.rank ρ₁)) a := by
      rw [hconfined.rank htarget.1]
      exact hv.mono fun a ha => ⟨hconfined.held ha.1, (hconfined.among ha.2).of_lt⟩
    refine (Confines.memoize h₁ (hconfined.among htarget) hv₁).bind le_rfl
      fun _ ρ₂ m₂ h₂ _ hamong => ?_
    have hstep : (Step.value i.target).Descends m₂ ρ₂ U := hamong
    exact .told hstep (.tellOpcode h₂ _)

lemma paces_proceed (h : m.Layered base ρ) (hi : i.Safe m) (frame : Frame)
    (hranked : (Work.invoke i).Ranked m ρ U) (hfresh : (Work.invoke i).Fresh m) {r : Result}
    (hr : r.Safe fun a => m.Held a ∧ m.Among ρ (.Iio (i.target.rank ρ)) a) :
    Paces base U ρ m (proceed i frame r) := by
  cases r with
  | value v => exact proceed_value_eq i frame v ▸ paces_confer h hi frame hranked.1 hr
  | error p => exact .pure h trivial
  | lazy a => exact .pure h (descends_conclude hranked hfresh (Action.descends_evaluate hr.2 _))
  | reduce r =>
    cases r with
    | function f first second contextKey context iterable initial => exact hr.elim
    | opcode mnemonic context iterable initial =>
      obtain ⟨hcontext, hiterable, hinitial⟩ := hr
      refine .get ?_
      unfold combinerOf
      dsimp only
      cases KeyMap.get? m.setting.opcodes mnemonic with
      | none => exact .pure h trivial
      | some op =>
        have hreduce : (Work.reduce (.opcode op context i.cell.type) initial).Ranked m ρ
            (.Iio (i.target.rank ρ)) :=
          ⟨roomy_Iio hranked.2.1, fun a ha => (hcontext a ha).2, hinitial.2⟩
        exact .pure h (descends_conclude hranked hfresh
          ((Action.descends_evaluate hiterable.2 _).andThen hreduce (Work.fresh_of_none rfl)))

lemma Layered.leads (h : m.Layered base ρ) (hi : i.Safe m) (hranked : (Work.invoke i).Ranked m ρ U)
    {frame : Frame} (hargs : frame.args = i.args) :
    Opcode.Leads (fun a => m.Held a ∧ m.Among ρ (.Iio (i.target.rank ρ)) a) frame m.store.memory := by
  obtain ⟨-, hpos, hbelow⟩ := hranked
  refine ⟨fun a ha => ?_, fun a v ha hv => ?_, fun moduleName name a ha => h.below_constant ha hpos⟩
  · rw [hargs] at ha
    exact ⟨hi.args a ha, hbelow a ha⟩
  · exact (h.within hv).mono fun b hb =>
      ⟨hb.1, hb.2.1, (LowerSet.mem_Iic_iff.mp hb.2.2).trans_lt ha.2.2⟩

lemma paces_apply (h : m.Layered base ρ) (hi : i.Safe m) {frame : Frame} (hargs : frame.args = i.args)
    (hserved : i.opcode.Served frame m.store.memory) (hranked : (Work.invoke i).Ranked m ρ U)
    (hfresh : (Work.invoke i).Fresh m) : Paces base U ρ m (apply i frame) := by
  refine (Confines.checking h (Reading.check (hi.careful.runtime hserved))).bind bot_le
    fun found ρ₁ m₁ h₁ hconfined _ => ?_
  cases firstOf found with
  | some p => exact .pure h₁ trivial
  | none =>
    have hserved₁ : i.opcode.Served frame m₁.store.memory :=
      fun e he hlazy => hconfined.valued (hserved e he hlazy)
    have hi₁ := hi.mono hconfined.toPrecedes
    have hranked₁ := hranked.later hconfined
    have hfresh₁ := hfresh.later hranked hconfined fun _ _ => LowerSet.notMem_bot
    refine (Confines.store h₁ (hi.careful.evaluate hserved₁ (h₁.leads hi₁ hranked₁ hargs))).bind
      bot_le fun r ρ₂ m₂ h₂ hconfined₂ hr => ?_
    exact paces_proceed h₂ (hi₁.mono hconfined₂.toPrecedes) frame (hranked₁.later hconfined₂)
      (hfresh₁.later hranked₁ hconfined₂ fun _ _ => LowerSet.notMem_bot)
      (hr.mono fun a ha => ⟨hconfined₂.held ha.1,
        (hconfined₂.rank hranked₁.1.1).symm ▸ hconfined₂.among ha.2⟩)

/-- **An opcode is invoked** on slots below its own. -/
lemma paces_invoke (h : m.Layered base ρ) (hi : i.Safe m)
    (hready : ∀ e ∈ i.opcode.signature.arguments.zip i.args, e.1.evaluation ≠ .lazy →
      m.Valued e.2) (hranked : (Work.invoke i).Ranked m ρ U) (hfresh : (Work.invoke i).Fresh m) :
    Paces base U ρ m (invoke i) := by
  rw [invoke_eq]
  refine .get ?_
  cases i.unready m.store.memory with
  | some position => exact .pure h trivial
  | none =>
    refine (Confines.tellOpcode h _).bind bot_le fun _ ρ₁ m₁ h₁ hconfined _ => ?_
    exact paces_apply h₁ (hi.mono hconfined.toPrecedes) rfl
      (fun e he hlazy => hconfined.valued (hready e he hlazy)) (hranked.later hconfined)
      (hfresh.later hranked hconfined fun _ _ => LowerSet.notMem_bot)

end Invocations

/-! ### Work -/

/-- **Ranked work**, done with what its dependencies came to, goes down among its ranks, and gives
values to no other slots. -/
lemma paces_perform (h : m.Layered base ρ) {ds : List Action} {w : Work Action} {bs : List Address}
    (hw : w.Safe m ds) (hbs : List.Forall₂ (Came m) ds bs) (hranked : w.Ranked m ρ U)
    (hfresh : w.Fresh m) (hbelow : ∀ b ∈ bs, m.Among ρ (w.bound ρ U) b) :
    Paces base U ρ m (perform w bs) := by
  have fed : ∀ {f : Address → Stepped},
      (∀ b, m.Held b → m.Among ρ (w.bound ρ U) b → Paces base U ρ m (f b)) →
      Paces base U ρ m (withResult bs f) := by
    intro f hf
    rw [withResult]
    cases hlast : bs.getLast? with
    | none => exact .pure h trivial
    | some b =>
      have hb := List.mem_of_getLast? hlast
      exact hf b (held_of_came h.toSafe hbs b hb) (hbelow b hb)
  cases w with
  | value a => exact .pure h hranked
  | evaluate a depth => exact paces_force h hw hranked depth
  | settle target => exact fed fun b _ hb => paces_settle h hranked hb
  | deepen => exact fed fun b hheld hb => paces_force h hheld hb .deep
  | call argument target => exact fed fun b _ hb => paces_call h hb.1 hw.1 hranked hfresh
  | leave target function => exact fed fun b _ hb => paces_leave h function hranked hb
  | invoke i =>
    obtain ⟨hi, rfl⟩ := hw
    exact paces_invoke h hi (valued_of_came hbs) hranked hfresh
  | conclude i => exact fed fun b _ hb => paces_conclude h hranked hb
  | reduce c initial =>
    obtain ⟨hroomy, hc, hinitial⟩ := hranked
    exact fed fun b _ hb => paces_reduceElements h hroomy hw.1 hc hw.2 hinitial hb
  | combine c rest =>
    obtain ⟨hroomy, hc, hrest⟩ := hranked
    exact fed fun b hheld hb => paces_sequential h hroomy hw.1 hc hheld hb hrest
  | combineLevel c carry =>
    obtain ⟨hroomy, hc, hcarry⟩ := hranked
    refine paces_pairwise h hroomy hw.1 hc fun a ha => ?_
    rcases List.mem_append.mp ha with ha | ha
    · exact ⟨held_of_came h.toSafe hbs a ha, hbelow a ha⟩
    · have ha := Option.mem_toList.mp ha
      exact ⟨hw.2.1 a ha, hcarry a ha⟩
  | custom run => exact hw.elim

end Machine

end CellMachine
