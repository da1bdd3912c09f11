import CellMachine.Proofs.Meaning.Soundness
import CellMachine.Proofs.Tandem.Calls
import CellMachine.Proofs.Tandem.Opcodes

/-!
Work of two machines side by side: where the leader does not fail, the follower comes to a slot that is
paired with the leader's, or goes on with work that belongs to the leader's.
-/

namespace CellMachine

namespace Tandem

open Machine

variable {T : Tandem} {D D' : Nat → Nat → Prop} {m m' n n' : Machine}

/-! ### Actions that belong together -/

/-- Invocations of one opcode for paired slots. -/
structure SameInvocation (T : Tandem) (D : Nat → Nat → Prop) (i i' : Invocation) : Prop where
  opcode : i'.opcode = i.opcode
  allows : T.Allows i.opcode
  args : List.Forall₂ (Paired D) i.args i'.args
  type : i'.cell.type = i.cell.type
  agrees : T.types.Agrees i.cell.type
  target : Paired D i.target i'.target

/-- The combiners that the machines may use. -/
inductive Combines (T : Tandem) : Combiner → Prop
  | mk {op : Opcode} {type : Ty} (hop : op = Standard.addIntegers ∨
      op = Standard.addNumbers ∧ T.following.reduceStrategy ≠ .pairwise)
    (htype : T.types.Agrees type) : Combines T (.opcode op none type)

/-- Work with one result that belongs together. -/
inductive SameWork (T : Tandem) (D : Nat → Nat → Prop) : Work Action → Work Action → Prop
  | settle {a b : Address} (h : Paired D a b) : SameWork T D (.settle a) (.settle b)
  | deepen : SameWork T D .deepen .deepen
  | call {x y a b : Address} (hargument : Paired D x y) (htarget : Paired D a b) :
    SameWork T D (.call x a) (.call y b)
  | leave {a b : Address} (f : Callable) (h : Paired D a b) :
    SameWork T D (.leave a f) (.leave b f)
  | conclude {i i' : Invocation} (h : T.SameInvocation D i i') :
    SameWork T D (.conclude i) (.conclude i')
  | reduce {c : Combiner} {a b : Address} (hc : T.Combines c) (h : Paired D a b) :
    SameWork T D (.reduce c a) (.reduce c b)
  | combine {c : Combiner} {as bs : List Address} (hc : T.Combines c)
    (h : List.Forall₂ (Paired D) as bs) : SameWork T D (.combine c as) (.combine c bs)

/-- Actions that belong together. -/
inductive SameAction (T : Tandem) (D : Nat → Nat → Prop) : Action → Action → Prop
  | value {a b : Address} (h : Paired D a b) : SameAction T D (.value a) (.value b)
  | evaluate {a b : Address} (h : Paired D a b) (depth : Depth) :
    SameAction T D (.evaluate a depth) (.evaluate b depth)
  | members {as bs : List Address} {a b : Address} (hall : List.Forall₂ (Paired D) as bs)
    (h : Paired D a b) :
    SameAction T D (.mk (as.map fun c => .evaluate c .deep) (.value a))
      (.mk (bs.map fun c => .evaluate c .deep) (.value b))
  | invoke {i i' : Invocation} (h : T.SameInvocation D i i') : SameAction T D i.action i'.action
  | andThen {x y : Action} {w w' : Work Action} (h : SameAction T D x y) (hw : T.SameWork D w w') :
    SameAction T D (x.andThen w) (y.andThen w')

section Mono

variable (hD : ∀ i j, D i j → D' i j)

include hD

lemma SameInvocation.mono {i i' : Invocation} (h : T.SameInvocation D i i') :
    T.SameInvocation D' i i' :=
  { h with args := h.args.imp fun _ _ => .mono hD, target := h.target.mono hD }

lemma SameWork.mono {w w' : Work Action} (h : T.SameWork D w w') : T.SameWork D' w w' := by
  cases h with
  | settle h => exact .settle (h.mono hD)
  | deepen => exact .deepen
  | call hargument htarget => exact .call (hargument.mono hD) (htarget.mono hD)
  | leave f h => exact .leave f (h.mono hD)
  | conclude h => exact .conclude (h.mono hD)
  | reduce hc h => exact .reduce hc (h.mono hD)
  | combine hc h => exact .combine hc (h.imp fun _ _ => .mono hD)

lemma SameAction.mono {x y : Action} (h : T.SameAction D x y) : T.SameAction D' x y := by
  induction h with
  | value h => exact .value (h.mono hD)
  | evaluate h depth => exact .evaluate (h.mono hD) depth
  | members hall h => exact .members (hall.imp fun _ _ => .mono hD) (h.mono hD)
  | invoke h => exact .invoke (h.mono hD)
  | andThen _ hw ih => exact .andThen ih (hw.mono hD)

end Mono

/-- What one machine comes to in a step, the other comes to as well. -/
inductive Lockstep (T : Tandem) (D : Nat → Nat → Prop) (m n : Machine) :
    Step Action × Machine → Step Action × Machine → Prop
  | failed (q : Problem) (m' : Machine) (r : Step Action × Machine) :
    Lockstep T D m n (.error q, m') r
  | value {D' : Nat → Nat → Prop} {a b : Address} {m' n' : Machine} (h : T.Abreast D' m' n')
    (onward : Onward D m n D' m' n') (hab : Paired D' a b) :
    Lockstep T D m n (.value a, m') (.value b, n')
  | action {D' : Nat → Nat → Prop} {x y : Action} {m' n' : Machine} (h : T.Abreast D' m' n')
    (onward : Onward D m n D' m' n') (hxy : T.SameAction D' x y) :
    Lockstep T D m n (.action x, m') (.action y, n')

lemma Lockstep.of_onward (onward : Onward D m n D' m' n') {r r' : Step Action × Machine}
    (h : T.Lockstep D' m' n' r r') : T.Lockstep D m n r r' := by
  cases h with
  | failed => exact .failed _ _ _
  | value h onward' hab => exact .value h (onward.trans onward') hab
  | action h onward' hxy => exact .action h (onward.trans onward') hxy

/-! ### Values for slots -/

lemma settle_of_none {m : Machine} (target : Address) {produced : Address}
    (hv : m.store.memory.value? produced = none) : ∃ q, settle target produced m = (.error q, m) := by
  refine ⟨unevaluated m.store.memory produced, ?_⟩
  simp only [settle, RunM.run_bind, RunM.run_value?, hv, RunM.run_memory]
  rfl

section Settling

variable {a b t t' : Address}

lemma settle_lockstep (hT : T.Sound) (h : T.Abreast D m n) (ht : Paired D t t')
    (hab : Paired D a b) : T.Lockstep D m n (settle t a m) (settle t' b n) := by
  cases hv : m.store.memory.value? a with
  | none =>
    obtain ⟨q, hq⟩ := settle_of_none t hv
    rw [hq]
    exact .failed q m _
  | some v =>
    obtain ⟨w, hw, hvw⟩ := h.exists_value hab hv
    obtain ⟨h', onward⟩ := h.memoize hT ht hvw
    rw [settle_of_value hv, settle_of_value hw]
    exact .value h' onward ht

lemma leave_lockstep (hT : T.Sound) (h : T.Abreast D m n) (f : Callable) (ht : Paired D t t')
    (hab : Paired D a b) : T.Lockstep D m n (leave t f a m) (leave t' f b n) := by
  cases hv : m.store.memory.value? a with
  | none =>
    obtain ⟨q, hq⟩ := settle_of_none t hv
    have hleave : leave t f a m = (.error q, m) := by
      rw [leave, RunM.run_bind, hq]
      rfl
    rw [hleave]
    exact .failed q m _
  | some v =>
    obtain ⟨w, hw, hvw⟩ := h.exists_value hab hv
    obtain ⟨h₁, onward₁⟩ := h.memoize hT ht hvw
    obtain ⟨h₂, onward₂⟩ := h₁.tell (fun memory => .returned f (memory.kindAt t))
      fun memory => .returned f (memory.kindAt t')
    rw [leave_of_value hv, leave_of_value hw]
    exact .value h₂ (onward₁.trans onward₂) ht

lemma Abreast.resolved (h : T.Abreast D m n) (i i' : Invocation) :
    T.Abreast D (i.resolved m).2 (i'.resolved n).2 ∧
      Onward D m n D (i.resolved m).2 (i'.resolved n).2 :=
  h.tellOpcode (fun memory => .opcodeResolved i.function i.index i.cell (memory.treeAt i.target))
    fun memory => .opcodeResolved i'.function i'.index i'.cell (memory.treeAt i'.target)

lemma conclude_lockstep (hT : T.Sound) (h : T.Abreast D m n) {i i' : Invocation}
    (hi : T.SameInvocation D i i') (hab : Paired D a b) :
    T.Lockstep D m n (conclude i a m) (conclude i' b n) := by
  cases hv : m.store.memory.value? a with
  | none =>
    obtain ⟨q, hq⟩ := settle_of_none i.target hv
    have hconclude : conclude i a m = (.error q, m) := by
      rw [conclude, RunM.run_bind, hq]
      rfl
    rw [hconclude]
    exact .failed q m _
  | some v =>
    obtain ⟨w, hw, hvw⟩ := h.exists_value hab hv
    obtain ⟨h₁, onward₁⟩ := h.memoize hT hi.target hvw
    obtain ⟨h₂, onward₂⟩ := h₁.resolved i i'
    rw [conclude_of_value hv, conclude_of_value hw]
    exact .value h₂ (onward₁.trans onward₂) hi.target

end Settling

/-! ### Cells of activations -/

/-- The slots of nodes are paired. -/
lemma Counterpart.slotsOf {q q' : Pending} (hq : T.Counterpart D q q') {indices : List Nat}
    {as : List Address} (has : slotsOf q.activation indices = some as) :
    ∃ bs, slotsOf q'.activation indices = some bs ∧ List.Forall₂ (Paired D) as bs := by
  unfold Machine.slotsOf at has ⊢
  induction indices generalizing as with
  | nil =>
    cases has
    exact ⟨[], rfl, .nil⟩
  | cons k indices ih =>
    rw [List.mapM_cons] at has ⊢
    obtain ⟨a, ha, has⟩ := Option.bind_eq_some_iff.mp has
    obtain ⟨rest, hrest, has⟩ := Option.bind_eq_some_iff.mp has
    cases has
    obtain ⟨b, hb, hab⟩ := exists_of_rel (hq.slots k) ha
    obtain ⟨bs, hbs, hall⟩ := ih hrest
    refine ⟨b :: bs, ?_, .cons hab hall⟩
    rw [hb, hbs]
    rfl

lemma Counterpart.allows (hT : T.Sound) {q q' : Pending} (hq : T.Counterpart D q q') {node : Node}
    (hnode : q.activation.call.nodes.get? q.node = some node) {op : Opcode} {arguments : List Nat}
    {bindings : KeyMap String Ty} (hop : node.op = .opcode op arguments bindings) : T.Allows op := by
  obtain ⟨mnemonic, explicit, hkind, hget⟩ := (hop ▸ hq.fits.fits _ _ hnode).opcode
  obtain ⟨op', hin, heq⟩ := List.mem_map.mp (KeyMap.mem_of_get?_ofList hget)
  cases heq
  refine ⟨hin, fun hpairwise hsum => ?_⟩
  exact (hT.regrouped hpairwise).2 _ hq.admits
    ⟨_, _, _, _, hq.fits.cell _ _ hnode, hsum ▸ hkind⟩

lemma alike_record {keys : List String} {as bs : List Address} (h : List.Forall₂ (Paired D) as bs)
    (type : Ty) :
    T.Alike D (.structured (.ofLayer (.ofList (keys.zip as)) type))
      (.structured (.ofLayer (.ofList (keys.zip bs)) type)) := by
  have hentries : List.Forall₂ (fun e f => e.1 = f.1 ∧ Paired D e.2 f.2) (keys.zip as)
      (keys.zip bs) := by
    induction h generalizing keys with
    | nil => simp
    | cons hab _ ih =>
      cases keys with
      | nil => exact .nil
      | cons k keys => exact .cons ⟨rfl, hab⟩ ih
  refine .structured rfl fun k => ?_
  rw [Record.get?_ofLayer, Record.get?_ofLayer]
  exact KeyMap.rel_get?_ofList hentries k

lemma alike_ofList {as bs : List Address} (h : List.Forall₂ (Paired D) as bs) :
    T.Alike D (.iterable (.rope (.ofList as))) (.iterable (.rope (.ofList bs))) := by
  refine .iterable (Rope.wellFormed_ofList as) (Rope.wellFormed_ofList bs) ?_
  rw [Sequence.toList_ofList, Sequence.toList_ofList]
  exact h

/-- **Two cells of activations of one call** get their values by work that belongs together. -/
lemma nodeAction_follows (hT : T.Sound) (h : T.Abreast D m n) {q q' : Pending}
    (hq : T.Counterpart D q q') {x : Action} (hok : nodeAction q m = (.ok x, m')) :
    ∃ y n', nodeAction q' n = (.ok y, n') ∧ T.SameAction D x y ∧ T.Abreast D m' n' ∧
      Onward D m n D m' n' := by
  have hnodes : q'.activation.call.nodes.get? q'.node = q.activation.call.nodes.get? q.node := by
    rw [hq.nodes, hq.node]
  have hslots : Option.Rel (Paired D) (q.activation.slots.get? q.node)
      (q'.activation.slots.get? q'.node) := by
    rw [hq.node]
    exact hq.slots q.node
  have hwork := cellWork_nodeAction q
  generalize nodeAction q = work at hok hwork
  cases hwork with
  | given hnode hslot hop =>
    obtain ⟨slot', hslot', hpaired⟩ := exists_of_rel hslots hslot
    cases hok
    rw [nodeAction_given (hnodes.trans hnode) hslot' hop]
    exact ⟨_, n, rfl, .value hpaired, h, .refl D m n⟩
  | @structured node _ _ _ hnode hslot hop has =>
    obtain ⟨slot', hslot', hpaired⟩ := exists_of_rel hslots hslot
    obtain ⟨bs, hbs, hall⟩ := hq.slotsOf has
    cases hok
    obtain ⟨h', onward⟩ := h.memoize hT hpaired (alike_record (T := T) hall node.cell.type)
    rw [nodeAction_structured (hnodes.trans hnode) hslot' hop hbs]
    exact ⟨_, _, rfl, .value hpaired, h', onward⟩
  | iterable hnode hslot hop has =>
    obtain ⟨slot', hslot', hpaired⟩ := exists_of_rel hslots hslot
    obtain ⟨bs, hbs, hall⟩ := hq.slotsOf has
    cases hok
    obtain ⟨h', onward⟩ := h.memoize hT hpaired (alike_ofList (T := T) hall)
    rw [nodeAction_iterable (hnodes.trans hnode) hslot' hop hbs]
    exact ⟨_, _, rfl, .value hpaired, h', onward⟩
  | opcode hnode hslot hop has =>
    obtain ⟨slot', hslot', hpaired⟩ := exists_of_rel hslots hslot
    obtain ⟨bs, hbs, hall⟩ := hq.slotsOf has
    have hagrees := (hT.typed _ hq.admits).types _ _ (hq.fits.cell _ _ hnode)
    cases hok
    rw [nodeAction_opcode (hnodes.trans hnode) hslot' hop hbs]
    exact ⟨_, n, rfl, .invoke ⟨rfl, hq.allows hT hnode hop, hall, rfl, hagrees, hpaired⟩, h,
      .refl D m n⟩
  | call hnode hslot hop has =>
    obtain ⟨slot', hslot', hpaired⟩ := exists_of_rel hslots hslot
    obtain ⟨bs, hbs, hall⟩ := hq.slotsOf has
    obtain ⟨g, y, hf, hx, rfl⟩ : ∃ g y, Paired D _ g ∧ Paired D _ y ∧ bs = [g, y] := by
      obtain _ | ⟨hf, _ | ⟨hx, _ | _⟩⟩ := hall
      exact ⟨_, _, hf, hx, rfl⟩
    cases hok
    rw [nodeAction_call (hnodes.trans hnode) hslot' hop hbs]
    exact ⟨_, n, rfl, .andThen (.evaluate hf .shallow) (.call hx hpaired), h, .refl D m n⟩
  | corrupt => cases hok

lemma resolve_follows (hT : T.Sound) (h : T.Abreast D m n) {a b : Address} (hab : Paired D a b)
    (hnone : m.store.memory.value? a = none) {x : Action} (hok : resolve a m = (.ok x, m')) :
    ∃ y n', resolve b n = (.ok y, n') ∧ T.SameAction D x y ∧ T.Abreast D m' n' ∧
      Onward D m n D m' n' := by
  obtain ⟨hij⟩ := hab
  rename_i i j
  obtain ⟨s, s', hs, hs', hsame⟩ := h.slots i j hij
  cases hq : m.pending.get? i with
  | some q =>
    have hpending := hsame.pending
    rw [hq] at hpending
    obtain ⟨q', hq', hcounterpart⟩ := exists_of_rel hpending rfl
    rw [resolve_of_pending (h.lt_size hij).1 hq] at hok
    rw [resolve_of_pending (h.lt_size hij).2 hq']
    exact nodeAction_follows hT h hcounterpart hok
  | none =>
    have hvalue : s.value = none := by
      rw [Memory.value?, hs] at hnone
      exact hnone
    simp only [resolve, RunM.run_bind, RunM.run_memory, RunM.run_get, Address.index?, hs, hq] at hok
    cases hkind : s.cell.kind with
    | call f x => exact absurd hkind (hsame.ready hq hvalue f x)
    | _ =>
      rw [hkind] at hok
      cases hok

/-! ### Evaluation of slots -/

lemma forall₂_openMembers (h : T.Abreast D m n) {v w : Value} (hvw : T.Alike D v w) :
    List.Forall₂ (Paired D) (openMembers m.store.memory v) (openMembers n.store.memory w) := by
  unfold openMembers
  refine List.rel_filter (fun {a b} hab => ?_) hvw.members
  have hvalue := h.value? hab
  dsimp only
  generalize m.store.memory.value? a = o at hvalue
  generalize n.store.memory.value? b = o' at hvalue
  cases hvalue with
  | none => exact Iff.rfl
  | some hvw => cases hvw <;> exact Iff.rfl

lemma deepen_lockstep (h : T.Abreast D m n) {a b : Address} (hab : Paired D a b) {v w : Value}
    (hvw : T.Alike D v w) : T.Lockstep D m n (deepen a v m) (deepen b w n) := by
  have hopen := forall₂_openMembers h hvw
  rw [deepen_eq, deepen_eq]
  generalize openMembers m.store.memory v = as at hopen
  generalize openMembers n.store.memory w = bs at hopen
  cases hopen with
  | nil => exact .value h (.refl D m n) hab
  | cons hcd hall => exact .action h (.refl D m n) (.members (.cons hcd hall) hab)

lemma force_lockstep (hT : T.Sound) (h : T.Abreast D m n) {a b : Address} (hab : Paired D a b)
    (depth : Depth) : T.Lockstep D m n (force a depth m) (force b depth n) := by
  have hvalue := h.value? hab
  cases hv : m.store.memory.value? a with
  | some v =>
    obtain ⟨w, hw, hvw⟩ := h.exists_value hab hv
    cases depth with
    | shallow =>
      rw [force_shallow_of_value hv, force_shallow_of_value hw]
      exact .value h (.refl D m n) hab
    | deep =>
      rw [force_deep_of_value hv, force_deep_of_value hw]
      exact deepen_lockstep h hab hvw
  | none =>
    have hw : n.store.memory.value? b = none := by
      rw [hv] at hvalue
      cases hw : n.store.memory.value? b with
      | none => rfl
      | some w =>
        rw [hw] at hvalue
        cases hvalue
    cases hr : resolve a m with
    | mk o m' =>
      cases o with
      | error q =>
        have hforce : force a depth m = (.error q, m') := by
          simp only [force, RunM.run_bind, RunM.run_value?, hv, hr, RunM.run_pure]
        rw [hforce]
        exact .failed q m' _
      | ok x =>
        obtain ⟨y, n', hr', hxy, h', onward⟩ := resolve_follows hT h hab hv hr
        have hsettled : T.SameAction D (x.andThen (.settle a)) (y.andThen (.settle b)) :=
          .andThen hxy (.settle hab)
        rw [force_of_resolved hv (congrArg Prod.fst hr), force_of_resolved hw (congrArg Prod.fst hr'),
          hr, hr']
        cases depth with
        | shallow => exact .action h' onward hsettled
        | deep => exact .action h' onward (.andThen hsettled .deepen)

/-! ### Calls -/

lemma call_lockstep (hT : T.Sound) (h : T.Abreast D m n) {f f' x x' t t' : Address}
    (hf : Paired D f f') (hx : Paired D x x') (ht : Paired D t t') :
    T.Lockstep D m n (call f x t m) (call f' x' t' n) := by
  rcases call_follows hT h hf hx t t' with
    ⟨q, m', hcall⟩ | ⟨D', result, result', c, m', n', hcall, hcall', h', onward, hresult⟩
  · rw [hcall]
    exact .failed q m' _
  · rw [hcall, hcall']
    exact .action h' onward
      (.andThen (.evaluate hresult .shallow) (.leave c (onward.paired ht)))

/-! ### Reductions -/

/-- The invocation that adds two terms. -/
def addition (op : Opcode) (type : Ty) (left right : Address) (target : Nat) : Invocation :=
  ⟨op, [left, right], [], reduceCell type, none, target, .at target⟩

/-- Room for the sum of two terms. -/
def withRoom (type : Ty) (m : Machine) : Machine :=
  { m with store := { m.store with memory := (m.store.memory.allocate (reduceCell type) none).2 } }

lemma combine_eq (op : Opcode) (type : Ty) (left right : Address) (m : Machine) :
    combine (.opcode op none type) left right m =
      (.ok (addition op type left right m.store.memory.slots.size).action, withRoom type m) := rfl

lemma allows_of_combines {op : Opcode} {type : Ty} (h : T.Combines (.opcode op none type)) :
    T.Allows op := by
  cases h with
  | mk hop htype =>
    rcases hop with rfl | ⟨rfl, -⟩
    · exact ⟨by simp [Standard.opcodes], fun _ => by decide⟩
    · exact ⟨by simp [Standard.opcodes], fun _ => by decide⟩

lemma sequential_lockstep (hT : T.Sound) (h : T.Abreast D m n) {c : Combiner} (hc : T.Combines c)
    {a b : Address} (hab : Paired D a b) {rest rest' : List Address}
    (hrest : List.Forall₂ (Paired D) rest rest') :
    T.Lockstep D m n (sequential c a rest m) (sequential c b rest' n) := by
  cases hrest with
  | nil => exact force_lockstep hT h hab .shallow
  | @cons next next' rest rest' hnext hrest =>
    obtain @⟨op, type, hop, htype⟩ := hc
    have hc : T.Combines (.opcode op none type) := .mk hop htype
    have hcell : (reduceCell type).type = (reduceCell type).type := rfl
    obtain ⟨D', h', onward, htarget⟩ := h.allocate hcell htype nofun
    rw [sequential_of_combine (combine_eq op type a next m),
      sequential_of_combine (combine_eq op type b next' n)]
    refine .action h' onward (.andThen (.invoke ⟨rfl, allows_of_combines hc, ?_, rfl, htype,
      ⟨htarget⟩⟩) (.combine hc (onward.forall₂ hrest)))
    exact .cons (onward.paired hab) (.cons (onward.paired hnext) .nil)

lemma reduceElements_eq {c : Combiner} {initial iterable : Address} {items : Sequence Address}
    (hv : m.store.memory.value? iterable = some (.iterable items)) :
    reduceElements c initial iterable m =
      (match m.setting.config.reduceStrategy with
        | .sequential => sequential c initial items.toList
        | .pairwise => pairwise c (initial :: items.toList)) m := by
  cases hstrategy : m.setting.config.reduceStrategy <;>
    simp only [reduceElements, RunM.run_bind, RunM.run_memory, hv, RunM.run_setting, hstrategy]

lemma reduceElements_cases (c : Combiner) (initial iterable : Address) (m : Machine) :
    (∃ q, reduceElements c initial iterable m = (.error q, m)) ∨
      ∃ items, m.store.memory.value? iterable = some (.iterable items) := by
  cases hv : m.store.memory.value? iterable with
  | none =>
    left
    simp only [reduceElements, RunM.run_bind, RunM.run_memory, hv]
    exact ⟨_, rfl⟩
  | some v =>
    cases v with
    | iterable items => exact .inr ⟨items, rfl⟩
    | _ => exact .inl (reduceElements_of_other c initial hv rfl)

lemma reduceElements_lockstep (hT : T.Sound) (h : T.Abreast D m n)
    (hstrategy : T.following.reduceStrategy = .sequential) {c : Combiner} (hc : T.Combines c)
    {a b i i' : Address} (hab : Paired D a b) (hi : Paired D i i') :
    T.Lockstep D m n (reduceElements c i a m) (reduceElements c i' b n) := by
  rcases reduceElements_cases c i a m with ⟨q, hq⟩ | ⟨items, hv⟩
  · rw [hq]
    exact .failed q m _
  · obtain ⟨w, hw, hvw⟩ := h.exists_value hab hv
    cases hvw with
    | iterable _ _ hall =>
      rw [reduceElements_eq hv, reduceElements_eq hw, h.leader.config, h.follower.config,
        hT.sequential, hstrategy]
      exact sequential_lockstep hT h hc hi hall

/-! ### Invocations -/

lemma unready_follows (h : T.Abreast D m n) {i i' : Invocation} (hi : T.SameInvocation D i i') :
    i'.unready n.store.memory = i.unready m.store.memory := by
  have hargs := hi.args
  unfold Invocation.unready
  rw [hi.opcode]
  generalize i.args = as at hargs
  generalize i'.args = bs at hargs
  generalize i.opcode.signature.arguments = declared
  induction hargs generalizing declared with
  | nil =>
    rw [List.zip_nil_right]
    rfl
  | cons hab _ ih =>
    cases declared with
    | nil => rfl
    | cons d declared =>
      rw [List.zip_cons_cons, List.zip_cons_cons, List.findIdx?_cons, List.findIdx?_cons, ih,
        h.isEvaluated hab]

lemma sameFrame (h : T.Abreast D m n) {i i' : Invocation} (hi : T.SameInvocation D i i') :
    T.SameFrame D (frameOf i m) (frameOf i' n) :=
  ⟨hi.args, hi.type, hi.agrees, h.leader.modules, h.follower.modules⟩

lemma findings_follow (hT : T.Sound) (h : T.Abreast D m n) {i i' : Invocation}
    (hi : T.SameInvocation D i i') {f f' : Frame} (hf : T.SameFrame D f f') :
    T.Still T.leading m (findings i f m).2 ∧ T.Still T.following n (findings i' f' n).2 ∧
      ((findings i f m).1 = [] → (findings i' f' n).1 = []) := by
  obtain ⟨hrecalls, hrecalls', hnil⟩ := hi.allows.checksAlike hT h hf
  have still : T.Still T.leading m m :=
    h.leader.still rfl rfl h.leader.recalls h.leader.compiled rfl
  have still' : T.Still T.following n n :=
    h.follower.still rfl rfl h.follower.recalls h.follower.compiled rfl
  have checked : T.Still T.leading m (RunM.store (StoreM.check (i.opcode.runtimeCheck f)) m).2 :=
    h.leader.still rfl rfl hrecalls h.leader.compiled rfl
  have checked' : T.Still T.following n
      (RunM.store (StoreM.check (i'.opcode.runtimeCheck f')) n).2 :=
    h.follower.still rfl rfl (hi.opcode ▸ hrecalls') h.follower.compiled rfl
  unfold findings RunM.checking
  rw [h.leader.config, h.follower.config]
  cases hvalidate : T.following.runtimeValidation with
  | true =>
    rw [hT.validation hvalidate, if_pos rfl, if_pos rfl]
    exact ⟨checked, checked', by rw [hi.opcode]; exact hnil⟩
  | false =>
    refine ⟨?_, still', fun _ => rfl⟩
    split
    · exact checked
    · exact still

/-! What an invocation goes on with. -/

lemma proceed_of_value {i : Invocation} (hop : i.opcode ∈ Standard.opcodes) (f : Frame) (v : Value)
    (m : Machine) :
    proceed i f (.value v) m = (.value i.target, (i.resolved { m with store := { m.store with
      memory := m.store.memory.memoize i.target v } }).2) := by
  refine proceed_of_no_flaws ?_
  rw [flaws, RunM.checking, Standard.resultCheck_eq hop]
  split <;> rfl

lemma exists_adding {mnemonic : String} (h : T.Folds mnemonic) :
    ∃ op, (Opcodes.ofList Standard.opcodes).get? mnemonic = some op ∧
      (op = Standard.addIntegers ∨
        op = Standard.addNumbers ∧ T.following.reduceStrategy ≠ .pairwise) := by
  rcases h with rfl | ⟨rfl, hstrategy⟩
  · exact ⟨Standard.addIntegers, rfl, .inl rfl⟩
  · exact ⟨Standard.addNumbers, rfl, .inr ⟨rfl, hstrategy⟩⟩

lemma proceed_lockstep (hT : T.Sound) (h : T.Abreast D m n) {i i' : Invocation}
    (hi : T.SameInvocation D i i') (f f' : Frame) {r r' : Result} (hr : T.SameResult D r r') :
    T.Lockstep D m n (proceed i f r m) (proceed i' f' r' n) := by
  cases hr with
  | @value v w hvw =>
    obtain ⟨h₁, onward₁⟩ := h.memoize hT hi.target hvw
    obtain ⟨h₂, onward₂⟩ := h₁.resolved i i'
    rw [proceed_of_value hi.allows.standard, proceed_of_value (hi.opcode ▸ hi.allows.standard)]
    exact .value h₂ (onward₁.trans onward₂) hi.target
  | «lazy» hab => exact .action h (.refl D m n) (.andThen (.evaluate hab .shallow) (.conclude hi))
  | reduce hfolds hitems hinitial =>
    obtain ⟨op, hget, hop⟩ := exists_adding hfolds
    rw [proceed_fold (h.leader.opcodes ▸ hget), proceed_fold (h.follower.opcodes ▸ hget), hi.type]
    exact .action h (.refl D m n) (.andThen (.andThen (.evaluate hitems .shallow)
      (.reduce (.mk hop hi.agrees) hinitial)) (.conclude hi))

/-- **An invocation that does not fail on one side** goes on in the same way on the other. -/
lemma invoke_lockstep (hT : T.Sound) (h : T.Abreast D m n) {i i' : Invocation}
    (hi : T.SameInvocation D i i') : T.Lockstep D m n (invoke i m) (invoke i' n) := by
  cases hready : i.unready m.store.memory with
  | some position =>
    rw [invoke_of_unready hready]
    exact .failed _ m _
  | none =>
    have hready' := (unready_follows h hi).trans hready
    obtain ⟨h₁, onward₁⟩ := h.tellOpcode (fun _ => .opcodeStarted i.function i.index i.cell)
      fun _ => .opcodeStarted i'.function i'.index i'.cell
    have hf := sameFrame h hi
    rw [invoke_eq_of_ready hready, invoke_eq_of_ready hready']
    generalize (RunM.tellOpcode (fun _ => .opcodeStarted i.function i.index i.cell) m).2 = m₁
      at h₁ onward₁
    generalize (RunM.tellOpcode (fun _ => .opcodeStarted i'.function i'.index i'.cell) n).2 = n₁
      at h₁ onward₁
    obtain ⟨hstill, hstill', hnil⟩ := findings_follow hT h₁ hi hf
    obtain ⟨h₂, onward₂⟩ := h₁.still hstill hstill'
    dsimp only
    cases hfound : firstOf (findings i (frameOf i m) m₁).1 with
    | some q => exact .failed _ _ _
    | none =>
      rw [hnil (firstOf_eq_none hfound)]
      generalize (findings i (frameOf i m) m₁).2 = m₂ at h₂ onward₂
      generalize (findings i' (frameOf i' n) n₁).2 = n₂ at h₂ onward₂
      have onward := onward₁.trans onward₂
      rw [hi.opcode]
      rcases hi.allows.evaluatesAlike hT h₂ hf with
        ⟨q, hq⟩ | ⟨types, types', htypes, htypes', hstore, hstore', hresult⟩
      · rw [hq]
        exact .failed _ _ _
      · obtain ⟨h₃, onward₃⟩ :=
          h₂.still (h₂.leader.withTypes htypes) (h₂.follower.withTypes htypes')
        rw [hstore, hstore']
        exact (proceed_lockstep hT h₃ hi _ _ hresult).of_onward (onward.trans onward₃)

/-! ### All work with one result -/

lemma perform_lockstep (hT : T.Sound) (h : T.Abreast D m n) {w w' : Work Action}
    (hw : T.SameWork D w w') {a b : Address} (hab : Paired D a b)
    (hreduce : ∀ c initial, w = .reduce c initial → T.following.reduceStrategy = .sequential) :
    T.Lockstep D m n (perform w [a] m) (perform w' [b] n) := by
  cases hw with
  | settle ht => exact settle_lockstep hT h ht hab
  | deepen => exact force_lockstep hT h hab .deep
  | call hargument htarget => exact call_lockstep hT h hab hargument htarget
  | leave f ht => exact leave_lockstep hT h f ht hab
  | conclude hi => exact conclude_lockstep hT h hi hab
  | reduce hc hinitial => exact reduceElements_lockstep hT h (hreduce _ _ rfl) hc hab hinitial
  | combine hc hrest => exact sequential_lockstep hT h hc hab hrest

end Tandem

end CellMachine
