import CellMachine.Proofs.Meaning.Soundness

/-!
What terms mean is what the machine computes: where a term has a value, the evaluation of a slot that
stands for it succeeds.
-/

namespace CellMachine

open Machine

/-- With some fuel, a term has a value up to some depth. -/
def Found (p : Program) (n : Nat) (t : Term) : Depth → Prop
  | .shallow => ∃ h, p.head n t = some h
  | .deep => ∃ r, p.tree n t = some r

/-- Slots for terms that have a value with some fuel can be forced. -/
def SlotsComplete (p : Program) (n : Nat) : Prop :=
  ∀ ⦃terms : List Term⦄ ⦃m : Machine⦄ ⦃a : Address⦄ ⦃t : Term⦄ ⦃depth : Depth⦄, Models p terms m →
    Stands terms m a t → Found p n t depth → ∃ b m', Leads Ends (force a depth m) b m'

/-- Invocations for opcodes that have a value with some fuel succeed. -/
def InvocationsComplete (p : Program) (n : Nat) : Prop :=
  ∀ ⦃terms : List Term⦄ ⦃m : Machine⦄ ⦃i : Invocation⦄ ⦃mnemonic : String⦄ ⦃ts : List Term⦄
    ⦃t : Term⦄ ⦃h : Head⦄, Models p terms m → Invokes p terms m i mnemonic ts t →
    p.apply (p.head n) (p.tree n) mnemonic i.cell.type ts = some h → ∃ b m', Ends i.action m b m'

variable {p : Program} {terms : List Term} {m m' : Machine}

lemma arrives_of_leads (hp : p.Sound) (h : Models p terms m) {a b : Address} {t : Term}
    (ha : Stands terms m a t) {depth : Depth} (hleads : Leads Ends (force a depth m) b m') :
    Arrives p terms m a depth b m' := by
  obtain ⟨fuel, hleads⟩ := hleads.exists_fuel
  exact arrives_force hp (right hp _) h ha hleads

lemma ends_evaluate {a b : Address} {depth : Depth} (h : Leads Ends (force a depth m.tick) b m') :
    Ends (.evaluate a depth) m b m' := by
  have hnone : SucceedAll Ends (Action.evaluate a depth).dependencies m [] m := ⟨rfl, rfl⟩
  exact ends_of hnone h

lemma SlotsComplete.awaited {n : Nat} (hslots : SlotsComplete p n) (hp : p.Sound)
    (h : Models p terms m) {a : Address} {t : Term} (ha : Stands terms m a t) (depth : Depth)
    (hfound : Found p n t depth) :
    ∃ m₁, Ends (.evaluate a depth) m.tick a m₁ ∧ Arrives p terms m a depth a m₁.tick := by
  obtain ⟨hm₀, grows₀⟩ := h.tick
  obtain ⟨hm₁, grows₁⟩ := hm₀.tick
  have ha₁ := (grows₀.trans grows₁).stands ha
  obtain ⟨b, m₂, hleads⟩ := hslots hm₁ ha₁ hfound
  obtain ⟨rfl, terms₂, hm₂, grows₂, hreached⟩ := arrives_of_leads hp hm₁ ha₁ hleads
  obtain ⟨hm₃, grows₃⟩ := hm₂.tick
  refine ⟨m₂, ends_evaluate hleads, rfl, terms₂, hm₃,
    grows₀.trans (grows₁.trans (grows₂.trans grows₃)), ?_⟩
  cases depth with
  | shallow => exact hreached
  | deep => exact grows₃.full hreached

/-! ### Members -/

lemma ends_all {n : Nat} (hslots : SlotsComplete p n) (hp : p.Sound) {as : List Address}
    (h : Models p terms m) (hall : ∀ a ∈ as, ∃ t, Stands terms m a t ∧ Found p n t .deep) :
    ∃ bs m', SucceedAll Ends (as.map fun a => .evaluate a .deep) m bs m' := by
  induction as generalizing m terms with
  | nil => exact ⟨[], m, rfl, rfl⟩
  | cons a as ih =>
    obtain ⟨⟨t, ht, hfound⟩, hall⟩ := List.forall_mem_cons.mp hall
    obtain ⟨hm₀, grows₀⟩ := h.tick
    obtain ⟨hm₁, grows₁⟩ := hm₀.tick
    have ht₁ := (grows₀.trans grows₁).stands ht
    obtain ⟨b, m₁, hleads⟩ := hslots hm₁ ht₁ hfound
    obtain ⟨-, terms₂, hm₂, grows₂, -⟩ := arrives_of_leads hp hm₁ ht₁ hleads
    have grows := grows₀.trans (grows₁.trans grows₂)
    obtain ⟨bs, m', hrest⟩ := ih hm₂ fun c hc => (hall c hc).imp fun u hu =>
      ⟨grows.stands hu.1, hu.2⟩
    exact ⟨b :: bs, m', b, m₁, bs, ends_evaluate hleads, hrest, rfl⟩

lemma found_of_treeOf {n : Nat} {head : Head} {r : Tree}
    (h : Program.treeOf (p.tree n) head = some r) {t : Term} (ht : t ∈ head.terms) :
    Found p n t .deep := by
  have hall : ∃ rs, Program.trees (p.tree n) head.terms = some rs := by
    cases head with
    | list items =>
      obtain ⟨rs, hrs, -⟩ := Option.map_eq_some_iff.mp h
      exact ⟨rs, hrs⟩
    | record members =>
      obtain ⟨rs, hrs, -⟩ := Option.map_eq_some_iff.mp h
      exact ⟨rs, hrs⟩
    | _ => cases ht
  obtain ⟨rs, hrs⟩ := hall
  have hmembers := Program.trees_eq_some_iff.mp hrs
  clear hrs h
  generalize head.terms = ts at hmembers ht
  induction hmembers with
  | nil => cases ht
  | cons hr _ ih =>
    rcases List.mem_cons.mp ht with rfl | ht
    · exact ⟨_, hr⟩
    · exact ih ht

lemma leads_deepen {n : Nat} (hslots : SlotsComplete p n) (hp : p.Sound) (h : Models p terms m)
    {a : Address} {t : Term} (ha : Stands terms m a t) {v : Value}
    (hv : m.store.memory.value? a = some v) {head : Head} (hhead : p.Yields t head) {r : Tree}
    (hr : Program.treeOf (p.tree n) head = some r) :
    ∃ b m', Leads Ends (deepen a v m) b m' := by
  obtain ⟨head', hrep, hyields⟩ := h.exists_value ha hv
  cases hhead.unique hyields
  have hmembers : ∀ c ∈ openMembers m.store.memory v,
      ∃ u, Stands terms m c u ∧ Found p n u .deep := by
    intro c hc
    obtain ⟨u, hu, hstands⟩ := hrep.exists_term (List.mem_filter.mp hc).1
    exact ⟨u, hstands, found_of_treeOf hr hu⟩
  rw [deepen_eq]
  cases hopen : openMembers m.store.memory v with
  | nil => exact ⟨a, m, rfl, rfl⟩
  | cons c cs =>
    rw [hopen] at hmembers
    obtain ⟨bs, m₁, hall⟩ := ends_all hslots hp h hmembers
    exact ⟨a, m₁.tick, ends_of hall ⟨rfl, rfl⟩⟩

/-! ### Slots without a value -/

/-- The call of a cell's function. -/
lemma ends_called (hp : p.Sound) {n : Nat} (hslots : SlotsComplete p n) (h : Models p terms m)
    {i : Nat} {function argument : Address} {g y : Term}
    (hg : Stands terms m function g) (hy : Stands terms m argument y) {c : Callable}
    (hc : p.head n g = some (.callable c))
    (hacc : p.accepts c (p.typeOf g) (p.typeOf y) = true) {head : Head}
    (hresult : p.head n (p.reference c y Callable.resultCell) = some head) :
    ∃ b m', Ends ((Action.evaluate function .shallow).andThen (.call argument (.at i))) m b m' := by
  obtain ⟨m₁, hfunction, -, terms₁, hm₁, grows₁, hsome⟩ := hslots.awaited hp h hg .shallow ⟨_, hc⟩
  obtain ⟨v, hv⟩ := Option.isSome_iff_exists.mp hsome
  obtain ⟨head', hrep, hyields⟩ := hm₁.exists_value (grows₁.stands hg) hv
  cases hyields.unique ⟨n, hc⟩
  rcases hm₁.call hp (grows₁.stands hg) (grows₁.stands hy) hv hrep hyields (.at i) with
    ⟨c', hc', -, result, m₂, terms₂, hcall, hm₂, grows₂, hstands⟩ | ⟨hno, -⟩
  · cases hc'
    obtain ⟨m₃, hends, -, terms₃, hm₃, grows₃, hsome⟩ :=
      hslots.awaited hp hm₂ hstands .shallow ⟨_, hresult⟩
    obtain ⟨w, hw⟩ := Option.isSome_iff_exists.mp hsome
    have hleave : Leads Ends (leave (.at i) c result m₃.tick) (.at i)
        (leave (.at i) c result m₃.tick).2 := by
      rw [leave_of_value hw]
      exact ⟨rfl, rfl⟩
    have hleads : Leads Ends (call function argument (.at i) m₁.tick) (.at i)
        (leave (.at i) c result m₃.tick).2 := by
      rw [hcall]
      exact ends_andThen hends hleave
    exact ⟨_, _, ends_andThen hfunction hleads⟩
  · rw [hno c rfl] at hacc
    cases hacc

lemma ends_resolved (hp : p.Sound) {n : Nat} (hslots : SlotsComplete p n)
    (hinvocations : InvocationsComplete p n) {i : Nat} {t : Term} {r : Outcome Action × Machine}
    (hr : Resolves p terms m (.at i) t r) {head : Head} (hhead : p.head (n + 1) t = some head)
    {action : Action} (haction : r.1 = .ok action) {m₁ : Machine} (hm₁ : Models p terms m₁)
    (grows₁ : Grows terms m terms m₁) : ∃ b m', Ends action m₁ b m' := by
  rw [Program.head_succ] at hhead
  cases hr with
  | built hv hstep =>
    cases haction
    have hnone : SucceedAll Ends (Action.value (.at i)).dependencies m₁ [] m₁ := ⟨rfl, rfl⟩
    exact ⟨.at i, m₁.tick, ends_of hnone ⟨rfl, rfl⟩⟩
  | invoked hi htarget =>
    cases haction
    exact hinvocations hm₁ (hi.grows grows₁) ((hi.step _ _).symm.trans hhead)
  | called hg hy hstep =>
    cases haction
    obtain ⟨c, hc, hacc, hresult⟩ := (hstep _ _ _).mp hhead
    exact ends_called hp hslots hm₁ (grows₁.stands hg) (grows₁.stands hy) hc hacc hresult

/-- A slot that was resolved gets its term's value. -/
lemma ends_settled (hp : p.Sound) {n : Nat} (hslots : SlotsComplete p n)
    (hinvocations : InvocationsComplete p n) (h : Models p terms m) {i : Nat} {t : Term}
    (ht : terms[i]? = some t) {r : Outcome Action × Machine} (hr : Resolves p terms m (.at i) t r)
    {head : Head} (hhead : p.head (n + 1) t = some head) :
    ∃ action, r.1 = .ok action ∧ Models p terms r.2 ∧ Grows terms m terms r.2 ∧
      ∀ m₁, Models p terms m₁ → Grows terms r.2 terms m₁ → ∃ m',
        Ends (action.andThen (.settle (.at i))) m₁ (.at i) m' ∧
          Arrives p terms m₁ (.at i) .shallow (.at i) m' := by
  obtain ⟨action, hok, hm, grows, -⟩ := arrives_resolved hp (right hp 0) h ht hr
  have sound : ∀ k m₁ b m', Models p terms m₁ → Grows terms r.2 terms m₁ →
      Succeeds k action m₁ b m' → Arrives p terms m₁ (.at i) .shallow b m' := by
    intro k
    obtain ⟨action', hok', -, -, haction⟩ := arrives_resolved hp (right hp (k + 1)) h ht hr
    cases hok.symm.trans hok'
    exact haction k (Nat.lt_succ_self k)
  refine ⟨action, hok, hm, grows, fun m₁ hm₁ grows₁ => ?_⟩
  obtain ⟨hm₁', grows₁'⟩ := hm₁.tick
  have grows₂ := grows₁.trans grows₁'
  obtain ⟨b, m₂, k, hs⟩ := ends_resolved hp hslots hinvocations hr hhead hok hm₁' (grows.trans grows₂)
  obtain ⟨rfl, terms₂, hm₂, -, hsome⟩ := sound k _ _ _ hm₁' grows₂ hs
  obtain ⟨v, hv⟩ : ∃ v, m₂.tick.store.memory.value? (.at i) = some v :=
    Option.isSome_iff_exists.mp hsome
  have hleads : Leads Ends (perform (.settle (.at i)) [.at i] m₂.tick) (.at i)
      (settle (.at i) (.at i) m₂.tick).2 := by
    change Leads Ends (settle (.at i) (.at i) m₂.tick) _ _
    rw [settle_of_value hv]
    exact ⟨rfl, rfl⟩
  obtain ⟨k', hs'⟩ := ends_andThen ⟨k, hs⟩ hleads
  exact ⟨_, ⟨k', hs'⟩, arrives_settled hp ht (fun k _ => sound k) hm₁ grows₁ (Nat.lt_succ_self k') hs'⟩

/-- **Slots for terms with a value** can be forced. -/
lemma SlotsComplete.succ (hp : p.Sound) {n : Nat} (hslots : SlotsComplete p n)
    (hinvocations : InvocationsComplete p n) : SlotsComplete p (n + 1) := by
  intro terms m a t depth h ha hfound
  -- A tree has a head, so the slot gets a value at either depth.
  obtain ⟨head, hhead⟩ : ∃ head, p.head (n + 1) t = some head := by
    cases depth with
    | shallow => exact hfound
    | deep =>
      obtain ⟨r, hr⟩ := hfound
      rw [Program.tree_succ] at hr
      obtain ⟨head, hhead, -⟩ := Option.bind_eq_some_iff.mp hr
      exact ⟨head, Program.head_mono (Nat.le_succ n) hhead⟩
  have members : ∀ {terms₁ m₁ v}, depth = .deep → Models p terms₁ m₁ → Stands terms₁ m₁ a t →
      m₁.store.memory.value? a = some v → ∃ b m', Leads Ends (deepen a v m₁) b m' := by
    rintro terms₁ m₁ v rfl hm₁ ha₁ hv
    obtain ⟨r, hr⟩ := hfound
    rw [Program.tree_succ] at hr
    obtain ⟨head', hhead', hr⟩ := Option.bind_eq_some_iff.mp hr
    exact leads_deepen hslots hp hm₁ ha₁ hv ⟨n, hhead'⟩ hr
  cases hv : m.store.memory.value? a with
  | some v =>
    cases depth with
    | shallow =>
      rw [force_shallow_of_value hv]
      exact ⟨a, m, rfl, rfl⟩
    | deep =>
      rw [force_deep_of_value hv]
      exact members rfl h ha hv
  | none =>
    obtain ⟨i, rfl, ht, -⟩ := id ha
    obtain ⟨action, hresolve, hm₁, grows₁, hsettled⟩ :=
      ends_settled hp hslots hinvocations h ht (resolves h ha hv) hhead
    rw [force_of_resolved hv hresolve]
    cases depth with
    | shallow =>
      obtain ⟨m', hends, -⟩ := hsettled _ hm₁ (.refl _ _)
      exact ⟨.at i, m', hends⟩
    | deep =>
      obtain ⟨hm₁', grows₁'⟩ := hm₁.tick
      obtain ⟨m₂, hends, -, terms₂, hm₂, grows₂, hsome⟩ := hsettled _ hm₁' grows₁'
      obtain ⟨hm₃, grows₃⟩ := hm₂.tick
      have grows := grows₁.trans (grows₁'.trans (grows₂.trans grows₃))
      obtain ⟨v, hv'⟩ := Option.isSome_iff_exists.mp (grows₃.isSome hsome)
      obtain ⟨b, m', hleads⟩ := members rfl hm₃ (grows.stands ha) hv'
      refine ⟨b, m', ends_andThen hends ?_⟩
      change Leads Ends (force (.at i) .deep m₂.tick) b m'
      rw [force_deep_of_value hv']
      exact hleads

/-! ### Invocations -/

lemma ends_arguments {n : Nat} (hslots : SlotsComplete p n) (hp : p.Sound)
    {declared : List Argument} {args : List Address} {ts : List Term} (h : Models p terms m)
    (hargs : List.Forall₂ (Stands terms m) args ts) {hs : List (Option Head)}
    (hhs : Program.arguments (p.head n) (p.tree n) declared ts = some hs) :
    ∃ bs m', SucceedAll Ends ((declared.zip args).filterMap Invocation.dependency) m bs m' := by
  induction declared generalizing args ts hs m terms with
  | nil => exact ⟨[], m, rfl, rfl⟩
  | cons d declared ih =>
    cases hargs with
    | nil => exact ⟨[], m, rfl, rfl⟩
    | @cons a t args ts ha hargs =>
      obtain ⟨o, hs, ho, hrest, rfl⟩ := Program.arguments_cons_iff.mp hhs
      -- Later arguments are evaluated by a machine that has gone on, and stand for the same terms
      -- there.
      have next : ∀ depth, Found p n t depth → ∃ bs m', SucceedAll Ends (.evaluate a depth ::
          (declared.zip args).filterMap Invocation.dependency) m bs m' := by
        intro depth hfound
        obtain ⟨hm₀, grows₀⟩ := h.tick
        obtain ⟨hm₁, grows₁⟩ := hm₀.tick
        have ha₁ := (grows₀.trans grows₁).stands ha
        obtain ⟨b, m₁, hleads⟩ := hslots hm₁ ha₁ hfound
        obtain ⟨-, terms₂, hm₂, grows₂, -⟩ := arrives_of_leads hp hm₁ ha₁ hleads
        have grows := grows₀.trans (grows₁.trans grows₂)
        obtain ⟨bs, m', hall⟩ := ih hm₂ (hargs.imp fun _ _ => grows.stands) hrest
        exact ⟨b :: bs, m', b, m₁, bs, ends_evaluate hleads, hall, rfl⟩
      rw [List.zip_cons_cons, List.filterMap_cons]
      unfold Invocation.dependency
      cases heval : d.evaluation with
      | lazy => exact ih h hargs hrest
      | shallow =>
        rw [heval] at ho
        obtain ⟨head, hhead, -⟩ := Option.map_eq_some_iff.mp ho
        exact next .shallow ⟨head, hhead⟩
      | evaluated =>
        rw [heval] at ho
        obtain ⟨r, hr, -⟩ := Option.bind_eq_some_iff.mp ho
        exact next .deep ⟨r, hr⟩

lemma eq_of_serves {n : Nat} {declared : List Argument} {ts : List Term} {hs hs' : List (Option Head)}
    (hhs : Program.arguments (p.head n) (p.tree n) declared ts = some hs)
    (hserves : List.Forall₂ (fun (d : Argument × Term) o => p.Serves d.1.evaluation d.2 o)
      (declared.zip ts) hs') (hlen : declared.length = ts.length) : hs' = hs := by
  obtain ⟨k, hk⟩ := Program.exists_arguments hserves hlen
  have h₁ := Program.arguments_mono (fun _ _ => Program.head_mono (le_max_left n k))
    (fun _ _ => Program.tree_mono (le_max_left n k)) hhs
  have h₂ := Program.arguments_mono (fun _ _ => Program.head_mono (le_max_right n k))
    (fun _ _ => Program.tree_mono (le_max_right n k)) hk
  exact Option.some.inj (h₂.symm.trans h₁)

lemma leads_conclude {i : Invocation} {produced : Address}
    (hsome : (m.store.memory.value? produced).isSome = true) :
    ∃ b m', Leads Ends (conclude i produced m) b m' := by
  obtain ⟨v, hv⟩ := Option.isSome_iff_exists.mp hsome
  rw [conclude_of_value hv]
  exact ⟨_, _, rfl, rfl⟩

lemma found_of_foldl {adding : String} {op : Opcode} (hop : p.opcodes.get? adding = some op)
    (hargs : op.signature.arguments.map Argument.evaluation = [.evaluated, .evaluated]) {type : Ty}
    {n : Nat} {us : List Term} {u : Term}
    (h : Found p n (us.foldl (.combined adding type) u) .shallow) : Found p n u .shallow := by
  induction us generalizing u with
  | nil => exact h
  | cons v us ih =>
    obtain ⟨head, hhead⟩ := ih h
    cases n with
    | zero =>
      rw [Program.head] at hhead
      cases hhead
    | succ n =>
      rw [Program.head_succ] at hhead
      obtain ⟨op', hs, -, hop', hhs, -⟩ := Program.apply_eq_some_iff.mp hhead
      cases hop.symm.trans hop'
      generalize op.signature.arguments = declared at hargs hhs
      cases declared with
      | nil => cases hargs
      | cons d declared =>
        obtain ⟨o, -, ho, -⟩ := Program.arguments_cons_iff.mp hhs
        rw [(List.cons.inj hargs).1] at ho
        obtain ⟨r, -, ho⟩ := Option.bind_eq_some_iff.mp ho
        obtain ⟨head', hhead', -⟩ := Option.map_eq_some_iff.mp ho
        exact ⟨head', Program.head_mono (Nat.le_succ n) hhead'⟩

/-- Terms are combined from the left. -/
lemma leads_sequential (hp : p.Sound) {n : Nat} (hslots : SlotsComplete p n)
    (hinvocations : ∀ k, n = k + 1 → InvocationsComplete p k) {adding : String} {op : Opcode}
    (hop : p.opcodes.get? adding = some op)
    (hargs : op.signature.arguments.map Argument.evaluation = [.evaluated, .evaluated]) {type : Ty}
    (htype : p.types.Agrees type) {rest : List Address} {us : List Term} {term : Address} {u : Term}
    (h : Models p terms m) (hterm : Stands terms m term u)
    (hrest : List.Forall₂ (Stands terms m) rest us)
    (hfound : Found p n (us.foldl (.combined adding type) u) .shallow) :
    ∃ b m', Leads Ends (sequential (.opcode op none type) term rest m) b m' := by
  -- On the terms that are left; those before are combined in one slot.
  induction rest generalizing terms m term u us with
  | nil =>
    cases hrest
    exact hslots h hterm hfound
  | cons next rest ih =>
    obtain _ | ⟨hnext, hrest⟩ := hrest
    rename_i v us
    obtain ⟨i, m₁, terms₁, hcombine, hm₁, grows₁, hi⟩ :=
      h.combine hop hargs htype hterm hnext
    obtain ⟨head, hhead⟩ : Found p n (.combined adding type u v) .shallow :=
      found_of_foldl hop hargs hfound
    obtain ⟨hm₁', grows₁'⟩ := hm₁.tick
    obtain ⟨b₁, m₂, k, hs⟩ : ∃ b₁ m₂, Ends i.action m₁.tick b₁ m₂ := by
      cases n with
      | zero =>
        rw [Program.head] at hhead
        cases hhead
      | succ n =>
        rw [Program.head_succ] at hhead
        exact hinvocations n rfl hm₁' (hi.grows grows₁') ((hi.step _ _).symm.trans hhead)
    obtain ⟨rfl, terms₂, hm₂, grows₂, hsome⟩ :=
      (right hp (k + 1)).invocations k (by omega) hm₁' (hi.grows grows₁') hs
    obtain ⟨hm₃, grows₃⟩ := hm₂.tick
    have grows := grows₁.trans (grows₁'.trans (grows₂.trans grows₃))
    obtain ⟨j, hj, ht⟩ := hi.target
    have hstands : Stands terms₂ m₂.tick i.target (.combined adding type u v) :=
      ⟨j, hj, (grows₁'.trans (grows₂.trans grows₃)).getElem? ht, .inl (hj ▸ hsome)⟩
    obtain ⟨b, m', hleads⟩ := ih hm₃ hstands (hrest.imp fun _ _ => grows.stands) hfound
    rw [sequential_of_combine hcombine]
    exact ⟨b, m', ends_andThen ⟨k, hs⟩ hleads⟩

/-- **Invocations for opcodes with a value** succeed. -/
lemma SlotsComplete.invocations (hp : p.Sound) {n : Nat} (hslots : SlotsComplete p n)
    (hinvocations : ∀ k, n = k + 1 → InvocationsComplete p k) : InvocationsComplete p n := by
  intro terms m i mnemonic ts t h hm hi happly
  obtain ⟨op, hs, answer, hop, hhs, hanswer, happly⟩ := Program.apply_eq_some_iff.mp happly
  cases hi.opcode.symm.trans hop
  obtain ⟨bs, m₁, hall⟩ := ends_arguments hslots hp hm hi.args hhs
  obtain ⟨k, hall'⟩ := exists_succeedAll hall
  obtain ⟨terms₁, hs', hm₁, grows₁, hargued, hserves⟩ :=
    argued_all ((right hp (k + 1)).slots k (by omega)) hm hi.args hi.length hall'
  cases eq_of_serves hhs hserves (hi.length.trans hi.args.length_eq)
  obtain ⟨hm₂, grows₂⟩ := hm₁.tick
  have grows := grows₁.trans grows₂
  have hinvoked := hm₂.invoke hp (hi.grows grows) (hargued.imp fun _ _ => Argued.grows grows₂)
    fun head hvalue => hi.yields hserves hvalue rfl
  rw [hanswer] at hinvoked
  suffices hleads : ∃ b m', Leads Ends (invoke i m₁.tick) b m' by
    obtain ⟨b, m', hleads⟩ := hleads
    exact ⟨b, m', ends_of hall hleads⟩
  generalize invoke i m₁.tick = r at hinvoked
  cases hinvoked with
  | value hm₃ grows₃ hv => exact ⟨_, _, rfl, rfl⟩
  | @same u a m₃ hm₃ grows₃ ha =>
    obtain ⟨m₄, hends, -, terms₄, hm₄, grows₄, hsome⟩ := hslots.awaited hp hm₃ ha .shallow ⟨h, happly⟩
    obtain ⟨b, m', hleads⟩ := leads_conclude (i := i) hsome
    exact ⟨b, m', ends_andThen hends hleads⟩
  | @fold adding items initial a c op m₃ hm₃ grows₃ ha hc hop hevaluated =>
    obtain ⟨elements, hitems, hfold⟩ := happly
    obtain ⟨hm₃', grows₃'⟩ := hm₃.tick
    obtain ⟨m₄, hends, -, terms₄, hm₄, grows₄, hsome⟩ :=
      hslots.awaited hp hm₃' (grows₃'.stands ha) .shallow ⟨_, hitems⟩
    have grows₄' := grows₃'.trans grows₄
    obtain ⟨v, hv⟩ := Option.isSome_iff_exists.mp hsome
    obtain ⟨head, hrep, hyields⟩ := hm₄.exists_value (grows₄'.stands ha) hv
    cases hyields.unique ⟨_, hitems⟩
    cases hrep with
    | @list sequence us hwf hus =>
      obtain ⟨b₁, m₅, hleads⟩ := leads_sequential hp hslots hinvocations hop hevaluated hi.type hm₄
        (grows₄'.stands hc) hus ⟨h, hfold⟩
      have hreduce : Leads Ends (reduceElements (.opcode op none i.cell.type) c a m₄.tick) b₁ m₅ := by
        rw [reduceElements_of_iterable hm₄.config hv]
        exact hleads
      obtain ⟨fuel, hfuel⟩ := hleads.exists_fuel
      obtain ⟨terms₅, -, -, -, hsome₅⟩ := arrives_sequential hp (right hp _) hop hevaluated hi.type
        hm₄ (grows₄'.stands hc) hus hfuel
      obtain ⟨b, m', hconclude⟩ := leads_conclude (m := m₅.tick) (i := i) hsome₅
      exact ⟨b, m', ends_andThen (ends_andThen hends hreduce) hconclude⟩

/-- **What terms mean is computed**, whatever fuel it takes. -/
lemma complete (hp : p.Sound) (n : Nat) : SlotsComplete p n ∧ InvocationsComplete p n := by
  induction n with
  | zero =>
    have hslots : SlotsComplete p 0 := by
      intro terms m a t depth h ha hfound
      cases depth with
      | shallow =>
        obtain ⟨head, hhead⟩ := hfound
        rw [Program.head] at hhead
        cases hhead
      | deep =>
        obtain ⟨r, hr⟩ := hfound
        rw [Program.tree] at hr
        cases hr
    exact ⟨hslots, hslots.invocations hp fun k hk => absurd hk (Nat.succ_ne_zero k).symm⟩
  | succ n ih =>
    have hslots := ih.1.succ hp ih.2
    refine ⟨hslots, hslots.invocations hp fun k hk => ?_⟩
    cases hk
    exact ih.2

end CellMachine
