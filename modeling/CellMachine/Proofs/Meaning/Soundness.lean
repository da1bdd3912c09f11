import CellMachine.Proofs.Machine.Success
import CellMachine.Proofs.Meaning.Invocations

/-!
What the machine computes is what terms mean: an evaluation that succeeds leaves slots that stand for
terms, and gives the slot that was asked for its value.
-/

namespace CellMachine

/-- A slot has its value, and so have all its members. -/
inductive Memory.Full (memory : Memory) : Address → Prop
  | mk {i : Nat} {v : Value} (hv : memory.value? (.at i) = some v)
    (h : ∀ a ∈ v.members, memory.Full a) : memory.Full (.at i)

variable {p : Program} {terms terms' : List Term} {m m' : Machine}

lemma Grows.full (h : Grows terms m terms' m') {a : Address} (ha : m.store.memory.Full a) :
    m'.store.memory.Full a := by
  induction ha with
  | mk hv _ ih => exact .mk (h.values _ _ hv) ih

/-- The members of a value stand for the members of a term's value. -/
lemma Represents.members {D : Address → Term → Prop} {v : Value} {head : Head}
    (h : Represents D v head) : List.Forall₂ D v.members head.terms := by
  cases h with
  | list _ h => exact h
  | @record r ts _ h =>
    show List.Forall₂ D (r.toList.map Prod.snd) (ts.map Prod.snd)
    generalize r.toList = l at h
    induction h with
    | nil => exact .nil
    | cons he _ ih => exact .cons he.2 ih
  | _ => exact .nil

lemma Represents.exists_term {D : Address → Term → Prop} {v : Value} {head : Head}
    (h : Represents D v head) {a : Address} (ha : a ∈ v.members) : ∃ t ∈ head.terms, D a t := by
  have hmembers := h.members
  generalize v.members = as at hmembers ha
  generalize head.terms = ts at hmembers ⊢
  induction hmembers with
  | nil => cases ha
  | cons hD _ ih =>
    rcases List.mem_cons.mp ha with rfl | ha
    · exact ⟨_, List.mem_cons_self, hD⟩
    · obtain ⟨t, ht, hD⟩ := ih ha
      exact ⟨t, List.mem_cons_of_mem _ ht, hD⟩

lemma Models.exists_unfolds (h : Models p terms m) {a : Address} (ha : m.store.memory.Full a)
    {t : Term} (ht : Stands terms m a t) : ∃ r, p.Unfolds t r := by
  induction ha generalizing t with
  | @mk i v hv _ ih =>
    obtain ⟨head, hrep, hy⟩ := h.exists_value ht hv
    have hall : ∃ rs, List.Forall₂ p.Unfolds head.terms rs := by
      have hmembers := hrep.members
      generalize v.members = as at hmembers ih
      generalize head.terms = ts at hmembers
      induction hmembers with
      | nil => exact ⟨[], .nil⟩
      | cons hD _ ihs =>
        obtain ⟨rs, hrs⟩ := ihs fun a ha => ih a (List.mem_cons_of_mem _ ha)
        obtain ⟨r, hr⟩ := ih _ List.mem_cons_self hD
        exact ⟨r :: rs, .cons hr hrs⟩
    obtain ⟨rs, hrs⟩ := hall
    exact Program.exists_tree hy hrs

/-- How far a slot was evaluated. -/
def Reached (m : Machine) (a : Address) : Depth → Prop
  | .shallow => (m.store.memory.value? a).isSome = true
  | .deep => m.store.memory.Full a

/-- Where an evaluation of a slot that succeeds leads. -/
def Arrives (p : Program) (terms : List Term) (m : Machine) (a : Address) (depth : Depth)
    (b : Address) (m' : Machine) : Prop :=
  b = a ∧ ∃ terms', Models p terms' m' ∧ Grows terms m terms' m' ∧ Reached m' a depth

/-- With some fuel, evaluations of slots that succeed are right. -/
def SlotsRight (p : Program) (fuel : Nat) : Prop :=
  ∀ ⦃terms : List Term⦄ ⦃m m' : Machine⦄ ⦃a b : Address⦄ ⦃t : Term⦄ ⦃depth : Depth⦄,
    Models p terms m → Stands terms m a t → Machine.Succeeds fuel (.evaluate a depth) m b m' →
    Arrives p terms m a depth b m'

/-- With some fuel, invocations that succeed are right. -/
def InvocationsRight (p : Program) (fuel : Nat) : Prop :=
  ∀ ⦃terms : List Term⦄ ⦃m m' : Machine⦄ ⦃i : Invocation⦄ ⦃mnemonic : String⦄ ⦃ts : List Term⦄
    ⦃t : Term⦄ ⦃b : Address⦄, Models p terms m → Invokes p terms m i mnemonic ts t →
    Machine.Succeeds fuel i.action m b m' → Arrives p terms m i.target .shallow b m'

/-- With less than some fuel, all is right. -/
structure Right (p : Program) (fuel : Nat) : Prop where
  slots : ∀ n < fuel, SlotsRight p n
  invocations : ∀ n < fuel, InvocationsRight p n

lemma Right.mono {n n' : Nat} (h : Right p n) (hle : n' ≤ n) : Right p n' :=
  ⟨fun k hk => h.slots k (by omega), fun k hk => h.invocations k (by omega)⟩

lemma Arrives.of_grows {terms₁ : List Term} {m₁ : Machine} {a b : Address} {depth : Depth}
    (h : Grows terms m terms₁ m₁) (ha : Arrives p terms₁ m₁ a depth b m') :
    Arrives p terms m a depth b m' := by
  obtain ⟨rfl, terms', hm', grows, hreached⟩ := ha
  exact ⟨rfl, terms', hm', h.trans grows, hreached⟩

/-- The evaluation of a slot that further work waits for. -/
lemma SlotsRight.awaited {fuel : Nat} (hright : SlotsRight p fuel) (h : Models p terms m)
    {a b : Address} {t : Term} (ha : Stands terms m a t) {depth : Depth}
    (hs : Machine.Succeeds fuel (.evaluate a depth) m.tick b m') :
    Arrives p terms m a depth b m'.tick := by
  obtain ⟨hm₀, grows₀⟩ := h.tick
  obtain ⟨rfl, terms₁, hm₁, grows₁, hreached⟩ := hright hm₀ (grows₀.stands ha) hs
  obtain ⟨hm₂, grows₂⟩ := hm₁.tick
  refine ⟨rfl, terms₁, hm₂, grows₀.trans (grows₁.trans grows₂), ?_⟩
  cases depth with
  | shallow => exact hreached
  | deep => exact grows₂.full hreached

/-! ### Members -/

lemma full_all {fuel : Nat} (hright : SlotsRight p fuel) {as : List Address} {bs : List Address}
    (h : Models p terms m) (hall : ∀ a ∈ as, ∃ t, Stands terms m a t)
    (hs : Machine.SucceedAll (Machine.Succeeds fuel) (as.map fun a => .evaluate a .deep) m bs m') :
    ∃ terms', Models p terms' m' ∧ Grows terms m terms' m' ∧ ∀ a ∈ as, m'.store.memory.Full a := by
  induction as generalizing m terms bs with
  | nil =>
    obtain ⟨-, rfl⟩ := hs
    exact ⟨terms, h, .refl _ _, List.forall_mem_nil _⟩
  | cons a as ih =>
    obtain ⟨b, m₁, rest, hb, hrest, -⟩ := hs
    obtain ⟨⟨t, ht⟩, hall⟩ := List.forall_mem_cons.mp hall
    obtain ⟨hm₀, grows₀⟩ := h.tick
    obtain ⟨-, terms₁, hm₁, grows₁, hfull⟩ := hright hm₀ (grows₀.stands ht) hb
    have grows := grows₀.trans grows₁
    obtain ⟨terms₂, hm₂, grows₂, hfulls⟩ := ih hm₁
      (fun a ha => (hall a ha).imp fun _ => grows.stands) hrest
    exact ⟨terms₂, hm₂, grows.trans grows₂,
      List.forall_mem_cons.mpr ⟨grows₂.full hfull, hfulls⟩⟩

lemma deepen_eq (a : Address) (v : Value) :
    Machine.deepen a v m = (match Machine.openMembers m.store.memory v with
      | [] => .value a
      | as => .action (.mk (as.map fun c => .evaluate c .deep) (.value a)), m) := by
  show (match Machine.openMembers m.store.memory v with
    | [] => pure (.value a)
    | as => pure (.action (.mk (as.map fun c => .evaluate c .deep) (.value a))) :
      Machine.Stepped) m = _
  cases Machine.openMembers m.store.memory v <;> rfl

lemma arrives_deepen {fuel : Nat} (hright : Right p fuel) (h : Models p terms m) {a b : Address}
    {t : Term} (ha : Stands terms m a t) {v : Value} (hv : m.store.memory.value? a = some v)
    (hleads : Machine.Leads (Machine.Succeeds fuel) (Machine.deepen a v m) b m') :
    Arrives p terms m a .deep b m' := by
  obtain ⟨head, hrep, -⟩ := h.exists_value ha hv
  obtain ⟨i, rfl, -, -⟩ := id ha
  have hstands : ∀ c ∈ v.members, ∃ u, Stands terms m c u := fun c hc =>
    (hrep.exists_term hc).imp fun _ => And.right
  -- A member that is not open has a value without members.
  have closed : ∀ c ∈ v.members, c ∉ Machine.openMembers m.store.memory v →
      m.store.memory.Full c := by
    intro c hc hopen
    obtain ⟨u, j, rfl, -⟩ := hstands c hc
    rw [Machine.openMembers, List.mem_filter, not_and] at hopen
    have hopen := hopen hc
    cases hw : m.store.memory.value? (.at j) with
    | none => simp [hw] at hopen
    | some w =>
      refine .mk hw ?_
      cases w with
      | iterable items => simp [hw] at hopen
      | structured r => simp [hw] at hopen
      | _ => exact nofun
  rw [deepen_eq] at hleads
  cases has : Machine.openMembers m.store.memory v with
  | nil =>
    rw [has] at hleads closed
    obtain ⟨rfl, rfl⟩ := hleads
    exact ⟨rfl, terms, h, .refl _ _, .mk hv fun c hc => closed c hc List.not_mem_nil⟩
  | cons c cs =>
    rw [has] at hleads
    cases fuel with
    | zero => cases hleads
    | succ fuel =>
      obtain ⟨bs, m₁, hall, hlast⟩ := Machine.succeeds_succ_iff.mp hleads
      obtain ⟨rfl, rfl⟩ := hlast
      have hsub : ∀ d ∈ c :: cs, d ∈ v.members := fun d hd =>
        (List.mem_filter.mp (has ▸ hd)).1
      obtain ⟨terms₁, hm₁, grows₁, hfull⟩ := full_all (hright.slots fuel (by omega)) h
        (fun d hd => hstands d (hsub d hd)) hall
      obtain ⟨hm₂, grows₂⟩ := hm₁.tick
      have grows := grows₁.trans grows₂
      refine ⟨rfl, terms₁, hm₂, grows, .mk (grows.values _ _ hv) fun d hd => ?_⟩
      by_cases hopen : d ∈ c :: cs
      · exact grows₂.full (hfull d hopen)
      · exact grows.full (closed d hd (has ▸ hopen))

/-! ### Slots without a value -/

lemma settle_of_value {target produced : Address} {v : Value}
    (hv : m.store.memory.value? produced = some v) :
    Machine.settle target produced m = (.value target, { m with store := { m.store with
      memory := m.store.memory.memoize target v } }) := by
  simp only [Machine.settle, RunM.run_bind, RunM.run_value?, hv]
  rfl

lemma arrives_settle (hp : p.Sound) (h : Models p terms m) {i : Nat} {t : Term}
    (ht : terms[i]? = some t) {c : Address} {u : Term} (hc : Stands terms m c u) {v : Value}
    (hv : m.store.memory.value? c = some v) (hyields : ∀ head, p.Yields u head → p.Yields t head) :
    Machine.settle (.at i) c m = (.value (.at i), { m with store := { m.store with
      memory := m.store.memory.memoize (.at i) v } }) ∧
    Arrives p terms m (.at i) .shallow (.at i) { m with store := { m.store with
      memory := m.store.memory.memoize (.at i) v } } := by
  obtain ⟨head, hrep, hy⟩ := h.exists_value hc hv
  obtain ⟨hm', grows⟩ := h.memoize hp ht hrep (hyields head hy)
  exact ⟨settle_of_value hv, rfl, terms, hm', grows, Memory.isSome_memoize_self (h.lt_size ht) v⟩

/-- What a called cell means. -/
lemma yields_of_called {t g y : Term}
    (hstep : ∀ hd tr h, p.headStep hd tr t = some h ↔ ∃ c, hd g = some (.callable c) ∧
      p.accepts c (p.typeOf g) (p.typeOf y) = true ∧
        hd (p.reference c y Callable.resultCell) = some h) {c : Callable}
    (hg : p.Yields g (.callable c)) (hacc : p.accepts c (p.typeOf g) (p.typeOf y) = true)
    {head : Head} (hresult : p.Yields (p.reference c y Callable.resultCell) head) :
    p.Yields t head := by
  obtain ⟨n, hn⟩ := hg
  obtain ⟨n', hn'⟩ := hresult
  exact Program.yields_of_headStep (n := max n n') ((hstep _ _ _).mpr
    ⟨c, Program.head_mono (le_max_left _ _) hn, hacc, Program.head_mono (le_max_right _ _) hn'⟩)

lemma leave_of_value {target produced : Address} {f : Callable} {v : Value}
    (hv : m.store.memory.value? produced = some v) :
    Machine.leave target f produced m = (.value target,
      (RunM.tell (fun memory => .returned f (memory.kindAt target)) { m with store := { m.store with
        memory := m.store.memory.memoize target v } }).2) := by
  unfold Machine.leave
  rw [RunM.run_bind, settle_of_value hv]
  rfl

/-- The call of a cell's function. -/
lemma arrives_called (hp : p.Sound) {fuel : Nat} (hright : Right p fuel) (h : Models p terms m)
    {i : Nat} {t : Term} (ht : terms[i]? = some t) {function argument b : Address} {g y : Term}
    (hg : Stands terms m function g) (hy : Stands terms m argument y)
    (hstep : ∀ hd tr h, p.headStep hd tr t = some h ↔ ∃ c, hd g = some (.callable c) ∧
      p.accepts c (p.typeOf g) (p.typeOf y) = true ∧
        hd (p.reference c y Callable.resultCell) = some h)
    (hs : Machine.Succeeds fuel
      ((Action.evaluate function .shallow).andThen (.call argument (.at i))) m b m') :
    Arrives p terms m (.at i) .shallow b m' := by
  cases fuel with
  | zero => cases hs
  | succ fuel =>
    obtain ⟨b₁, m₁, hfunction, hleads⟩ := Machine.succeeds_andThen hs
    obtain ⟨rfl, terms₁, hm₁, grows₁, hsome⟩ :=
      (hright.slots fuel (by omega)).awaited h hg hfunction
    obtain ⟨v, hv⟩ := Option.isSome_iff_exists.mp hsome
    obtain ⟨head, hrep, hyields⟩ := hm₁.exists_value (grows₁.stands hg) hv
    change Machine.Leads _ (Machine.call b₁ argument (.at i) m₁.tick) b m' at hleads
    rcases hm₁.call hp (grows₁.stands hg) (grows₁.stands hy) hv hrep hyields (.at i) with
      ⟨c, rfl, hacc, result, m₂, terms₂, hcall, hm₂, grows₂, hstands⟩ | ⟨-, q, m₂, hcall⟩
    · rw [hcall] at hleads
      change Machine.Succeeds fuel _ m₂ b m' at hleads
      cases fuel with
      | zero => cases hleads
      | succ fuel =>
        obtain ⟨b₂, m₃, hresult, hlast⟩ := Machine.succeeds_andThen hleads
        obtain ⟨rfl, terms₃, hm₃, grows₃, hsome⟩ :=
          (hright.slots fuel (by omega)).awaited hm₂ hstands hresult
        have grows := grows₁.trans (grows₂.trans grows₃)
        obtain ⟨w, hw⟩ := Option.isSome_iff_exists.mp hsome
        obtain ⟨-, -, terms₄, hm₄, grows₄, hreached⟩ := arrives_settle hp hm₃ (grows.getElem? ht)
          (grows₃.stands hstands) hw fun head => yields_of_called hstep hyields hacc
        obtain ⟨hm₅, grows₅⟩ := hm₄.tell fun memory => .returned c (memory.kindAt (.at i))
        change Machine.Leads _ (Machine.leave (.at i) c b₂ m₃.tick) b m' at hlast
        rw [leave_of_value hw] at hlast
        obtain ⟨rfl, rfl⟩ := hlast
        exact ⟨rfl, terms₄, hm₅, grows.trans (grows₄.trans grows₅), grows₅.isSome hreached⟩
    · rw [hcall] at hleads
      cases hleads

/-- The work that a slot without a value is resolved to gives it its term's value. -/
lemma arrives_resolved (hp : p.Sound) {fuel : Nat} (hright : Right p fuel) (h : Models p terms m)
    {i : Nat} {t : Term} (ht : terms[i]? = some t) {r : Outcome Action × Machine}
    (hr : Resolves p terms m (.at i) t r) :
    ∃ action, r.1 = .ok action ∧ Models p terms r.2 ∧ Grows terms m terms r.2 ∧
      ∀ n < fuel, ∀ m₁ b m', Models p terms m₁ → Grows terms r.2 terms m₁ →
        Machine.Succeeds n action m₁ b m' → Arrives p terms m₁ (.at i) .shallow b m' := by
  cases hr with
  | @built v head hv hstep =>
    obtain ⟨hm', grows⟩ := h.memoize hp ht hv (Program.yields_of_headStep (n := 0) (hstep _ _))
    refine ⟨_, rfl, hm', grows, fun n _ m₁ b m' hm₁ grows₁ hs => ?_⟩
    cases n with
    | zero => cases hs
    | succ n =>
      obtain ⟨bs, m₂, ⟨rfl, rfl⟩, hlast⟩ := Machine.succeeds_succ_iff.mp hs
      obtain ⟨rfl, rfl⟩ := hlast
      obtain ⟨hm₂, grows₂⟩ := hm₁.tick
      exact ⟨rfl, terms, hm₂, grows₂,
        grows₁.isSome (Memory.isSome_memoize_self (h.lt_size ht) v)⟩
  | invoked hi htarget =>
    refine ⟨_, rfl, h, .refl _ _, fun n hn m₁ b m' hm₁ grows₁ hs => ?_⟩
    rw [← htarget]
    exact hright.invocations n hn hm₁ (hi.grows grows₁) hs
  | called hg hy hstep =>
    refine ⟨_, rfl, h, .refl _ _, fun n hn m₁ b m' hm₁ grows₁ hs => ?_⟩
    exact arrives_called hp (hright.mono hn.le) hm₁ ht (grows₁.stands hg) (grows₁.stands hy) hstep hs

/-- The value of a slot that was resolved is given to the slot. -/
lemma arrives_settled (hp : p.Sound) {fuel : Nat} {i : Nat} {t : Term} (ht : terms[i]? = some t)
    {action : Action} {m₀ : Machine}
    (haction : ∀ n < fuel, ∀ m₁ b m', Models p terms m₁ → Grows terms m₀ terms m₁ →
      Machine.Succeeds n action m₁ b m' → Arrives p terms m₁ (.at i) .shallow b m')
    (h : Models p terms m) (hgrows : Grows terms m₀ terms m) {n : Nat} (hn : n < fuel) {b : Address}
    (hs : Machine.Succeeds n (action.andThen (.settle (.at i))) m b m') :
    Arrives p terms m (.at i) .shallow b m' := by
  cases n with
  | zero => cases hs
  | succ n =>
    obtain ⟨b₁, m₁, hfirst, hlast⟩ := Machine.succeeds_andThen hs
    obtain ⟨hm₀, grows₀⟩ := h.tick
    obtain ⟨rfl, terms₁, hm₁, grows₁, hsome⟩ := haction n (by omega) _ _ _ hm₀
      (hgrows.trans grows₀) hfirst
    obtain ⟨hm₂, grows₂⟩ := hm₁.tick
    have ht' := (grows₀.trans grows₁).getElem? ht
    obtain ⟨v, hv⟩ := Option.isSome_iff_exists.mp hsome
    obtain ⟨hsettle, harrives⟩ := arrives_settle hp hm₂ ht' ⟨i, rfl, ht', .inl hsome⟩ hv
      fun _ hy => hy
    change Machine.Leads _ (Machine.settle (.at i) (.at i) m₁.tick) b m' at hlast
    rw [hsettle] at hlast
    obtain ⟨rfl, rfl⟩ := hlast
    exact harrives.of_grows (grows₀.trans (grows₁.trans grows₂))

lemma force_shallow_of_value {a : Address} {v : Value} (hv : m.store.memory.value? a = some v) :
    Machine.force a .shallow m = (.value a, m) := by
  simp only [Machine.force, RunM.run_bind, RunM.run_value?, hv, RunM.run_pure]

lemma force_deep_of_value {a : Address} {v : Value} (hv : m.store.memory.value? a = some v) :
    Machine.force a .deep m = Machine.deepen a v m := by
  simp only [Machine.force, RunM.run_bind, RunM.run_value?, hv]

lemma force_of_resolved {a : Address} (hv : m.store.memory.value? a = none) {action : Action}
    (hr : (Machine.resolve a m).1 = .ok action) (depth : Depth) :
    Machine.force a depth m = (.action (match depth with
      | .shallow => action.andThen (.settle a)
      | .deep => (action.andThen (.settle a)).andThen .deepen), (Machine.resolve a m).2) := by
  simp only [Machine.force, RunM.run_bind, RunM.run_value?, hv, hr]
  cases depth <;> rfl

/-- **Forcing a slot** that stands for a term gives it the term's value. -/
lemma arrives_force (hp : p.Sound) {fuel : Nat} (hright : Right p (fuel + 1)) (h : Models p terms m)
    {a b : Address} {t : Term} (ha : Stands terms m a t) {depth : Depth}
    (hleads : Machine.Leads (Machine.Succeeds fuel) (Machine.force a depth m) b m') :
    Arrives p terms m a depth b m' := by
  cases hv : m.store.memory.value? a with
  | some v =>
    cases depth with
    | shallow =>
      rw [force_shallow_of_value hv] at hleads
      obtain ⟨rfl, rfl⟩ := hleads
      exact ⟨rfl, terms, h, .refl _ _, Option.isSome_iff_exists.mpr ⟨v, hv⟩⟩
    | deep =>
      rw [force_deep_of_value hv] at hleads
      exact arrives_deepen (hright.mono (by omega)) h ha hv hleads
  | none =>
    obtain ⟨i, rfl, ht, -⟩ := id ha
    obtain ⟨action, hresolve, hm₁, grows₁, haction⟩ :=
      arrives_resolved hp hright h ht (resolves h ha hv)
    rw [force_of_resolved hv hresolve] at hleads
    cases depth with
    | shallow =>
      exact (arrives_settled hp ht haction hm₁ (.refl _ _) (by omega) hleads).of_grows grows₁
    | deep =>
      cases fuel with
      | zero => cases hleads
      | succ fuel =>
        obtain ⟨b₁, m₂, hfirst, hlast⟩ := Machine.succeeds_andThen hleads
        obtain ⟨hm₁', grows₁'⟩ := hm₁.tick
        obtain ⟨rfl, terms₂, hm₂, grows₂, hsome⟩ :=
          arrives_settled hp ht haction hm₁' grows₁' (by omega) hfirst
        obtain ⟨hm₃, grows₃⟩ := hm₂.tick
        have grows := grows₁.trans (grows₁'.trans (grows₂.trans grows₃))
        obtain ⟨v, hv'⟩ := Option.isSome_iff_exists.mp (grows₃.isSome hsome)
        change Machine.Leads _ (Machine.force (.at i) .deep m₂.tick) b m' at hlast
        rw [force_deep_of_value hv'] at hlast
        exact (arrives_deepen (hright.mono (by omega)) hm₃ (grows.stands ha) hv' hlast).of_grows
          grows

/-! ### Invocations -/

/-- What an argument is evaluated by. -/
def Invocation.dependency (e : Argument × Address) : Option Action :=
  match e.1.evaluation with
  | .evaluated => some (.evaluate e.2 .deep)
  | .shallow => some (.evaluate e.2 .shallow)
  | .lazy => none

lemma argued_slot {fuel : Nat} (hright : SlotsRight p fuel) (h : Models p terms m) {a b : Address}
    {t : Term} (ha : Stands terms m a t) {d : Argument} {action : Action}
    (hd : Invocation.dependency (d, a) = some action)
    (hs : Machine.Succeeds fuel action m.tick b m') :
    ∃ terms' head, Models p terms' m' ∧ Grows terms m terms' m' ∧
      Argued terms' m' (d, a) (t, some head) ∧ p.Serves d.evaluation t (some head) := by
  obtain ⟨hm₀, grows₀⟩ := h.tick
  have reached : ∀ {depth}, Machine.Succeeds fuel (.evaluate a depth) m.tick b m' →
      ∃ terms' v head, Models p terms' m' ∧ Grows terms m terms' m' ∧
        m'.store.memory.value? a = some v ∧ Represents (Stands terms' m') v head ∧
        p.Yields t head ∧ Reached m' a depth := by
    intro depth hs
    obtain ⟨-, terms', hm', grows, hreached⟩ := hright hm₀ (grows₀.stands ha) hs
    have grows := grows₀.trans grows
    obtain ⟨v, hv⟩ : ∃ v, m'.store.memory.value? a = some v := by
      cases depth with
      | shallow => exact Option.isSome_iff_exists.mp hreached
      | deep =>
        obtain ⟨hv, -⟩ := hreached
        exact ⟨_, hv⟩
    obtain ⟨head, hrep, hy⟩ := hm'.exists_value (grows.stands ha) hv
    exact ⟨terms', v, head, hm', grows, hv, hrep, hy, hreached⟩
  unfold Invocation.dependency at hd
  cases heval : d.evaluation with
  | lazy =>
    rw [heval] at hd
    cases hd
  | shallow =>
    rw [heval] at hd
    cases hd
    obtain ⟨terms', v, head, hm', grows, hv, hrep, hy, -⟩ := reached hs
    exact ⟨terms', head, hm', grows, .known (by rw [heval]; nofun) (grows.stands ha) hv hrep,
      Program.serves_shallow hy⟩
  | evaluated =>
    rw [heval] at hd
    cases hd
    obtain ⟨terms', v, head, hm', grows, hv, hrep, hy, hfull⟩ := reached hs
    obtain ⟨r, hr⟩ := hm'.exists_unfolds hfull (grows.stands ha)
    exact ⟨terms', head, hm', grows, .known (by rw [heval]; nofun) (grows.stands ha) hv hrep,
      Program.serves_evaluated hy hr⟩

/-- Arguments that were evaluated serve the opcode. -/
lemma argued_all {fuel : Nat} (hright : SlotsRight p fuel) {declared : List Argument}
    {args bs : List Address} {ts : List Term} (h : Models p terms m)
    (hargs : List.Forall₂ (Stands terms m) args ts) (hlen : declared.length = args.length)
    (hs : Machine.SucceedAll (Machine.Succeeds fuel)
      ((declared.zip args).filterMap Invocation.dependency) m bs m') :
    ∃ terms' hs, Models p terms' m' ∧ Grows terms m terms' m' ∧
      List.Forall₂ (Argued terms' m') (declared.zip args) (ts.zip hs) ∧
      List.Forall₂ (fun (d : Argument × Term) o => p.Serves d.1.evaluation d.2 o)
        (declared.zip ts) hs := by
  induction declared generalizing args ts m terms bs with
  | nil =>
    obtain ⟨-, rfl⟩ := hs
    exact ⟨terms, [], h, .refl _ _, by simp, by simp⟩
  | cons d declared ih =>
    cases hargs with
    | nil => cases hlen
    | @cons a t args ts ha hargs =>
      rw [List.zip_cons_cons, List.filterMap_cons] at hs
      cases hd : Invocation.dependency (d, a) with
      | none =>
        rw [hd] at hs
        have hlazy : d.evaluation = .lazy := by
          unfold Invocation.dependency at hd
          cases heval : d.evaluation with
          | lazy => rfl
          | _ => rw [heval] at hd; cases hd
        obtain ⟨terms', hs, hm', grows, hargued, hserves⟩ := ih h hargs (Nat.succ.inj hlen) hs
        exact ⟨terms', none :: hs, hm', grows, .cons (.lazy hlazy (grows.stands ha)) hargued,
          .cons (hlazy ▸ Program.serves_lazy t) hserves⟩
      | some action =>
        rw [hd] at hs
        obtain ⟨b, m₁, rest, hb, hrest, -⟩ := hs
        obtain ⟨terms₁, head, hm₁, grows₁, hfirst, hserves₁⟩ := argued_slot hright h ha hd hb
        obtain ⟨terms', hs, hm', grows, hargued, hserves⟩ := ih hm₁
          (hargs.imp fun _ _ => grows₁.stands) (Nat.succ.inj hlen) hrest
        exact ⟨terms', some head :: hs, hm', grows₁.trans grows,
          .cons (hfirst.grows grows) hargued, .cons hserves₁ hserves⟩

/-- What an invocation means: the answer of its opcode. -/
lemma Invokes.yields {i : Invocation} {mnemonic : String} {ts : List Term} {t : Term}
    (hi : Invokes p terms m i mnemonic ts t) {hs : List (Option Head)}
    (hserves : List.Forall₂ (fun (d : Argument × Term) o => p.Serves d.1.evaluation d.2 o)
      (i.opcode.signature.arguments.zip ts) hs) {answer : Answer}
    (hanswer : p.denote mnemonic i.cell.type (ts.zip hs) = some answer) {head : Head}
    (hhead : p.AnswerYields i.cell.type head answer) : p.Yields t head := by
  obtain ⟨n, hn⟩ := Program.exists_apply hi.opcode hserves (hi.length.trans hi.args.length_eq)
    hanswer hhead
  exact Program.yields_of_headStep (n := n) ((hi.step _ _).trans hn)

lemma conclude_of_value {i : Invocation} {produced : Address} {v : Value}
    (hv : m.store.memory.value? produced = some v) :
    Machine.conclude i produced m = (.value i.target, (i.resolved { m with store := { m.store with
      memory := m.store.memory.memoize i.target v } }).2) := by
  unfold Machine.conclude
  rw [RunM.run_bind, settle_of_value hv]
  rfl

lemma arrives_conclude (hp : p.Sound) (h : Models p terms m) {i : Invocation} {t : Term}
    (htarget : ∃ k, i.target = .at k ∧ terms[k]? = some t) {c : Address} {u : Term}
    (hc : Stands terms m c u) (hsome : (m.store.memory.value? c).isSome = true)
    (hyields : ∀ head, p.Yields u head → p.Yields t head) {R} {b : Address}
    (hleads : Machine.Leads R (Machine.conclude i c m) b m') :
    Arrives p terms m i.target .shallow b m' := by
  obtain ⟨k, hk, ht⟩ := htarget
  obtain ⟨v, hv⟩ := Option.isSome_iff_exists.mp hsome
  obtain ⟨-, -, terms₁, hm₁, grows₁, hreached⟩ := arrives_settle hp h ht hc hv hyields
  obtain ⟨hm₂, grows₂⟩ := hm₁.tellOpcode fun memory => .opcodeResolved i.function i.index i.cell
    (memory.treeAt i.target)
  have hreached := grows₂.isSome hreached
  rw [conclude_of_value hv] at hleads
  obtain ⟨rfl, rfl⟩ := hleads
  rw [← hk] at hm₂ grows₁ grows₂ hreached
  exact ⟨rfl, terms₁, hm₂, grows₁.trans grows₂, hreached⟩

lemma sequential_of_combine {c : Combiner} {term next : Address} {rest : List Address}
    {action : Action} (h : Machine.combine c term next m = (.ok action, m')) :
    Machine.sequential c term (next :: rest) m =
      (.action (action.andThen (.combine c rest)), m') := by
  show (Machine.combine c term next >>= _ : Machine.Stepped) m = _
  rw [RunM.run_bind, h]
  rfl

/-- Terms are combined from the left. -/
lemma arrives_sequential (hp : p.Sound) {fuel : Nat} (hright : Right p (fuel + 1)) {adding : String}
    {op : Opcode} (hop : p.opcodes.get? adding = some op)
    (hargs : op.signature.arguments.map Argument.evaluation = [.evaluated, .evaluated]) {type : Ty}
    (htype : p.types.Agrees type) {rest : List Address} {us : List Term} {term b : Address} {u : Term}
    (h : Models p terms m) (hterm : Stands terms m term u)
    (hrest : List.Forall₂ (Stands terms m) rest us)
    (hleads : Machine.Leads (Machine.Succeeds fuel)
      (Machine.sequential (.opcode op none type) term rest m) b m') :
    ∃ terms', Models p terms' m' ∧ Grows terms m terms' m' ∧
      Stands terms' m' b (us.foldl (.combined adding type) u) ∧
      (m'.store.memory.value? b).isSome = true := by
  -- On the terms that are left; those before are combined in one slot.
  induction rest generalizing fuel terms m term u us with
  | nil =>
    cases hrest
    change Machine.Leads _ (Machine.force term .shallow m) b m' at hleads
    obtain ⟨rfl, terms', hm', grows, hsome⟩ := arrives_force hp hright h hterm hleads
    exact ⟨terms', hm', grows, grows.stands hterm, hsome⟩
  | cons next rest ih =>
    obtain _ | ⟨hnext, hrest⟩ := hrest
    rename_i v us
    obtain ⟨i, m₁, terms₁, hcombine, hm₁, grows₁, hi⟩ :=
      h.combine hop hargs htype hterm hnext
    have hsequential : Machine.sequential (.opcode op none type) term (next :: rest) m =
        (.action (i.action.andThen (.combine (.opcode op none type) rest)), m₁) :=
      sequential_of_combine hcombine
    rw [hsequential] at hleads
    cases fuel with
    | zero => cases hleads
    | succ fuel =>
      obtain ⟨b₁, m₂, hfirst, hlast⟩ := Machine.succeeds_andThen hleads
      obtain ⟨hm₁', grows₁'⟩ := hm₁.tick
      obtain ⟨rfl, terms₂, hm₂, grows₂, hsome⟩ :=
        hright.invocations fuel (by omega) hm₁' (hi.grows grows₁') hfirst
      obtain ⟨hm₃, grows₃⟩ := hm₂.tick
      have grows := grows₁.trans (grows₁'.trans (grows₂.trans grows₃))
      obtain ⟨k, hk, ht⟩ := hi.target
      have hstands : Stands terms₂ m₂.tick i.target (.combined adding type u v) :=
        ⟨k, hk, (grows₁'.trans (grows₂.trans grows₃)).getElem? ht, .inl (hk ▸ hsome)⟩
      obtain ⟨terms', hm', grows', hb, hvalue⟩ := ih (hright.mono (by omega)) hm₃ hstands
        (hrest.imp fun _ _ => grows.stands) hlast
      exact ⟨terms', hm', grows.trans grows', hb, hvalue⟩

lemma reduceElements_of_iterable {c : Combiner} {initial iterable : Address}
    {items : Sequence Address} (hconfig : m.setting.config = {})
    (hv : m.store.memory.value? iterable = some (.iterable items)) :
    Machine.reduceElements c initial iterable m =
      Machine.sequential c initial items.toList m := by
  simp only [Machine.reduceElements, RunM.run_bind, RunM.run_memory, hv, RunM.run_setting, hconfig]

lemma reduceElements_of_other (c : Combiner) (initial : Address) {iterable : Address} {v : Value}
    (hv : m.store.memory.value? iterable = some v) (hother : v.asIterable? = none) :
    ∃ q, Machine.reduceElements c initial iterable m = (.error q, m) := by
  cases v with
  | iterable items => cases hother
  | _ =>
    simp only [Machine.reduceElements, RunM.run_bind, RunM.run_memory, hv]
    exact ⟨_, rfl⟩

/-- A reduction that succeeds comes to the fold of the terms of a list. -/
lemma arrives_reduce (hp : p.Sound) {fuel : Nat} (hright : Right p fuel) {adding : String}
    {op : Opcode} (hop : p.opcodes.get? adding = some op)
    (hevaluated : op.signature.arguments.map Argument.evaluation = [.evaluated, .evaluated]) {type : Ty}
    (htype : p.types.Agrees type) (h : Models p terms m) {items initial : Term} {a c b : Address}
    (ha : Stands terms m a items) (hc : Stands terms m c initial)
    (hs : Machine.Succeeds fuel
      ((Action.evaluate a .shallow).andThen (.reduce (.opcode op none type) c)) m b m') :
    ∃ terms' us, Models p terms' m' ∧ Grows terms m terms' m' ∧ p.Yields items (.list us) ∧
      Stands terms' m' b (us.foldl (.combined adding type) initial) ∧
      (m'.store.memory.value? b).isSome = true := by
  cases fuel with
  | zero => cases hs
  | succ fuel =>
    obtain ⟨b₁, m₁, hitems, hreduce⟩ := Machine.succeeds_andThen hs
    obtain ⟨rfl, terms₁, hm₁, grows₁, hsome⟩ :=
      (hright.slots fuel (by omega)).awaited h ha hitems
    obtain ⟨v, hv⟩ := Option.isSome_iff_exists.mp hsome
    obtain ⟨head, hrep, hy⟩ := hm₁.exists_value (grows₁.stands ha) hv
    change Machine.Leads _ (Machine.reduceElements _ c b₁ m₁.tick) b m' at hreduce
    cases hrep with
    | @list elements us hwf hus =>
      rw [reduceElements_of_iterable hm₁.config hv] at hreduce
      obtain ⟨terms', hm', grows', hb, hvalue⟩ := arrives_sequential hp (hright.mono (by omega)) hop
        hevaluated htype hm₁ (grows₁.stands hc) hus hreduce
      exact ⟨terms', us, hm', grows₁.trans grows', hy, hb, hvalue⟩
    | _ =>
      obtain ⟨q, hq⟩ := reduceElements_of_other (.opcode op none type) c hv rfl
      rw [hq] at hreduce
      cases hreduce

/-- **An invocation that succeeds** gives its slot the value of the opcode applied to terms. -/
lemma arrives_invocation (hp : p.Sound) {fuel : Nat} (hright : Right p fuel) (h : Models p terms m)
    {i : Invocation} {mnemonic : String} {ts : List Term} {t : Term}
    (hi : Invokes p terms m i mnemonic ts t) {b : Address}
    (hs : Machine.Succeeds fuel i.action m b m') :
    Arrives p terms m i.target .shallow b m' := by
  cases fuel with
  | zero => cases hs
  | succ fuel =>
    obtain ⟨bs, m₁, hall, hleads⟩ := Machine.succeeds_succ_iff.mp hs
    obtain ⟨terms₁, heads, hm₁, grows₁, hargued, hserves⟩ :=
      argued_all (hright.slots fuel (by omega)) h hi.args hi.length hall
    obtain ⟨hm₂, grows₂⟩ := hm₁.tick
    have grows := grows₁.trans grows₂
    have hi' := hi.grows grows
    have hinvoked := hm₂.invoke hp hi' (hargued.imp fun _ _ => Argued.grows grows₂)
      fun head hvalue => hi.yields hserves hvalue rfl
    change Machine.Leads _ (Machine.invoke i m₁.tick) b m' at hleads
    generalize hanswer : p.denote mnemonic i.cell.type (ts.zip heads) = answer at hinvoked
    generalize Machine.invoke i m₁.tick = r at hinvoked hleads
    cases hinvoked with
    | failed q m₃ => cases hleads
    | value hm₃ grows₃ hv =>
      obtain ⟨rfl, rfl⟩ := hleads
      exact ⟨rfl, terms₁, hm₃, grows.trans grows₃, hv⟩
    -- The result is that of another slot, which is evaluated before the invocation concludes.
    | @same u a m₃ hm₃ grows₃ ha =>
      cases fuel with
      | zero => cases hleads
      | succ fuel =>
        obtain ⟨b₁, m₄, hfirst, hlast⟩ := Machine.succeeds_andThen hleads
        obtain ⟨rfl, terms₄, hm₄, grows₄, hsome⟩ :=
          (hright.slots fuel (by omega)).awaited hm₃ ha hfirst
        have grows' := grows.trans (grows₃.trans grows₄)
        exact (arrives_conclude hp hm₄ (hi.grows grows').target (grows₄.stands ha) hsome
          (fun head hy => hi.yields hserves hanswer hy) hlast).of_grows grows'
    -- A reduction is carried out first, and the invocation concludes with what it comes to.
    | @fold adding items initial a c op m₃ hm₃ grows₃ ha hc hop hevaluated =>
      cases fuel with
      | zero => cases hleads
      | succ fuel =>
        obtain ⟨b₁, m₄, hfirst, hlast⟩ := Machine.succeeds_andThen hleads
        obtain ⟨hm₃', grows₃'⟩ := hm₃.tick
        obtain ⟨terms₄, us, hm₄, grows₄, hy, hb₁, hsome⟩ := arrives_reduce hp
          (hright.mono (by omega)) hop hevaluated hi.type hm₃' (grows₃'.stands ha) (grows₃'.stands hc)
          hfirst
        obtain ⟨hm₅, grows₅⟩ := hm₄.tick
        have grows' := grows.trans (grows₃.trans (grows₃'.trans (grows₄.trans grows₅)))
        exact (arrives_conclude hp hm₅ (hi.grows grows').target (grows₅.stands hb₁) hsome
          (fun head hy' => hi.yields hserves hanswer ⟨us, hy, hy'⟩) hlast).of_grows grows'

/-- **What the machine computes is right**, whatever the fuel. -/
lemma right (hp : p.Sound) (fuel : Nat) : Right p fuel := by
  induction fuel with
  | zero => exact ⟨nofun, nofun⟩
  | succ fuel ih =>
    have slots : SlotsRight p fuel := by
      intro terms m m' a b t depth h ha hs
      cases fuel with
      | zero => cases hs
      | succ fuel =>
        obtain ⟨bs, m₁, ⟨rfl, rfl⟩, hleads⟩ := Machine.succeeds_succ_iff.mp hs
        obtain ⟨hm₁, grows₁⟩ := h.tick
        exact (arrives_force hp ih hm₁ (grows₁.stands ha) hleads).of_grows grows₁
    have invocations : InvocationsRight p fuel := fun terms m m' i mnemonic ts t b h hi hs =>
      arrives_invocation hp ih h hi hs
    refine ⟨fun n hn => ?_, fun n hn => ?_⟩
    · rcases Nat.lt_succ_iff_lt_or_eq.mp hn with hn | rfl
      · exact ih.slots n hn
      · exact slots
    · rcases Nat.lt_succ_iff_lt_or_eq.mp hn with hn | rfl
      · exact ih.invocations n hn
      · exact invocations

end CellMachine
