import CellMachine.Proofs.Machine.Parts
import CellMachine.Proofs.Meaning.Activation

/-!
Calls: a compilation during a run is one that the constants alone give, an argument is accepted when
its type suits, and then the result's slot stands for the result's cell.
-/

namespace CellMachine

lemma Fits.of_over {opcodes : Opcodes} {base memory : Memory} (hover : base.Over memory)
    (hrooted : base.Rooted) {c : Callable} {nodes : KeyMap Nat Node}
    (h : Fits opcodes memory c nodes) : Fits opcodes base c nodes := by
  refine { h with fits := fun i node hnode => ?_ }
  have hfits := h.fits i node hnode
  cases hkind : node.cell.kind with
  | constant moduleName name =>
    rw [hkind] at hfits
    obtain ⟨a, ha, hop⟩ := hfits
    exact ⟨a, (hover.constant hrooted).symm.trans ha, hop⟩
  | _ =>
    rw [hkind] at hfits
    exact hfits

namespace Machine

lemma forall₂_slotsOf {activation : Activation} {R : Nat → Address → Prop} {indices : List Nat}
    (h : ∀ j ∈ indices, ∃ a, activation.slots.get? j = some a ∧ R j a) :
    ∃ as, slotsOf activation indices = some as ∧ List.Forall₂ R indices as := by
  induction indices with
  | nil => exact ⟨[], rfl, .nil⟩
  | cons j indices ih =>
    obtain ⟨⟨a, ha, hR⟩, hrest⟩ := List.forall_mem_cons.mp h
    obtain ⟨as, has, hall⟩ := ih hrest
    refine ⟨a :: as, ?_, .cons hR hall⟩
    rw [slotsOf] at has ⊢
    rw [List.mapM_cons, ha, has]
    rfl

/-- A computation that sets up a call. Its argument is judged, which leaves at most a verdict; it is
refused, or the nodes get slots, and these are entered if the result has one, which is to be evaluated. -/
def SetsUp (call : CompiledCall) (argument : Address) (m : Machine) (x : RunM (Outcome Action)) : Prop :=
  ∃ m₁ : Machine, (m₁.setting = m.setting ∧ m₁.store.memory = m.store.memory ∧
      m₁.compiled = m.compiled ∧ m₁.pending = m.pending) ∧
    ((∃ p, x m = (.error p, m₁)) ∨
      (∃ p, x m = (.error p, { m₁ with store := (activate argument call.nodes m₁.store).2 })) ∨
      ∃ result, x m = (.ok (.evaluate result .shallow), m₁.activated call argument))

lemma setUp_of_placed {call : CompiledCall} {argument result : Address} {m : Machine}
    (h : (activate argument call.nodes m.store).1.get? Callable.resultCell = some result) :
    setUp call argument m = (.ok (.evaluate result .shallow), m.activated call argument) := by
  rw [setUp, RunM.run_bind, RunM.run_store]
  dsimp only
  rw [h]
  rfl

lemma setUp_of_unplaced {call : CompiledCall} {argument : Address} {m : Machine}
    (h : (activate argument call.nodes m.store).1.get? Callable.resultCell = none) :
    ∃ p, setUp call argument m =
      (.error p, { m with store := (activate argument call.nodes m.store).2 }) := by
  rw [setUp, RunM.run_bind, RunM.run_store]
  dsimp only
  rw [h]
  exact ⟨_, rfl⟩

lemma setsUp_construct (call : CompiledCall) (argument : Address) (m : Machine) :
    SetsUp call argument m (construct call argument) := by
  obtain ⟨types, htypes⟩ : ∃ types, (accept call argument m).2 =
      { m with store := { m.store with types } } := by
    unfold accept
    dsimp only
    split
    · exact ⟨m.store.types, rfl⟩
    · exact ⟨_, rfl⟩
  refine ⟨(accept call argument m).2, by rw [htypes]; exact ⟨rfl, rfl, rfl, rfl⟩, ?_⟩
  rw [construct_eq, RunM.run_bind]
  generalize (accept call argument m).2 = m₁
  cases (accept call argument m).1 with
  | error p => exact .inl ⟨_, rfl⟩
  | ok _ =>
    cases hplaced : (activate argument call.nodes m₁.store).1.get? Callable.resultCell with
    | none => exact .inr (.inl (setUp_of_unplaced hplaced))
    | some result => exact .inr (.inr ⟨result, setUp_of_placed hplaced⟩)

lemma construct_of_accepted {call : CompiledCall} {argument result : Address} {m m₁ : Machine}
    (h : accept call argument m = (.ok (), m₁))
    (hresult : (activate argument call.nodes m₁.store).1.get? Callable.resultCell = some result) :
    construct call argument m =
      (.ok (.evaluate result .shallow), m₁.activated call argument) := by
  rw [construct_eq, RunM.run_bind, h]
  exact setUp_of_placed hresult

lemma construct_of_refused {call : CompiledCall} {argument : Address} {m m₁ : Machine} {q : Problem}
    (h : accept call argument m = (.error q, m₁)) :
    construct call argument m = (.error (q.add "position" "argument"), m₁) := by
  rw [construct_eq, RunM.run_bind, h]
  rfl

lemma construct_cases {call : CompiledCall} {argument : Address} {m m' : Machine} {action : Action}
    (h : construct call argument m = (.ok action, m')) : ∃ m₁ result,
    accept call argument m = (.ok (), m₁) ∧
    (activate argument call.nodes m₁.store).1.get? Callable.resultCell = some result ∧
    action = .evaluate result .shallow ∧ m' = m₁.activated call argument := by
  cases haccept : accept call argument m with
  | mk o m₁ =>
    cases o with
    | error q =>
      rw [construct_of_refused haccept] at h
      cases h
    | ok _ =>
      cases hresult : (activate argument call.nodes m₁.store).1.get? Callable.resultCell with
      | none =>
        obtain ⟨q, hq⟩ := setUp_of_unplaced hresult
        rw [construct_eq, RunM.run_bind, haccept] at h
        cases h.symm.trans hq
      | some result =>
        rw [construct_of_accepted haccept hresult] at h
        cases h
        exact ⟨m₁, result, rfl, hresult, rfl, rfl⟩

end Machine

namespace Program

variable {p : Program}

lemma Sound.suits_iff (hp : p.Sound) {types : Registry} (ht : p.types.Recalls types) {a e : Ty}
    (ha : p.types.Agrees a) (he : p.types.Agrees e) (source : Option Position) :
    p.suits a e = true ↔ (types.matchTypes source a (some e)).1 = .ok () := by
  have hfresh := ((Registry.Recalls.fresh p.types).matchTypes hp.tidy (.inl ha) (.inl he) none).1
  have hnow := (ht.matchTypes hp.tidy (.inl ha) (.inl he) source).1
  rw [hnow, ← hfresh, suits]
  cases (p.types.fresh.matchTypes none a (some e)).1 with
  | ok u => exact ⟨fun _ => rfl, fun _ => rfl⟩
  | error q => exact ⟨nofun, nofun⟩

lemma agrees_signature (tidy : p.types.Tidy) {type expected result : Ty}
    (htype : p.types.Agrees type) (h : p.signature? type = some (expected, result)) :
    p.types.Agrees expected ∧ p.types.Agrees result := by
  cases type with
  | callable name source a r =>
    simp only [signature?] at h
    split at h
    · next ha hr =>
      cases h
      exact ⟨tidy.agrees_resolve htype List.mem_cons_self ha,
        tidy.agrees_resolve htype (List.mem_cons_of_mem _ List.mem_cons_self) hr⟩
    · cases h
  | _ => cases h

lemma Sound.agrees_signature (hp : p.Sound) {type expected result : Ty}
    (htype : p.types.Agrees type) (h : p.signature? type = some (expected, result)) :
    p.types.Agrees expected ∧ p.types.Agrees result := Program.agrees_signature hp.tidy htype h

lemma compiledSlot_error {type : Ty} {v : Option Value} {found : List Problem}
    (h : ∀ f, v = some (.callable f) → p.signature? type = none) :
    p.CompiledSlot type (.error found) v := by
  unfold CompiledSlot
  split
  · next f =>
    intro expected result hsig
    rw [h f rfl] at hsig
    cases hsig
  · exact ⟨found, rfl⟩

lemma Sound.compile (hp : p.Sound) {memory : Memory} (hover : p.constants.Over memory)
    {types : Registry} (ht : p.types.Recalls types) {f : Callable} (hf : f.Conforms p.types)
    {type expected result : Ty} (htype : p.types.Agrees type)
    (hsig : p.signature? type = some (expected, result)) (index : Option Nat) :
    let compiled := (CompileEnv.mk p.opcodes p.modules memory f).compile index expected result types
    p.types.Recalls compiled.2 ∧ p.Compiled f type compiled.1 := by
  intro compiled
  obtain ⟨hexpected, hresult⟩ := hp.agrees_signature htype hsig
  obtain ⟨hsame, hrecalls⟩ := compile_agree hp.around hf.typed hexpected hresult hover (.refl _) ht
    (Registry.Recalls.fresh p.types) index none
  refine ⟨hrecalls, ?_⟩
  cases hc : compiled.1 with
  | ok call =>
    obtain ⟨hcallable, hargument, hfits⟩ :=
      CompileEnv.fits_compile (fun _ _ hop => (hp.around.opcodes _ _ hop).keeps) hc
    refine ⟨hcallable, hfits.of_over hover hp.around.rooted, result, ?_, ?_⟩
    · rw [hargument, hsig]
    · rw [hargument]
      exact hsame.isOk_eq.symm.trans (congrArg Except.isOk hc)
  | error found =>
    intro expected' result' hsig'
    rw [hsig] at hsig'
    cases hsig'
    exact hsame.isOk_eq.symm.trans (congrArg Except.isOk hc)

/-- A slot with a callable and a signature is compiled; other slots are refused. -/
lemma compileSlot_cases (memory : Memory) {types : Registry} (ht : p.types.Recalls types)
    (a : Address) :
    (∃ f expected result, memory.value? a = some (.callable f) ∧
        p.signature? (memory.typeOf a) = some (expected, result) ∧
        compileSlot p.opcodes p.modules memory a types =
          (CompileEnv.mk p.opcodes p.modules memory f).compile a.index? expected result types) ∨
      (∀ f, memory.value? a = some (.callable f) → p.signature? (memory.typeOf a) = none) ∧
        ∃ found, compileSlot p.opcodes p.modules memory a types = (.error found, types) := by
  by_cases hvalue : ∃ f, memory.value? a = some (.callable f)
  case neg =>
    have hnone : ∀ f, memory.value? a ≠ some (.callable f) := fun f hf => hvalue ⟨f, hf⟩
    exact .inr ⟨fun f hf => absurd hf (hnone f), _, compileSlot_refused (.inl hnone)⟩
  obtain ⟨f, hvalue⟩ := hvalue
  cases htype : memory.typeOf a with
  | callable name source argument result =>
    rw [compileSlot_callable hvalue htype, ht.resolve, ht.resolve]
    simp only [signature?]
    cases p.types.resolve argument with
    | error q =>
      refine .inr ⟨fun _ _ => rfl, ?_⟩
      cases p.types.resolve result <;> exact ⟨_, rfl⟩
    | ok expected =>
      cases p.types.resolve result with
      | error q => exact .inr ⟨fun _ _ => rfl, _, rfl⟩
      | ok returned => exact .inl ⟨f, expected, returned, hvalue, rfl, rfl⟩
  | _ =>
    refine .inr ⟨fun _ _ => rfl, _, compileSlot_refused (.inr fun _ _ _ _ h => ?_)⟩
    rw [htype] at h
    cases h

/-- **Compilations do not depend on when they are made**: what a slot compiles to is what its callable
compiles to with nothing in memory but the constants, and nothing remembered. -/
lemma Sound.compileSlot (hp : p.Sound) {memory : Memory} (hover : p.constants.Over memory)
    {types : Registry} (ht : p.types.Recalls types) {a : Address}
    (hagrees : p.types.Agrees (memory.typeOf a))
    (hconforms : ∀ f, memory.value? a = some (.callable f) → f.Conforms p.types) :
    p.types.Recalls (compileSlot p.opcodes p.modules memory a types).2 ∧
      p.CompiledSlot (memory.typeOf a) (compileSlot p.opcodes p.modules memory a types).1
        (memory.value? a) := by
  rcases compileSlot_cases memory ht a with
    ⟨f, expected, result, hvalue, hsig, heq⟩ | ⟨hnone, found, heq⟩
  · rw [heq, hvalue]
    exact hp.compile hover ht (hconforms f hvalue) hagrees hsig a.index?
  · rw [heq]
    exact ⟨ht, compiledSlot_error hnone⟩

end Program

namespace Models

variable {p : Program} {terms : List Term} {m : Machine}

lemma over_constants (hp : p.Sound) (h : Models p terms m) : p.constants.Over m.store.memory :=
  hp.memory.trans h.memory

lemma conforms (hp : p.Sound) (h : Models p terms m) {i : Nat} {t : Term}
    (ht : terms[i]? = some t) {f : Callable}
    (hf : m.store.memory.value? (.at i) = some (.callable f)) : f.Conforms p.types := by
  obtain ⟨head, hrep, hy⟩ := h.known i t _ ht hf
  cases hrep
  exact hp.conforms hy

lemma compile (hp : p.Sound) (h : Models p terms m) {i : Nat} {t : Term}
    (ht : terms[i]? = some t) :
    let r := Machine.compile (.at i) m
    p.CompiledSlot (p.typeOf t) r.1 (m.store.memory.value? (.at i)) ∧
      Models p terms r.2 ∧ Grows terms m terms r.2 := by
  intro r
  have htype := h.typed i t ht
  have hagrees := h.agrees t (List.mem_of_getElem? ht)
  obtain ⟨hrecalls, hcompiled⟩ := hp.compileSlot (h.over_constants hp) h.recalls (htype ▸ hagrees)
    fun f hf => h.conforms hp ht hf
  rw [← h.opcodes, ← h.modules] at hrecalls hcompiled
  refine ⟨htype ▸ hcompiled, h.congr _ rfl rfl hrecalls h.compiled rfl⟩

lemma compileAt (hp : p.Sound) (h : Models p terms m) {i : Nat} (hi : i < p.constants.slots.size) :
    let r := Machine.compileAt i m
    p.Cached i r.1 ∧ Models p terms r.2 ∧ Grows terms m terms r.2 := by
  intro r
  have hr : r = Machine.compileAt i m := rfl
  rw [Machine.compileAt] at hr
  cases hc : m.compiled.get? i with
  | some c =>
    rw [hc] at hr
    rw [hr]
    exact ⟨h.compiled i c hc, h, .refl _ _⟩
  | none =>
    have hover := h.over_constants hp
    have ht := h.base i (lt_of_lt_of_le hi hp.memory.size_le)
    rw [hc, Memory.address?_of_lt (lt_of_lt_of_le hi hover.size_le)] at hr
    obtain ⟨hcompiled, hmodels, hgrows⟩ := h.compile hp ht
    rw [← h.typed i _ ht, hover.typeOf hi, hover.value? hi] at hcompiled
    rw [hr]
    refine ⟨hcompiled, ?_⟩
    obtain ⟨hmodels', hgrows'⟩ := hmodels.congr { (Machine.compile (.at i) m).2 with
      compiled := (Machine.compile (.at i) m).2.compiled.insert i (Machine.compile (.at i) m).1 }
      rfl rfl hmodels.recalls (fun j c hj => by
        rw [KeyMap.get?_insert] at hj
        split at hj
        · next heq =>
          cases hj
          exact heq ▸ hcompiled
        · exact hmodels.compiled j c hj) rfl
    exact ⟨hmodels', hgrows.trans hgrows'⟩

lemma accept (hp : p.Sound) (h : Models p terms m) {call : CompiledCall}
    (hexpected : p.types.Agrees call.argumentType) {argument : Address} {x : Term}
    (hx : Stands terms m argument x) :
    let r := Machine.accept call argument m
    (r.1 = .ok () ↔ (p.typeOf x).isRuntimeDetermined = true ∨
        p.suits (p.typeOf x) call.argumentType = true) ∧
      Models p terms r.2 ∧ Grows terms m terms r.2 := by
  dsimp only [Machine.accept]
  rw [h.typeOf hx]
  cases (p.typeOf x).isRuntimeDetermined with
  | true => exact ⟨iff_of_true rfl (.inl rfl), h, .refl _ _⟩
  | false =>
    have hagrees := h.agrees_of_stands hx
    have hsuits := hp.suits_iff h.recalls hagrees hexpected (m.store.memory.sourceOf argument)
    have hrecalls := (h.recalls.matchTypes hp.tidy (.inl hagrees) (.inl hexpected)
      (m.store.memory.sourceOf argument)).2
    refine ⟨?_, h.congr _ rfl rfl hrecalls h.compiled rfl⟩
    rw [hsuits, or_iff_right Bool.false_ne_true]
    exact Iff.rfl

/-- A compiled call is set up when its argument is accepted, and then its result's slot stands for the
result. -/
lemma construct (hp : p.Sound) (h : Models p terms m) {call : CompiledCall}
    (hc : call.callable.Conforms p.types)
    (hfits : Fits p.opcodes p.constants call.callable call.nodes)
    (hexpected : p.types.Agrees call.argumentType) {argument : Address} {x : Term}
    (hx : Stands terms m argument x) :
    ((p.typeOf x).isRuntimeDetermined = true ∨ p.suits (p.typeOf x) call.argumentType = true) ∧
        (∃ result m' terms', Machine.construct call argument m =
          (.ok (.evaluate result .shallow), m') ∧ Models p terms' m' ∧ Grows terms m terms' m' ∧
          Stands terms' m' result (p.reference call.callable x Callable.resultCell)) ∨
      ((p.typeOf x).isRuntimeDetermined = false ∧ p.suits (p.typeOf x) call.argumentType = false) ∧
        ∃ q m', Machine.construct call argument m = (.error q, m') := by
  obtain ⟨hiff, hm₁, grows⟩ := h.accept hp hexpected hx
  cases haccept : Machine.accept call argument m with
  | mk o m₁ =>
    rw [haccept] at hiff hm₁ grows
    cases o with
    | ok _ =>
      obtain ⟨node, hnode⟩ := Option.isSome_iff_exists.mp hfits.result
      obtain ⟨result, hresult, hstands⟩ :=
        stands_activated hp hm₁ hfits (grows.stands hx) hnode
      exact .inl ⟨hiff.mp rfl, result, _, _, Machine.construct_of_accepted haccept hresult,
        models_activated hp hm₁ hc hfits (grows.stands hx),
        grows.trans (grows_activated argument x hm₁ hfits), hstands⟩
    | error q =>
      have hno := mt hiff.mpr nofun
      rw [not_or, Bool.not_eq_true, Bool.not_eq_true] at hno
      exact .inr ⟨hno, _, _, Machine.construct_of_refused haccept⟩

end Models

namespace Machine

lemma call_of_error {i : Nat} {argument target : Address} {m : Machine} {problems : List Problem}
    (h : (compileFunction i m).1 = .error problems) :
    call (.at i) argument target m = (.error ((firstOf problems).getD
      ⟨.notCallable, m.store.memory.sourceOf (.at i), []⟩), (compileFunction i m).2) := by
  rw [call_eq, RunM.run_bind, RunM.run_memory, RunM.run_bind, compilation, h]
  rfl

lemma call_of_ok {i : Nat} {argument target : Address} {m : Machine} {compiled : CompiledCall}
    (h : (compileFunction i m).1 = .ok compiled) :
    call (.at i) argument target m =
      callCompiled compiled argument target (compileFunction i m).2 := by
  rw [call_eq, RunM.run_bind, RunM.run_memory, RunM.run_bind, compilation, h]

end Machine

namespace Models

variable {p : Program} {terms : List Term} {m : Machine}

lemma compileFunction (hp : p.Sound) (h : Models p terms m) {i : Nat} {g : Term}
    (hg : terms[i]? = some g) :
    let r := Machine.compileFunction i m
    p.CompiledSlot (p.typeOf g) r.1 (m.store.memory.value? (.at i)) ∧
      Models p terms r.2 ∧ Grows terms m terms r.2 := by
  have hover := h.over_constants hp
  dsimp only [Machine.compileFunction]
  split
  · next hi =>
    have hlt : i < p.constants.slots.size := lt_of_lt_of_le (hover.constants ▸ hi) hp.constants
    rw [← h.typed i g hg, hover.typeOf hlt, hover.value? hlt]
    exact h.compileAt hp hlt
  · exact h.compile hp hg

lemma tell (h : Models p terms m) (f : Memory → Notice) :
    Models p terms (RunM.tell f m).2 ∧ Grows terms m terms (RunM.tell f m).2 := by
  rw [RunM.tell]
  split
  · exact ⟨h, .refl _ _⟩
  · exact h.congr _ rfl rfl h.recalls h.compiled rfl

/-- **A call** goes on with the result of the function it calls, if there is one that accepts its
argument. -/
lemma call (hp : p.Sound) (h : Models p terms m) {function argument : Address} {g y : Term}
    (hg : Stands terms m function g) (hy : Stands terms m argument y) {v : Value} {head : Head}
    (hv : m.store.memory.value? function = some v) (hrep : Represents (Stands terms m) v head)
    (hyields : p.Yields g head) (target : Address) :
    (∃ c, head = .callable c ∧ p.accepts c (p.typeOf g) (p.typeOf y) = true ∧
        ∃ result m' terms', Machine.call function argument target m =
          (.action ((Action.evaluate result .shallow).andThen (.leave target c)), m') ∧
          Models p terms' m' ∧ Grows terms m terms' m' ∧
          Stands terms' m' result (p.reference c y Callable.resultCell)) ∨
      (∀ c, head = .callable c → p.accepts c (p.typeOf g) (p.typeOf y) = false) ∧
        ∃ q m', Machine.call function argument target m = (.error q, m') := by
  obtain ⟨i, rfl, hterm, -⟩ := hg
  obtain ⟨hcompiled, hm₁, hgrows₁⟩ := h.compileFunction hp hterm
  rw [hv] at hcompiled
  cases hc : (Machine.compileFunction i m).1 with
  | error problems =>
    refine .inr ⟨fun c hhead => ?_, _, _, Machine.call_of_error hc⟩
    subst hhead
    cases hrep
    rw [hc] at hcompiled
    rw [← Bool.not_eq_true, Program.accepts_iff]
    rintro ⟨expected, result, hsig, hcompiles, -⟩
    rw [hcompiled expected result hsig] at hcompiles
    cases hcompiles
  | ok compiled =>
    rw [hc] at hcompiled
    cases v with
    | callable c =>
      cases hrep
      obtain ⟨rfl, hfits, result, hsig, hcompiles⟩ := hcompiled
      have hexpected := (hp.agrees_signature (h.agrees g (List.mem_of_getElem? hterm)) hsig).1
      rw [Machine.call_of_ok hc, Machine.callCompiled, RunM.run_bind]
      rcases hm₁.construct hp (hp.conforms hyields) hfits hexpected (hgrows₁.stands hy) with
        ⟨hok, result, m', terms', heq, hm', grows, hstands⟩ | ⟨hno, q, m', heq⟩
      · refine .inl ⟨_, rfl, Program.accepts_iff.mpr ⟨_, _, hsig, hcompiles, hok⟩, result, ?_⟩
        obtain ⟨htell, htells⟩ := hm'.tell fun _ => .started compiled.callable
        refine ⟨_, terms', ?_, htell, hgrows₁.trans (grows.trans htells), htells.stands hstands⟩
        rw [heq]
        rfl
      · refine .inr ⟨fun c hhead => ?_, q, m', ?_⟩
        · cases hhead
          rw [← Bool.not_eq_true, Program.accepts_iff]
          rintro ⟨expected, result', hsig', -, hok⟩
          rw [hsig] at hsig'
          cases hsig'
          rw [hno.1, hno.2] at hok
          simp at hok
        · rw [heq]
          rfl
    | _ =>
      obtain ⟨found, hfound⟩ := hcompiled
      cases hfound

end Models

end CellMachine
