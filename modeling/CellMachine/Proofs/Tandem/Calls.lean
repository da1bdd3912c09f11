import CellMachine.Proofs.Tandem.Slots

/-!
Calls of two machines side by side: one compilation is as good as another, whether it was made before
or is made now, an argument is accepted on both sides or on neither, and the slots that a call sets up
are paired.
-/

namespace CellMachine

namespace Compilation.Same

variable {c c' c'' : Compilation}

lemma symm (h : c.Same c') : c'.Same c := by
  cases c <;> cases c'
  · exact trivial
  · exact h.elim
  · exact h.elim
  · exact Eq.symm h

lemma trans (h : c.Same c') (h' : c'.Same c'') : c.Same c'' := by
  cases c <;> cases c' <;> cases c''
  case error.error.error => exact trivial
  case ok.ok.ok => exact Eq.trans h h'
  all_goals first | exact h.elim | exact h'.elim

lemma exists_ok {call : CompiledCall} (h : c.Same c') (hc : c = .ok call) :
    ∃ call', c' = .ok call' ∧ call'.callable = call.callable ∧
      call'.argumentType = call.argumentType ∧ call'.nodes = call.nodes := by
  subst hc
  cases c' with
  | error found => exact h.elim
  | ok call' =>
    have heq : { call with index := none } = { call' with index := none } := h
    injection heq with _ hcallable hargument _ hnodes
    exact ⟨call', rfl, hcallable.symm, hargument.symm, hnodes.symm⟩

end Compilation.Same

namespace Tandem

open Machine

variable {T : Tandem} {D : Nat → Nat → Prop} {m n : Machine}

/-- What a compiled call has that is made for a tandem. -/
structure Usable (T : Tandem) (call : CompiledCall) : Prop where
  admits : T.admits call.callable
  fits : Fits (.ofList Standard.opcodes) T.constants call.callable call.nodes
  agrees : T.types.Agrees call.argumentType

/-! ### Compilations -/

/-- What the machines compile with. -/
def program (T : Tandem) : Program :=
  ⟨.ofList Standard.opcodes, T.modules, T.types, T.constants, T.constants⟩

/-- A callable compiles to one call wherever it is found. -/
lemma compileSlot_same (hT : T.Sound) {memory memory' : Memory} (hover : T.constants.Over memory)
    (hover' : T.constants.Over memory') {types types' : Registry} (ht : T.types.Recalls types)
    (ht' : T.types.Recalls types') {a a' : Address} (htype : memory'.typeOf a' = memory.typeOf a)
    (hagrees : T.types.Agrees (memory.typeOf a))
    (hvalue : ∀ c, memory'.value? a' = some (.callable c) ↔ memory.value? a = some (.callable c))
    (hadmits : ∀ c, memory.value? a = some (.callable c) → T.admits c) :
    Compilation.Same (compileSlot (.ofList Standard.opcodes) T.modules memory a types).1
        (compileSlot (.ofList Standard.opcodes) T.modules memory' a' types').1 ∧
      T.types.Recalls (compileSlot (.ofList Standard.opcodes) T.modules memory a types).2 := by
  rcases Program.compileSlot_cases (p := T.program) memory ht a with
    ⟨f, expected, result, hf, hsig, heq⟩ | ⟨hnone, found, heq⟩
  · rcases Program.compileSlot_cases (p := T.program) memory' ht' a' with
      ⟨f', expected', result', hf', hsig', heq'⟩ | ⟨hnone', -⟩
    · obtain rfl : f = f' := by
        have := hf.symm.trans ((hvalue f').mp hf')
        injection this with this
        injection this
      rw [htype, hsig] at hsig'
      cases hsig'
      obtain ⟨hexpected, hresult⟩ :=
        Program.agrees_signature (p := T.program) hT.around.tidy hagrees hsig
      have hagree := compile_agree hT.around (hT.typed f (hadmits f hf)) hexpected hresult hover hover'
        ht ht' a.index? a'.index?
      change Compilation.Same (compileSlot T.program.opcodes T.program.modules memory a types).1
        (compileSlot T.program.opcodes T.program.modules memory' a' types').1 ∧
        T.types.Recalls (compileSlot T.program.opcodes T.program.modules memory a types).2
      rw [heq, heq']
      exact hagree
    · have hnosig := hnone' f ((hvalue f).mpr hf)
      rw [htype, hsig] at hnosig
      cases hnosig
  · change Compilation.Same (compileSlot T.program.opcodes T.program.modules memory a types).1
      (compileSlot T.program.opcodes T.program.modules memory' a' types').1 ∧
      T.types.Recalls (compileSlot T.program.opcodes T.program.modules memory a types).2
    rw [heq]
    refine ⟨?_, ht⟩
    rcases Program.compileSlot_cases (p := T.program) memory' ht' a' with
      ⟨f', expected', result', hf', hsig', -⟩ | ⟨-, found', heq'⟩
    · have hnosig := hnone f' ((hvalue f').mp hf')
      rw [← htype, hsig'] at hnosig
      cases hnosig
    · rw [heq']
      exact trivial

lemma usable_compileSlot (hT : T.Sound) {memory : Memory} (hover : T.constants.Over memory)
    {types : Registry} (ht : T.types.Recalls types) {a : Address}
    (hagrees : T.types.Agrees (memory.typeOf a))
    (hadmits : ∀ c, memory.value? a = some (.callable c) → T.admits c) {call : CompiledCall}
    (h : (compileSlot (.ofList Standard.opcodes) T.modules memory a types).1 = .ok call) :
    T.Usable call := by
  change (compileSlot T.program.opcodes T.program.modules memory a types).1 = .ok call at h
  rcases Program.compileSlot_cases (p := T.program) memory ht a with
    ⟨f, expected, result, hf, hsig, heq⟩ | ⟨-, found, heq⟩
  · rw [heq] at h
    obtain ⟨rfl, hargument, hfits⟩ :=
      CompileEnv.fits_compile (fun _ _ hop => (hT.around.opcodes _ _ hop).keeps) h
    obtain ⟨hexpected, -⟩ :=
      Program.agrees_signature (p := T.program) hT.around.tidy hagrees hsig
    exact ⟨hadmits _ hf, hfits.of_over hover hT.around.rooted, hargument ▸ hexpected⟩
  · rw [heq] at h
    cases h

lemma Usable.of_same {c c' : Compilation} {call : CompiledCall} (hsame : c.Same c')
    (hc : c = .ok call) (h : ∀ call', c' = .ok call' → T.Usable call') : T.Usable call := by
  obtain ⟨call', hc', hcallable, hargument, hnodes⟩ := hsame.exists_ok hc
  obtain ⟨hadmits, hfits, hagrees⟩ := h call' hc'
  rw [hcallable] at hadmits
  rw [hcallable, hnodes] at hfits
  rw [hargument] at hagrees
  exact ⟨hadmits, hfits, hagrees⟩

lemma callable_iff (h : T.Abreast D m n) {a b : Address} (hab : Paired D a b) (c : Callable) :
    n.store.memory.value? b = some (.callable c) ↔ m.store.memory.value? a = some (.callable c) := by
  have hvalue := h.value? hab
  generalize m.store.memory.value? a = o at hvalue
  generalize n.store.memory.value? b = o' at hvalue
  cases hvalue with
  | none => simp
  | some hvw => cases hvw <;> simp

lemma admits_of_value (h : T.Abreast D m n) {a b : Address} (hab : Paired D a b) {c : Callable}
    (hc : m.store.memory.value? a = some (.callable c)) : T.admits c := by
  obtain ⟨w, -, hw⟩ := h.exists_value hab hc
  obtain - | - | hadmits := hw
  exact hadmits

section Machines

variable {config : Config}

/-- A slot is compiled to what its callable compiles to elsewhere. -/
lemma compile_same (hT : T.Sound) (h : T.Rides config m) {memory : Memory}
    (hover : T.constants.Over memory) {types : Registry} (ht : T.types.Recalls types)
    {a a' : Address} (htype : memory.typeOf a' = m.store.memory.typeOf a)
    (hagrees : T.types.Agrees (m.store.memory.typeOf a))
    (hvalue : ∀ c, memory.value? a' = some (.callable c) ↔
      m.store.memory.value? a = some (.callable c))
    (hadmits : ∀ c, m.store.memory.value? a = some (.callable c) → T.admits c) :
    (compile a m).1.Same
        (compileSlot (.ofList Standard.opcodes) T.modules memory a' types).1 ∧
      T.Still config m (compile a m).2 ∧ ∀ call, (compile a m).1 = .ok call → T.Usable call := by
  have heq : compile a m = ((compileSlot (.ofList Standard.opcodes) T.modules m.store.memory a
      m.store.types).1, { m with store := { m.store with types := (compileSlot
        (.ofList Standard.opcodes) T.modules m.store.memory a m.store.types).2 } }) := by
    rw [← h.opcodes, ← h.modules]
    rfl
  obtain ⟨hsame, hrecalls⟩ :=
    compileSlot_same hT h.memory hover h.recalls ht htype hagrees hvalue hadmits
  rw [heq]
  exact ⟨hsame, h.still rfl rfl hrecalls h.compiled rfl,
    fun call hcall => usable_compileSlot hT h.memory h.recalls hagrees hadmits hcall⟩

lemma compileAt_same (hT : T.Sound) (h : T.Rides config m) {i : Nat}
    (hi : i < T.constants.slots.size) (hadmits : ∀ c, T.constants.value? (.at i) =
      some (.callable c) → T.admits c) :
    (compileAt i m).1.Same (T.compilation i) ∧ T.Still config m (compileAt i m).2 ∧
      ∀ call, (compileAt i m).1 = .ok call → T.Usable call := by
  have hagrees := hT.around.constants i hi
  have usable : ∀ call, T.compilation i = .ok call → T.Usable call := fun call hcall =>
    usable_compileSlot hT (.refl _) (.fresh _) hagrees hadmits hcall
  unfold compileAt
  cases hc : m.compiled.get? i with
  | some c =>
    have hsame := h.compiled i c hc
    exact ⟨hsame, h.still rfl rfl h.recalls h.compiled rfl,
      fun call hcall => .of_same hsame hcall usable⟩
  | none =>
    have htype := h.memory.typeOf hi
    have hvalue := h.memory.value? hi
    rw [Memory.address?_of_lt (lt_of_lt_of_le hi h.memory.size_le)]
    have hcallable : ∀ c, T.constants.value? (.at i) = some (.callable c) ↔
        m.store.memory.value? (.at i) = some (.callable c) := fun c => by rw [hvalue]
    obtain ⟨hsame, hstill, -⟩ := compile_same hT h (.refl T.constants) (.fresh T.types) htype.symm
      (htype ▸ hagrees) hcallable (fun c hc => hadmits c (hvalue ▸ hc))
    refine ⟨hsame, ⟨?_, hstill.memory, hstill.pending⟩, fun call hcall => .of_same hsame hcall usable⟩
    refine { hstill.rides with compiled := fun j c hj => ?_ }
    change (KeyMap.insert i _ (compile (.at i) m).2.compiled).get? j = some c at hj
    rw [KeyMap.get?_insert] at hj
    split at hj
    · next heq =>
      cases hj
      exact heq ▸ hsame
    · exact hstill.rides.compiled j c hj

end Machines

lemma Abreast.compileFunction (hT : T.Sound) (h : T.Abreast D m n) {i j : Nat} (hij : D i j) :
    (compileFunction i m).1.Same (compileFunction j n).1 ∧
      T.Still T.leading m (compileFunction i m).2 ∧
      T.Still T.following n (compileFunction j n).2 ∧
      ∀ call, (compileFunction i m).1 = .ok call → T.Usable call := by
  have hconstants : m.store.memory.constants = T.constants.constants := h.leader.memory.constants
  have hconstants' : n.store.memory.constants = T.constants.constants := h.follower.memory.constants
  have hpaired : Paired D (.at i) (.at j) := ⟨hij⟩
  unfold Machine.compileFunction
  rw [hconstants, hconstants']
  -- The slots of constants are paired with themselves, and with nothing else.
  by_cases hi : i < T.constants.constants
  · have hlt : i < T.constants.slots.size := lt_of_lt_of_le hi hT.size
    obtain rfl : i = j := h.unique.2 (h.base i hlt) hij
    have hadmits : ∀ c, T.constants.value? (.at i) = some (.callable c) → T.admits c :=
      fun c hc => admits_of_value h hpaired ((h.leader.memory.value? hlt).trans hc)
    obtain ⟨hsame, hstill, husable⟩ := compileAt_same hT h.leader hlt hadmits
    obtain ⟨hsame', hstill', -⟩ := compileAt_same hT h.follower hlt hadmits
    rw [if_pos hi, if_pos hi]
    exact ⟨hsame.trans hsame'.symm, hstill, hstill', husable⟩
  · have hj : ¬ j < T.constants.constants := by
      intro hj
      have hlt : j < T.constants.slots.size := lt_of_lt_of_le hj hT.size
      exact hi (h.unique.1 (h.base j hlt) hij ▸ hj)
    have hadmits := fun c => admits_of_value h hpaired (c := c)
    have hvalue := fun c => callable_iff h hpaired c
    obtain ⟨hsame, hstill, husable⟩ := compile_same hT h.leader h.follower.memory h.follower.recalls
      (h.typeOf hpaired) (h.agrees hpaired) hvalue hadmits
    obtain ⟨-, hstill', -⟩ := compile_same hT h.follower h.leader.memory h.leader.recalls
      (h.typeOf hpaired).symm ((h.typeOf hpaired).symm ▸ h.agrees hpaired)
      (fun c => (hvalue c).symm) (fun c hc => hadmits c ((hvalue c).mp hc))
    have heq : (compile (.at j) n).1 = (compileSlot (.ofList Standard.opcodes) T.modules
        n.store.memory (.at j) n.store.types).1 := by
      rw [← h.follower.opcodes, ← h.follower.modules]
      rfl
    rw [if_neg hi, if_neg hj, heq]
    exact ⟨hsame, hstill, hstill', husable⟩

/-! ### Activations -/

section Activating

variable {call call' : CompiledCall} {argument argument' : Address}

lemma rides_activated {config : Config} (h : T.Rides config m) (hasc : call.nodes.Ascending) :
    T.Rides config (m.activated call argument) := by
  have hact := activates_activate argument call.nodes m.store
  refine ⟨h.opcodes, h.modules, h.config, ?_, h.compiled, h.memory.trans hact.memory, ?_⟩
  · show T.types.Recalls (activate argument call.nodes m.store).2.types
    rw [hact.types]
    exact h.recalls
  · intro i q hq
    show i < (activate argument call.nodes m.store).2.memory.slots.size
    rcases exists_entered hq with hq | ⟨e, he, hnew, hslot, -⟩
    · exact lt_of_lt_of_le (h.pending i q hq) hact.memory.size_le
    · obtain ⟨k, rfl, hk⟩ := le_of_new hact hasc he hnew hslot
      have := (List.getElem?_eq_some_iff.mp hk).1
      have := hact.size
      omega

/-- The slot of a new node, and that it is entered. -/
lemma entered_of_new (call : CompiledCall) (argument : Address) (hasc : call.nodes.Ascending)
    {e : Nat × Node} (he : e ∈ call.nodes) (hnew : e.2.op.isNew = true) {i : Nat}
    (hi : (activate argument call.nodes m.store).1.get? e.1 = some (.at i)) :
    (m.activated call argument).store.memory.get? (.at i) = some ⟨e.2.cell, none⟩ ∧
      (m.activated call argument).pending.get? i =
        some ⟨⟨call, (activate argument call.nodes m.store).1⟩, e.1⟩ := by
  have hact := activates_activate argument call.nodes m.store
  obtain ⟨k, rfl, hk⟩ := le_of_new hact hasc he hnew hi
  exact ⟨hact.new k e hk, pending_activated_of_new call argument hasc he hnew hi⟩

lemma entered_of_old (call : CompiledCall) (argument : Address) (hasc : call.nodes.Ascending) {i : Nat}
    (hi : i < m.store.memory.slots.size) :
    (m.activated call argument).store.memory.get? (.at i) = m.store.memory.get? (.at i) ∧
      (m.activated call argument).pending.get? i = m.pending.get? i :=
  ⟨(activates_activate argument call.nodes m.store).memory.get? hi,
    pending_activated_of_lt call argument hasc hi⟩

/-- The pairs after an activation: the slots of one new node belong together. -/
def Joined (D : Nat → Nat → Prop) (nodes : KeyMap Nat Node) (slots slots' : KeyMap Nat Address)
    (i j : Nat) : Prop :=
  D i j ∨ ∃ e ∈ nodes, e.2.op.isNew = true ∧ slots.get? e.1 = some (.at i) ∧
    slots'.get? e.1 = some (.at j)

lemma rel_activate (h : T.Abreast D m n) (husable : T.Usable call)
    (hargument : Paired D argument argument') (k : Nat) :
    Option.Rel (Paired (Joined D call.nodes (activate argument call.nodes m.store).1
        (activate argument' call.nodes n.store).1))
      ((activate argument call.nodes m.store).1.get? k)
      ((activate argument' call.nodes n.store).1.get? k) := by
  have hact := activates_activate argument call.nodes m.store
  have hact' := activates_activate argument' call.nodes n.store
  have hmono : ∀ i j, D i j → Joined D call.nodes (activate argument call.nodes m.store).1
      (activate argument' call.nodes n.store).1 i j := fun _ _ => .inl
  cases hk : call.nodes.get? k with
  | none =>
    have hnone := KeyMap.rel_get? hact.slots k
    have hnone' := KeyMap.rel_get? hact'.slots k
    rw [hk] at hnone hnone'
    cases hs : (activate argument call.nodes m.store).1.get? k with
    | some a =>
      rw [hs] at hnone
      cases hnone
    | none =>
      cases hs' : (activate argument' call.nodes n.store).1.get? k with
      | some a =>
        rw [hs'] at hnone'
        cases hnone'
      | none => exact .none
  | some node =>
    obtain ⟨a, ha, hplaced⟩ := exists_placed hact hk
    obtain ⟨a', ha', hplaced'⟩ := exists_placed hact' hk
    rw [ha, ha']
    refine .some ?_
    rcases reference_of_node (p := T.program) (x := .slot argument) husable.fits hk with
      ⟨hop, -⟩ | ⟨c, hop, hc, -⟩ | ⟨hnew, -⟩
    · simp only [Placed, hop] at hplaced hplaced'
      rw [hplaced, hplaced']
      exact hargument.mono hmono
    · simp only [Placed, hop] at hplaced hplaced'
      rw [hplaced, hplaced']
      exact ⟨.inl (h.base c hc)⟩
    · obtain ⟨i, rfl, -⟩ := (placed_iff_of_new hnew).mp hplaced
      obtain ⟨j, rfl, -⟩ := (placed_iff_of_new hnew).mp hplaced'
      exact ⟨.inr ⟨(k, node), KeyMap.mem_of_get? hk, hnew, ha, ha'⟩⟩

/-- A pair of slots of a new node says which node it is. -/
lemma locate_joined (hasc : call.nodes.Ascending) {i j : Nat}
    (hij : Joined D call.nodes (activate argument call.nodes m.store).1
      (activate argument' call.nodes n.store).1 i j) :
    D i j ∨ ∃ k k' e,
      i = m.store.memory.slots.size + k ∧ j = n.store.memory.slots.size + k' ∧
      (newNodes call.nodes)[k]? = some e ∧ (newNodes call.nodes)[k']? = some e ∧
      (activate argument call.nodes m.store).1.get? e.1 = some (.at i) ∧
      (activate argument' call.nodes n.store).1.get? e.1 = some (.at j) := by
  rcases hij with hij | ⟨e, he, hnew, hi, hj⟩
  · exact .inl hij
  · obtain ⟨k, hk, hek⟩ := le_of_new (activates_activate argument call.nodes m.store) hasc he hnew hi
    obtain ⟨k', hk', hek'⟩ :=
      le_of_new (activates_activate argument' call.nodes n.store) hasc he hnew hj
    exact .inr ⟨k, k', e, hk, hk', hek, hek', hi, hj⟩

lemma biUnique_joined (h : T.Abreast D m n) (hasc : call.nodes.Ascending) :
    Relator.BiUnique (Joined D call.nodes (activate argument call.nodes m.store).1
      (activate argument' call.nodes n.store).1) := by
  constructor
  · intro i i' j hij hij'
    rcases locate_joined hasc hij with hij | ⟨k, k', e, -, rfl, -, hek', hi, -⟩
    · rcases locate_joined hasc hij' with hij' | ⟨_, l', _, -, rfl, -⟩
      · exact h.unique.1 hij hij'
      · have := (h.lt_size hij).2
        omega
    · rcases locate_joined hasc hij' with hij' | ⟨_, l', e', -, heq, -, hel', hi', -⟩
      · have := (h.lt_size hij').2
        omega
      · obtain rfl : k' = l' := by omega
        cases hek'.symm.trans hel'
        cases hi.symm.trans hi'
        rfl
  · intro i j j' hij hij'
    rcases locate_joined hasc hij with hij | ⟨k, k', e, rfl, -, hek, -, -, hj⟩
    · rcases locate_joined hasc hij' with hij' | ⟨l, _, _, rfl, -⟩
      · exact h.unique.2 hij hij'
      · have := (h.lt_size hij).1
        omega
    · rcases locate_joined hasc hij' with hij' | ⟨l, _, e', heq, -, hel, -, -, hj'⟩
      · have := (h.lt_size hij').1
        omega
      · obtain rfl : k = l := by omega
        cases hek.symm.trans hel
        cases hj.symm.trans hj'
        rfl

/-- **Two applications of one compiled call** leave the machines side by side: what the nodes of the
call have for slots is paired. -/
lemma Abreast.activated (hT : T.Sound) (h : T.Abreast D m n) (husable : T.Usable call)
    (hcallable : call'.callable = call.callable) (hnodes : call'.nodes = call.nodes)
    (hargument : Paired D argument argument') :
    ∃ D', T.Abreast D' (m.activated call argument) (n.activated call' argument') ∧
      Onward D m n D' (m.activated call argument) (n.activated call' argument') ∧
      ∀ k, Option.Rel (Paired D') ((activate argument call.nodes m.store).1.get? k)
        ((activate argument' call'.nodes n.store).1.get? k) := by
  obtain ⟨index', callable', argumentType', resultType', nodes'⟩ := call'
  obtain rfl : nodes' = call.nodes := hnodes
  have hasc := husable.fits.ascending
  have hact := activates_activate argument call.nodes m.store
  have hact' := activates_activate argument' call.nodes n.store
  have hrel := rel_activate h husable hargument
  refine ⟨Joined D call.nodes (activate argument call.nodes m.store).1
    (activate argument' call.nodes n.store).1, ⟨rides_activated h.leader hasc,
    rides_activated h.follower hasc, fun i hi => .inl (h.base i hi), biUnique_joined h hasc, ?_⟩,
    ⟨fun _ _ => .inl, ?_, Abreast.advances_over hact.memory fun i hi =>
      (entered_of_old call argument hasc hi).2, Abreast.advances_over hact'.memory fun i hi =>
      (entered_of_old ⟨index', callable', argumentType', resultType', call.nodes⟩ argument' hasc
        hi).2⟩, hrel⟩
  · rintro i j (hij | ⟨e, he, hnew, hi, hj⟩)
    · obtain ⟨s, s', hs, hs', hsame⟩ := h.slots i j hij
      obtain ⟨hget, hpending⟩ := entered_of_old call argument hasc (h.lt_size hij).1
      obtain ⟨hget', hpending'⟩ := entered_of_old ⟨index', callable', argumentType',
        resultType', call.nodes⟩ argument' hasc (h.lt_size hij).2
      refine ⟨s, s', hget.trans hs, hget'.trans hs', ?_⟩
      rw [hpending, hpending']
      exact hsame.mono fun _ _ => .inl
    · obtain ⟨hget, hpending⟩ := entered_of_new call argument hasc he hnew hi
      obtain ⟨hget', hpending'⟩ := entered_of_new ⟨index', callable', argumentType',
        resultType', call.nodes⟩ argument' hasc he hnew hj
      refine ⟨_, _, hget, hget', rfl, ?_, .none, ?_, ?_⟩
      · exact (hT.typed _ husable.admits).types _ _ (husable.fits.cell _ _ (hasc.get?_of_mem he))
      · rw [hpending, hpending']
        exact .some ⟨rfl, hcallable, rfl, hrel, husable.admits, husable.fits⟩
      · rw [hpending]
        exact nofun
  · intro i j hij
    rcases locate_joined hasc hij with hij | ⟨k, k', e, rfl, rfl, -⟩
    · exact .inl hij
    · exact .inr ⟨Nat.le_add_right _ _, Nat.le_add_right _ _⟩

/-! ### Calls -/

lemma accept_follows (hT : T.Sound) (h : T.Abreast D m n) (husable : T.Usable call)
    (htype : call'.argumentType = call.argumentType) (hargument : Paired D argument argument') :
    T.Still T.leading m (accept call argument m).2 ∧
      T.Still T.following n (accept call' argument' n).2 ∧
      ((accept call argument m).1 = .ok () → (accept call' argument' n).1 = .ok ()) := by
  have hagrees := h.agrees hargument
  unfold accept
  dsimp only
  rw [h.typeOf hargument, htype]
  split
  · exact ⟨h.leader.still rfl rfl h.leader.recalls h.leader.compiled rfl,
      h.follower.still rfl rfl h.follower.recalls h.follower.compiled rfl, id⟩
  · obtain ⟨hiff, hrecalls⟩ := h.leader.recalls.matchTypes hT.around.tidy (.inl hagrees)
      (.inl husable.agrees) (m.store.memory.sourceOf argument)
    obtain ⟨hiff', hrecalls'⟩ := h.follower.recalls.matchTypes hT.around.tidy (.inl hagrees)
      (.inl husable.agrees) (n.store.memory.sourceOf argument')
    exact ⟨h.leader.still rfl rfl hrecalls h.leader.compiled rfl,
      h.follower.still rfl rfl hrecalls' h.follower.compiled rfl,
      fun hok => hiff'.mpr (hiff.mp hok)⟩

/-- **A call that is set up on one side is set up on the other.** -/
lemma construct_follows (hT : T.Sound) (h : T.Abreast D m n) (husable : T.Usable call)
    (hcallable : call'.callable = call.callable) (htype : call'.argumentType = call.argumentType)
    (hnodes : call'.nodes = call.nodes) (hargument : Paired D argument argument') {action : Action}
    {m' : Machine} (hok : construct call argument m = (.ok action, m')) :
    ∃ D' result result' n', action = .evaluate result .shallow ∧
      construct call' argument' n = (.ok (.evaluate result' .shallow), n') ∧
      T.Abreast D' m' n' ∧ Onward D m n D' m' n' ∧ Paired D' result result' := by
  obtain ⟨m₁, result, hm₁, hresult, rfl, rfl⟩ := construct_cases hok
  obtain ⟨hstill, hstill', haccept⟩ := accept_follows hT h husable htype hargument
  rw [hm₁] at hstill haccept
  obtain ⟨h₁, onward₁⟩ := h.still hstill hstill'
  obtain ⟨D', h₂, onward₂, hrel⟩ := h₁.activated hT husable hcallable hnodes hargument
  obtain ⟨result', hresult', hpaired⟩ := exists_of_rel (hrel _) hresult
  exact ⟨D', result, result', _, rfl, construct_of_accepted (Prod.ext (haccept rfl) rfl) hresult',
    h₂, onward₁.trans onward₂, hpaired⟩

end Activating

/-- **A call that does not fail on one side** goes on with its result on both. -/
lemma call_follows (hT : T.Sound) (h : T.Abreast D m n)
    {function function' argument argument' : Address} (hfunction : Paired D function function')
    (hargument : Paired D argument argument') (target target' : Address) :
    (∃ q m', call function argument target m = (.error q, m')) ∨
    ∃ D' result result' f m' n',
      call function argument target m =
        (.action ((Action.evaluate result .shallow).andThen (.leave target f)), m') ∧
      call function' argument' target' n =
        (.action ((Action.evaluate result' .shallow).andThen (.leave target' f)), n') ∧
      T.Abreast D' m' n' ∧ Onward D m n D' m' n' ∧ Paired D' result result' := by
  obtain ⟨hij⟩ := hfunction
  rename_i i j
  obtain ⟨hsame, hstill, hstill', husable⟩ := h.compileFunction hT hij
  obtain ⟨h₁, onward₁⟩ := h.still hstill hstill'
  cases hc : (compileFunction i m).1 with
  | error problems => exact .inl ⟨_, _, call_of_error hc⟩
  | ok compiled =>
    obtain ⟨compiled', hc', hcallable, htype, hnodes⟩ := hsame.exists_ok hc
    rw [call_of_ok hc, callCompiled, RunM.run_bind, call_of_ok hc', callCompiled, RunM.run_bind]
    cases hconstruct : construct compiled argument (compileFunction i m).2 with
    | mk o m₂ =>
      cases o with
      | error p => exact .inl ⟨_, _, rfl⟩
      | ok action =>
        obtain ⟨D', result, result', n', rfl, heq, h₂, onward₂, hpaired⟩ :=
          construct_follows hT h₁ (husable _ hc) hcallable htype hnodes (onward₁.paired hargument)
            hconstruct
        obtain ⟨h₃, onward₃⟩ :=
          h₂.tell (fun _ => .started compiled.callable) fun _ => .started compiled'.callable
        rw [heq, ← hcallable]
        exact .inr ⟨D', result, result', compiled'.callable, _, _, rfl, rfl, hcallable ▸ h₃,
          onward₁.trans (onward₂.trans (hcallable ▸ onward₃)), onward₃.paired hpaired⟩

end Tandem

end CellMachine
