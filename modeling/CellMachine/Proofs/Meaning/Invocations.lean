import CellMachine.Proofs.Meaning.Resolution

/-!
Invocations of opcodes: once the arguments are there, an invocation goes on as its opcode's answer says.
-/

namespace CellMachine

variable {p : Program} {terms : List Term} {m : Machine}

lemma Argued.grows {terms' : List Term} {m' : Machine} (h : Grows terms m terms' m')
    {d : Argument × Address} {e : Term × Option Head} (he : Argued terms m d e) :
    Argued terms' m' d e := by
  cases he with
  | lazy hd ha => exact .lazy hd (h.stands ha)
  | known hd ha hv hrep =>
    obtain ⟨i, rfl, -, -⟩ := id ha
    exact .known hd (h.stands ha) (h.values i _ hv) (h.represents hrep)

lemma Models.tellOpcode (h : Models p terms m) (f : Memory → Notice) :
    Models p terms (RunM.tellOpcode f m).2 ∧ Grows terms m terms (RunM.tellOpcode f m).2 := by
  rw [RunM.tellOpcode]
  split
  · exact h.congr _ rfl rfl h.recalls h.compiled rfl
  · exact ⟨h, .refl _ _⟩

lemma unready_eq_none {i : Invocation} {args : List (Term × Option Head)}
    (hargs : List.Forall₂ (Argued terms m) (i.opcode.signature.arguments.zip i.args) args) :
    i.unready m.store.memory = none := by
  rw [Invocation.unready, List.findIdx?_eq_none_iff]
  generalize i.opcode.signature.arguments.zip i.args = l at hargs
  induction hargs with
  | nil => exact List.forall_mem_nil _
  | cons he _ ih =>
    refine List.forall_mem_cons.mpr ⟨?_, ih⟩
    cases he with
    | lazy hd _ => rw [hd]; rfl
    | known _ _ hv _ => simp [Memory.isEvaluated, hv]

namespace Machine

lemma invoke_of_ready {i : Invocation} (hready : i.unready m.store.memory = none)
    (hconfig : m.setting.config = {}) :
    let m₁ := (RunM.tellOpcode (fun _ => .opcodeStarted i.function i.index i.cell) m).2
    let r := i.opcode.attempt (frameOf i m) m₁.store
    invoke i m = proceed i (frameOf i m) r.1 { m₁ with store := r.2 } := by
  intro m₁ r
  have hasked : m₁.setting.config.runtimeValidation = true := by
    have hsetting : m₁.setting = m.setting := by
      dsimp only [m₁, RunM.tellOpcode]
      split <;> rfl
    rw [hsetting, hconfig]
  rcases hcheck : i.opcode.runtimeCheck (frameOf i m) m₁.store.memory m₁.store.types with
    ⟨found, types⟩
  have hfindings : findings i (frameOf i m) m₁ =
      (found, { m₁ with store := { m₁.store with types } }) := by
    rw [findings, RunM.checking, if_pos hasked, RunM.run_store, StoreM.run_check, hcheck]
  have hr : r = i.opcode.attempt (frameOf i m) m₁.store := rfl
  have hinvoke := invoke_eq_of_ready hready
  dsimp only at hinvoke
  rw [hinvoke, show findings i (frameOf i m) _ = _ from hfindings, hr]
  cases hfound : firstOf found with
  | some q =>
    rw [Opcode.attempt_of_refused hcheck hfound]
    rfl
  | none => rw [Opcode.attempt_of_passed hcheck hfound]

lemma proceed_value {i : Invocation} {f : Frame} {v : Value} (hconfig : m.setting.config = {}) :
    proceed i f (.value v) m = (.value i.target, (i.resolved { m with store := { m.store with
      memory := m.store.memory.memoize i.target v } }).2) := by
  refine proceed_of_no_flaws ?_
  rw [flaws, RunM.checking, hconfig]
  rfl

lemma proceed_fold {i : Invocation} {f : Frame} {adding : String} {a b : Address} {op : Opcode}
    (hop : m.setting.opcodes.get? adding = some op) :
    proceed i f (.reduce (.opcode adding none a b)) m =
      (.action (((Action.evaluate a .shallow).andThen
        (.reduce (.opcode op none i.cell.type) b)).andThen (.conclude i)), m) := by
  have hcombiner : combinerOf (.opcode adding none a b) i.cell.type m =
      .ok (.opcode op none i.cell.type) := by
    simp only [combinerOf, hop]
  simp only [proceed, RunM.run_bind, RunM.run_get, hcombiner]
  rfl

end Machine

/-- What an invocation comes to, by the answer of its opcode. -/
inductive Invoked (p : Program) (terms : List Term) (m : Machine) (i : Invocation) :
    Option Answer → Step Action × Machine → Prop
  | failed (q : Problem) (m' : Machine) : Invoked p terms m i none (.error q, m')
  | value {head : Head} {m' : Machine} (hm : Models p terms m') (hgrows : Grows terms m terms m')
    (hv : (m'.store.memory.value? i.target).isSome = true) :
    Invoked p terms m i (some (.value head)) (.value i.target, m')
  | same {t : Term} {a : Address} {m' : Machine} (hm : Models p terms m')
    (hgrows : Grows terms m terms m') (ha : Stands terms m' a t) :
    Invoked p terms m i (some (.same t))
      (.action ((Action.evaluate a .shallow).andThen (.conclude i)), m')
  | fold {adding : String} {items initial : Term} {a b : Address} {op : Opcode} {m' : Machine}
    (hm : Models p terms m') (hgrows : Grows terms m terms m') (ha : Stands terms m' a items)
    (hb : Stands terms m' b initial) (hop : p.opcodes.get? adding = some op)
    (hargs : op.signature.arguments.map Argument.evaluation = [.evaluated, .evaluated]) :
    Invoked p terms m i (some (.fold adding items initial))
      (.action (((Action.evaluate a .shallow).andThen
        (.reduce (.opcode op none i.cell.type) b)).andThen (.conclude i)), m')

/-- **An invocation goes on as its opcode answers.** -/
lemma Models.invoke (hp : p.Sound) (h : Models p terms m) {i : Invocation} {mnemonic : String}
    {ts : List Term} {t : Term} (hi : Invokes p terms m i mnemonic ts t)
    {args : List (Term × Option Head)}
    (hargs : List.Forall₂ (Argued terms m) (i.opcode.signature.arguments.zip i.args) args)
    (hyields : ∀ head, p.denote mnemonic i.cell.type args = some (.value head) → p.Yields t head) :
    Invoked p terms m i (p.denote mnemonic i.cell.type args) (Machine.invoke i m) := by
  rw [Machine.invoke_of_ready (unready_eq_none hargs) h.config]
  obtain ⟨hm₁, grows₁⟩ := h.tellOpcode fun _ => .opcodeStarted i.function i.index i.cell
  generalize (RunM.tellOpcode (fun _ => .opcodeStarted i.function i.index i.cell) m).2 = m₁
    at hm₁ grows₁
  obtain ⟨types, hrecalls, hstore, hsettles⟩ := Standard.meets hp hi.opcode (f := Machine.frameOf i m)
    hm₁ h.modules hi.type hi.length (hargs.imp fun _ _ => Argued.grows grows₁)
  obtain ⟨hm₂, grows₂⟩ := hm₁.congr { m₁ with store := { m₁.store with types } } rfl rfl hrecalls
    hm₁.compiled rfl
  rw [hstore]
  generalize (i.opcode.attempt (Machine.frameOf i m) m₁.store).1 = r at hsettles
  have grows := grows₁.trans grows₂
  change Settles _ r (p.denote mnemonic i.cell.type args) at hsettles
  generalize hanswer : p.denote mnemonic i.cell.type args = answer at hsettles hyields
  cases hsettles with
  | error q => exact .failed _ _
  | @value v head hv =>
    obtain ⟨k, hk, ht⟩ := hi.target
    obtain ⟨hm₃, grows₃⟩ := hm₂.memoize hp ht (grows₂.represents hv) (hyields head rfl)
    have hsome := Memory.isSome_memoize_self (hm₂.lt_size ht) v
    obtain ⟨hm₄, grows₄⟩ := hm₃.tellOpcode fun m => .opcodeResolved i.function i.index i.cell
      (m.treeAt i.target)
    have hsome := grows₄.isSome hsome
    rw [← hk] at hm₄ grows₃ grows₄ hsome
    rw [Machine.proceed_value hm₂.config]
    exact .value hm₄ (grows.trans (grows₃.trans grows₄)) hsome
  | same ha => exact .same hm₂ grows (grows₂.stands ha)
  | fold ha hb =>
    obtain ⟨op, hop, hevaluated⟩ := Standard.exists_folding hp hanswer
    rw [Machine.proceed_fold (by rw [hm₂.opcodes, hop])]
    exact .fold hm₂ grows (grows₂.stands ha) (grows₂.stands hb) hop hevaluated

/-! ### Reductions -/

lemma Models.allocate (h : Models p terms m) (cell : Cell) {t : Term} (htype : cell.type = p.typeOf t)
    (hagrees : p.types.Agrees (p.typeOf t)) :
    let m' : Machine := { m with store := { m.store with
      memory := (m.store.memory.allocate cell none).2 } }
    Models p (terms ++ [t]) m' ∧ Grows terms m (terms ++ [t]) m' := by
  intro m'
  have hover := Memory.over_allocate m.store.memory cell none
  have hsize := Memory.size_allocate m.store.memory cell none
  have hself := Memory.get?_allocate_self m.store.memory cell none
  have grows : Grows terms m (terms ++ [t]) m' :=
    ⟨List.prefix_append _ _, fun _ _ => hover.keeps, fun _ _ => id⟩
  -- A slot is an old one, or the new one at the end.
  have cases_slot : ∀ {i u}, (terms ++ [t])[i]? = some u →
      terms[i]? = some u ∨ i = m.store.memory.slots.size ∧ u = t := by
    intro i u hu
    by_cases hi : i < terms.length
    · rw [List.getElem?_append_left hi] at hu
      exact .inl hu
    · rw [List.getElem?_append_right (by omega), List.getElem?_singleton] at hu
      split at hu
      · cases hu
        exact .inr ⟨by rw [← h.length]; omega, rfl⟩
      · cases hu
  refine ⟨⟨h.opcodes, h.modules, h.config, h.recalls, h.compiled, h.memory.trans hover, ?length,
    ?base, ?typed, ?agrees, ?known, ?pending⟩, grows⟩
  case length =>
    rw [List.length_append, h.length]
    exact hsize.symm
  case base =>
    exact fun i hi => grows.getElem? (h.base i hi)
  case typed =>
    intro i u hu
    rcases cases_slot hu with hu | ⟨rfl, rfl⟩
    · exact (hover.typeOf (h.lt_size hu)).trans (h.typed i u hu)
    · show (m.store.memory.allocate cell none).2.typeOf _ = _
      rw [Memory.typeOf, hself]
      exact htype
  case agrees =>
    intro u hu
    rcases List.mem_append.mp hu with hu | hu
    · exact h.agrees u hu
    · rw [List.mem_singleton.mp hu]
      exact hagrees
  case known =>
    intro i u v hu hv
    have hv' : m.store.memory.value? (.at i) = some v := Memory.value?_of_allocate_none hv
    rcases cases_slot hu with hu | ⟨rfl, rfl⟩
    · obtain ⟨head, hrep, hy⟩ := h.known i u v hu hv'
      exact ⟨head, grows.represents hrep, hy⟩
    · exact absurd (Memory.lt_of_value? hv') (lt_irrefl _)
  case pending =>
    exact fun i q hq => (h.pending i q hq).imp fun _ => grows.activated

/-- Two terms are combined in a new slot. -/
lemma Models.combine (h : Models p terms m) {adding : String} {op : Opcode}
    (hop : p.opcodes.get? adding = some op)
    (hargs : op.signature.arguments.map Argument.evaluation = [.evaluated, .evaluated]) {type : Ty}
    (htype : p.types.Agrees type) {left right : Address} {l r : Term}
    (hl : Stands terms m left l) (hr : Stands terms m right r) :
    ∃ i m' terms', Machine.combine (.opcode op none type) left right m = (.ok i.action, m') ∧
      Models p terms' m' ∧ Grows terms m terms' m' ∧
      Invokes p terms' m' i adding [l, r] (.combined adding type l r) := by
  obtain ⟨hm', grows⟩ := h.allocate (Machine.reduceCell type)
    (t := .combined adding type l r) rfl htype
  have hlen : op.signature.arguments.length = 2 := by
    have := congrArg List.length hargs
    rwa [List.length_map] at this
  refine ⟨⟨op, [left, right], [], Machine.reduceCell type, none, m.store.memory.slots.size,
    .at m.store.memory.slots.size⟩, _, _, rfl, hm', grows, hop, htype, hlen,
    .cons (grows.stands hl) (.cons (grows.stands hr) .nil), ⟨_, rfl, ?_⟩, fun _ _ => rfl⟩
  rw [← h.length, List.getElem?_append_right (by omega), Nat.sub_self]
  rfl

end CellMachine
