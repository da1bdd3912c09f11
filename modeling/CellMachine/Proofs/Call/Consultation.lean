import CellMachine.Proofs.Call.Checked
import CellMachine.Proofs.Call.Filling

/-!
What a compilation asks the registry. Every question is about types that agree with the registry, or
about a type that agrees and what a declared type becomes when its generics are bound. So what the
registry remembers stays true, whatever was asked before; and a check that meets no problem tells that
types match part by part, although they are compared by name.
-/

namespace CellMachine

/-! ### What is relied on -/

/-- The types of constants that can be looked up agree, and so do types that are their values. -/
def Memory.ConstantsAgree (reg : Registry) (memory : Memory) : Prop :=
  ∀ moduleName name a, (memory.lookup moduleName name).bind memory.address? = some a →
    reg.Agrees (memory.typeOf a) ∧ reg.Known (Binding.fromConstant (memory.value? a))

/-- An opcode's own check asks about types that are compared, if it is given types that agree. -/
def Opcode.Consults (reg : Registry) (modules : KeyMap String Module) (op : Opcode) : Prop :=
  ∀ (f : Frame) (m : Memory) (types : Registry), f.modules = modules → types.types = reg.types →
    reg.Agrees f.resultType → (∀ a ∈ f.args, reg.Agrees (m.typeOf a)) →
    (∀ id t, f.bindings.get? id = some t → reg.Known t) →
    ∃ asked : List Registry.Question, (op.staticCheck f m types).2 =
      asked.foldl Registry.Question.ask types ∧ ∀ q ∈ asked, q.Of reg.Formed

/-- What compilation relies on in an opcode: its declaration was checked, the types that are written in
it agree, and no type that is named in it has generics deep inside, where the check does not look. -/
structure Opcode.Admitted (reg : Registry) (modules : KeyMap String Module) (op : Opcode) : Prop where
  checked : op.signature.check reg = []
  written : ∀ t, .inline t ∈ op.signature.declared →
    '!' ∉ t.name.toList ∧ (t.genericCount = 0 → reg.Agrees t)
  named : ∀ name t, .named name ∈ op.signature.declared → reg.get? name = some t →
    (TyRef.inline t).deepGenericCount = 0
  consults : op.Consults reg modules

lemma Opcode.Admitted.declared {reg : Registry} (tidy : reg.Tidy) {modules : KeyMap String Module}
    {op : Opcode} (h : op.Admitted reg modules) :
    ∀ r ∈ op.signature.declared, Binding.Declared reg r := by
  intro r hr
  cases r with
  | inline t =>
    obtain ⟨hname, hagrees⟩ := h.written t hr
    exact Binding.declared_of_shallow rfl (Binding.deepGenericCount_of_check h.checked _ hr) hname
      hagrees
  | named name =>
    cases ht : reg.get? name with
    | none => exact .unknown name ht
    | some t =>
      have hres : reg.resolve (.named name) = .ok t := by rw [Registry.resolve, ht]
      exact Binding.declared_of_shallow hres (h.named name t hr ht) (tidy.unmarked name t ht)
        fun _ => tidy.coherent name t ht
  | generic id hint => exact .generic id hint

def Opcodes.Admitted (reg : Registry) (modules : KeyMap String Module) (opcodes : Opcodes) : Prop :=
  ∀ mnemonic op, opcodes.get? mnemonic = some op → op.Admitted reg modules

/-- The types written in a slot with a callable, in the callable and around it agree. -/
structure Memory.Compilable (reg : Registry) (memory : Memory) (a : Address) : Prop where
  constants : memory.ConstantsAgree reg
  type : reg.Agrees (memory.typeOf a)
  callable : ∀ c, memory.value? a = some (.callable c) → c.Typed reg

/-- What is relied on while a callable is compiled. -/
structure CompileEnv.Agrees (reg : Registry) (env : CompileEnv) : Prop where
  tidy : reg.Tidy
  opcodes : env.opcodes.Admitted reg env.modules
  constants : env.memory.ConstantsAgree reg
  callable : env.callable.Typed reg

namespace Compile

variable {reg : Registry}

/-! ### Computations -/

/-- A computation that keeps what is remembered true, and whose result has one property always, and
another unless problems were found. -/
def Heeds {α : Type} (reg : Registry) (x : CompileM α) (A P : α → Prop) : Prop :=
  ∀ s, reg.Vouches s.types → reg.Vouches (x s).2.types ∧ A (x s).1 ∧
    ∃ found, (x s).2.problems = s.problems ++ found ∧ (found = [] → P (x s).1)

namespace Heeds

variable {α β : Type} {x : CompileM α} {A A' P P' : α → Prop}

lemma pure {a : α} (h : A a) (h' : P a) : Heeds reg (pure a) A P :=
  fun _ hs => ⟨hs, h, [], (List.append_nil _).symm, fun _ => h'⟩

lemma bind {f : α → CompileM β} {B Q : β → Prop} (hx : Heeds reg x A P)
    (hf : ∀ a, A a → Heeds reg (f a) B fun b => P a → Q b) : Heeds reg (x >>= f) B Q := by
  intro s hs
  obtain ⟨hs', ha, found, h₁, h₂⟩ := hx s hs
  obtain ⟨hs'', hb, found', h₃, h₄⟩ := hf (x s).1 ha (x s).2 hs'
  refine ⟨hs'', hb, found ++ found', ?_, fun hnil => ?_⟩
  · rw [← List.append_assoc, ← h₁]
    exact h₃
  · obtain ⟨hnil₁, hnil₂⟩ := List.append_eq_nil_iff.mp hnil
    exact h₄ hnil₂ (h₂ hnil₁)

lemma mono (hx : Heeds reg x A P) (hA : ∀ a, A a → A' a) (hP : ∀ a, P a → P' a) :
    Heeds reg x A' P' := by
  intro s hs
  obtain ⟨hs', ha, found, h₁, h₂⟩ := hx s hs
  exact ⟨hs', hA _ ha, found, h₁, fun hnil => hP _ (h₂ hnil)⟩

lemma report (p : Problem) {P : Unit → Prop} : Heeds reg (report p) (fun _ => True) P :=
  fun _ hs => ⟨hs, trivial, [p], rfl, nofun⟩

lemma reported (p : Problem) {y : CompileM β} {B Q Q' : β → Prop} (hy : Heeds reg y B Q') :
    Heeds reg (Compile.report p >>= fun _ => y) B Q :=
  (report p (P := fun _ => False)).bind fun _ _ => hy.mono (fun _ => id) fun _ _ h => h.elim

lemma refused (p : Problem) {b : β} {B Q : β → Prop} (hB : B b) :
    Heeds reg (Compile.report p >>= fun _ => Pure.pure b) B Q :=
  reported p (pure (P := fun _ => True) hB trivial)

lemma get {f : CompileState → CompileM β} {B Q : β → Prop}
    (hf : ∀ s, s.types.types = reg.types → Heeds reg (f s) B Q) :
    Heeds reg (MonadState.get >>= f) B Q :=
  fun s hs => hf s hs.types s hs

lemma forM {γ : Type} {l : List γ} {f : γ → CompileM Unit}
    (hf : ∀ e ∈ l, Heeds reg (f e) (fun _ => True) fun _ => True) :
    Heeds reg (l.forM f) (fun _ => True) fun _ => True := by
  induction l with
  | nil => exact pure trivial trivial
  | cons e l ih =>
    exact (hf e List.mem_cons_self).bind fun _ _ =>
      (ih fun e' he' => hf e' (List.mem_cons_of_mem _ he')).mono (fun _ => id) fun _ _ _ => trivial

lemma forM_report {γ : Type} (l : List γ) (f : γ → Problem) {b : β} {B Q : β → Prop} (hB : B b)
    (hQ : Q b) :
    Heeds reg (do
      l.forM fun p => Compile.report (f p)
      Pure.pure b) B Q :=
  (forM (l := l) fun _ _ => .report _).bind fun _ _ => .pure hB fun _ => hQ

end Heeds

/-! ### Checks of types -/

lemma heeds_matchTypes (tidy : reg.Tidy) (source : Option Position) {a e : Ty} (ha : reg.Formed a)
    (he : reg.Formed e) (hagrees : reg.Agrees a ∨ reg.Agrees e) :
    Heeds reg (matchTypes source a e) (fun _ => True) fun o => o = .ok () → reg.MatchesByParts a e :=
  fun _ hs => ⟨hs.matchTypes tidy ha he source, trivial, [], (List.append_nil _).symm,
    fun _ hok => hs.matchesByParts tidy ha he hagrees hok⟩

lemma heeds_checkType (tidy : reg.Tidy) (source : Option Position) {a e : Ty} (ha : reg.Agrees a)
    (he : reg.Agrees e) (place : String) :
    Heeds reg (checkType source a e place) (fun _ => True) fun _ => True := by
  unfold checkType
  split
  · exact .pure trivial trivial
  · refine (heeds_matchTypes tidy source (.inl ha) (.inl he) (.inl ha)).bind fun o _ => ?_
    cases o with
    | ok _ => exact .pure trivial fun _ => trivial
    | error p => exact .report _

variable {env : CompileEnv}

lemma heeds_checkMember (henv : env.Agrees reg) (source : Option Position) (child : Nat) {t : Ty}
    (ht : reg.Agrees t) {expected : TyRef} (hexpected : expected ∈ t.refs) (place : String) :
    Heeds reg (checkMember env source child expected place) (fun _ => True) fun _ => True := by
  unfold checkMember
  split
  · exact .pure trivial trivial
  · cases hcell : env.callable.cell? child with
    | none => exact .pure trivial trivial
    | some cell =>
      refine .get fun s hs => ?_
      rw [Registry.resolve_of_types hs]
      cases hres : reg.resolve expected with
      | error p => exact .report _
      | ok u =>
        exact heeds_checkType henv.tidy _ (henv.callable.types _ _ hcell)
          (henv.tidy.agrees_resolve ht hexpected hres) _

lemma heeds_checkStructure (henv : env.Agrees reg) {cell : Cell} (hcell : reg.Agrees cell.type)
    (members : KeyMap String Nat) :
    Heeds reg (checkStructure env cell members) (fun _ => True) fun _ => True := by
  unfold checkStructure
  split
  · exact .pure trivial trivial
  · split
    · next name source stores htype =>
      refine (Heeds.forM fun e he => ?_).bind fun _ _ =>
        (Heeds.forM fun e _ => ?_).mono (fun _ => id) fun _ _ _ => trivial
      · cases hget : members.get? e.1 with
        | some child =>
          refine heeds_checkMember henv _ _ hcell ?_ _
          rw [htype]
          exact List.mem_map_of_mem he
        | none => exact .report _
      · split
        · exact .pure trivial trivial
        · exact .report _
    · exact .report _

lemma heeds_checkIterable (henv : env.Agrees reg) {cell : Cell} (hcell : reg.Agrees cell.type)
    (items : List Nat) : Heeds reg (checkIterable env cell items) (fun _ => True) fun _ => True := by
  unfold checkIterable
  split
  · exact .pure trivial trivial
  · split
    · next name source element ends htype =>
      refine Heeds.forM fun e _ => heeds_checkMember henv _ _ hcell ?_ _
      rw [htype]
      exact List.mem_cons_self
    · exact .report _

lemma heeds_checkCall (henv : env.Agrees reg) {cell : Cell} (hcell : reg.Agrees cell.type)
    (callable argument : Nat) :
    Heeds reg (checkCall env cell callable argument) (fun _ => True) fun _ => True := by
  unfold checkCall
  cases hfunction : env.callable.cell? callable with
  | none => exact .pure trivial trivial
  | some function =>
    have hagrees := henv.callable.types _ _ hfunction
    dsimp only
    split
    · exact .pure trivial trivial
    · split
      · next name source expected result htype =>
        rw [htype] at hagrees
        refine (heeds_checkMember henv _ _ hagrees List.mem_cons_self _).bind fun _ _ => ?_
        split
        · exact .pure trivial fun _ => trivial
        · refine .get fun s hs => ?_
          rw [Registry.resolve_of_types hs]
          cases hres : reg.resolve result with
          | error p => exact .report _
          | ok t =>
            have ht := henv.tidy.agrees_resolve hagrees (by simp [Ty.refs]) hres
            exact (heeds_checkType henv.tidy _ ht hcell _).mono (fun _ => id) fun _ _ _ => trivial
      · exact .report _

/-! ### Opcodes -/

/-- **Arguments match part by part**, unless a problem is found. -/
lemma heeds_checkArguments (tidy : reg.Tidy) (cell : Cell) (mnemonic : String) (index : Nat)
    {bound : KeyMap String Ty} (hbound : ∀ id t, bound.get? id = some t → reg.Known t) :
    ∀ l : List ((Argument × Cell) × Nat),
      (∀ e ∈ l, Binding.Declared reg e.1.1.type ∧ reg.Agrees e.1.2.type) →
      Heeds reg (checkArguments cell mnemonic index bound l) (fun _ => True) fun _ =>
        ∀ e ∈ l, Binding.ArgumentFits reg bound e.1.1.type e.1.2.type
  | [], _ => .pure trivial nofun
  | ((declared, actual), position) :: rest, hl => by
    obtain ⟨⟨hdeclared, hactual⟩, hrest⟩ := List.forall_mem_cons.mp hl
    have ih := heeds_checkArguments tidy cell mnemonic index hbound rest hrest
    have others : ∀ here : Bool, Binding.ArgumentFits reg bound declared.type actual.type →
        Heeds reg (do
          let others ← checkArguments cell mnemonic index bound rest
          pure (here && others)) (fun _ => True) fun _ =>
            ∀ e ∈ ((declared, actual), position) :: rest,
              Binding.ArgumentFits reg bound e.1.1.type e.1.2.type := fun here hfits =>
      ih.bind fun _ _ => .pure trivial fun h => List.forall_mem_cons.mpr ⟨hfits, h⟩
    -- One refusal refuses the whole, whatever is found of the others.
    have refused : Heeds reg (do
        let others ← checkArguments cell mnemonic index bound rest
        pure (false && others)) (fun _ => True) fun _ => True :=
      ih.bind fun _ _ => .pure trivial fun _ => trivial
    unfold checkArguments
    refine .get fun s hs => ?_
    rw [Binding.substitute_of_types hs]
    cases hsubst : Binding.substitute reg declared.type bound with
    | error p => exact .reported _ refused
    | ok expected =>
      obtain ⟨filled, hfilled, hstands⟩ :=
        Binding.substitute_standsFor tidy hdeclared hbound hsubst
      dsimp only
      split
      · next hopen =>
        rw [Bool.or_eq_true] at hopen
        exact others true ⟨expected, filled, hsubst, hfilled, hopen.imp_right .inl⟩
      · next hopen =>
        rw [Bool.or_eq_true, not_or] at hopen
        have hstands := hstands.resolve_left hopen.1
        refine (heeds_matchTypes tidy _ (.inl hactual) hstands.formed (.inl hactual)).bind
          fun o _ => ?_
        cases o with
        | error p => exact .reported _ refused
        | ok _ =>
          -- Whether the argument matches is known before the others are looked at.
          refine ih.bind fun _ _ => .pure trivial fun h hmatch => List.forall_mem_cons.mpr ⟨?_, h⟩
          exact ⟨expected, filled, hsubst, hfilled,
            .inr (.inr (hstands.actual _ hactual (hmatch rfl)))⟩

/-- **The result matches part by part**, unless a problem is found. -/
lemma heeds_checkResult (tidy : reg.Tidy) {cell : Cell} (hcell : reg.Agrees cell.type)
    (mnemonic : String) {bound : KeyMap String Ty}
    (hbound : ∀ id t, bound.get? id = some t → reg.Known t) {declared : TyRef}
    (hdeclared : Binding.Declared reg declared) :
    Heeds reg (checkResult cell mnemonic bound declared) (fun _ => True) fun _ =>
      Binding.ResultFits reg bound declared cell.type := by
  unfold checkResult
  refine .get fun s hs => ?_
  rw [Binding.substitute_of_types hs]
  cases hsubst : Binding.substitute reg declared bound with
  | error p => exact .refused _ trivial
  | ok t =>
    obtain ⟨filled, hfilled, hstands⟩ := Binding.substitute_standsFor tidy hdeclared hbound hsubst
    dsimp only
    split
    · next hopen =>
      rw [Bool.or_eq_true] at hopen
      exact .pure trivial ⟨t, filled, hsubst, hfilled, hopen.imp_right .inl⟩
    · next hopen =>
      rw [Bool.or_eq_true, not_or] at hopen
      have hstands := hstands.resolve_left hopen.1
      refine (heeds_matchTypes tidy _ hstands.formed (.inl hcell) (.inr hcell)).bind fun o _ => ?_
      cases o with
      | error p => exact .refused _ trivial
      | ok _ =>
        exact .pure trivial fun hmatch => ⟨t, filled, hsubst, hfilled,
          .inr (.inr (hstands.expected _ hcell (hmatch rfl)))⟩

lemma agrees_checkSlots {m : Memory} {l : List (Option Address × Cell)}
    (hl : ∀ e ∈ l, (∀ a, e.1 = some a → ∃ i, a = .at i ∧ reg.Agrees (m.typeOf a)) ∧
      reg.Agrees e.2.type) :
    ∀ a ∈ (checkSlots m l).1, reg.Agrees ((checkSlots m l).2.typeOf a) := by
  -- Slots are only added, outside of memory, and those that are there stay.
  suffices h : (checkSlots m l).2.slots = m.slots ∧
      (∀ n < m.loose.size, (checkSlots m l).2.loose[n]? = m.loose[n]?) ∧
      ∀ a ∈ (checkSlots m l).1, reg.Agrees ((checkSlots m l).2.typeOf a) from h.2.2
  induction l generalizing m with
  | nil => exact ⟨rfl, fun _ _ => rfl, nofun⟩
  | cons e l ih =>
    obtain ⟨⟨hconstant, hcell⟩, hrest⟩ := List.forall_mem_cons.mp hl
    obtain ⟨o, cell⟩ := e
    cases o with
    | some a =>
      obtain ⟨hslots, hloose, hargs⟩ := ih hrest
      obtain ⟨i, rfl, hi⟩ := hconstant a rfl
      refine ⟨hslots, hloose, fun b hb => ?_⟩
      rcases List.mem_cons.mp hb with rfl | hb
      · have hsame : (checkSlots m l).2.typeOf (.at i) = m.typeOf (.at i) := by
          simp only [Memory.typeOf, Memory.get?, hslots]
        exact hsame ▸ hi
      · exact hargs b hb
    | none =>
      have hafter : ∀ e ∈ l, (∀ a, e.1 = some a → ∃ i, a = .at i ∧
          reg.Agrees ((m.allocateLoose cell none).2.typeOf a)) ∧ reg.Agrees e.2.type := by
        refine fun e he => ⟨fun a ha => ?_, (hrest e he).2⟩
        obtain ⟨i, rfl, hi⟩ := (hrest e he).1 a ha
        exact ⟨i, rfl, hi⟩
      obtain ⟨hslots, hloose, hargs⟩ := ih hafter
      have hsize : (m.allocateLoose cell none).2.loose.size = m.loose.size + 1 :=
        Array.size_push _
      refine ⟨hslots, fun n hn => ?_, fun b hb => ?_⟩
      · refine (hloose n (by omega)).trans ?_
        exact Array.getElem?_push_lt hn ▸ (Array.getElem?_eq_getElem hn).symm
      · rcases List.mem_cons.mp hb with rfl | hb
        · have hnew : (checkSlots (m.allocateLoose cell none).2 l).2.loose[m.loose.size]? =
              some ⟨cell, none⟩ :=
            (hloose _ (by omega)).trans Array.getElem?_push_size
          have htype : (checkSlots (m.allocateLoose cell none).2 l).2.typeOf
              (.loose m.loose.size) = cell.type := by
            simp only [Memory.typeOf, Memory.get?, hnew]
          exact htype ▸ hcell
        · exact hargs b hb

lemma heeds_staticCheck {env : CompileEnv} (henv : env.Agrees reg) {op : Opcode}
    (hop : op.Consults reg env.modules) {cell : Cell} (hcell : reg.Agrees cell.type)
    {bound : KeyMap String Ty} (hbound : ∀ id t, bound.get? id = some t → reg.Known t)
    {arguments : List (Option Address × Cell)}
    (harguments : ∀ e ∈ arguments, (∀ a, e.1 = some a → ∃ i, a = .at i ∧
      reg.Agrees (env.memory.typeOf a)) ∧ reg.Agrees e.2.type) :
    Heeds reg (staticCheck env op cell bound arguments) (fun _ => True) fun _ => True := by
  intro s hs
  obtain ⟨asked, hasked, hof⟩ := hop ⟨cell.bestSource, (checkSlots env.memory arguments).1, cell.type,
    bound, env.modules⟩ (checkSlots env.memory arguments).2 s.types rfl hs.types hcell
    (agrees_checkSlots harguments) hbound
  have htypes : (staticCheck env op cell bound arguments s).2.types =
      asked.foldl Registry.Question.ask s.types := hasked
  refine ⟨?_, trivial, [], (List.append_nil _).symm, fun _ => trivial⟩
  rw [htypes]
  exact hs.asked henv.tidy hof

end Compile

end CellMachine
