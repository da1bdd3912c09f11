import CellMachine.Proofs.Call.Binding
import CellMachine.Proofs.Call.Nodes
import CellMachine.Proofs.Memory.Growth

/-!
Two compilations of one callable agree, whatever the registry remembers at their start and whatever
memory holds beside the constants: they succeed or fail together.

The proof follows two compilations side by side. Their states are alike as long as what both remember
is true and both have met problems, or neither has.
-/

namespace CellMachine

/-- The types written in a callable agree with a registry. -/
structure Callable.Typed (reg : Registry) (c : Callable) : Prop where
  types : ∀ i cell, c.cell? i = some cell → reg.Agrees cell.type
  bindings : ∀ i cell mnemonic arguments explicit, c.cell? i = some cell →
    cell.kind = .opcode mnemonic arguments explicit →
    ∀ id t, KeyMap.get? explicit id = some t → reg.Agrees t

/-- The types written in a callable agree with a registry, and no structure cell is of an open type. -/
structure Callable.Conforms (reg : Registry) (c : Callable) : Prop where
  types : ∀ i cell, c.cell? i = some cell → reg.Agrees cell.type
  bindings : ∀ i cell mnemonic arguments explicit, c.cell? i = some cell →
    cell.kind = .opcode mnemonic arguments explicit →
    ∀ id t, KeyMap.get? explicit id = some t → reg.Agrees t
  structures : ∀ i cell members, c.cell? i = some cell → cell.kind = .structured members →
    cell.type.isRuntimeDetermined = false

lemma Callable.Conforms.typed {reg : Registry} {c : Callable} (h : c.Conforms reg) : c.Typed reg :=
  ⟨h.types, h.bindings⟩

/-- The types of all constants of modules agree with a registry. -/
def ModulesAgree (reg : Registry) (modules : KeyMap String Module) : Prop :=
  ∀ moduleName m name c, modules.get? moduleName = some m → m.constants.get? name = some c →
    reg.Agrees c.type

/-- Two answers of an opcode's own check, on memories with the same slots of its arguments, are both
without problems or both with some. -/
def Opcode.Steady (reg : Registry) (modules : KeyMap String Module) (op : Opcode) : Prop :=
  ∀ (f : Frame) (m m' : Memory) (types types' : Registry), f.modules = modules →
    reg.Agrees f.resultType → (∀ a ∈ f.args, m.get? a = m'.get? a) →
    reg.Recalls types → reg.Recalls types' →
    ((op.staticCheck f m types).1 = [] ↔ (op.staticCheck f m' types').1 = []) ∧
      reg.Recalls (op.staticCheck f m types).2 ∧ reg.Recalls (op.staticCheck f m' types').2

/-- What compilation relies on in an opcode: its declared types can be compared, its generics are not
bound to values, and its own check is steady and keeps the registered types. -/
structure Opcode.Regular (reg : Registry) (modules : KeyMap String Module) (op : Opcode) : Prop where
  arguments : ∀ a ∈ op.signature.arguments, Binding.Declarable reg a.type
  result : Binding.Declarable reg op.signature.result
  generics : ∀ g ∈ op.signature.generics, g.fromArgument = none
  steady : op.Steady reg modules
  keeps : op.KeepsTypes

/-- What compilation relies on in the surroundings of a callable. -/
structure Surrounds (reg : Registry) (opcodes : Opcodes) (modules : KeyMap String Module)
    (base : Memory) : Prop where
  tidy : reg.Tidy
  opcodes : ∀ mnemonic op, opcodes.get? mnemonic = some op → op.Regular reg modules
  rooted : base.Rooted
  constants : ∀ i < base.slots.size, reg.Agrees (base.typeOf (.at i))

namespace Compile

/-- Two states of compilations that may go on together. -/
structure Alike (reg : Registry) (s s' : CompileState) : Prop where
  left : reg.Recalls s.types
  right : reg.Recalls s'.types
  problems : s.problems = [] ↔ s'.problems = []

/-- Two computations that keep states alike and come to related results. -/
def Tally {α : Type} (reg : Registry) (x y : CompileM α) (R : α → α → Prop) : Prop :=
  ∀ s s', Alike reg s s' → R (x s).1 (y s').1 ∧ Alike reg (x s).2 (y s').2

namespace Tally

variable {α β : Type} {reg : Registry} {x y : CompileM α} {R Q : α → α → Prop}

lemma pure {a b : α} (h : R a b) : Tally reg (pure a) (pure b) R := fun _ _ hs => ⟨h, hs⟩

lemma bind {f g : α → CompileM β} {S : β → β → Prop} (hx : Tally reg x y R)
    (hf : ∀ a b, R a b → Tally reg (f a) (g b) S) : Tally reg (x >>= f) (y >>= g) S := by
  intro s s' hs
  obtain ⟨h₁, h₂⟩ := hx s s' hs
  exact hf _ _ h₁ _ _ h₂

lemma mono (hx : Tally reg x y R) (h : ∀ a b, R a b → Q a b) : Tally reg x y Q :=
  fun s s' hs => ⟨h _ _ (hx s s' hs).1, (hx s s' hs).2⟩

lemma seq {f g : CompileM β} {S : β → β → Prop} (hx : Tally reg x y R) (hf : Tally reg f g S) :
    Tally reg (x >>= fun _ => f) (y >>= fun _ => g) S :=
  hx.bind fun _ _ _ => hf

lemma report (p q : Problem) : Tally reg (report p) (report q) fun _ _ => True := by
  intro s s' hs
  refine ⟨trivial, hs.left, hs.right, ?_⟩
  show s.problems ++ [p] = [] ↔ s'.problems ++ [q] = []
  simp

lemma get {f g : CompileState → CompileM β} {S : β → β → Prop}
    (hf : ∀ s s', reg.Recalls s.types → reg.Recalls s'.types → Tally reg (f s) (g s') S) :
    Tally reg (MonadState.get >>= f) (MonadState.get >>= g) S :=
  fun s s' hs => hf s s' hs.left hs.right s s' hs

lemma forM {γ : Type} {l : List γ} {f g : γ → CompileM Unit}
    (hf : ∀ e ∈ l, Tally reg (f e) (g e) fun _ _ => True) :
    Tally reg (l.forM f) (l.forM g) fun _ _ => True := by
  induction l with
  | nil => exact pure trivial
  | cons e l ih =>
    exact (hf e List.mem_cons_self).seq (ih fun e' he' => hf e' (List.mem_cons_of_mem _ he'))

lemma forM_report {γ : Type} {l l' : List γ} (h : l = [] ↔ l' = []) (f g : γ → Problem) :
    Tally reg (l.forM fun p => Compile.report (f p)) (l'.forM fun p => Compile.report (g p))
      fun _ _ => True := by
  have problems : ∀ (l : List γ) (f : γ → Problem) (s : CompileState),
      ((l.forM fun p => Compile.report (f p)) s).2 =
        { s with problems := s.problems ++ l.map f } := by
    intro l f
    induction l with
    | nil =>
      intro s
      show s = _
      rw [List.map_nil, List.append_nil]
    | cons e l ih =>
      intro s
      show ((l.forM fun p => Compile.report (f p)) { s with problems := s.problems ++ [f e] }).2 = _
      rw [ih, List.map_cons, List.append_assoc]
      rfl
  intro s s' hs
  rw [problems, problems]
  refine ⟨trivial, hs.left, hs.right, ?_⟩
  simp only [List.append_eq_nil_iff, List.map_eq_nil_iff, hs.problems, h]

end Tally

variable {reg : Registry} {opcodes : Opcodes} {modules : KeyMap String Module} {base : Memory}
  {env env' : CompileEnv}

/-- Two compilations of one callable, in memories that both hold the constants. -/
structure Twins (opcodes : Opcodes) (modules : KeyMap String Module) (base : Memory)
    (env env' : CompileEnv) : Prop where
  opcodes : env.opcodes = opcodes ∧ env'.opcodes = opcodes
  modules : env.modules = modules ∧ env'.modules = modules
  callable : env'.callable = env.callable
  left : base.Over env.memory
  right : base.Over env'.memory

/-- Both fail or both succeed. -/
def SameOutcome {α : Type} : Outcome α → Outcome α → Prop
  | .ok _, .ok _ => True
  | .error _, .error _ => True
  | _, _ => False

lemma tally_matchTypes (tidy : reg.Tidy) (source : Option Position) {a e : Ty} (ha : reg.Met a)
    (he : reg.Met e) : Tally reg (matchTypes source a e) (matchTypes source a e) SameOutcome := by
  intro s s' hs
  obtain ⟨h₁, h₂⟩ := hs.left.matchTypes tidy ha he source
  obtain ⟨h₃, h₄⟩ := hs.right.matchTypes tidy ha he source
  refine ⟨?_, h₂, h₄, hs.problems⟩
  show SameOutcome (s.types.matchTypes source a (some e)).1 (s'.types.matchTypes source a (some e)).1
  have hiff := h₁.trans h₃.symm
  generalize (s.types.matchTypes source a (some e)).1 = o at hiff
  generalize (s'.types.matchTypes source a (some e)).1 = o' at hiff
  cases o with
  | ok u =>
    cases o' with
    | ok u' => trivial
    | error q => cases hiff.mp rfl
  | error p =>
    cases o' with
    | ok u => cases hiff.mpr rfl
    | error q => trivial

lemma tally_checkType (tidy : reg.Tidy) (source : Option Position) {a e : Ty}
    (ha : a.isRuntimeDetermined = false → reg.Met a)
    (he : e.isRuntimeDetermined = false → reg.Met e) (place : String) :
    Tally reg (checkType source a e place) (checkType source a e place) fun _ _ => True := by
  unfold checkType
  split
  · exact .pure trivial
  · next hopen =>
    rw [Bool.or_eq_true, not_or, Bool.not_eq_true, Bool.not_eq_true] at hopen
    refine (tally_matchTypes tidy source (ha hopen.1) (he hopen.2)).bind fun o o' ho => ?_
    cases o with
    | ok _ =>
      cases o' with
      | ok _ => exact .pure trivial
      | error q => exact ho.elim
    | error p =>
      cases o' with
      | ok _ => exact ho.elim
      | error q => exact .report _ _

/-! ### Cells -/

lemma Agrees.met_resolve (tidy : reg.Tidy) {t u : Ty} (ht : reg.Agrees t) {r : TyRef}
    (hr : r ∈ t.refs) (hu : reg.resolve r = .ok u) : reg.Met u :=
  .inl (tidy.agrees_resolve ht hr hu)

lemma tally_checkMember (tidy : reg.Tidy) (twins : Twins opcodes modules base env env')
    (hc : env.callable.Typed reg) (source : Option Position) (child : Nat) {owner : Ty}
    (howner : reg.Agrees owner) {expected : TyRef} (hexpected : expected ∈ owner.refs)
    (place : String) :
    Tally reg (checkMember env source child expected place)
      (checkMember env' source child expected place) fun _ _ => True := by
  unfold checkMember
  rw [twins.callable]
  split
  · exact .pure trivial
  · cases hcell : env.callable.cell? child with
    | none => exact .pure trivial
    | some cell =>
      refine .get fun s s' hs hs' => ?_
      simp only [hs.resolve, hs'.resolve]
      cases hres : reg.resolve expected with
      | ok t =>
        exact tally_checkType tidy _ (fun _ => .inl (hc.types _ _ hcell))
          (fun _ => Agrees.met_resolve tidy howner hexpected hres) _
      | error p => exact .report _ _

lemma tally_checkStructure (tidy : reg.Tidy) (twins : Twins opcodes modules base env env')
    (hc : env.callable.Typed reg) {cell : Cell} (hcell : reg.Agrees cell.type)
    (members : KeyMap String Nat) :
    Tally reg (checkStructure env cell members) (checkStructure env' cell members)
      fun _ _ => True := by
  unfold checkStructure
  split
  · exact .pure trivial
  · split
    · next name source stores htype =>
      refine Tally.seq (.forM fun e he => ?_) (.forM fun e _ => ?_)
      · cases members.get? e.1 with
        | some child =>
          refine tally_checkMember tidy twins hc _ _ hcell ?_ _
          rw [htype]
          exact List.mem_map_of_mem he
        | none => exact .report _ _
      · split
        · exact .pure trivial
        · exact .report _ _
    · exact .report _ _

lemma tally_checkIterable (tidy : reg.Tidy) (twins : Twins opcodes modules base env env')
    (hc : env.callable.Typed reg) {cell : Cell} (hcell : reg.Agrees cell.type)
    (items : List Nat) :
    Tally reg (checkIterable env cell items) (checkIterable env' cell items) fun _ _ => True := by
  unfold checkIterable
  split
  · exact .pure trivial
  · split
    · next name source element ends htype =>
      refine .forM fun e _ => tally_checkMember tidy twins hc _ _ hcell ?_ _
      rw [htype]
      exact List.mem_cons_self
    · exact .report _ _

lemma tally_checkCall (tidy : reg.Tidy) (twins : Twins opcodes modules base env env')
    (hc : env.callable.Typed reg) {cell : Cell} (hcell : reg.Agrees cell.type)
    (callable argument : Nat) :
    Tally reg (checkCall env cell callable argument) (checkCall env' cell callable argument)
      fun _ _ => True := by
  unfold checkCall
  rw [twins.callable]
  cases hfunction : env.callable.cell? callable with
  | none => exact .pure trivial
  | some function =>
    have hagrees := hc.types _ _ hfunction
    dsimp only
    split
    · exact .pure trivial
    · split
      · next name source expected result htype =>
        rw [htype] at hagrees
        refine (tally_checkMember tidy twins hc _ _ hagrees List.mem_cons_self _).seq ?_
        split
        · exact .pure trivial
        · refine .get fun s s' hs hs' => ?_
          simp only [hs.resolve, hs'.resolve]
          cases hres : reg.resolve result with
          | ok t =>
            exact tally_checkType tidy _ (fun _ => Agrees.met_resolve tidy hagrees
              (List.mem_cons_of_mem _ List.mem_cons_self) hres) (fun _ => .inl hcell) _
          | error p => exact .report _ _
      · exact .report _ _

/-! ### Opcodes -/

lemma tally_checkArguments (tidy : reg.Tidy) (cell : Cell) (mnemonic : String) (index : Nat)
    {bound : KeyMap String Ty} (hbound : ∀ id t, bound.get? id = some t → reg.Known t) :
    ∀ l : List ((Argument × Cell) × Nat),
      (∀ e ∈ l, Binding.Declarable reg e.1.1.type ∧ reg.Agrees e.1.2.type) →
      Tally reg (checkArguments cell mnemonic index bound l)
        (checkArguments cell mnemonic index bound l) Eq
  | [], _ => .pure rfl
  | ((declared, actual), position) :: rest, hl => by
    obtain ⟨⟨hdeclared, hactual⟩, hrest⟩ := List.forall_mem_cons.mp hl
    have others : ∀ here : Bool, Tally reg (do
        let others ← checkArguments cell mnemonic index bound rest
        pure (here && others)) (do
        let others ← checkArguments cell mnemonic index bound rest
        pure (here && others)) Eq := fun here =>
      (tally_checkArguments tidy cell mnemonic index hbound rest hrest).bind
        fun fit fit' h => .pure (by rw [h])
    unfold checkArguments
    refine .get fun s s' hs hs' => ?_
    simp only [Binding.substitute_of_types hs.types, Binding.substitute_of_types hs'.types]
    cases hsub : Binding.substitute reg declared.type bound with
    | error p => exact (Tally.report _ _).seq (others false)
    | ok expected =>
      dsimp only
      split
      · exact others true
      · next hopen =>
        rw [Bool.or_eq_true, not_or] at hopen
        have hmet := (Binding.met_substitute hdeclared hbound hsub).resolve_left hopen.1
        refine (tally_matchTypes tidy _ (.inl hactual) hmet).bind fun o o' ho => ?_
        cases o with
        | ok _ =>
          cases o' with
          | ok _ => exact others true
          | error q => exact ho.elim
        | error p =>
          cases o' with
          | ok _ => exact ho.elim
          | error q => exact (Tally.report _ _).seq (others false)

lemma tally_checkResult (tidy : reg.Tidy) {cell : Cell} (hcell : reg.Agrees cell.type)
    (mnemonic : String) {bound : KeyMap String Ty}
    (hbound : ∀ id t, bound.get? id = some t → reg.Known t) {declared : TyRef}
    (hdeclared : Binding.Declarable reg declared) :
    Tally reg (checkResult cell mnemonic bound declared) (checkResult cell mnemonic bound declared)
      Eq := by
  unfold checkResult
  refine .get fun s s' hs hs' => ?_
  simp only [Binding.substitute_of_types hs.types, Binding.substitute_of_types hs'.types]
  cases hsub : Binding.substitute reg declared bound with
  | error p => exact (Tally.report _ _).seq (.pure rfl)
  | ok t =>
    dsimp only
    split
    · exact .pure rfl
    · next hopen =>
      rw [Bool.or_eq_true, not_or] at hopen
      have hmet := (Binding.met_substitute hdeclared hbound hsub).resolve_left hopen.1
      refine (tally_matchTypes tidy _ hmet (.inl hcell)).bind fun o o' ho => ?_
      cases o with
      | ok _ =>
        cases o' with
        | ok _ => exact .pure rfl
        | error q => exact ho.elim
      | error p =>
        cases o' with
        | ok _ => exact ho.elim
        | error q => exact (Tally.report _ _).seq (.pure rfl)

lemma checkSlots_agree {m m' : Memory} (hloose : m'.loose = m.loose)
    {l : List (Option Address × Cell)}
    (hl : ∀ e ∈ l, ∀ a, e.1 = some a → ∃ i, a = .at i ∧ m.slots[i]? = m'.slots[i]?) :
    (checkSlots m l).1 = (checkSlots m' l).1 ∧
      ∀ a ∈ (checkSlots m l).1, (checkSlots m l).2.get? a = (checkSlots m' l).2.get? a := by
  -- Only slots outside of memory are added, and the same ones on both sides.
  suffices h : (checkSlots m l).1 = (checkSlots m' l).1 ∧
      (checkSlots m l).2.loose = (checkSlots m' l).2.loose ∧
      (checkSlots m l).2.slots = m.slots ∧ (checkSlots m' l).2.slots = m'.slots ∧
      ∀ a ∈ (checkSlots m l).1, ∀ i, a = .at i → m.slots[i]? = m'.slots[i]? by
    obtain ⟨h₁, h₂, h₃, h₄, h₅⟩ := h
    refine ⟨h₁, fun a ha => ?_⟩
    cases a with
    | «at» i =>
      simp only [Memory.get?, h₃, h₄]
      exact h₅ _ ha i rfl
    | loose n => simp only [Memory.get?, h₂]
  induction l generalizing m m' with
  | nil => exact ⟨rfl, hloose.symm, rfl, rfl, List.forall_mem_nil _⟩
  | cons e l ih =>
    obtain ⟨he, hrest⟩ := List.forall_mem_cons.mp hl
    obtain ⟨o, cell⟩ := e
    cases o with
    | some a =>
      obtain ⟨i, rfl, hi⟩ := he a rfl
      obtain ⟨h₁, h₂, h₃, h₄, h₅⟩ := ih hloose hrest
      refine ⟨congrArg (Address.at i :: ·) h₁, h₂, h₃, h₄, fun b hb => ?_⟩
      rcases List.mem_cons.mp hb with rfl | hb
      · rintro j hj
        cases hj
        exact hi
      · exact h₅ b hb
    | none =>
      have hnew : (m'.allocateLoose cell none).2.loose = (m.allocateLoose cell none).2.loose := by
        simp only [Memory.allocateLoose, hloose]
      obtain ⟨h₁, h₂, h₃, h₄, h₅⟩ := ih hnew hrest
      have hname : Address.loose m.loose.size = .loose m'.loose.size := by rw [hloose]
      refine ⟨?_, h₂, h₃, h₄, fun b hb => ?_⟩
      · show Address.loose m.loose.size :: _ = Address.loose m'.loose.size :: _
        rw [hname]
        exact congrArg _ h₁
      · rcases List.mem_cons.mp hb with rfl | hb
        · intro j hj
          cases hj
        · exact h₅ b hb

lemma constantAt_insert {nodes : KeyMap Nat Node} {index i : Nat} {cell : Cell} {op : NodeOp}
    {a : Address} (h : constantAt (nodes.insert index ⟨cell, op⟩) i = some a) :
    op = .constant a ∨ constantAt nodes i = some a := by
  by_cases hi : index = i
  · subst hi
    rw [constantAt, KeyMap.get?_insert_self] at h
    cases op with
    | constant b =>
      cases h
      exact .inl rfl
    | _ => cases h
  · rw [constantAt, KeyMap.get?_insert_of_ne hi] at h
    exact .inr h

/-- The constants among nodes lie in memory that holds the constants. -/
def Grounded (base : Memory) (nodes : KeyMap Nat Node) : Prop :=
  ∀ i a, constantAt nodes i = some a → ∃ k < base.slots.size, a = .at k

lemma Grounded.insert {nodes : KeyMap Nat Node} (h : Grounded base nodes) {index : Nat}
    {cell : Cell} {op : NodeOp}
    (hop : ∀ a, op = .constant a → ∃ k < base.slots.size, a = .at k) :
    Grounded base (nodes.insert index ⟨cell, op⟩) := fun i a ha =>
  (constantAt_insert ha).elim (hop a) (h i a)

lemma tally_staticCheck (twins : Twins opcodes modules base env env') {op : Opcode}
    (hop : op.Steady reg modules) {cell : Cell} (hcell : reg.Agrees cell.type)
    (bound : KeyMap String Ty)
    {arguments : List (Option Address × Cell)}
    (hargs : ∀ e ∈ arguments, ∀ a, e.1 = some a → ∃ k < base.slots.size, a = .at k) :
    Tally reg (staticCheck env op cell bound arguments) (staticCheck env' op cell bound arguments)
      fun found found' => found = [] ↔ found' = [] := by
  intro s s' hs
  have hslots : ∀ e ∈ arguments, ∀ a, e.1 = some a →
      ∃ i, a = .at i ∧ env.memory.slots[i]? = env'.memory.slots[i]? := by
    intro e he a ha
    obtain ⟨k, hk, rfl⟩ := hargs e he a ha
    exact ⟨k, rfl, (twins.left.slots k hk).trans (twins.right.slots k hk).symm⟩
  obtain ⟨hsame, hview⟩ :=
    checkSlots_agree (twins.right.loose.trans twins.left.loose.symm) hslots
  unfold staticCheck
  rw [twins.modules.1, twins.modules.2]
  generalize checkSlots env.memory arguments = checked at *
  generalize checkSlots env'.memory arguments = checked' at *
  obtain ⟨args, memory⟩ := checked
  obtain ⟨args', memory'⟩ := checked'
  obtain rfl : args = args' := hsame
  obtain ⟨h₁, h₂, h₃⟩ := hop ⟨cell.bestSource, args, cell.type, bound, modules⟩ memory memory'
    s.types s'.types rfl hcell hview hs.left hs.right
  exact ⟨h₁, h₂, h₃, hs.problems⟩

lemma tally_applyOpcode (around : Surrounds reg opcodes modules base)
    (twins : Twins opcodes modules base env env') (index : Nat) {cell : Cell}
    (hcell : reg.Agrees cell.type) {op : Opcode} (hop : op.Regular reg modules)
    (arguments : List Nat) {explicit : KeyMap String Ty}
    (hexplicit : ∀ id t, explicit.get? id = some t → reg.Agrees t) {cells : List Cell}
    (hcells : ∀ c ∈ cells, reg.Agrees c.type) {nodes : KeyMap Nat Node}
    (hnodes : Grounded base nodes) :
    Tally reg (applyOpcode env index cell op arguments explicit cells nodes)
      (applyOpcode env' index cell op arguments explicit cells nodes)
      fun o o' => o = o' ∧ ∀ a, o ≠ some (.constant a) := by
  -- The memories hold the same constants, so both sides check the same values.
  have hconstants : (arguments.map (constantAt nodes)).map (fun a => a.bind env'.memory.value?) =
      (arguments.map (constantAt nodes)).map fun a => a.bind env.memory.value? := by
    refine List.map_congr_left fun a ha => ?_
    obtain ⟨i, -, rfl⟩ := List.mem_map.mp ha
    cases hi : constantAt nodes i with
    | none => rfl
    | some a =>
      obtain ⟨k, hk, rfl⟩ := hnodes i a hi
      exact (twins.right.value? hk).trans (twins.left.value? hk).symm
  unfold applyOpcode
  refine .get fun s s' hs hs' => ?_
  dsimp only
  rw [hconstants, Binding.misfit_of_types (s := ⟨s.types, _, _, _, _, _⟩) hs.types,
    Binding.misfit_of_types (s := ⟨s'.types, _, _, _, _, _⟩) hs'.types,
    Binding.all_of_types (s := ⟨s.types, _, _, _, _, _⟩) hs.types,
    Binding.all_of_types (s := ⟨s'.types, _, _, _, _, _⟩) hs'.types]
  dsimp only
  split
  · have hbound := Binding.known_all around.tidy (s := ⟨reg, op.signature, cell, explicit, cells,
      (arguments.map (constantAt nodes)).map fun a => a.bind env.memory.value?⟩) rfl hcell hcells
      hexplicit (fun g hg i hi => absurd ((hop.generics g hg).symm.trans hi) nofun)
      (show ∀ id t, KeyMap.get? [] id = some t → reg.Known t from nofun)
    refine (tally_checkArguments around.tidy cell _ index hbound _ fun e he => ?_).bind
      fun fit _ hfit => ?_
    · have hzip := List.of_mem_zip (List.fst_mem_of_mem_zipIdx he)
      exact ⟨hop.arguments _ hzip.1, hcells _ hzip.2⟩
    subst hfit
    refine (tally_checkResult around.tidy hcell _ hbound hop.result).bind fun fit' _ hfit' => ?_
    subst hfit'
    split
    · refine (tally_staticCheck twins hop.steady hcell _ fun e he a ha => ?_).bind
        fun found found' hfound => ?_
      · obtain ⟨i, -, hi⟩ := List.mem_map.mp (List.of_mem_zip he).1
        exact hnodes i a (hi.trans ha)
      · cases found with
        | nil =>
          rw [hfound.mp rfl]
          exact .pure ⟨rfl, nofun⟩
        | cons p found =>
          cases found' with
          | nil => cases hfound.mpr rfl
          | cons q found' =>
            exact (Tally.forM_report (by simp) _ _).seq (.pure ⟨rfl, nofun⟩)
    · exact .pure ⟨rfl, nofun⟩
  · exact (Tally.forM_report Iff.rfl _ _).seq (.pure ⟨rfl, nofun⟩)

lemma tally_compileOpcode (around : Surrounds reg opcodes modules base)
    (twins : Twins opcodes modules base env env') (hc : env.callable.Typed reg) (index : Nat)
    {cell : Cell} (hcell : reg.Agrees cell.type) (mnemonic : String) (arguments : List Nat)
    {explicit : KeyMap String Ty} (hexplicit : ∀ id t, explicit.get? id = some t → reg.Agrees t)
    {nodes : KeyMap Nat Node} (hnodes : Grounded base nodes) :
    Tally reg (compileOpcode env index cell mnemonic arguments explicit nodes)
      (compileOpcode env' index cell mnemonic arguments explicit nodes)
      fun o o' => o = o' ∧ ∀ a, o ≠ some (.constant a) := by
  unfold compileOpcode
  rw [twins.opcodes.1, twins.opcodes.2, twins.callable]
  cases hop : opcodes.get? mnemonic with
  | none => exact (Tally.report _ _).seq (.pure ⟨rfl, nofun⟩)
  | some op =>
    dsimp only
    split
    · exact (Tally.report _ _).seq (.pure ⟨rfl, nofun⟩)
    · split
      · exact .pure ⟨rfl, nofun⟩
      · refine tally_applyOpcode around twins index hcell (around.opcodes _ op hop) arguments hexplicit
          (fun c hc' => ?_) hnodes
        obtain ⟨i, -, hi⟩ := List.mem_filterMap.mp hc'
        exact hc.types i c hi

/-- Two nodes for one cell: the same, and a constant only if the cell is one. -/
lemma tally_compileNode (around : Surrounds reg opcodes modules base)
    (twins : Twins opcodes modules base env env') (hc : env.callable.Typed reg) {index : Nat}
    {cell : Cell} (hcell : env.callable.cell? index = some cell) {nodes : KeyMap Nat Node}
    (hnodes : Grounded base nodes) :
    Tally reg (compileNode env index cell nodes) (compileNode env' index cell nodes)
      fun o o' => o = o' ∧ ∀ a, o = some (.constant a) → ∃ k < base.slots.size, a = .at k := by
  have hagrees := hc.types _ _ hcell
  unfold compileNode
  cases hkind : cell.kind with
  | external name =>
    dsimp only
    split
    · exact .pure ⟨rfl, nofun⟩
    · exact (Tally.report _ _).seq (.pure ⟨rfl, nofun⟩)
  | constant moduleName name =>
    dsimp only
    rw [twins.left.constant around.rooted, twins.right.constant around.rooted]
    rw [around.rooted.constant]
    cases hi : base.lookup moduleName name with
    | none => exact (Tally.report _ _).seq (.pure ⟨rfl, nofun⟩)
    | some i =>
      have hlt := around.rooted _ i hi
      dsimp only [Option.map_some]
      rw [twins.left.typeOf hlt, twins.right.typeOf hlt]
      refine (tally_checkType around.tidy _ (fun _ => .inl (around.constants i hlt))
        (fun _ => .inl hagrees) _).seq (.pure ⟨rfl, fun a ha => ?_⟩)
      cases ha
      exact ⟨i, hlt, rfl⟩
  | structured members =>
    exact (tally_checkStructure around.tidy twins hc hagrees members).seq (.pure ⟨rfl, nofun⟩)
  | iterable items =>
    exact (tally_checkIterable around.tidy twins hc hagrees items).seq (.pure ⟨rfl, nofun⟩)
  | opcode mnemonic arguments explicit =>
    refine (tally_compileOpcode around twins hc index hagrees mnemonic arguments
      (hc.bindings _ _ _ _ _ hcell hkind) hnodes).mono fun o o' ho => ⟨ho.1, fun a ha => ?_⟩
    exact absurd ha (ho.2 a)
  | call callable argument =>
    exact (tally_checkCall around.tidy twins hc hagrees callable argument).seq (.pure ⟨rfl, nofun⟩)

lemma tally_compileNodes (around : Surrounds reg opcodes modules base)
    (twins : Twins opcodes modules base env env') (hc : env.callable.Typed reg)
    (order : List Nat) {nodes : KeyMap Nat Node} (hnodes : Grounded base nodes) :
    Tally reg (compileNodes env order nodes) (compileNodes env' order nodes) Eq := by
  induction order generalizing nodes with
  | nil => exact .pure rfl
  | cons index rest ih =>
    unfold compileNodes
    rw [twins.callable]
    cases hcell : env.callable.cell? index with
    | none => exact ih hnodes
    | some cell =>
      refine (tally_compileNode around twins hc hcell hnodes).bind fun o o' ho => ?_
      obtain ⟨rfl, hconstant⟩ := ho
      cases o with
      | none => exact ih hnodes
      | some op => exact ih (hnodes.insert fun a ha => hconstant a (congrArg some ha))

lemma tally_checkArgumentCell (tidy : reg.Tidy) (twins : Twins opcodes modules base env env')
    (hc : env.callable.Typed reg) {argumentType : Ty} (hargument : reg.Agrees argumentType) :
    Tally reg (checkArgumentCell env argumentType) (checkArgumentCell env' argumentType)
      fun _ _ => True := by
  unfold checkArgumentCell
  rw [twins.callable]
  cases hcell : env.callable.cell? Callable.argumentCell with
  | none => exact .report _ _
  | some cell =>
    dsimp only
    split
    · exact tally_checkType tidy _ (fun _ => .inl hargument)
        (fun _ => .inl (hc.types _ _ hcell)) _
    · exact .report _ _

lemma tally_build (around : Surrounds reg opcodes modules base)
    (twins : Twins opcodes modules base env env') (hc : env.callable.Typed reg)
    {argumentType resultType : Ty} (hargument : reg.Agrees argumentType)
    (hresult : reg.Agrees resultType) :
    Tally reg (build env argumentType resultType) (build env' argumentType resultType) Eq := by
  unfold build
  rw [twins.callable]
  cases hcell : env.callable.cell? Callable.resultCell with
  | none => exact (Tally.report _ _).seq (.pure rfl)
  | some result =>
    dsimp only
    split
    · exact (Tally.report _ _).seq (.pure rfl)
    · refine (tally_checkType around.tidy _ (fun _ => .inl (hc.types _ _ hcell))
        (fun _ => .inl hresult) _).seq ?_
      refine (tally_checkArgumentCell around.tidy twins hc hargument).seq ?_
      rcases env.callable.reachable with ⟨order, problems⟩
      exact (Tally.forM fun _ _ => .report _ _).seq
        (tally_compileNodes around twins hc order nofun)

end Compile

/-- Two compilations that both fail, or come to one call, whatever slots its callable was found in. -/
def Compilation.Same : Compilation → Compilation → Prop
  | .ok call, .ok call' => { call with index := none } = { call' with index := none }
  | .error _, .error _ => True
  | _, _ => False

lemma Compilation.Same.isOk_eq {c c' : Compilation} (h : c.Same c') : c.isOk = c'.isOk := by
  cases c <;> cases c'
  · rfl
  · exact h.elim
  · exact h.elim
  · rfl

/-- **Compilations agree.** Whatever is remembered before, and whatever memory holds beside the
constants, a callable compiles to one call or does not compile; and what is remembered afterwards is
true. -/
lemma compile_agree {reg : Registry} {opcodes : Opcodes} {modules : KeyMap String Module}
    {base : Memory} (around : Surrounds reg opcodes modules base) {c : Callable}
    (hc : c.Typed reg) {argument result : Ty} (hargument : reg.Agrees argument)
    (hresult : reg.Agrees result) {m m' : Memory} (hm : base.Over m) (hm' : base.Over m')
    {types types' : Registry} (ht : reg.Recalls types) (ht' : reg.Recalls types')
    (index index' : Option Nat) :
    Compilation.Same ((CompileEnv.mk opcodes modules m c).compile index argument result types).1
        ((CompileEnv.mk opcodes modules m' c).compile index' argument result types').1 ∧
      reg.Recalls ((CompileEnv.mk opcodes modules m c).compile index argument result types).2 := by
  have twins : Compile.Twins opcodes modules base ⟨opcodes, modules, m, c⟩
      ⟨opcodes, modules, m', c⟩ := ⟨⟨rfl, rfl⟩, ⟨rfl, rfl⟩, rfl, hm, hm'⟩
  obtain ⟨hnodes, h⟩ := Compile.tally_build around twins hc hargument hresult { types }
    { types := types' } ⟨ht, ht', Iff.rfl⟩
  refine ⟨?_, h.left⟩
  unfold CompileEnv.compile
  generalize Compile.build ⟨opcodes, modules, m, c⟩ argument result { types } = built at *
  generalize Compile.build ⟨opcodes, modules, m', c⟩ argument result { types := types' } = built'
    at *
  obtain ⟨nodes, s⟩ := built
  obtain ⟨nodes', s'⟩ := built'
  obtain rfl : nodes = nodes' := hnodes
  dsimp only
  cases hs : s.problems with
  | nil =>
    rw [h.problems.mp hs]
    exact rfl
  | cons p ps =>
    cases hs' : s'.problems with
    | nil =>
      have hnil := h.problems.mpr hs'
      simp [hs] at hnil
    | cons q qs => exact trivial

end CellMachine
