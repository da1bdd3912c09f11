import CellMachine.Proofs.Call.Nodes
import CellMachine.Proofs.Safety.Problems

/-!
Compilations that fail do so with problems of the script: no check of a cell blames the machine, as long
as the opcodes' own checks do not.
-/

namespace CellMachine

/-- A check that comes to ordinary problems and leaves ordinary verdicts. -/
def OrdinaryCheck (check : StateM Registry (List Problem)) : Prop :=
  ∀ types, Registry.OrdinaryVerdicts types.verdicts →
    (∀ p ∈ (check types).1, p.cause.isOrdinary = true) ∧
      Registry.OrdinaryVerdicts (check types).2.verdicts

/-- An opcode whose own check of a cell is ordinary. -/
def Opcode.ChecksOrdinarily (op : Opcode) : Prop := ∀ f m, OrdinaryCheck (op.staticCheck f m)

def Opcodes.CheckOrdinarily (opcodes : Opcodes) : Prop :=
  ∀ mnemonic op, opcodes.get? mnemonic = some op → op.ChecksOrdinarily

namespace Callable

/-! ### The walk through the cells -/

variable {c : Callable} {marks : KeyMap Nat Mark} {cell : Cell} {index : Nat}

lemma not_internal_dangling (position reference : Nat) :
    ¬ (dangling cell index position reference).Internal := by
  unfold dangling
  split
  · exact Problem.not_internal_of_ordinary rfl
  · have hreason : "missing cell" ∉ Problem.lookupFailures := by decide
    refine Problem.not_internal_of_reason rfl ?_ hreason
    simp [Problem.param?, Problem.set, KeyMap.get?_insert]

lemma not_internal_cyclic (reference : Nat) : ¬ (cyclic cell index reference).Internal := by
  have hreason : "cycle" ∉ Problem.lookupFailures := by decide
  refine Problem.not_internal_of_reason rfl ?_ hreason
  simp [cyclic, Problem.param?, Problem.set, KeyMap.get?_insert]

lemma not_internal_referenceProblems : ∀ p ∈ c.referenceProblems marks cell index, ¬ p.Internal := by
  intro p hp
  obtain ⟨e, -, he⟩ := List.mem_filterMap.mp hp
  unfold referenceProblem at he
  split at he
  · cases he
    exact not_internal_cyclic _
  · cases he
  · split at he
    · cases he
    · cases he
      exact not_internal_dangling _ _

lemma not_internal_walk (fuel : Nat) (stack : List (Nat × Bool)) {w : Walk}
    (hw : ∀ p ∈ w.problems, ¬ p.Internal) : ∀ p ∈ (c.walk fuel stack w).problems, ¬ p.Internal := by
  induction fuel, stack, w using walk.induct c with
  | case1 => rwa [walk]
  | case2 => rwa [walk]
  | case3 w fuel index stack ih =>
    rw [walk]
    exact ih hw
  | case4 w fuel index stack hmark ih =>
    rw [walk, if_pos hmark]
    exact ih hw
  | case5 w fuel index stack hmark hcell ih =>
    rw [walk, if_neg hmark, hcell]
    exact ih hw
  | case6 w fuel index stack hmark cell hcell marks next ih =>
    rw [walk, if_neg hmark, hcell]
    exact ih fun p hp => (List.mem_append.mp hp).elim (hw p) (not_internal_referenceProblems p)

lemma not_internal_reachable : ∀ p ∈ c.reachable.2, ¬ p.Internal :=
  not_internal_walk _ _ (List.forall_mem_nil _)

end Callable

namespace Compile

/-- What was found so far does not blame the machine. -/
structure Blameless (s : CompileState) : Prop where
  verdicts : Registry.OrdinaryVerdicts s.types.verdicts
  problems : ∀ p ∈ s.problems, ¬ p.Internal

/-- A computation that never blames the machine, and whose result has a property. -/
def Fair {α : Type} (x : CompileM α) (P : α → Prop) : Prop :=
  ∀ s, Blameless s → Blameless (x s).2 ∧ P (x s).1

namespace Fair

variable {α β : Type} {x : CompileM α} {P Q : α → Prop}

lemma pure {a : α} (h : P a) : Fair (pure a) P := fun _ hs => ⟨hs, h⟩

lemma bind {f : α → CompileM β} {R : β → Prop} (hx : Fair x P) (hf : ∀ a, P a → Fair (f a) R) :
    Fair (x >>= f) R := by
  intro s hs
  obtain ⟨hs', ha⟩ := hx s hs
  exact hf _ ha _ hs'

lemma report {p : Problem} (hp : ¬ p.Internal) : Fair (report p) fun _ => True :=
  fun _ hs => ⟨⟨hs.verdicts, fun q hq => (List.mem_append.mp hq).elim (hs.problems q)
    fun h => List.mem_singleton.mp h ▸ hp⟩, trivial⟩

lemma reported {p : Problem} (hp : ¬ p.Internal) {y : CompileM β} {R : β → Prop} (hy : Fair y R) :
    Fair (Compile.report p >>= fun _ => y) R := (report hp).bind fun _ _ => hy

lemma get {f : CompileState → CompileM β} {R : β → Prop} (hf : ∀ s, Fair (f s) R) :
    Fair (MonadState.get >>= f) R := fun s hs => hf s s hs

lemma forM {γ : Type} {l : List γ} {f : γ → CompileM Unit}
    (hf : ∀ e ∈ l, Fair (f e) fun _ => True) : Fair (l.forM f) fun _ => True := by
  induction l with
  | nil => exact pure trivial
  | cons e l ih =>
    exact (hf e List.mem_cons_self).bind fun _ _ =>
      ih fun e' he' => hf e' (List.mem_cons_of_mem _ he')

end Fair

open Problem

/-! ### Checks -/

lemma fair_matchTypes (source : Option Position) (a e : Ty) :
    Fair (matchTypes source a e) Registry.OrdinaryOutcome := by
  intro s hs
  obtain ⟨hfail, hverdicts⟩ := Registry.ordinary_matchTypes hs.verdicts source a (some e)
  exact ⟨⟨hverdicts, hs.problems⟩, hfail⟩

lemma fair_checkType (source : Option Position) (a e : Ty) (place : String) :
    Fair (checkType source a e place) fun _ => True := by
  unfold checkType
  split
  · exact .pure trivial
  · refine (fair_matchTypes source a e).bind fun o ho => ?_
    cases o with
    | ok u => exact .pure trivial
    | error p => exact .report (not_internal_of_ordinary (ho p rfl))

lemma fair_checkMember (env : CompileEnv) (source : Option Position) (child : Nat)
    (expected : TyRef) (place : String) :
    Fair (checkMember env source child expected place) fun _ => True := by
  unfold checkMember
  split
  · exact .pure trivial
  · cases env.callable.cell? child with
    | none => exact .pure trivial
    | some cell =>
      refine .get fun s => ?_
      have hresolve := s.types.ordinary_resolve expected
      cases hr : s.types.resolve expected with
      | ok t => exact fair_checkType _ _ _ _
      | error p => exact .report (not_internal_of_ordinary (hresolve p hr))

lemma fair_checkStructure (env : CompileEnv) (cell : Cell) (members : KeyMap String Nat) :
    Fair (checkStructure env cell members) fun _ => True := by
  unfold checkStructure
  split
  · exact .pure trivial
  · split
    · refine Fair.bind (P := fun _ => True) (.forM fun e _ => ?_) fun _ _ => .forM fun e _ => ?_
      · cases members.get? e.1 with
        | some child => exact fair_checkMember _ _ _ _ _
        | none => exact .report (not_internal_of_ordinary rfl)
      · split
        · exact .pure trivial
        · exact .report (not_internal_of_ordinary rfl)
    · exact .report (not_internal_of_ordinary rfl)

lemma fair_checkIterable (env : CompileEnv) (cell : Cell) (items : List Nat) :
    Fair (checkIterable env cell items) fun _ => True := by
  unfold checkIterable
  split
  · exact .pure trivial
  · split
    · exact .forM fun e _ => fair_checkMember _ _ _ _ _
    · exact .report (not_internal_of_ordinary rfl)

lemma fair_checkCall (env : CompileEnv) (cell : Cell) (callable argument : Nat) :
    Fair (checkCall env cell callable argument) fun _ => True := by
  unfold checkCall
  cases env.callable.cell? callable with
  | none => exact .pure trivial
  | some function =>
    dsimp only
    split
    · exact .pure trivial
    · split
      · next result _ =>
        refine (fair_checkMember _ _ _ _ _).bind fun _ _ => ?_
        split
        · exact .pure trivial
        · refine .get fun s => ?_
          have hresolve := s.types.ordinary_resolve result
          cases hr : s.types.resolve result with
          | ok t => exact fair_checkType _ _ _ _
          | error p => exact .report (not_internal_of_ordinary (hresolve p hr))
      · exact .report (not_internal_of_ordinary rfl)

/-! ### Opcodes -/

lemma ordinary_substitute (types : Registry) (declared : TyRef) (bound : KeyMap String Ty) :
    Registry.OrdinaryOutcome (Binding.substitute types declared bound) := by
  unfold Binding.substitute
  cases declared with
  | generic id hint => exact Registry.ordinary_ok _
  | _ =>
    have hresolve := types.ordinary_resolve
    dsimp only
    split
    · next p hp => exact Registry.ordinary_error (hresolve _ p hp)
    · split <;> exact Registry.ordinary_ok _
    · split <;> exact Registry.ordinary_ok _
    · exact Registry.ordinary_ok _

lemma fair_checkArguments (cell : Cell) (mnemonic : String) (index : Nat)
    (bound : KeyMap String Ty) : ∀ l, Fair (checkArguments cell mnemonic index bound l) fun _ => True
  | [] => .pure trivial
  | ((declared, actual), position) :: rest => by
    have others : ∀ here : Bool, Fair (do
        let others ← checkArguments cell mnemonic index bound rest
        pure (here && others)) fun _ => True := fun here =>
      (fair_checkArguments cell mnemonic index bound rest).bind fun _ _ => .pure trivial
    unfold checkArguments
    refine .get fun s => ?_
    have hdeclared := ordinary_substitute s.types declared.type bound
    cases ht : Binding.substitute s.types declared.type bound with
    | error p =>
      refine .reported (not_internal_of_ordinary ?_) (others false)
      exact hdeclared p ht
    | ok expected =>
      dsimp only
      split
      · exact others true
      · refine (fair_matchTypes _ _ _).bind fun o ho => ?_
        cases o with
        | ok u => exact others true
        | error p =>
          refine .reported (not_internal_of_ordinary ?_) (others false)
          rw [addAll_cause]
          rfl

lemma fair_checkResult (cell : Cell) (mnemonic : String) (bound : KeyMap String Ty)
    (declared : TyRef) : Fair (checkResult cell mnemonic bound declared) fun _ => True := by
  unfold checkResult
  refine .get fun s => ?_
  have hdeclared := ordinary_substitute s.types declared bound
  cases ht : Binding.substitute s.types declared bound with
  | error p =>
    refine .reported (not_internal_of_ordinary ?_) (.pure trivial)
    exact hdeclared p ht
  | ok t =>
    dsimp only
    split
    · exact .pure trivial
    · refine (fair_matchTypes _ _ _).bind fun o ho => ?_
      cases o with
      | ok u => exact .pure trivial
      | error p =>
        refine .reported (not_internal_of_ordinary ?_) (.pure trivial)
        exact ho p rfl

lemma fair_staticCheck (env : CompileEnv) {op : Opcode} (hop : op.ChecksOrdinarily) (cell : Cell)
    (bound : KeyMap String Ty) (arguments : List (Option Address × Cell)) :
    Fair (staticCheck env op cell bound arguments) fun found =>
      ∀ p ∈ found, p.cause.isOrdinary = true := by
  intro s hs
  obtain ⟨hfound, hverdicts⟩ := hop _ _ s.types hs.verdicts
  exact ⟨⟨hverdicts, hs.problems⟩, hfound⟩

lemma fair_applyOpcode (env : CompileEnv) (index : Nat) (cell : Cell) {op : Opcode}
    (hop : op.ChecksOrdinarily) (arguments : List Nat) (explicit : KeyMap String Ty)
    (cells : List Cell) (nodes : KeyMap Nat Node) :
    Fair (applyOpcode env index cell op arguments explicit cells nodes) fun _ => True := by
  unfold applyOpcode
  refine .get fun s => ?_
  dsimp only
  split
  · refine (fair_checkArguments _ _ _ _ _).bind fun fit _ => ?_
    refine (fair_checkResult _ _ _ _).bind fun fit' _ => ?_
    split
    · refine (fair_staticCheck _ hop _ _ _).bind fun found hfound => ?_
      split
      · exact .pure trivial
      · refine Fair.bind (P := fun _ => True) (.forM fun p hp => .report ?_) fun _ _ => .pure trivial
        exact not_internal_of_ordinary (hfound p hp)
    · exact .pure trivial
  · refine Fair.bind (P := fun _ => True) (.forM fun e _ => .report ?_) fun _ _ => .pure trivial
    exact not_internal_of_ordinary rfl

lemma fair_compileOpcode {env : CompileEnv} (henv : env.opcodes.CheckOrdinarily) (index : Nat)
    (cell : Cell) (mnemonic : String) (arguments : List Nat) (explicit : KeyMap String Ty)
    (nodes : KeyMap Nat Node) :
    Fair (compileOpcode env index cell mnemonic arguments explicit nodes) fun _ => True := by
  unfold compileOpcode
  cases hop : env.opcodes.get? mnemonic with
  | none => exact .reported (not_internal_of_ordinary rfl) (.pure trivial)
  | some op =>
    dsimp only
    split
    · exact .reported (not_internal_of_ordinary rfl) (.pure trivial)
    · split
      · exact .pure trivial
      · exact fair_applyOpcode _ _ _ (henv _ op hop) _ _ _ _

/-! ### Nodes -/

lemma fair_compileNode {env : CompileEnv} (henv : env.opcodes.CheckOrdinarily) (index : Nat)
    (cell : Cell) (nodes : KeyMap Nat Node) :
    Fair (compileNode env index cell nodes) fun _ => True := by
  unfold compileNode
  cases cell.kind with
  | external name =>
    dsimp only
    split
    · exact .pure trivial
    · exact .reported (not_internal_of_ordinary rfl) (.pure trivial)
  | constant moduleName name =>
    dsimp only
    cases (env.memory.lookup moduleName name).bind env.memory.address? with
    | none => exact .reported (not_internal_of_ordinary rfl) (.pure trivial)
    | some a => exact (fair_checkType _ _ _ _).bind fun _ _ => .pure trivial
  | structured members => exact (fair_checkStructure env cell members).bind fun _ _ => .pure trivial
  | iterable items => exact (fair_checkIterable env cell items).bind fun _ _ => .pure trivial
  | opcode mnemonic arguments explicit =>
    exact fair_compileOpcode henv index cell mnemonic arguments explicit nodes
  | call callable argument =>
    exact (fair_checkCall env cell callable argument).bind fun _ _ => .pure trivial

lemma fair_compileNodes {env : CompileEnv} (henv : env.opcodes.CheckOrdinarily) (order : List Nat)
    (nodes : KeyMap Nat Node) : Fair (compileNodes env order nodes) fun _ => True := by
  induction order generalizing nodes with
  | nil => exact .pure trivial
  | cons index rest ih =>
    unfold compileNodes
    cases env.callable.cell? index with
    | none => exact ih nodes
    | some cell =>
      refine (fair_compileNode henv index cell nodes).bind fun o _ => ?_
      cases o with
      | none => exact ih nodes
      | some op => exact ih _

lemma fair_checkArgumentCell (env : CompileEnv) (argumentType : Ty) :
    Fair (checkArgumentCell env argumentType) fun _ => True := by
  unfold checkArgumentCell
  split
  · split
    · exact fair_checkType _ _ _ _
    · exact .report (not_internal_of_ordinary rfl)
  · exact .report (not_internal_of_ordinary rfl)

/-- **Building the nodes of a callable never blames the machine.** -/
lemma fair_build {env : CompileEnv} (henv : env.opcodes.CheckOrdinarily)
    (argumentType resultType : Ty) :
    Fair (build env argumentType resultType) fun _ => True := by
  unfold build
  split
  · exact .reported (not_internal_of_ordinary rfl) (.pure trivial)
  · split
    · exact .reported (not_internal_of_ordinary rfl) (.pure trivial)
    · refine (fair_checkType _ _ _ _).bind fun _ _ => ?_
      refine (fair_checkArgumentCell _ _).bind fun _ _ => ?_
      refine Fair.bind (P := fun _ => True) (.forM fun p hp => .report ?_) fun _ _ =>
        fair_compileNodes henv _ _
      exact Callable.not_internal_reachable p hp

end Compile

/-- A compilation that can be relied on: nodes that fit the callable, or problems of the script. -/
def Compilation.Reliable (opcodes : Opcodes) (memory : Memory) : Compilation → Prop
  | .ok call => Fits opcodes memory call.callable call.nodes
  | .error found => ∀ p ∈ found, ¬ p.Internal

lemma CompileEnv.reliable_compile {env : CompileEnv} (hkeep : env.opcodes.KeepTypes)
    (henv : env.opcodes.CheckOrdinarily) (index : Option Nat) (argument result : Ty)
    {types : Registry} (htypes : Registry.OrdinaryVerdicts types.verdicts) :
    (env.compile index argument result types).1.Reliable env.opcodes env.memory ∧
      Registry.OrdinaryVerdicts (env.compile index argument result types).2.verdicts := by
  obtain ⟨⟨hverdicts, hproblems⟩, -⟩ :=
    Compile.fair_build henv argument result { types } ⟨htypes, List.forall_mem_nil _⟩
  refine ⟨?_, hverdicts⟩
  cases hc : (env.compile index argument result types).1 with
  | ok call =>
    obtain ⟨hcallable, -, hfits⟩ := fits_compile hkeep hc
    show Fits env.opcodes env.memory call.callable call.nodes
    rw [hcallable]
    exact hfits
  | error found =>
    rw [compile] at hc
    generalize Compile.build env argument result { types } = r at hc hproblems
    obtain ⟨nodes, s⟩ := r
    dsimp only at hc
    unfold unlessProblems at hc
    split at hc
    · cases hc
    · cases hc
      exact hproblems

/-- **Compiling what a slot holds** is reliable. -/
lemma reliable_compileSlot {opcodes : Opcodes} (hkeep : opcodes.KeepTypes)
    (hopcodes : opcodes.CheckOrdinarily) (modules : KeyMap String Module) (memory : Memory)
    (a : Address) {types : Registry} (htypes : Registry.OrdinaryVerdicts types.verdicts) :
    (compileSlot opcodes modules memory a types).1.Reliable opcodes memory ∧
      Registry.OrdinaryVerdicts (compileSlot opcodes modules memory a types).2.verdicts := by
  have refused : ∀ {p}, p.cause.isOrdinary = true →
      Compilation.Reliable opcodes memory (.error [p]) := fun hp =>
    List.forall_mem_singleton.mpr (Problem.not_internal_of_ordinary hp)
  cases htype : memory.typeOf a with
  | callable name source argument result =>
    by_cases hvalue : ∃ f, memory.value? a = some (.callable f)
    · obtain ⟨f, hvalue⟩ := hvalue
      have hargument := types.ordinary_resolve argument
      have hresult := types.ordinary_resolve result
      rw [compileSlot_callable hvalue htype]
      cases hx : types.resolve argument with
      | ok x =>
        cases hy : types.resolve result with
        | ok y =>
          exact @CompileEnv.reliable_compile ⟨opcodes, modules, memory, f⟩ hkeep hopcodes a.index? x y
            types htypes
        | error q => exact ⟨refused (hresult q hy), htypes⟩
      | error p =>
        cases hy : types.resolve result with
        | ok y => exact ⟨refused (hargument p hx), htypes⟩
        | error q =>
          refine ⟨List.forall_mem_cons.mpr ⟨?_, refused (hresult q hy)⟩, htypes⟩
          exact Problem.not_internal_of_ordinary (hargument p hx)
    · rw [compileSlot_refused (.inl fun f hf => hvalue ⟨f, hf⟩)]
      exact ⟨refused rfl, htypes⟩
  | _ =>
    rw [compileSlot_refused (.inr fun _ _ _ _ h => by rw [htype] at h; cases h)]
    exact ⟨refused rfl, htypes⟩

end CellMachine
