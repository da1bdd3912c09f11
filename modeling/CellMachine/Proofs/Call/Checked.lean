import CellMachine.Proofs.Call.Acyclic
import CellMachine.Proofs.Call.Nodes
import CellMachine.Proofs.Standard.Declarations

/-!
A compiled call is a closed, acyclic and checked graph.

A check that reports nothing has found two types to match, and such a finding stands whatever the
registry is asked later; so when a whole compilation has reported nothing, the finding of each of its
checks still holds at its end.
-/

namespace CellMachine

/-! ### What compilation promises -/

namespace Registry

/-- A type can stand where another is expected, as far as both are known. -/
def Admits (reg : Registry) (actual expected : Ty) : Prop :=
  actual.isRuntimeDetermined = true ∨ expected.isRuntimeDetermined = true ∨
    reg.Accepts actual expected

end Registry

/-- A cell can become a member: the member is generic, or the cell's type can stand for the member's. -/
def Callable.Becomes (c : Callable) (reg : Registry) (i : Nat) (expected : TyRef) : Prop :=
  expected.isGeneric = true ∨ ∃ cell t, c.cell? i = some cell ∧ reg.resolve expected = .ok t ∧
    reg.Admits cell.type t

/-- Exactly the declared generics are bound, each to an open type or to one of a category that its
hint accepts. -/
def Binding.Bound (declared : KeyMap String Generic) (bound : KeyMap String Ty) : Prop :=
  ∀ id, Option.Rel (fun g t => t.isRuntimeDetermined = true ∨ g.hint.accepts t.category = true)
    (declared.get? id) (bound.get? id)

/-- The cells that what is done for a node needs. -/
def NodeOp.references : NodeOp → List Nat
  | .argument => []
  | .constant _ => []
  | .structured members => members.values
  | .iterable items => items
  | .opcode _ arguments _ => arguments
  | .call callable given => [callable, given]

/-- Whatever a cell needs exists. -/
def Callable.Supplies (c : Callable) (needed : List Nat) : Prop :=
  ∀ i ∈ needed, (c.cell? i).isSome = true

/-- What was checked of a structure cell. -/
def Callable.StructureChecked (c : Callable) (reg : Registry) (type : Ty)
    (members : KeyMap String Nat) : Prop :=
  type.isRuntimeDetermined = true ∨ ∃ name source stores, type = .structured name source stores ∧
    (∀ key, key ∈ members.keys ↔ key ∈ KeyMap.keys stores) ∧
    ∀ e ∈ stores, ∃ i, members.get? e.1 = some i ∧ c.Becomes reg i e.2

/-- What was checked of an iterable cell. -/
def Callable.IterableChecked (c : Callable) (reg : Registry) (type : Ty) (items : List Nat) : Prop :=
  type.isRuntimeDetermined = true ∨ ∃ name source element ends,
    type = .iterable name source element ends ∧ ∀ i ∈ items, c.Becomes reg i element

/-- What was checked of a cell that calls a function. -/
def Callable.CallChecked (c : Callable) (reg : Registry) (type : Ty) (callable argument : Nat) :
    Prop :=
  ∃ function, c.cell? callable = some function ∧ (function.type.isRuntimeDetermined = true ∨
    ∃ name source expected result, function.type = .callable name source expected result ∧
      c.Becomes reg argument expected ∧
      (result.isGeneric = true ∨ ∃ t, reg.resolve result = .ok t ∧ reg.Admits t type))

/-- What is done for a cell of a kind and a type, and what was checked of it. -/
def KindChecked (opcodes : Opcodes) (memory : Memory) (c : Callable) (reg : Registry) (index : Nat)
    (type : Ty) : CellKind → NodeOp → Prop
  | .external _, op => index = Callable.argumentCell ∧ op = .argument
  | .constant moduleName name, op => ∃ a,
      (memory.lookup moduleName name).bind memory.address? = some a ∧ op = .constant a ∧
        reg.Admits (memory.typeOf a) type
  | .structured members, op => op = .structured members ∧ c.StructureChecked reg type members
  | .iterable items, op => op = .iterable items ∧ c.IterableChecked reg type items
  | .opcode mnemonic arguments _, op => ∃ opcode bindings, opcodes.get? mnemonic = some opcode ∧
      op = .opcode opcode arguments bindings ∧
        arguments.length = opcode.signature.arguments.length ∧
        Binding.Bound opcode.signature.bindings bindings
  | .call callable argument, op => op = .call callable argument ∧
      c.CallChecked reg type callable argument

/-- One node needs another. -/
def CompiledCall.Refers (call : CompiledCall) (i j : Nat) : Prop :=
  ∃ node, call.nodes.get? i = some node ∧ j ∈ node.op.references

/-- **A closed, acyclic and checked graph**: the nodes are the cells that the result needs, whatever a
node needs is a node, none needs itself, and every check is passed. -/
structure CompiledCall.WellFormed (opcodes : Opcodes) (memory : Memory) (reg : Registry)
    (call : CompiledCall) : Prop where
  cells : ∀ i node, call.nodes.get? i = some node → call.callable.cell? i = some node.cell
  nodes_iff : ∀ i, (call.nodes.get? i).isSome = true ↔ call.callable.Reaches i
  closed : ∀ i j, call.Refers i j → (call.nodes.get? j).isSome = true
  acyclic : ∀ i, ¬Relation.TransGen call.Refers i i
  /-- No other cell than the argument's is given from outside. -/
  arguments : ∀ i node, call.nodes.get? i = some node →
    node.op = .argument ∨ (∃ name, node.cell.kind = .external name) → i = Callable.argumentCell
  checked : ∀ i node, call.nodes.get? i = some node →
    KindChecked opcodes memory call.callable reg i node.cell.type node.cell.kind node.op
  result : ∃ cell, call.callable.cell? Callable.resultCell = some cell ∧
    reg.Admits cell.type call.resultType
  argument : ∃ cell name, call.callable.cell? Callable.argumentCell = some cell ∧
    cell.kind = .external name ∧ reg.Admits call.argumentType cell.type

namespace Compile

/-! ### Findings -/

/-- A computation that only asks the registry and adds to the problems; unless it adds some, its result
has a property, which holds in the registry that it leaves and in all that come from there. -/
def Settles {α : Type} (x : CompileM α) (P : α → Registry → Prop) : Prop :=
  ∀ s, s.types.Asked (x s).2.types ∧ ∃ found, (x s).2.problems = s.problems ++ found ∧
    (found = [] → ∀ later, (x s).2.types.Asked later → P (x s).1 later)

namespace Settles

variable {α β : Type} {x : CompileM α} {P Q : α → Registry → Prop}

lemma pure {a : α} (h : ∀ reg, P a reg) : Settles (pure a) P :=
  fun _ => ⟨.refl _, [], (List.append_nil _).symm, fun _ later _ => h later⟩

lemma bind {f : α → CompileM β} {R : β → Registry → Prop} (hx : Settles x P)
    (hf : ∀ a, Settles (f a) fun b reg => P a reg → R b reg) : Settles (x >>= f) R := by
  intro s
  obtain ⟨hasked, found, h₁, h₂⟩ := hx s
  obtain ⟨hasked', found', h₃, h₄⟩ := hf (x s).1 (x s).2
  refine ⟨hasked.trans hasked', found ++ found', ?_, fun hnil later hlater => ?_⟩
  · rw [← List.append_assoc, ← h₁]
    exact h₃
  · obtain ⟨hnil₁, hnil₂⟩ := List.append_eq_nil_iff.mp hnil
    exact h₄ hnil₂ later hlater (h₂ hnil₁ later (hasked'.trans hlater))

lemma mono (hx : Settles x P) (h : ∀ a reg, P a reg → Q a reg) : Settles x Q := by
  intro s
  obtain ⟨hasked, found, h₁, h₂⟩ := hx s
  exact ⟨hasked, found, h₁, fun hnil later hlater => h _ _ (h₂ hnil later hlater)⟩

lemma report (p : Problem) {P : Unit → Registry → Prop} : Settles (report p) P :=
  fun _ => ⟨.refl _, [p], rfl, nofun⟩

lemma reported (p : Problem) {y : CompileM β} (hy : Settles y fun _ _ => True)
    {R : β → Registry → Prop} : Settles (Compile.report p >>= fun _ => y) R :=
  (report p (P := fun _ _ => False)).bind fun _ => hy.mono fun _ _ _ h => h.elim

lemma get {f : CompileState → CompileM β} {R : β → Registry → Prop}
    (hf : ∀ s, Settles (f s) fun b reg => reg.types = s.types.types → R b reg) :
    Settles (MonadState.get >>= f) R := by
  intro s
  obtain ⟨hasked, found, h₁, h₂⟩ := hf s s
  exact ⟨hasked, found, h₁, fun hnil later hlater =>
    h₂ hnil later hlater (hasked.trans hlater).types⟩

lemma forM {γ : Type} {l : List γ} {f : γ → CompileM Unit} {R : γ → Registry → Prop}
    (hf : ∀ e ∈ l, Settles (f e) fun _ reg => R e reg) :
    Settles (l.forM f) fun _ reg => ∀ e ∈ l, R e reg := by
  induction l with
  | nil => exact pure fun _ => nofun
  | cons e l ih =>
    refine (hf e List.mem_cons_self).bind fun _ => ?_
    refine (ih fun e' he' => hf e' (List.mem_cons_of_mem _ he')).mono fun _ reg hl he => ?_
    exact List.forall_mem_cons.mpr ⟨he, hl⟩

end Settles

lemma settles_matchTypes (source : Option Position) (a e : Ty) :
    Settles (matchTypes source a e) fun o reg => o = .ok () → reg.Accepts a e :=
  fun _ => ⟨.single _ (.types source a (some e)), [], (List.append_nil _).symm,
    fun _ _ hlater hok => hlater.accepts hok⟩

lemma settles_checkType (source : Option Position) (a e : Ty) (place : String) :
    Settles (checkType source a e place) fun _ reg => reg.Admits a e := by
  unfold checkType
  split
  · next hopen =>
    refine .pure fun _ => ?_
    rcases Bool.or_eq_true_iff.mp hopen with h | h
    · exact .inl h
    · exact .inr (.inl h)
  · refine (settles_matchTypes source a e).bind fun o => ?_
    cases o with
    | ok _ => exact .pure fun _ h => .inr (.inr (h rfl))
    | error p => exact .report _

lemma settles_checkMember (env : CompileEnv) (source : Option Position) (child : Nat)
    (expected : TyRef) (place : String) :
    Settles (checkMember env source child expected place) fun _ reg =>
      (env.callable.cell? child).isSome = true → env.callable.Becomes reg child expected := by
  unfold checkMember
  split
  · next hgeneric => exact .pure fun _ _ => .inl hgeneric
  · cases hcell : env.callable.cell? child with
    | none => exact .pure fun _ => nofun
    | some cell =>
      refine .get fun s => ?_
      cases hres : s.types.resolve expected with
      | error p => exact .report _
      | ok t =>
        refine (settles_checkType _ _ _ _).mono fun _ reg hadmits htypes _ => ?_
        exact .inr ⟨cell, t, hcell, (Registry.resolve_of_types htypes expected).trans hres, hadmits⟩

lemma settles_checkStructure (env : CompileEnv) (cell : Cell) (members : KeyMap String Nat) :
    Settles (checkStructure env cell members) fun _ reg => env.callable.Supplies members.values →
      env.callable.StructureChecked reg cell.type members := by
  unfold checkStructure
  split
  · next hopen => exact .pure fun _ _ => .inl hopen
  · split
    · next name source stores htype =>
      refine Settles.bind (P := fun _ reg => ∀ e ∈ stores, ∃ i, members.get? e.1 = some i ∧
        ((env.callable.cell? i).isSome = true → env.callable.Becomes reg i e.2))
        (.forM fun e _ => ?_) fun _ => ?_
      · cases hget : members.get? e.1 with
        | some child =>
          exact (settles_checkMember _ _ _ _ _).mono fun _ _ h => ⟨child, rfl, h⟩
        | none => exact .report _
      · refine (Settles.forM (R := fun e _ => KeyMap.contains stores e.1 = true) fun e _ => ?_).mono
          fun _ reg hknown hstored hexist => .inr ⟨name, source, stores, htype, fun key => ?_,
            fun e he => ?_⟩
        · split
          · next hin => exact .pure fun _ => hin
          · exact .report _
        · constructor
          · intro hkey
            obtain ⟨e, he, rfl⟩ := List.mem_map.mp hkey
            exact KeyMap.contains_iff.mp (hknown e he)
          · intro hkey
            obtain ⟨e, he, rfl⟩ := List.mem_map.mp hkey
            obtain ⟨i, hi, -⟩ := hstored e he
            exact KeyMap.isSome_get?_iff.mp (Option.isSome_iff_exists.mpr ⟨i, hi⟩)
        · obtain ⟨i, hi, hbecomes⟩ := hstored e he
          exact ⟨i, hi, hbecomes (hexist i (List.mem_map_of_mem (KeyMap.mem_of_get? hi)))⟩
    · exact .report _

lemma settles_checkIterable (env : CompileEnv) (cell : Cell) (items : List Nat) :
    Settles (checkIterable env cell items) fun _ reg => env.callable.Supplies items →
      env.callable.IterableChecked reg cell.type items := by
  unfold checkIterable
  split
  · next hopen => exact .pure fun _ _ => .inl hopen
  · split
    · next name source element ends htype =>
      refine (Settles.forM fun e _ => settles_checkMember _ _ _ _ _).mono fun _ reg h hexist =>
        .inr ⟨name, source, element, ends, htype, fun i hi => ?_⟩
      obtain ⟨n, hn, rfl⟩ := List.getElem_of_mem hi
      have hin : (items[n], n) ∈ items.zipIdx :=
        List.mk_mem_zipIdx_iff_getElem?.mpr (List.getElem?_eq_getElem hn)
      exact h _ hin (hexist _ hi)
    · exact .report _

lemma settles_checkCall (env : CompileEnv) (cell : Cell) (callable argument : Nat) :
    Settles (checkCall env cell callable argument) fun _ reg =>
      env.callable.Supplies [callable, argument] →
        env.callable.CallChecked reg cell.type callable argument := by
  unfold checkCall
  cases hfunction : env.callable.cell? callable with
  | none =>
    refine .pure fun _ hexist => ?_
    have := hexist callable List.mem_cons_self
    rw [hfunction] at this
    cases this
  | some function =>
    dsimp only
    split
    · next hopen => exact .pure fun _ _ => ⟨function, hfunction, .inl hopen⟩
    · split
      · next name source expected result htype =>
        refine (settles_checkMember _ _ _ _ _).bind fun _ => ?_
        have checked : ∀ reg, (result.isGeneric = true ∨ ∃ t, reg.resolve result = .ok t ∧
            reg.Admits t cell.type) → ((env.callable.cell? argument).isSome = true →
            env.callable.Becomes reg argument expected) →
            env.callable.Supplies [callable, argument] →
              env.callable.CallChecked reg cell.type callable argument :=
          fun reg hresult hargument hexist => ⟨function, hfunction, .inr ⟨name, source, expected,
            result, htype, hargument (hexist _ (List.mem_cons_of_mem _ List.mem_cons_self)),
            hresult⟩⟩
        split
        · next hgeneric => exact .pure fun reg => checked reg (.inl hgeneric)
        · refine .get fun s => ?_
          cases hres : s.types.resolve result with
          | error p => exact .report _
          | ok t =>
            refine (settles_checkType _ _ _ _).mono fun _ reg hadmits htypes => checked reg ?_
            exact .inr ⟨t, (Registry.resolve_of_types htypes result).trans hres, hadmits⟩
      · exact .report _

/-! ### Opcodes -/

lemma settles_checkArguments (cell : Cell) (mnemonic : String) (index : Nat)
    (bound : KeyMap String Ty) : ∀ l, Settles (checkArguments cell mnemonic index bound l)
      fun _ _ => True
  | [] => .pure fun _ => trivial
  | ((declared, actual), position) :: rest => by
    have others : ∀ here : Bool, Settles (do
        let others ← checkArguments cell mnemonic index bound rest
        pure (here && others)) fun _ _ => True := fun here =>
      (settles_checkArguments cell mnemonic index bound rest).bind fun _ => .pure fun _ _ => trivial
    unfold checkArguments
    refine .get fun s => ?_
    cases Binding.substitute s.types declared.type bound with
    | error p => exact .reported _ (others false)
    | ok expected =>
      dsimp only
      split
      · exact (others true).mono fun _ _ _ _ => trivial
      · refine (settles_matchTypes _ _ _).bind fun o => ?_
        cases o with
        | ok _ => exact (others true).mono fun _ _ _ _ _ => trivial
        | error p => exact .reported _ (others false)

lemma settles_checkResult (cell : Cell) (mnemonic : String) (bound : KeyMap String Ty)
    (declared : TyRef) : Settles (checkResult cell mnemonic bound declared) fun _ _ => True := by
  unfold checkResult
  refine .get fun s => ?_
  cases Binding.substitute s.types declared bound with
  | error p => exact .reported _ (.pure fun _ => trivial)
  | ok t =>
    dsimp only
    split
    · exact .pure fun _ _ => trivial
    · refine (settles_matchTypes _ _ _).bind fun o => ?_
      cases o with
      | ok _ => exact .pure fun _ _ _ => trivial
      | error p => exact .reported _ (.pure fun _ => trivial)

lemma settles_staticCheck (env : CompileEnv) {op : Opcode} (hop : op.OnlyAsks) (cell : Cell)
    (bound : KeyMap String Ty) (arguments : List (Option Address × Cell)) :
    Settles (staticCheck env op cell bound arguments) fun _ _ => True :=
  fun _ => ⟨hop _ _ _, [], (List.append_nil _).symm, fun _ _ _ => trivial⟩

lemma settles_reports {β γ : Type} (found : List β) (f : β → Problem) (a : γ) :
    Settles (do
      found.forM fun p => report (f p)
      pure a) fun _ _ => True :=
  (Settles.forM (R := fun _ _ => True) fun _ _ => .report _).bind fun _ => .pure fun _ _ => trivial

lemma bound_all {s : Binding.Site} {generics : List Generic} {declared : KeyMap String Generic}
    {bound : KeyMap String Ty} (h : Binding.Bound declared bound)
    (hfit : Binding.misfit s generics bound = []) :
    Binding.Bound (generics.foldl (fun m g => m.insert g.id g) declared)
      (Binding.all s generics bound) := by
  induction generics generalizing declared bound with
  | nil => exact h
  | cons g rest ih =>
    obtain ⟨hg, hrest⟩ := List.append_eq_nil_iff.mp hfit
    refine ih (fun id => ?_) hrest
    rw [KeyMap.get?_insert, KeyMap.get?_insert]
    split
    · have hmisfit : Binding.misfits g (Binding.ofGeneric s bound g) = false := by
        by_contra h
        rw [Bool.not_eq_false] at h
        rw [h] at hg
        cases hg
      refine .some ?_
      simp only [Binding.misfits, Bool.and_eq_false_iff, Bool.not_eq_false'] at hmisfit
      exact hmisfit
    · exact h id

lemma bound_signature {s : Binding.Site} {signature : Signature}
    (hfit : Binding.misfit s signature.generics [] = []) :
    Binding.Bound signature.bindings (Binding.all s signature.generics []) := by
  intro id
  have hnone : Binding.Bound [] [] := fun _ => .none
  have h := bound_all hnone hfit id
  rw [Signature.bindings, KeyMap.ofList, List.foldl_map]
  exact h

lemma settles_applyOpcode (env : CompileEnv) (index : Nat) (cell : Cell) {op : Opcode}
    (hop : op.OnlyAsks) (arguments : List Nat) (explicit : KeyMap String Ty) (cells : List Cell)
    (nodes : KeyMap Nat Node) :
    Settles (applyOpcode env index cell op arguments explicit cells nodes) fun o _ =>
      ∀ done, o = some done → ∃ bindings, done = .opcode op arguments bindings ∧
        Binding.Bound op.signature.bindings bindings := by
  unfold applyOpcode
  refine .get fun s => ?_
  dsimp only
  split
  · next hfit =>
    refine (settles_checkArguments _ _ _ _ _).bind fun fit => ?_
    refine (settles_checkResult _ _ _ _).bind fun fit' => ?_
    split
    · refine (settles_staticCheck _ hop _ _ _).bind fun found => ?_
      cases found with
      | nil =>
        refine .pure fun _ _ _ _ _ done hdone => ?_
        cases hdone
        exact ⟨_, rfl, bound_signature hfit⟩
      | cons p found =>
        exact Settles.reported _ (settles_reports found _ _)
    · exact .pure fun _ _ _ _ _ => nofun
  · next bad hbad =>
    refine Settles.bind (P := fun _ _ => True) ?_ fun _ => .pure fun _ _ _ _ => nofun
    exact (Settles.forM (R := fun _ _ => True) fun _ _ => .report _).mono fun _ _ _ => trivial

lemma settles_compileOpcode {env : CompileEnv} (henv : env.opcodes.OnlyAsk) (index : Nat)
    (cell : Cell) (mnemonic : String) (arguments : List Nat) (explicit : KeyMap String Ty)
    (nodes : KeyMap Nat Node) :
    Settles (compileOpcode env index cell mnemonic arguments explicit nodes) fun o _ =>
      ∀ done, o = some done → ∃ op bindings, env.opcodes.get? mnemonic = some op ∧
        done = .opcode op arguments bindings ∧
        arguments.length = op.signature.arguments.length ∧
        Binding.Bound op.signature.bindings bindings := by
  unfold compileOpcode
  cases hop : env.opcodes.get? mnemonic with
  | none => exact .reported _ (.pure fun _ => trivial)
  | some op =>
    dsimp only
    split
    · exact .reported _ (.pure fun _ => trivial)
    · next hlen =>
      split
      · exact .pure fun _ _ => nofun
      · refine (settles_applyOpcode _ _ _ (henv _ op hop) _ _ _ _).mono fun o _ ho done hdone => ?_
        obtain ⟨bindings, hdone, hbinds⟩ := ho done hdone
        exact ⟨op, bindings, rfl, hdone, not_not.mp hlen, hbinds⟩

/-! ### Nodes -/

lemma settles_compileNode {env : CompileEnv} (henv : env.opcodes.OnlyAsk) (index : Nat)
    (cell : Cell) (nodes : KeyMap Nat Node) :
    Settles (compileNode env index cell nodes) fun o reg =>
      ∀ op, o = some op → env.callable.Supplies cell.kind.references →
        KindChecked env.opcodes env.memory env.callable reg index cell.type cell.kind op := by
  unfold compileNode
  cases hkind : cell.kind with
  | external name =>
    dsimp only
    split
    · next heq => exact .pure fun _ op hop _ => ⟨heq, (Option.some.inj hop).symm⟩
    · exact .reported _ (.pure fun _ => trivial)
  | constant moduleName name =>
    dsimp only
    cases ha : (env.memory.lookup moduleName name).bind env.memory.address? with
    | none => exact .reported _ (.pure fun _ => trivial)
    | some a =>
      exact (settles_checkType _ _ _ _).bind fun _ => .pure fun _ hadmits op hop _ =>
        ⟨a, ha, (Option.some.inj hop).symm, hadmits⟩
  | structured members =>
    exact (settles_checkStructure env cell members).bind fun _ => .pure fun _ h op hop hexist =>
      ⟨(Option.some.inj hop).symm, h hexist⟩
  | iterable items =>
    exact (settles_checkIterable env cell items).bind fun _ => .pure fun _ h op hop hexist =>
      ⟨(Option.some.inj hop).symm, h hexist⟩
  | opcode mnemonic arguments explicit =>
    refine (settles_compileOpcode henv index cell mnemonic arguments explicit nodes).mono
      fun o _ ho done hdone _ => ?_
    exact ho done hdone
  | call callable argument =>
    exact (settles_checkCall env cell callable argument).bind fun _ => .pure fun _ h op hop hexist =>
      ⟨(Option.some.inj hop).symm, h hexist⟩

/-- Every new node stands for a listed cell and was checked. -/
lemma settles_compileNodes {env : CompileEnv} (henv : env.opcodes.OnlyAsk) (order : List Nat)
    (nodes : KeyMap Nat Node) :
    Settles (compileNodes env order nodes) fun nodes' reg => ∀ i node,
      nodes'.get? i = some node → nodes.get? i = some node ∨ i ∈ order ∧
        env.callable.cell? i = some node.cell ∧
        (env.callable.Supplies node.cell.kind.references →
          KindChecked env.opcodes env.memory env.callable reg i node.cell.type node.cell.kind
            node.op) := by
  induction order generalizing nodes with
  | nil => exact .pure fun _ _ _ h => .inl h
  | cons index rest ih =>
    unfold compileNodes
    cases hcell : env.callable.cell? index with
    | none =>
      exact (ih nodes).mono fun _ _ h i node hi =>
        (h i node hi).imp_right fun h => ⟨List.mem_cons_of_mem _ h.1, h.2⟩
    | some cell =>
      refine (settles_compileNode henv index cell nodes).bind fun o => ?_
      cases o with
      | none =>
        exact (ih nodes).mono fun _ _ h _ i node hi =>
          (h i node hi).imp_right fun h => ⟨List.mem_cons_of_mem _ h.1, h.2⟩
      | some op =>
        refine (ih _).mono fun nodes' reg h hnode i node hi => ?_
        rcases h i node hi with hi | ⟨hin, h⟩
        · rw [KeyMap.get?_insert] at hi
          split at hi
          · next heq =>
            cases hi
            cases heq
            exact .inr ⟨List.mem_cons_self, hcell, hnode op rfl⟩
          · exact .inl hi
        · exact .inr ⟨List.mem_cons_of_mem _ hin, h⟩

lemma settles_checkArgumentCell (env : CompileEnv) (argumentType : Ty) :
    Settles (checkArgumentCell env argumentType) fun _ reg => ∃ cell name,
      env.callable.cell? Callable.argumentCell = some cell ∧ cell.kind = .external name ∧
        reg.Admits argumentType cell.type := by
  unfold checkArgumentCell
  split
  · next cell hcell =>
    split
    · next name hkind =>
      exact (settles_checkType _ _ _ _).mono fun _ _ h => ⟨cell, name, hcell, hkind, h⟩
    · exact .report _
  · exact .report _

/-- **Without problems the cells were checked**, and the walk over them met no defect. -/
lemma settles_build {env : CompileEnv} (henv : env.opcodes.OnlyAsk) (argumentType resultType : Ty) :
    Settles (build env argumentType resultType) fun nodes reg =>
      env.callable.reachable.2 = [] ∧
      (∃ cell, env.callable.cell? Callable.resultCell = some cell ∧
        reg.Admits cell.type resultType) ∧
      (∃ cell name, env.callable.cell? Callable.argumentCell = some cell ∧
        cell.kind = .external name ∧ reg.Admits argumentType cell.type) ∧
      ∀ i node, nodes.get? i = some node → i ∈ env.callable.reachable.1 ∧
        env.callable.cell? i = some node.cell ∧
        (env.callable.Supplies node.cell.kind.references →
          KindChecked env.opcodes env.memory env.callable reg i node.cell.type node.cell.kind
            node.op) := by
  unfold build
  cases hresult : env.callable.cell? Callable.resultCell with
  | none => exact .reported _ (.pure fun _ => trivial)
  | some result =>
    dsimp only
    split
    · exact .reported _ (.pure fun _ => trivial)
    · have reported : ∀ problems : List Problem,
          Settles (problems.forM report) fun _ _ => problems = [] := by
        rintro (_ | ⟨p, problems⟩)
        · exact .pure fun _ => rfl
        · refine .reported _ ?_
          exact (Settles.forM (R := fun _ _ => True) fun e _ => .report _).mono fun _ _ _ => trivial
      refine (settles_checkType _ _ _ _).bind fun _ => ?_
      refine (settles_checkArgumentCell _ _).bind fun _ => ?_
      refine (reported _).bind fun _ => ?_
      refine (settles_compileNodes henv _ []).mono fun nodes reg h hnone hargument hadmits => ?_
      exact ⟨hnone, ⟨result, rfl, hadmits⟩, hargument, fun i node hi =>
        (h i node hi).resolve_left nofun⟩

end Compile

/-! ### Compiled calls -/

lemma KindChecked.references {opcodes : Opcodes} {memory : Memory} {c : Callable} {reg : Registry}
    {index : Nat} {type : Ty} {kind : CellKind} {op : NodeOp}
    (h : KindChecked opcodes memory c reg index type kind op) : op.references = kind.references := by
  cases kind with
  | external name =>
    obtain ⟨-, rfl⟩ := h
    rfl
  | constant moduleName name =>
    obtain ⟨a, -, rfl, -⟩ := h
    rfl
  | opcode mnemonic arguments explicit =>
    obtain ⟨opcode, bindings, -, rfl, -⟩ := h
    rfl
  | call callable argument =>
    obtain ⟨rfl, -⟩ := h
    rfl
  | structured members =>
    obtain ⟨rfl, -⟩ := h
    rfl
  | iterable items =>
    obtain ⟨rfl, -⟩ := h
    rfl

lemma KindChecked.eq_argumentCell {opcodes : Opcodes} {memory : Memory} {c : Callable}
    {reg : Registry} {index : Nat} {type : Ty} {kind : CellKind} {op : NodeOp}
    (h : KindChecked opcodes memory c reg index type kind op)
    (hop : op = .argument ∨ ∃ name, kind = .external name) : index = Callable.argumentCell := by
  cases kind with
  | external name => exact h.1
  | constant moduleName name =>
    obtain ⟨a, -, rfl, -⟩ := h
    rcases hop with hop | ⟨_, hop⟩ <;> cases hop
  | opcode mnemonic arguments explicit =>
    obtain ⟨opcode, bindings, -, rfl, -⟩ := h
    rcases hop with hop | ⟨_, hop⟩ <;> cases hop
  | call callable argument =>
    obtain ⟨rfl, -⟩ := h
    rcases hop with hop | ⟨_, hop⟩ <;> cases hop
  | structured members =>
    obtain ⟨rfl, -⟩ := h
    rcases hop with hop | ⟨_, hop⟩ <;> cases hop
  | iterable items =>
    obtain ⟨rfl, -⟩ := h
    rcases hop with hop | ⟨_, hop⟩ <;> cases hop

lemma CompileEnv.wellFormed_compile {env : CompileEnv} (henv : env.opcodes.OnlyAsk)
    {index : Option Nat} {argument result : Ty} {types later : Registry} {call : CompiledCall}
    (h : (env.compile index argument result types).1 = .ok call)
    (hlater : (env.compile index argument result types).2.Asked later) :
    call.WellFormed env.opcodes env.memory later := by
  have fits := (CompileEnv.fits_compile henv.keepTypes h).2.2
  obtain ⟨hnone, rfl⟩ := CompileEnv.compile_ok_iff.mp h
  obtain ⟨-, found, hfound, hsettled⟩ := Compile.settles_build henv argument result { types }
  rw [hnone] at hfound
  obtain ⟨hdefects, hresult, hargument, hnodes⟩ := hsettled hfound.symm later hlater
  have hexists : (env.callable.cell? Callable.resultCell).isSome = true := by
    obtain ⟨cell, hcell, -⟩ := hresult
    exact Option.isSome_iff_exists.mpr ⟨cell, hcell⟩
  have checked : ∀ i node, KeyMap.get? (Compile.build env argument result { types }).1 i =
      some node → KindChecked env.opcodes env.memory env.callable later i node.cell.type
        node.cell.kind node.op := by
    intro i node hi
    refine (hnodes i node hi).2.2 fun r hr => ?_
    obtain ⟨node', hr'⟩ := Option.isSome_iff_exists.mp (fits.refs i node hi r hr)
    exact Option.isSome_iff_exists.mpr ⟨node'.cell, fits.cell r node' hr'⟩
  refine ⟨fits.cell, fun i => ⟨fun hi => ?_, fun hi => ?_⟩, ?_, fun i hcycle => ?_,
    fun i node hi => (checked i node hi).eq_argumentCell, checked, hresult, hargument⟩
  · obtain ⟨node, hi⟩ := Option.isSome_iff_exists.mp hi
    exact Callable.reaches_of_mem_reachable (hnodes i node hi).1
  · induction hi with
    | refl => exact fits.result
    | tail _ hij ih =>
      obtain ⟨node, hnode⟩ := Option.isSome_iff_exists.mp ih
      exact fits.refs _ node hnode _ ((Callable.refers_iff (fits.cell _ node hnode)).mp hij)
  · rintro i j ⟨node, hi, hj⟩
    exact fits.refs i node hi j ((checked i node hi).references ▸ hj)
  · -- A cycle of nodes is one of cells, and the cell it starts from was listed.
    have hcells : Relation.TransGen env.callable.Refers i i := by
      refine hcycle.lift id ?_
      rintro i j ⟨node, hi, hj⟩
      exact ⟨node.cell, fits.cell i node hi, (checked i node hi).references ▸ hj⟩
    obtain ⟨j, ⟨node, hi, -⟩, -⟩ := Relation.TransGen.head'_iff.mp hcycle
    exact Callable.not_transGen_refers (hdefects ▸ .nil) (hnodes i node hi).1 hcells

/-- **A compiled call is a closed, acyclic and checked graph**: of the callable in the slot that was
compiled, for the types that the slot's type says; and it stays one, whatever the registry is asked
later. -/
theorem compiled_calls_well_formed {opcodes : Opcodes} (hopcodes : opcodes.OnlyAsk)
    {modules : KeyMap String Module} {memory : Memory} {a : Address} {types types' : Registry}
    {call : CompiledCall}
    (h : compileSlot opcodes modules memory a types = (.ok call, types')) :
    ∃ name source argument result, memory.typeOf a = .callable name source argument result ∧
      memory.value? a = some (.callable call.callable) ∧
      types.resolve argument = .ok call.argumentType ∧ types.resolve result = .ok call.resultType ∧
      ∀ later, types'.Asked later → call.WellFormed opcodes memory later := by
  have refuse : ∀ {p : List Problem} {r : Registry}, (.error p, r) ≠ ((.ok call, types') :
      Compilation × Registry) := nofun
  by_cases hfound : (∀ f, memory.value? a ≠ some (.callable f)) ∨
      ∀ name source argument result, memory.typeOf a ≠ .callable name source argument result
  · exact absurd ((compileSlot_refused hfound).symm.trans h) refuse
  · push Not at hfound
    obtain ⟨⟨f, hvalue⟩, name, source, argument, result, htype⟩ := hfound
    refine ⟨name, source, argument, result, htype, ?_⟩
    rw [compileSlot_callable hvalue htype] at h
    cases hargument : types.resolve argument with
    | error p => cases hresult : types.resolve result <;> rw [hargument, hresult] at h <;> cases h
    | ok expected =>
      cases hresult : types.resolve result with
      | error p =>
        rw [hargument, hresult] at h
        cases h
      | ok returned =>
        rw [hargument, hresult] at h
        dsimp only at h
        have hok := congrArg Prod.fst h
        obtain ⟨-, rfl⟩ := CompileEnv.compile_ok_iff.mp hok
        refine ⟨hvalue, rfl, rfl, fun later hlater => ?_⟩
        have henv : (CompileEnv.mk opcodes modules memory f).opcodes.OnlyAsk := hopcodes
        exact CompileEnv.wellFormed_compile henv hok (congrArg Prod.snd h ▸ hlater)

namespace Compile.Sample

/-- The type of functions from integers to integers. -/
def stepTy : Ty := .callable "step" none (.inline Standard.integer) (.inline Standard.integer)

/-- Adds one to what a step makes of the argument. -/
def stepAndOne : Callable where
  cells := [(0, ⟨.opcode "iadd" [2, 3] [], Standard.integer, none⟩),
    (1, .external "argument" Standard.integer), (2, ⟨.call 4 1, Standard.integer, none⟩),
    (3, .constant "m" "one" Standard.integer), (4, .constant "m" "next" stepTy)]

/-- A module with this function, the number one, and a step that always comes to one. -/
def steps : Memory where
  slots := #[⟨.constant "m" "main" stepTy, some (.callable stepAndOne)⟩,
    ⟨.constant "m" "next" stepTy, some (.callable { cells :=
      [(0, .constant "m" "one" Standard.integer), (1, .external "argument" Standard.integer)] })⟩,
    ⟨.constant "m" "one" Standard.integer, some (.int 1)⟩]
  constants := 3
  directory := [("m!main", 0), ("m!next", 1), ("m!one", 2)]

end Compile.Sample

/-- A function that calls another and adds to its result compiles, with all its cells as nodes. -/
theorem step_and_one_well_formed :
    (Opcodes.ofList Standard.opcodes).OnlyAsk ∧ ∃ call types,
      compileSlot (Opcodes.ofList Standard.opcodes) [] Compile.Sample.steps (.at 0) .initial =
        (.ok call, types) ∧ call.nodes.keys = [0, 1, 2, 3, 4] ∧
      call.WellFormed (Opcodes.ofList Standard.opcodes) Compile.Sample.steps types := by
  have hopcodes : (Opcodes.ofList Standard.opcodes).OnlyAsk :=
    fun _ _ hop => Standard.onlyAsks (Standard.mem_opcodes hop)
  have hcompiles : (compileSlot (Opcodes.ofList Standard.opcodes) [] Compile.Sample.steps (.at 0)
      .initial).1.toOption.map (fun call => call.nodes.keys) = some [0, 1, 2, 3, 4] := by
    decide +kernel
  rcases h : compileSlot (Opcodes.ofList Standard.opcodes) [] Compile.Sample.steps (.at 0)
      .initial with ⟨_ | call, types⟩
  · rw [h] at hcompiles
    cases hcompiles
  · rw [h] at hcompiles
    obtain ⟨-, -, -, -, -, -, -, -, hformed⟩ := compiled_calls_well_formed hopcodes h
    exact ⟨hopcodes, call, types, rfl, Option.some.inj hcompiles, hformed types (.refl _)⟩

end CellMachine
