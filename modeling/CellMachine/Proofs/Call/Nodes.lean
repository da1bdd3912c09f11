import Mathlib.Tactic
import CellMachine.Call.Compiled
import CellMachine.Proofs.Call.Acyclic
import CellMachine.Proofs.Registry.Verdicts

/-!
What a compilation without problems has found out about the cells of a callable: each node does what
its cell says, and whatever a node refers to is a node.
-/

namespace CellMachine

/-- What is done for a cell of a kind and a type is what the cell says. -/
def KindFits (opcodes : Opcodes) (memory : Memory) (type : Ty) : CellKind → NodeOp → Prop
  | .external _, op => op = .argument
  | .constant moduleName name, op => ∃ a,
      (memory.lookup moduleName name).bind memory.address? = some a ∧ op = .constant a
  | .structured members, op => op = .structured members ∧
      (type.isRuntimeDetermined = false → ∀ k ∈ members.keys, k ∈ type.stores.keys)
  | .iterable items, op => op = .iterable items
  | .opcode mnemonic arguments _, op => ∃ opcode bindings, opcodes.get? mnemonic = some opcode ∧
      opcode.signature.arguments.length = arguments.length ∧ op = .opcode opcode arguments bindings
  | .call callable argument, op => op = .call callable argument

/-- The nodes of a callable are its cells, closed under references, and the result is one of them. -/
structure Fits (opcodes : Opcodes) (memory : Memory) (c : Callable) (nodes : KeyMap Nat Node) :
    Prop where
  result : (nodes.get? Callable.resultCell).isSome = true
  cell : ∀ i node, nodes.get? i = some node → c.cell? i = some node.cell
  fits : ∀ i node, nodes.get? i = some node →
    KindFits opcodes memory node.cell.type node.cell.kind node.op
  refs : ∀ i node, nodes.get? i = some node → ∀ r ∈ node.cell.kind.references,
    (nodes.get? r).isSome = true
  ascending : nodes.Ascending
  /-- A node is listed after those that it refers to. -/
  listed : ∀ i node, nodes.get? i = some node → ∀ r ∈ node.cell.kind.references,
    c.reachable.1.idxOf r < c.reachable.1.idxOf i

/-- An opcode that a node applies is known by the mnemonic in its cell. -/
lemma KindFits.opcode {opcodes : Opcodes} {memory : Memory} {type : Ty} {kind : CellKind}
    {op : Opcode} {arguments : List Nat} {bindings : KeyMap String Ty}
    (h : KindFits opcodes memory type kind (.opcode op arguments bindings)) :
    ∃ mnemonic explicit, kind = .opcode mnemonic arguments explicit ∧
      opcodes.get? mnemonic = some op := by
  cases kind with
  | opcode mnemonic arguments' explicit =>
    obtain ⟨op', bindings', hget, -, heq⟩ := h
    cases heq
    exact ⟨mnemonic, explicit, rfl, hget⟩
  | constant moduleName name =>
    obtain ⟨a, -, heq⟩ := h
    cases heq
  | structured members => cases h.1
  | _ => cases h

/-- An opcode whose own check keeps the registered types. -/
def Opcode.KeepsTypes (op : Opcode) : Prop :=
  ∀ f m types, (op.staticCheck f m types).2.types = types.types

def Opcodes.KeepTypes (opcodes : Opcodes) : Prop :=
  ∀ mnemonic op, opcodes.get? mnemonic = some op → op.KeepsTypes

/-- An opcode whose own check does nothing to the registry but ask it whether types match. -/
def Opcode.OnlyAsks (op : Opcode) : Prop :=
  ∀ f m types, Registry.Asked types (op.staticCheck f m types).2

def Opcodes.OnlyAsk (opcodes : Opcodes) : Prop :=
  ∀ mnemonic op, opcodes.get? mnemonic = some op → op.OnlyAsks

lemma Opcode.OnlyAsks.keepsTypes {op : Opcode} (h : op.OnlyAsks) : op.KeepsTypes :=
  fun f m types => (h f m types).types

lemma Opcodes.OnlyAsk.keepTypes {opcodes : Opcodes} (h : opcodes.OnlyAsk) : opcodes.KeepTypes :=
  fun mnemonic op hop => (h mnemonic op hop).keepsTypes

namespace Compile

/-- A computation that keeps the registered types and the problems found before it, and whose result
has a property unless it finds some of its own. -/
def Clean {α : Type} (x : CompileM α) (P : α → Prop) : Prop :=
  ∀ s, (x s).2.types.types = s.types.types ∧
    ∃ found, (x s).2.problems = s.problems ++ found ∧ (found = [] → P (x s).1)

namespace Clean

variable {α β : Type} {x : CompileM α} {P Q : α → Prop}

lemma pure {a : α} (h : P a) : Clean (pure a) P :=
  fun _ => ⟨rfl, [], (List.append_nil _).symm, fun _ => h⟩

lemma bind {f : α → CompileM β} {R : β → Prop} (hx : Clean x P)
    (hf : ∀ a, Clean (f a) fun b => P a → R b) : Clean (x >>= f) R := by
  intro s
  obtain ⟨htypes, found, h₁, h₂⟩ := hx s
  obtain ⟨htypes', found', h₃, h₄⟩ := hf (x s).1 (x s).2
  refine ⟨htypes'.trans htypes, found ++ found', ?_, fun hnil => ?_⟩
  · rw [← List.append_assoc, ← h₁]
    exact h₃
  · obtain ⟨hnil₁, hnil₂⟩ := List.append_eq_nil_iff.mp hnil
    exact h₄ hnil₂ (h₂ hnil₁)

lemma mono (hx : Clean x P) (h : ∀ a, P a → Q a) : Clean x Q := by
  intro s
  obtain ⟨htypes, found, h₁, h₂⟩ := hx s
  exact ⟨htypes, found, h₁, fun hnil => h _ (h₂ hnil)⟩

lemma seq {y : CompileM β} {R : β → Prop} (hx : Clean x P) (hy : Clean y R) :
    Clean (x >>= fun _ => y) R :=
  hx.bind fun _ => hy.mono fun _ h _ => h

lemma report (p : Problem) {P : Unit → Prop} : Clean (report p) P :=
  fun _ => ⟨rfl, [p], rfl, nofun⟩

lemma reported (p : Problem) {y : CompileM β} (hy : Clean y fun _ => True) {R : β → Prop} :
    Clean (Compile.report p >>= fun _ => y) R :=
  (report p (P := fun _ => False)).bind fun _ => hy.mono fun _ _ h => h.elim

lemma get {f : CompileState → CompileM β} {R : β → Prop} (hf : ∀ s, Clean (f s) R) :
    Clean (MonadState.get >>= f) R :=
  fun s => hf s s

lemma forM {γ : Type} {l : List γ} {f : γ → CompileM Unit} {R : γ → Prop}
    (hf : ∀ e ∈ l, Clean (f e) fun _ => R e) : Clean (l.forM f) fun _ => ∀ e ∈ l, R e := by
  induction l with
  | nil => exact pure nofun
  | cons e l ih =>
    refine (hf e List.mem_cons_self).bind fun _ => ?_
    refine (ih fun e' he' => hf e' (List.mem_cons_of_mem _ he')).mono fun _ hl he => ?_
    exact List.forall_mem_cons.mpr ⟨he, hl⟩

lemma quiet (htypes : ∀ s, (x s).2.types.types = s.types.types)
    (h : ∀ s, (x s).2.problems = s.problems) : Clean x fun _ => True :=
  fun s => ⟨htypes s, [], by rw [h, List.append_nil], fun _ => trivial⟩

end Clean

/-! ### Checks -/

lemma clean_matchTypes (source : Option Position) (a e : Ty) :
    Clean (matchTypes source a e) fun _ => True :=
  Clean.quiet (fun s => s.types.types_matchTypes source a (some e)) fun _ => rfl

lemma clean_checkType (source : Option Position) (a e : Ty) (place : String) :
    Clean (checkType source a e place) fun _ => True := by
  unfold checkType
  split
  · exact .pure trivial
  · refine (clean_matchTypes source a e).bind fun o => ?_
    cases o with
    | ok _ => exact .pure fun _ => trivial
    | error p => exact .report _

lemma clean_checkMember (env : CompileEnv) (source : Option Position) (child : Nat)
    (expected : TyRef) (place : String) :
    Clean (checkMember env source child expected place) fun _ => True := by
  unfold checkMember
  split
  · exact .pure trivial
  · cases env.callable.cell? child with
    | none => exact .pure trivial
    | some cell =>
      refine .get fun s => ?_
      cases s.types.resolve expected with
      | ok t => exact clean_checkType _ _ _ _
      | error p => exact .report _

lemma clean_checkStructure (env : CompileEnv) (cell : Cell) (members : KeyMap String Nat) :
    Clean (checkStructure env cell members) fun _ => cell.type.isRuntimeDetermined = false →
      ∀ k ∈ members.keys, k ∈ cell.type.stores.keys := by
  unfold checkStructure
  split
  · next hopen => exact .pure fun h => absurd hopen (by rw [h]; exact Bool.false_ne_true)
  · split
    · next name source stores htype =>
      refine Clean.seq (P := fun _ => ∀ e ∈ stores, True) (.forM fun e _ => ?_) ?_
      · cases members.get? e.1 with
        | some child => exact clean_checkMember _ _ _ _ _
        | none => exact .report _
      · refine (Clean.forM (R := fun e => KeyMap.contains stores e.1 = true) fun e _ => ?_).mono
          fun _ hall _ k hk => ?_
        · split
          · next hin => exact .pure hin
          · exact .report _
        · obtain ⟨e, he, rfl⟩ := List.mem_map.mp hk
          rw [htype]
          exact KeyMap.contains_iff.mp (hall e he)
    · exact .report _

lemma clean_checkIterable (env : CompileEnv) (cell : Cell) (items : List Nat) :
    Clean (checkIterable env cell items) fun _ => True := by
  unfold checkIterable
  split
  · exact .pure trivial
  · split
    · exact (Clean.forM (R := fun _ => True) fun e _ => clean_checkMember _ _ _ _ _).mono
        fun _ _ => trivial
    · exact .report _

lemma clean_checkCall (env : CompileEnv) (cell : Cell) (callable argument : Nat) :
    Clean (checkCall env cell callable argument) fun _ => True := by
  unfold checkCall
  cases env.callable.cell? callable with
  | none => exact .pure trivial
  | some function =>
    dsimp only
    split
    · exact .pure trivial
    · split
      · refine (clean_checkMember _ _ _ _ _).seq ?_
        split
        · exact .pure trivial
        · refine .get fun s => ?_
          split
          · exact clean_checkType _ _ _ _
          · exact .report _
      · exact .report _

/-! ### Opcodes -/

lemma clean_checkArguments (cell : Cell) (mnemonic : String) (index : Nat)
    (bound : KeyMap String Ty) : ∀ l, Clean (checkArguments cell mnemonic index bound l)
      fun fit => fit = true
  | [] => .pure rfl
  | ((declared, actual), position) :: rest => by
    have others : ∀ here : Bool, Clean (do
        let others ← checkArguments cell mnemonic index bound rest
        pure (here && others)) fun fit => here = true → fit = true := fun here =>
      (clean_checkArguments cell mnemonic index bound rest).bind fun fit =>
        .pure fun hfit hhere => by rw [hfit, hhere]; rfl
    unfold checkArguments
    refine .get fun s => ?_
    cases Binding.substitute s.types declared.type bound with
    | error p => exact .reported _ ((others false).mono fun _ _ => trivial)
    | ok expected =>
      dsimp only
      split
      · exact (others true).mono fun _ h => h rfl
      · refine (clean_matchTypes _ _ _).bind fun o => ?_
        cases o with
        | ok _ => exact (others true).mono fun _ h _ => h rfl
        | error p => exact .reported _ ((others false).mono fun _ _ => trivial)

lemma clean_checkResult (cell : Cell) (mnemonic : String) (bound : KeyMap String Ty)
    (declared : TyRef) :
    Clean (checkResult cell mnemonic bound declared) fun fit => fit = true := by
  unfold checkResult
  refine .get fun s => ?_
  cases Binding.substitute s.types declared bound with
  | error p => exact .reported _ (.pure trivial)
  | ok t =>
    dsimp only
    split
    · exact .pure rfl
    · refine (clean_matchTypes _ _ _).bind fun o => ?_
      cases o with
      | ok _ => exact .pure fun _ => rfl
      | error p => exact .reported _ (.pure trivial)

lemma clean_staticCheck (env : CompileEnv) {op : Opcode} (hop : op.KeepsTypes) (cell : Cell)
    (bound : KeyMap String Ty) (arguments : List (Option Address × Cell)) :
    Clean (staticCheck env op cell bound arguments) fun _ => True :=
  Clean.quiet (fun _ => hop _ _ _) fun _ => rfl

lemma clean_reports {α β : Type} {found : List β} (hfound : found ≠ []) (f : β → Problem)
    (a : α) {P : α → Prop} : Clean (do
      found.forM fun p => report (f p)
      pure a) P := by
  cases found with
  | nil => exact absurd rfl hfound
  | cons p found =>
    refine Clean.bind (P := fun _ => False) ?_ fun _ => .pure fun h => h.elim
    refine Clean.reported _ ?_
    exact (Clean.forM (R := fun _ => True) fun e _ => .report _).mono fun _ _ => trivial

lemma clean_applyOpcode (env : CompileEnv) (index : Nat) (cell : Cell) {op : Opcode}
    (hop : op.KeepsTypes) (arguments : List Nat) (explicit : KeyMap String Ty) (cells : List Cell)
    (nodes : KeyMap Nat Node) :
    Clean (applyOpcode env index cell op arguments explicit cells nodes) fun o =>
      ∃ bindings, o = some (.opcode op arguments bindings) := by
  unfold applyOpcode
  refine .get fun s => ?_
  dsimp only
  split
  · refine (clean_checkArguments _ _ _ _ _).bind fun fit => ?_
    refine (clean_checkResult _ _ _ _).bind fun fit' => ?_
    split
    · refine (clean_staticCheck _ hop _ _ _).bind fun found => ?_
      cases found with
      | nil => exact .pure fun _ _ _ => ⟨_, rfl⟩
      | cons p found =>
        exact (clean_reports (List.cons_ne_nil p found) _ _ (P := fun _ => False)).mono
          fun _ h => h.elim
    · next hfit =>
      refine .pure fun h h' => ?_
      rw [h, h'] at hfit
      exact absurd rfl hfit
  · next bad hbad => exact clean_reports hbad _ _

lemma clean_compileOpcode {env : CompileEnv} (henv : env.opcodes.KeepTypes) (index : Nat)
    (cell : Cell) (mnemonic : String) (arguments : List Nat) (explicit : KeyMap String Ty)
    (nodes : KeyMap Nat Node) :
    Clean (compileOpcode env index cell mnemonic arguments explicit nodes) fun o =>
      (∀ r ∈ arguments, (env.callable.cell? r).isSome = true) →
      ∃ op bindings, env.opcodes.get? mnemonic = some op ∧
        op.signature.arguments.length = arguments.length ∧
        o = some (.opcode op arguments bindings) := by
  unfold compileOpcode
  cases hop : env.opcodes.get? mnemonic with
  | none => exact .reported _ (.pure trivial)
  | some op =>
    dsimp only
    split
    · exact .reported _ (.pure trivial)
    · next hlen =>
      split
      · next hmissing =>
        refine .pure fun hcells => absurd ?_ hmissing
        clear hlen hmissing
        induction arguments with
        | nil => rfl
        | cons r rest ih =>
          obtain ⟨hr, hrest⟩ := List.forall_mem_cons.mp hcells
          obtain ⟨cell, hcell⟩ := Option.isSome_iff_exists.mp hr
          rw [List.filterMap_cons_some hcell, List.length_cons, List.length_cons, ih hrest]
      · refine (clean_applyOpcode _ _ _ (henv _ op hop) _ _ _ _).mono fun o ho _ => ?_
        obtain ⟨bindings, rfl⟩ := ho
        exact ⟨op, bindings, rfl, (not_not.mp hlen).symm, rfl⟩

lemma clean_compileNode {env : CompileEnv} (henv : env.opcodes.KeepTypes) (index : Nat) (cell : Cell)
    (nodes : KeyMap Nat Node) :
    Clean (compileNode env index cell nodes) fun o =>
      (∀ r ∈ cell.kind.references, (env.callable.cell? r).isSome = true) →
      ∃ op, o = some op ∧ KindFits env.opcodes env.memory cell.type cell.kind op := by
  unfold compileNode
  cases hkind : cell.kind with
  | external name =>
    dsimp only
    split
    · exact .pure fun _ => ⟨_, rfl, rfl⟩
    · exact .reported _ (.pure trivial)
  | constant moduleName name =>
    dsimp only
    cases ha : (env.memory.lookup moduleName name).bind env.memory.address? with
    | none => exact .reported _ (.pure trivial)
    | some a => exact (clean_checkType _ _ _ _).seq (.pure fun _ => ⟨_, rfl, a, ha, rfl⟩)
  | structured members =>
    exact (clean_checkStructure env cell members).bind fun _ => .pure fun h _ => ⟨_, rfl, rfl, h⟩
  | iterable items =>
    exact (clean_checkIterable env cell items).seq (.pure fun _ => ⟨_, rfl, rfl⟩)
  | opcode mnemonic arguments explicit =>
    refine (clean_compileOpcode henv index cell mnemonic arguments explicit nodes).mono
      fun o ho hcells => ?_
    obtain ⟨op, bindings, hop, hlen, rfl⟩ := ho hcells
    exact ⟨_, rfl, op, bindings, hop, hlen, rfl⟩
  | call callable argument =>
    exact (clean_checkCall env cell callable argument).seq (.pure fun _ => ⟨_, rfl, rfl⟩)

/-- Each node stands for a cell and does what it says. -/
def AllFit (env : CompileEnv) (nodes : KeyMap Nat Node) : Prop :=
  ∀ i node, nodes.get? i = some node → env.callable.cell? i = some node.cell ∧
    KindFits env.opcodes env.memory node.cell.type node.cell.kind node.op

lemma AllFit.insert {env : CompileEnv} {nodes : KeyMap Nat Node} (h : AllFit env nodes) {i : Nat}
    {cell : Cell} (hcell : env.callable.cell? i = some cell) {op : NodeOp}
    (hfit : KindFits env.opcodes env.memory cell.type cell.kind op) :
    AllFit env (nodes.insert i ⟨cell, op⟩) := by
  intro j node hj
  rw [KeyMap.get?_insert] at hj
  split at hj
  · next heq =>
    cases hj
    exact ⟨heq ▸ hcell, hfit⟩
  · exact h j node hj

/-- The listed cells exist, and so does everything they refer to. -/
def Listed (c : Callable) (order : List Nat) : Prop :=
  ∀ i ∈ order, ∃ cell, c.cell? i = some cell ∧
    ∀ r ∈ cell.kind.references, (c.cell? r).isSome = true

lemma clean_compileNodes {env : CompileEnv} (henv : env.opcodes.KeepTypes) (order : List Nat)
    (nodes : KeyMap Nat Node) :
    Clean (compileNodes env order nodes) fun nodes' => Listed env.callable order →
      (AllFit env nodes → AllFit env nodes') ∧ (nodes.Ascending → nodes'.Ascending) ∧
        ∀ i, i ∈ order ∨ i ∈ nodes.keys ↔ i ∈ nodes'.keys := by
  induction order generalizing nodes with
  | nil => exact .pure fun _ => ⟨id, id, fun i => by simp⟩
  | cons index rest ih =>
    unfold compileNodes
    cases hcell : env.callable.cell? index with
    | none =>
      refine (ih nodes).mono fun _ _ hlisted => ?_
      obtain ⟨cell, hsome, -⟩ := hlisted index List.mem_cons_self
      rw [hcell] at hsome
      cases hsome
    | some cell =>
      refine (clean_compileNode henv index cell nodes).bind fun o => ?_
      have refs : Listed env.callable (index :: rest) →
          ∀ r ∈ cell.kind.references, (env.callable.cell? r).isSome = true := by
        intro hlisted
        obtain ⟨cell', hsome, hrefs⟩ := hlisted index List.mem_cons_self
        rw [hcell] at hsome
        cases hsome
        exact hrefs
      cases o with
      | none =>
        refine (ih nodes).mono fun _ _ hnode hlisted => ?_
        obtain ⟨op, hop, -⟩ := hnode (refs hlisted)
        cases hop
      | some op =>
        refine (ih _).mono fun nodes' hrest hnode hlisted => ?_
        obtain ⟨op', hop, hfits⟩ := hnode (refs hlisted)
        cases hop
        obtain ⟨hfit, hasc, hkeys⟩ := hrest fun i hi => hlisted i (List.mem_cons_of_mem _ hi)
        refine ⟨fun h => hfit (h.insert hcell hfits),
          fun h => hasc (KeyMap.ascending_insert _ _ h), fun i => ?_⟩
        rw [← hkeys, KeyMap.mem_keys_insert, List.mem_cons, or_assoc, or_left_comm]

lemma clean_checkArgumentCell (env : CompileEnv) (argumentType : Ty) :
    Clean (checkArgumentCell env argumentType) fun _ => True := by
  unfold checkArgumentCell
  split
  · split
    · exact clean_checkType _ _ _ _
    · exact .report _
  · exact .report _

/-- **Without problems the nodes fit the cells.** -/
lemma clean_build {env : CompileEnv} (henv : env.opcodes.KeepTypes) (argumentType resultType : Ty) :
    Clean (build env argumentType resultType) fun nodes =>
      Fits env.opcodes env.memory env.callable nodes := by
  unfold build
  cases hresult : env.callable.cell? Callable.resultCell with
  | none => exact .reported _ (.pure trivial)
  | some result =>
    dsimp only
    split
    · exact .reported _ (.pure trivial)
    · refine (clean_checkType _ _ _ _).seq ((clean_checkArgumentCell _ _).seq ?_)
      have reported : ∀ problems : List Problem,
          Clean (problems.forM report) fun _ => problems = [] := by
        rintro (_ | ⟨p, problems⟩)
        · exact .pure rfl
        · refine .reported _ ?_
          exact (Clean.forM (R := fun _ => True) fun e _ => .report _).mono fun _ _ => trivial
      refine (reported _).bind fun _ => (clean_compileNodes henv _ []).mono fun nodes h hnone => ?_
      obtain ⟨hin, hclosed⟩ := Callable.reachable_closed hnone
        (Option.isSome_iff_exists.mpr ⟨result, hresult⟩)
      -- Without problems the walk was closed: every reference that it met has a cell.
      have hlisted : Listed env.callable env.callable.reachable.1 := by
        intro i hi
        obtain ⟨cell, hcell, hrefs⟩ := hclosed i hi
        refine ⟨cell, hcell, fun r hr => ?_⟩
        obtain ⟨cell', hcell', -⟩ := hclosed r (hrefs r hr)
        exact Option.isSome_iff_exists.mpr ⟨cell', hcell'⟩
      obtain ⟨hfit, hasc, hkeys⟩ := h hlisted
      have hall := hfit fun _ _ hi => by cases hi
      have hkeys' : ∀ i, i ∈ nodes.keys ↔ i ∈ env.callable.reachable.1 := fun i =>
        (hkeys i).symm.trans (or_iff_left List.not_mem_nil)
      have hneeds : ∀ i node, nodes.get? i = some node → i ∈ env.callable.reachable.1 ∧
          ∀ r ∈ node.cell.kind.references, r ∈ env.callable.reachable.1 := by
        intro i node hi
        have hi' : i ∈ nodes.keys :=
          KeyMap.isSome_get?_iff.mp (Option.isSome_iff_exists.mpr ⟨node, hi⟩)
        obtain ⟨cell, hcell, hrefs⟩ := hclosed i ((hkeys' i).mp hi')
        rw [(hall i node hi).1] at hcell
        cases hcell
        exact ⟨(hkeys' i).mp hi', hrefs⟩
      refine ⟨KeyMap.isSome_get?_iff.mpr ((hkeys' _).mpr hin), fun i node hi =>
        (hall i node hi).1, fun i node hi => (hall i node hi).2, fun i node hi r hr => ?_,
        hasc List.Pairwise.nil, fun i node hi r hr => ?_⟩
      · exact KeyMap.isSome_get?_iff.mpr ((hkeys' r).mpr ((hneeds i node hi).2 r hr))
      · obtain ⟨cell, hcell, -⟩ := hclosed r ((hneeds i node hi).2 r hr)
        exact Callable.idxOf_reachable_lt (hnone ▸ .nil) (hneeds i node hi).1
          ⟨node.cell, (hall i node hi).1, hr⟩ (Option.isSome_iff_exists.mpr ⟨cell, hcell⟩)

end Compile

lemma CompileEnv.compile_ok_iff {env : CompileEnv} {index : Option Nat} {argument result : Ty}
    {types : Registry} {call : CompiledCall} :
    (env.compile index argument result types).1 = .ok call ↔
      (Compile.build env argument result { types }).2.problems = [] ∧
        call = ⟨index, env.callable, argument, result,
          (Compile.build env argument result { types }).1⟩ := by
  rw [CompileEnv.compile]
  rcases Compile.build env argument result { types } with ⟨nodes, s⟩
  dsimp only
  rw [unlessProblems]
  cases hs : s.problems with
  | nil => exact ⟨fun h => ⟨rfl, (Except.ok.inj h).symm⟩, fun h => by rw [h.2]; rfl⟩
  | cons p ps => exact ⟨nofun, fun h => nomatch h.1⟩

lemma CompileEnv.types_compile {env : CompileEnv} (henv : env.opcodes.KeepTypes) (index : Option Nat)
    (argument result : Ty) (types : Registry) :
    (env.compile index argument result types).2.types = types.types :=
  (Compile.clean_build henv argument result { types }).1

/-- **A compiled call fits its callable.** -/
lemma CompileEnv.fits_compile {env : CompileEnv} (henv : env.opcodes.KeepTypes) {index : Option Nat}
    {argument result : Ty} {types : Registry} {call : CompiledCall}
    (h : (env.compile index argument result types).1 = .ok call) :
    call.callable = env.callable ∧ call.argumentType = argument ∧
      Fits env.opcodes env.memory env.callable call.nodes := by
  obtain ⟨hnone, rfl⟩ := CompileEnv.compile_ok_iff.mp h
  obtain ⟨-, found, hfound, hfits⟩ := Compile.clean_build henv argument result { types }
  rw [hnone] at hfound
  exact ⟨rfl, rfl, hfits hfound.symm⟩

lemma compileSlot_callable {opcodes : Opcodes} {modules : KeyMap String Module} {memory : Memory}
    {types : Registry} {a : Address} {f : Callable} (hvalue : memory.value? a = some (.callable f))
    {name : String} {source : Option Position} {argument result : TyRef}
    (htype : memory.typeOf a = .callable name source argument result) :
    let at_ := f.source <|> memory.sourceOf a
    compileSlot opcodes modules memory a types =
      match types.resolve argument, types.resolve result with
      | .ok expected, .ok returned => (CompileEnv.mk opcodes modules memory f).compile a.index?
          expected returned types
      | .error q, .ok _ => (.error [q.orAt at_], types)
      | .ok _, .error q => (.error [q.orAt at_], types)
      | .error q, .error r => (.error [q.orAt at_, r.orAt at_], types) := by
  simp only [compileSlot, hvalue, htype, bind, StateT.bind, get, getThe, MonadStateOf.get,
    StateT.get]
  change (match types.resolve argument, types.resolve result with
      | .ok expected, .ok returned => (CompileEnv.mk opcodes modules memory f).compile a.index?
          expected returned
      | .error q, .ok _ => pure (.error [q.orAt _])
      | .ok _, .error q => pure (.error [q.orAt _])
      | .error q, .error r => pure (.error [q.orAt _, r.orAt _]) : StateM Registry Compilation) types
    = _
  cases types.resolve argument <;> cases types.resolve result <;> rfl

/-- A slot without a callable, or of another type, is not compiled. -/
lemma compileSlot_refused {opcodes : Opcodes} {modules : KeyMap String Module} {memory : Memory}
    {types : Registry} {a : Address} (h : (∀ f, memory.value? a ≠ some (.callable f)) ∨
      ∀ name source argument result, memory.typeOf a ≠ .callable name source argument result) :
    compileSlot opcodes modules memory a types =
      (.error [(Problem.mk .notCallable (memory.sourceOf a) []).set "type" (memory.typeOf a).name],
        types) := by
  unfold compileSlot
  generalize memory.typeOf a = t, memory.value? a = v at h
  cases t with
  | callable name source argument result =>
    cases v with
    | none => rfl
    | some v =>
      cases v with
      | callable f =>
        rcases h with h | h
        · exact absurd rfl (h f)
        · exact absurd rfl (h name source argument result)
      | _ => rfl
  | _ => rfl

end CellMachine
