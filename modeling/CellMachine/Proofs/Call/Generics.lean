import CellMachine.Proofs.Call.Consultation
import CellMachine.Proofs.Registry.Written
import CellMachine.Proofs.Standard.Declarations

/-!
Opcodes with generics in compiled calls. What an opcode is given and what it returns is compared with
its declaration under names that are made up for the bound generics, in a registry that remembers
earlier comparisons by name. In a tidy registry, whatever was compiled and asked before, the type of
each argument matches its declared type part by part, with every generic replaced by what it is bound
to; and so does the declared result match the type of the cell.

This depends on made-up names being no names of types. A type that is called what an iterable of
integers would be called is taken for one, whatever its elements are.
-/

namespace CellMachine

/-- The arguments of an opcode and its result match what the opcode declares, with its generics filled
in, unless they are open. -/
structure Callable.FitsByParts (c : Callable) (reg : Registry) (op : Opcode) (type : Ty)
    (arguments : List Nat) (bound : KeyMap String Ty) : Prop where
  arguments : ∀ (k : Nat) (declared : Argument) (i : Nat), op.signature.arguments[k]? = some declared →
    arguments[k]? = some i →
      ∃ cell, c.cell? i = some cell ∧ Binding.ArgumentFits reg bound declared.type cell.type
  result : Binding.ResultFits reg bound op.signature.result type

/-- A node for an opcode cell has bindings with which its arguments and its result fit. -/
def Node.FitsByParts (node : Node) (reg : Registry) (opcodes : Opcodes) (c : Callable) : Prop :=
  ∀ mnemonic arguments explicit, node.cell.kind = .opcode mnemonic arguments explicit →
    ∃ op bound, opcodes.get? mnemonic = some op ∧ node.op = .opcode op arguments bound ∧
      c.FitsByParts reg op node.cell.type arguments bound

namespace Compile

variable {reg : Registry} {env : CompileEnv}

/-! ### Constants among nodes -/

/-- The constants among nodes were looked up. -/
def LookedUp (memory : Memory) (nodes : KeyMap Nat Node) : Prop :=
  ∀ i a, constantAt nodes i = some a →
    ∃ moduleName name, (memory.lookup moduleName name).bind memory.address? = some a

lemma LookedUp.insert {memory : Memory} {nodes : KeyMap Nat Node} (h : LookedUp memory nodes)
    {index : Nat} {cell : Cell} {op : NodeOp} (hop : ∀ a, op = .constant a →
      ∃ moduleName name, (memory.lookup moduleName name).bind memory.address? = some a) :
    LookedUp memory (nodes.insert index ⟨cell, op⟩) := fun i a ha =>
  (constantAt_insert ha).elim (hop a) (h i a)

lemma LookedUp.known {nodes : KeyMap Nat Node} (h : LookedUp env.memory nodes)
    (henv : env.Agrees reg) (arguments : List Nat) (i : Nat) :
    reg.Known (Binding.fromConstant
      ((arguments.map (constantAt nodes)).map fun a => a.bind env.memory.value?)[i]?.join) := by
  rw [List.getElem?_map, List.getElem?_map]
  cases arguments[i]? with
  | none => exact Registry.known_runtimeDetermined reg
  | some j =>
    cases hj : constantAt nodes j with
    | none =>
      simp only [Option.map_some, hj]
      exact Registry.known_runtimeDetermined reg
    | some a =>
      obtain ⟨moduleName, name, ha⟩ := h j a hj
      simp only [Option.map_some, hj]
      exact (henv.constants _ _ _ ha).2

lemma LookedUp.slots {nodes : KeyMap Nat Node} (h : LookedUp env.memory nodes)
    (henv : env.Agrees reg) {arguments : List Nat} {cells : List Cell}
    (hcells : ∀ c ∈ cells, reg.Agrees c.type) :
    ∀ e ∈ (arguments.map (constantAt nodes)).zip cells, (∀ a, e.1 = some a →
      ∃ i, a = .at i ∧ reg.Agrees (env.memory.typeOf a)) ∧ reg.Agrees e.2.type := by
  intro e he
  obtain ⟨hconstant, hcell⟩ := List.of_mem_zip he
  refine ⟨fun a ha => ?_, hcells _ hcell⟩
  obtain ⟨j, -, hj⟩ := List.mem_map.mp hconstant
  obtain ⟨moduleName, name, hlookup⟩ := h j a (hj.trans ha)
  obtain ⟨i, -, haddress⟩ := Option.bind_eq_some_iff.mp hlookup
  have hat : a = .at i := by
    rw [Memory.address?] at haddress
    split at haddress <;> cases haddress
    rfl
  exact ⟨i, hat, (henv.constants _ _ _ hlookup).1⟩

/-! ### Opcodes -/

lemma heeds_applyOpcode (henv : env.Agrees reg) (index : Nat) {cell : Cell}
    (hcell : reg.Agrees cell.type) {op : Opcode} (hop : op.Admitted reg env.modules)
    (arguments : List Nat) {explicit : KeyMap String Ty}
    (hexplicit : ∀ id t, explicit.get? id = some t → reg.Agrees t) {cells : List Cell}
    (hcells : ∀ c ∈ cells, reg.Agrees c.type) {nodes : KeyMap Nat Node}
    (hnodes : LookedUp env.memory nodes) :
    Heeds reg (applyOpcode env index cell op arguments explicit cells nodes)
      (fun o => ∀ a, o ≠ some (.constant a)) fun o => ∀ done, o = some done →
        ∃ bound, done = .opcode op arguments bound ∧
          (∀ e ∈ op.signature.arguments.zip cells,
            Binding.ArgumentFits reg bound e.1.type e.2.type) ∧
          Binding.ResultFits reg bound op.signature.result cell.type := by
  unfold applyOpcode
  refine .get fun s hs => ?_
  dsimp only
  rw [Binding.misfit_of_types (s := ⟨s.types, _, _, _, _, _⟩) hs,
    Binding.all_of_types (s := ⟨s.types, _, _, _, _, _⟩) hs]
  dsimp only
  split
  · have hbound := Binding.known_all henv.tidy (s := ⟨reg, op.signature, cell, explicit, cells,
      (arguments.map (constantAt nodes)).map fun a => a.bind env.memory.value?⟩) rfl hcell hcells
      hexplicit (fun g (_ : g ∈ op.signature.generics) i _ => hnodes.known henv arguments i)
      (show ∀ id t, KeyMap.get? [] id = some t → reg.Known t from nofun)
    refine (heeds_checkArguments henv.tidy cell _ index hbound _ fun e he => ?_).bind
      fun fit _ => ?_
    · have hzip := List.of_mem_zip (List.fst_mem_of_mem_zipIdx he)
      exact ⟨hop.declared henv.tidy _ (List.mem_append_left _ (List.mem_map_of_mem hzip.1)),
        hcells _ hzip.2⟩
    refine (heeds_checkResult henv.tidy hcell _ hbound
      (hop.declared henv.tidy _ (List.mem_append_right _ List.mem_cons_self))).bind fun fit' _ => ?_
    split
    · refine (heeds_staticCheck henv hop.consults hcell hbound
        (hnodes.slots henv hcells)).bind fun found _ => ?_
      cases found with
      | nil =>
        refine .pure nofun fun _ hresult harguments done hdone =>
          ⟨_, (Option.some.inj hdone).symm, fun e he => ?_, hresult⟩
        obtain ⟨k, hk⟩ := List.mem_iff_getElem?.mp he
        exact harguments (e, k) (List.mem_zipIdx_iff_getElem?.mpr hk)
      | cons p found => exact .forM_report _ _ nofun fun _ _ _ _ => nofun
    · exact .pure nofun fun _ _ _ => nofun
  · exact .forM_report _ _ nofun fun _ => nofun

lemma getElem?_filterMap {α β : Type} {f : α → Option β} {l : List α}
    (h : (l.filterMap f).length = l.length) (k : Nat) : (l.filterMap f)[k]? = l[k]?.bind f := by
  induction l generalizing k with
  | nil => rfl
  | cons x l ih =>
    cases hx : f x with
    | none =>
      rw [List.filterMap_cons_none hx, List.length_cons] at h
      have := List.length_filterMap_le f l
      omega
    | some y =>
      rw [List.filterMap_cons_some hx] at h ⊢
      cases k with
      | zero => exact hx.symm
      | succ k => exact ih (Nat.succ.inj h) k

lemma heeds_compileOpcode (henv : env.Agrees reg) (index : Nat) {cell : Cell}
    (hcell : reg.Agrees cell.type) (mnemonic : String) (arguments : List Nat)
    {explicit : KeyMap String Ty} (hexplicit : ∀ id t, explicit.get? id = some t → reg.Agrees t)
    {nodes : KeyMap Nat Node} (hnodes : LookedUp env.memory nodes) :
    Heeds reg (compileOpcode env index cell mnemonic arguments explicit nodes)
      (fun o => ∀ a, o ≠ some (.constant a)) fun o => ∀ done, o = some done →
        ∃ op bound, env.opcodes.get? mnemonic = some op ∧ done = .opcode op arguments bound ∧
          env.callable.FitsByParts reg op cell.type arguments bound := by
  unfold compileOpcode
  cases hop : env.opcodes.get? mnemonic with
  | none => exact .refused _ nofun
  | some op =>
    dsimp only
    split
    · exact .refused _ nofun
    · split
      · exact .pure nofun nofun
      · next hexist =>
        have hcells : ∀ c ∈ arguments.filterMap env.callable.cell?, reg.Agrees c.type := by
          intro c hc
          obtain ⟨i, -, hi⟩ := List.mem_filterMap.mp hc
          exact henv.callable.types i c hi
        refine (heeds_applyOpcode henv index hcell (henv.opcodes _ op hop) arguments hexplicit hcells
          hnodes).mono (fun _ => id) fun o ho done hdone => ?_
        obtain ⟨bound, hdone, harguments, hresult⟩ := ho done hdone
        refine ⟨op, bound, rfl, hdone, fun k declared i hdeclared hi => ?_, hresult⟩
        have hk := getElem?_filterMap (not_not.mp hexist) k
        rw [hi, Option.bind_some] at hk
        have hlt : k < (arguments.filterMap env.callable.cell?).length := by
          rw [not_not.mp hexist]
          exact (List.getElem?_eq_some_iff.mp hi).1
        rw [List.getElem?_eq_getElem hlt] at hk
        refine ⟨_, hk.symm, harguments (declared, _) ?_⟩
        exact List.mem_of_getElem? (List.getElem?_zip_eq_some.mpr
          ⟨hdeclared, List.getElem?_eq_getElem hlt⟩)

/-! ### Nodes -/

lemma heeds_compileNode (henv : env.Agrees reg) {index : Nat} {cell : Cell}
    (hcell : env.callable.cell? index = some cell) {nodes : KeyMap Nat Node}
    (hnodes : LookedUp env.memory nodes) :
    Heeds reg (compileNode env index cell nodes)
      (fun o => ∀ a, o = some (.constant a) →
        ∃ moduleName name, (env.memory.lookup moduleName name).bind env.memory.address? = some a)
      fun o => ∀ op, o = some op →
        Node.FitsByParts ⟨cell, op⟩ reg env.opcodes env.callable := by
  have hagrees := henv.callable.types _ _ hcell
  -- Cells of other kinds are no opcode cells.
  have other : ∀ {P : Prop} {op : NodeOp}, (∀ mnemonic arguments explicit,
      cell.kind ≠ .opcode mnemonic arguments explicit) → P → ∀ op', some op = some op' →
        Node.FitsByParts ⟨cell, op'⟩ reg env.opcodes env.callable := fun hkind _ _ _ _ _ _ h =>
    absurd h (hkind _ _ _)
  unfold compileNode
  cases hkind : cell.kind with
  | external name =>
    dsimp only
    split
    · exact .pure nofun (other (by simp [hkind]) trivial)
    · exact .refused _ nofun
  | constant moduleName name =>
    dsimp only
    cases ha : (env.memory.lookup moduleName name).bind env.memory.address? with
    | none => exact .refused _ nofun
    | some a =>
      refine (heeds_checkType henv.tidy _ (henv.constants _ _ _ ha).1 hagrees _).bind fun _ _ =>
        .pure (fun b hb => ?_) (other (by simp [hkind]))
      cases hb
      exact ⟨_, _, ha⟩
  | structured members =>
    exact (heeds_checkStructure henv hagrees members).bind fun _ _ =>
      .pure nofun (other (by simp [hkind]))
  | iterable items =>
    exact (heeds_checkIterable henv hagrees items).bind fun _ _ =>
      .pure nofun (other (by simp [hkind]))
  | opcode mnemonic arguments explicit =>
    refine (heeds_compileOpcode henv index hagrees mnemonic arguments
      (henv.callable.bindings _ _ _ _ _ hcell hkind) hnodes).mono
      (fun o ho a ha => absurd ha (ho a)) fun o ho op hop => ?_
    intro mnemonic' arguments' explicit' hkind'
    cases hkind.symm.trans hkind'
    exact ho op hop
  | call callable argument =>
    exact (heeds_checkCall henv hagrees callable argument).bind fun _ _ =>
      .pure nofun (other (by simp [hkind]))

lemma heeds_compileNodes (henv : env.Agrees reg) (order : List Nat) {nodes : KeyMap Nat Node}
    (hnodes : LookedUp env.memory nodes) :
    Heeds reg (compileNodes env order nodes) (fun _ => True) fun nodes' =>
      (∀ i node, nodes.get? i = some node → node.FitsByParts reg env.opcodes env.callable) →
      ∀ i node, nodes'.get? i = some node → node.FitsByParts reg env.opcodes env.callable := by
  induction order generalizing nodes with
  | nil => exact .pure trivial id
  | cons index rest ih =>
    unfold compileNodes
    cases hcell : env.callable.cell? index with
    | none => exact ih hnodes
    | some cell =>
      refine (heeds_compileNode henv hcell hnodes).bind fun o ho => ?_
      cases o with
      | none => exact (ih hnodes).mono (fun _ => id) fun _ h _ => h
      | some op =>
        refine (ih (hnodes.insert fun a ha => ho a (congrArg some ha))).mono (fun _ => id)
          fun nodes' h hfits hall => h fun i node hi => ?_
        rw [KeyMap.get?_insert] at hi
        split at hi
        · cases hi
          exact hfits op rfl
        · exact hall i node hi

lemma heeds_checkArgumentCell (henv : env.Agrees reg) {argumentType : Ty}
    (hargument : reg.Agrees argumentType) :
    Heeds reg (checkArgumentCell env argumentType) (fun _ => True) fun _ => True := by
  unfold checkArgumentCell
  cases hcell : env.callable.cell? Callable.argumentCell with
  | none => exact .report _
  | some cell =>
    dsimp only
    split
    · exact heeds_checkType henv.tidy _ hargument (henv.callable.types _ _ hcell) _
    · exact .report _

/-- **Opcodes fit part by part**, unless a problem is found. -/
lemma heeds_build (henv : env.Agrees reg) {argumentType resultType : Ty}
    (hargument : reg.Agrees argumentType) (hresult : reg.Agrees resultType) :
    Heeds reg (build env argumentType resultType) (fun _ => True) fun nodes =>
      ∀ i node, nodes.get? i = some node → node.FitsByParts reg env.opcodes env.callable := by
  unfold build
  cases hcell : env.callable.cell? Callable.resultCell with
  | none => exact .refused _ trivial
  | some result =>
    dsimp only
    split
    · exact .refused _ trivial
    · refine (heeds_checkType henv.tidy _ (henv.callable.types _ _ hcell) hresult _).bind
        fun _ _ => ?_
      refine (heeds_checkArgumentCell henv hargument).bind fun _ _ => ?_
      rcases env.callable.reachable with ⟨order, problems⟩
      refine (Heeds.forM fun _ _ => .report _).bind fun _ _ => ?_
      have hnone : LookedUp env.memory [] := fun _ _ h => nomatch h
      exact (heeds_compileNodes henv order hnone).mono (fun _ => id) fun _ h _ _ _ => h nofun

end Compile

/-! ### Compilations -/

/-- What is remembered stays true, and what is compiled fits. -/
lemma compileSlot_heeds {reg : Registry} (tidy : reg.Tidy) {opcodes : Opcodes}
    {modules : KeyMap String Module} (hopcodes : opcodes.Admitted reg modules) {memory : Memory}
    {a : Address} (hmemory : memory.Compilable reg a) {types : Registry} (htypes : reg.Vouches types) :
    reg.Vouches (compileSlot opcodes modules memory a types).2 ∧
      ∀ call, (compileSlot opcodes modules memory a types).1 = .ok call →
        ∀ i node, call.nodes.get? i = some node → node.FitsByParts reg opcodes call.callable := by
  by_cases hfound : (∀ f, memory.value? a ≠ some (.callable f)) ∨
      ∀ name source argument result, memory.typeOf a ≠ .callable name source argument result
  · rw [compileSlot_refused hfound]
    exact ⟨htypes, nofun⟩
  push Not at hfound
  obtain ⟨⟨f, hvalue⟩, name, source, argument, result, htype⟩ := hfound
  rw [compileSlot_callable hvalue htype]
  simp only [Registry.resolve_of_types htypes.types]
  cases hargument : reg.resolve argument with
  | error p => cases reg.resolve result <;> exact ⟨htypes, nofun⟩
  | ok expected =>
    cases hresult : reg.resolve result with
    | error p => exact ⟨htypes, nofun⟩
    | ok returned =>
      have hagrees := htype ▸ hmemory.type
      have henv : CompileEnv.Agrees reg ⟨opcodes, modules, memory, f⟩ :=
        ⟨tidy, hopcodes, hmemory.constants, hmemory.callable f hvalue⟩
      obtain ⟨hvouches, -, found, hproblems, hfits⟩ := Compile.heeds_build henv
        (tidy.agrees_resolve hagrees List.mem_cons_self hargument)
        (tidy.agrees_resolve hagrees (List.mem_cons_of_mem _ List.mem_cons_self) hresult)
        { types } htypes
      refine ⟨hvouches, fun call hok => ?_⟩
      obtain ⟨hnone, rfl⟩ := CompileEnv.compile_ok_iff.mp hok
      rw [hnone] at hproblems
      exact hfits hproblems.symm

/-- A registry that has answered questions about types that are compared, and those of compilations. -/
inductive Registry.Consulted (reg : Registry) (opcodes : Opcodes) (modules : KeyMap String Module) :
    Registry → Prop where
  | fresh : Consulted reg opcodes modules reg.fresh
  | asked {types : Registry} (h : Consulted reg opcodes modules types) {q : Registry.Question}
    (hq : q.Of reg.Formed) : Consulted reg opcodes modules (q.ask types)
  | compiled {types : Registry} (h : Consulted reg opcodes modules types) {memory : Memory}
    {a : Address} (hmemory : memory.Compilable reg a) :
    Consulted reg opcodes modules (compileSlot opcodes modules memory a types).2

/-- **What is remembered is true**, whatever was asked and compiled. -/
lemma Registry.Consulted.vouches {reg types : Registry} (tidy : reg.Tidy) {opcodes : Opcodes}
    {modules : KeyMap String Module} (hopcodes : opcodes.Admitted reg modules)
    (h : reg.Consulted opcodes modules types) : reg.Vouches types := by
  induction h with
  | fresh => exact .fresh reg
  | asked _ hq ih => exact ih.ask tidy hq
  | compiled _ hmemory ih => exact (compileSlot_heeds tidy hopcodes hmemory ih).1

namespace Standard

variable {reg : Registry} {modules : KeyMap String Module}

/-- **The standard opcodes are admitted**, where the types agree that they declare and that constants
have. -/
lemma admitted (hmodules : ModulesAgree reg modules) (h : ∀ t ∈ declaredTypes, reg.Agrees t) :
    (Opcodes.ofList opcodes).Admitted reg modules := by
  intro mnemonic op hop
  replace hop := mem_opcodes hop
  refine ⟨check_signature hop reg, fun t ht => ?_, fun name t hr => ?_,
    fun f m types hf _ hresult _ _ => ?_⟩
  · rcases declared_cases hop _ ht with ⟨u, hu, h'⟩ | ⟨id, hint, h'⟩ | h' | h' <;> cases h'
    · refine ⟨?_, fun _ => h _ hu⟩
      simp only [declaredTypes, List.mem_cons, List.not_mem_nil, or_false] at hu
      rcases hu with rfl | rfl | rfl | rfl | rfl | rfl <;> decide
    · exact ⟨by decide, fun hclosed => by cases hclosed⟩
    · exact ⟨by decide, fun hclosed => by cases hclosed⟩
  · rcases declared_cases hop _ hr with ⟨u, hu, h'⟩ | ⟨id, hint, h'⟩ | h' | h' <;> cases h'
  · rcases staticCheck_cases hop with rfl | ⟨check, hcheck, -⟩
    · rcases loadConst_asks f m types with hsame | ⟨moduleName, md, name, c, hmd, hc, hasks⟩
      · exact ⟨[], hsame, List.forall_mem_nil _⟩
      · refine ⟨[.types f.source c.type (some f.resultType)], hasks,
          List.forall_mem_singleton.mpr ⟨.inl ?_, fun e he => ?_⟩⟩
        · exact hmodules _ _ _ _ (hf ▸ hmd) hc
        · cases he
          exact .inl hresult
    · refine ⟨[], ?_, List.forall_mem_nil _⟩
      rw [hcheck]
      rfl

end Standard

/-- **Opcodes fit part by part.** Whatever was asked and compiled before, an opcode of a compiled call
has bindings with which the type of each argument matches its declared type and the declared result
matches the type of the cell, part by part and with generics filled in, unless they are open. -/
theorem compiled_opcodes_fit_by_parts {reg : Registry} (tidy : reg.Tidy) {opcodes : Opcodes}
    {modules : KeyMap String Module} (hopcodes : opcodes.Admitted reg modules)
    {types types' : Registry} (htypes : reg.Consulted opcodes modules types) {memory : Memory}
    {a : Address} (hmemory : memory.Compilable reg a) {call : CompiledCall}
    (h : compileSlot opcodes modules memory a types = (.ok call, types')) {i : Nat} {node : Node}
    (hi : call.nodes.get? i = some node) {mnemonic : String} {arguments : List Nat}
    {explicit : KeyMap String Ty} (hkind : node.cell.kind = .opcode mnemonic arguments explicit) :
    ∃ op bound, opcodes.get? mnemonic = some op ∧ node.op = .opcode op arguments bound ∧
      call.callable.FitsByParts reg op node.cell.type arguments bound :=
  (compileSlot_heeds tidy hopcodes hmemory (htypes.vouches tidy hopcodes)).2 call
    (congrArg Prod.fst h) i node hi mnemonic arguments explicit hkind

/-! ### The first element of a list -/

namespace Standard.Sample

variable {reg : Registry}

def firstTy : Ty := .callable "first" none (.inline integer) (.inline integer)

/-- The first element of a list of what is said to be integers, or zero if there is none. -/
def firstOf (list : Ty) : Callable where
  cells := [(0, ⟨.opcode "peek" [2, 3] [("T", integer)], integer, none⟩),
    (1, .external "argument" integer), (2, .constant "m" "list" list),
    (3, .constant "m" "zero" integer)]

def firsts (list : Ty) : Memory where
  slots := #[⟨.constant "m" "main" firstTy, some (.callable (firstOf list))⟩,
    ⟨.constant "m" "list" list, some (Build.ofMembers [])⟩,
    ⟨.constant "m" "zero" integer, some (.int 0)⟩]
  constants := 3
  directory := [("m!list", 1), ("m!main", 0), ("m!zero", 2)]

def library (list : Ty) : Registry :=
  ⟨[("finite-int-list", finiteList integer "core.integers.sum"),
    ("finite-number-list", finiteList number "core.numbers.sum"), ("first", firstTy),
    ("int", integer), (list.name, list), ("meta-type", .metaType), ("number", number),
    ("runtime-determined", .runtimeDetermined), ("str", string)], []⟩

def integers : Ty := .iterable "integers" none (.inline integer) .irrelevant

/-- A list of strings that is called what a list of integers would be called. -/
def disguised : Ty := .iterable "iterable[int]" none (.inline string) .irrelevant

lemma reached_library : (library integers).Reached ∧ (library disguised).Reached := by
  refine ⟨?_, ?_⟩
  · exact .register (t := integers) (.register (t := firstTy)
      (.register (t := finiteList number "core.numbers.sum")
        (.register (t := finiteList integer "core.integers.sum")
          (.register (t := string) .initial rfl) rfl) rfl) rfl) rfl
  · exact .register (t := disguised) (.register (t := firstTy)
      (.register (t := finiteList number "core.numbers.sum")
        (.register (t := finiteList integer "core.integers.sum")
          (.register (t := string) .initial rfl) rfl) rfl) rfl) rfl

lemma compilable_firsts {list : Ty} (hlist : reg.Agrees list) (hfirst : reg.Agrees firstTy)
    (hinteger : reg.Agrees integer) : (firsts list).Compilable reg (.at 0) where
  constants := by
    intro moduleName name a ha
    obtain ⟨i, hi, haddress⟩ := Option.bind_eq_some_iff.mp ha
    have hmem := KeyMap.mem_of_get? hi
    simp only [firsts, List.mem_cons, List.not_mem_nil, or_false, Prod.mk.injEq] at hmem
    rcases hmem with ⟨-, rfl⟩ | ⟨-, rfl⟩ | ⟨-, rfl⟩ <;> cases haddress
    · exact ⟨hlist, .inl rfl⟩
    · exact ⟨hfirst, .inl rfl⟩
    · exact ⟨hinteger, .inl rfl⟩
  type := hfirst
  callable := by
    intro c hc
    cases hc
    refine ⟨fun i cell hcell => ?_, fun i cell mnemonic arguments explicit hcell hkind id t ht => ?_⟩
    · have hmem := KeyMap.mem_of_get? hcell
      simp only [firstOf, List.mem_cons, List.not_mem_nil, or_false, Prod.mk.injEq] at hmem
      rcases hmem with ⟨-, rfl⟩ | ⟨-, rfl⟩ | ⟨-, rfl⟩ | ⟨-, rfl⟩
      · exact hinteger
      · exact hinteger
      · exact hlist
      · exact hinteger
    · have hmem := KeyMap.mem_of_get? hcell
      simp only [firstOf, List.mem_cons, List.not_mem_nil, or_false, Prod.mk.injEq] at hmem
      rcases hmem with ⟨-, rfl⟩ | ⟨-, rfl⟩ | ⟨-, rfl⟩ | ⟨-, rfl⟩ <;> cases hkind
      cases List.mem_singleton.mp (KeyMap.mem_of_get? ht)
      exact hinteger

lemma agrees_library {list : Ty} (h : (library list).Coherent)
    (hlist : (library list).get? list.name = some list)
    (hfirst : (library list).get? "first" = some firstTy)
    (hinteger : (library list).get? "int" = some integer) :
    (firsts list).Compilable (library list) (.at 0) :=
  compilable_firsts (h _ _ hlist) (h _ _ hfirst) (h _ _ hinteger)

lemma cell_of_firsts {list : Ty} {types types' : Registry} {call : CompiledCall}
    (h : compileSlot (.ofList opcodes) [] (firsts list) (.at 0) types = (.ok call, types'))
    {node : Node} (hnode : call.nodes.get? 0 = some node) : call.callable = firstOf list ∧
      node.cell = ⟨.opcode "peek" [2, 3] [("T", integer)], integer, none⟩ := by
  have htype : (firsts list).typeOf (.at 0) =
      .callable "first" none (.inline integer) (.inline integer) := rfl
  have hcompile : (CompileEnv.mk (.ofList opcodes) [] (firsts list) (firstOf list)).compile (some 0)
      integer integer types = (.ok call, types') :=
    (compileSlot_callable (f := firstOf list) rfl htype).symm.trans h
  have hkeep : Opcodes.KeepTypes (.ofList opcodes) := fun _ _ hop => keepsTypes (mem_opcodes hop)
  obtain ⟨hcallable, -, hfits⟩ := CompileEnv.fits_compile hkeep (congrArg Prod.fst hcompile)
  exact ⟨hcallable, (Option.some.inj (hfits.cell 0 node hnode)).symm⟩

def bound (call : CompiledCall) : Option Ty :=
  (call.nodes.get? 0).bind fun node =>
    match node.op with
    | .opcode _ _ bound => some (Binding.lookup bound "T")
    | _ => none

lemma exists_call (list : Ty) (types : Registry) (h : (((compileSlot (.ofList opcodes) []
    (firsts list) (.at 0) types).1.toOption.bind bound).map
      fun t => (t.name, t.isRuntimeDetermined)) = some ("int", false)) :
    ∃ call types' node u, compileSlot (.ofList opcodes) [] (firsts list) (.at 0) types =
      (.ok call, types') ∧ call.nodes.get? 0 = some node ∧ u.name = "int" ∧
      u.isRuntimeDetermined = false ∧ ∀ op arguments bound, node.op = .opcode op arguments bound →
        Binding.lookup bound "T" = u := by
  obtain ⟨u, hu, hpair⟩ := Option.map_eq_some_iff.mp h
  obtain ⟨call, hcall, hbound⟩ := Option.bind_eq_some_iff.mp hu
  obtain ⟨node, hnode, hop⟩ := Option.bind_eq_some_iff.mp hbound
  refine ⟨call, _, node, u, Prod.ext ?_ rfl, hnode, congrArg Prod.fst hpair,
    congrArg Prod.snd hpair, fun op arguments bound h => ?_⟩
  · revert hcall
    cases (compileSlot (.ofList opcodes) [] (firsts list) (.at 0) types).1 with
    | error p => exact nofun
    | ok call => exact fun hcall => congrArg Except.ok (Option.some.inj hcall)
  · rw [h] at hop
    exact Option.some.inj hop

lemma tidy_library : (library integers).Tidy := by
  have hunbracketed : ∀ e ∈ (library integers).types, '[' ∉ e.2.name.toList := by decide +kernel
  exact ⟨reached_library.1.resolved, Registry.coherent_of_all (by decide +kernel),
    Registry.unmarked_of_all (by decide +kernel), fun _ _ ht => hunbracketed _ (KeyMap.mem_of_get? ht)⟩

lemma admitted_library : (Opcodes.ofList opcodes).Admitted (library integers) [] := by
  refine admitted (fun _ _ _ _ h => nomatch h) (agrees_declaredTypes fun t ht => ?_)
  simp only [declaredTypes, List.mem_cons, List.not_mem_nil, or_false] at ht
  rcases ht with rfl | rfl | rfl | rfl | rfl | rfl <;> exact ⟨_, rfl, rfl⟩

/-- The first element of a list of integers is an integer, also when the function is compiled for the
second time. -/
theorem first_of_integers_fits : (library integers).Tidy ∧ ∃ call types' node op bound,
    compileSlot (.ofList opcodes) [] (firsts integers) (.at 0) (compileSlot (.ofList opcodes) []
      (firsts integers) (.at 0) (library integers)).2 = (.ok call, types') ∧
    call.nodes.get? 0 = some node ∧ node.op = .opcode op [2, 3] bound ∧
    call.callable.FitsByParts (library integers) op integer [2, 3] bound := by
  have hmemory : (firsts integers).Compilable (library integers) (.at 0) :=
    agrees_library tidy_library.coherent rfl rfl rfl
  obtain ⟨call, types', node, u, hcall, hnode, -⟩ := exists_call integers
    (compileSlot (.ofList opcodes) [] (firsts integers) (.at 0) (library integers)).2
    (by decide +kernel)
  obtain ⟨-, hcell⟩ := cell_of_firsts hcall hnode
  obtain ⟨op, bound, -, hop, hfits⟩ := compiled_opcodes_fit_by_parts tidy_library admitted_library
    (.compiled .fresh hmemory) hmemory hcall hnode (congrArg Cell.kind hcell)
  have htype : node.cell.type = integer := congrArg Cell.type hcell
  exact ⟨tidy_library, call, types', node, op, bound, hcall, hnode, hop, htype ▸ hfits⟩

/-- **A made-up name can be the name of a type**: a list of strings that is called what a list of integers
would be called is accepted where the first of a list of integers is asked for. -/
theorem not_forall_opcodes_fit_by_parts : ¬ ∀ (reg : Registry) (memory : Memory) (a : Address)
    (call : CompiledCall) (types' : Registry), reg.Reached → reg.Unmarked → reg.Coherent →
    memory.Compilable reg a → compileSlot (.ofList opcodes) [] memory a reg = (.ok call, types') →
    ∀ (i : Nat) (node : Node) (mnemonic : String) (arguments : List Nat)
      (explicit : KeyMap String Ty), call.nodes.get? i = some node →
      node.cell.kind = .opcode mnemonic arguments explicit →
      ∃ op bound, (Opcodes.ofList opcodes).get? mnemonic = some op ∧
        node.op = .opcode op arguments bound ∧
        call.callable.FitsByParts reg op node.cell.type arguments bound := by
  intro hall
  have hcoh : (library disguised).Coherent := Registry.coherent_of_all (by decide +kernel)
  have hmark : (library disguised).Unmarked := Registry.unmarked_of_all (by decide +kernel)
  obtain ⟨call, types', node, u, hcall, hnode, hname, hknown, hbound⟩ :=
    exists_call disguised (library disguised) (by decide +kernel)
  obtain ⟨hcallable, hcell⟩ := cell_of_firsts hcall hnode
  obtain ⟨op, bound, hpeek, hop, hfits⟩ := hall _ _ _ _ _ reached_library.2 hmark hcoh
    (agrees_library hcoh rfl rfl rfl) hcall 0 node _ _ _ hnode (congrArg Cell.kind hcell)
  obtain rfl : peek = op := Option.some.inj hpeek
  have hlookup := hbound _ _ _ hop
  obtain ⟨cell, hlist, t, filled, hsubst, hfilled, hfit⟩ := hfits.arguments 0 _ 2 rfl rfl
  obtain rfl : Cell.constant "m" "list" disguised = cell := by
    rw [hcallable] at hlist
    exact Option.some.inj hlist
  obtain rfl : Ty.iterable "iterable" (some (.core "types.iterable")) (.inline u) .irrelevant =
      filled := by
    rw [← hlookup]
    exact Except.ok.inj hfilled
  have hopen : t.isRuntimeDetermined = false := by
    change (if (Binding.lookup bound "T").isRuntimeDetermined then Except.ok (Binding.lookup bound "T")
      else Except.ok _) = Except.ok t at hsubst
    rw [hlookup, hknown] at hsubst
    cases hsubst
    rfl
  -- The elements would have to be similar, and they are natives of other kinds.
  rcases hfit with h | h | h | h
  · cases hopen.symm.trans h
  · cases h
  · have hsame : "iterable[int]" = "iterable" := h.name_eq
    exact absurd hsame (by decide)
  · change Registry.Similar _ "str" u.name at h
    rw [hname] at h
    obtain ⟨v, w, hv, hw, hnv, hnw, -, hrel⟩ :=
      (Registry.isSimulation_similar _ _ _ h).resolve_left (by decide)
    rw [Registry.Holds, hnv] at hv
    rw [Registry.Holds, hnw] at hw
    obtain rfl : string = v := Option.some.inj hv
    obtain rfl : integer = w := Option.some.inj hw
    have htag : "string" = "integer" := hrel
    exact absurd htag (by decide)

end Standard.Sample

end CellMachine
