import CellMachine.Proofs.Call.Nodes

/-!
Where the opcodes of a compiled call come from. Whatever the cells of a callable name, its nodes apply
opcodes that the script has; so what all of these promise is promised by every node. No other promise is
asked of the opcodes here, their checks may do to the registry what they like.
-/

namespace CellMachine

/-- What all opcodes promise. -/
def Opcodes.All (P : Opcode → Prop) (opcodes : Opcodes) : Prop :=
  ∀ mnemonic op, opcodes.get? mnemonic = some op → P op

/-- A node that applies no opcode but one that promises something. -/
def NodeOp.Applies (P : Opcode → Prop) : NodeOp → Prop
  | .opcode op _ _ => P op
  | _ => True

/-- Nodes in the order of their cells, with the opcodes that they apply. -/
structure NodesApply (P : Opcode → Prop) (nodes : KeyMap Nat Node) : Prop where
  ascending : nodes.Ascending
  node : ∀ i node, nodes.get? i = some node → node.op.Applies P

def CompiledCall.Applies (P : Opcode → Prop) (call : CompiledCall) : Prop := NodesApply P call.nodes

def Compilation.Applies (P : Opcode → Prop) (c : Compilation) : Prop :=
  ∀ call, c = .ok call → call.Applies P

variable {P : Opcode → Prop}

lemma nodesApply_nil : NodesApply P [] := ⟨.nil, nofun⟩

lemma NodesApply.insert {nodes : KeyMap Nat Node} (h : NodesApply P nodes) (i : Nat) (cell : Cell)
    {op : NodeOp} (hop : op.Applies P) : NodesApply P (nodes.insert i ⟨cell, op⟩) := by
  refine ⟨KeyMap.ascending_insert i _ h.ascending, fun j node hj => ?_⟩
  rw [KeyMap.get?_insert] at hj
  split at hj
  · cases hj
    exact hop
  · exact h.node j node hj

namespace Compile

/-- A computation whose result has a property. -/
def Yields {α : Type} (x : CompileM α) (Q : α → Prop) : Prop := ∀ s, Q (x s).1

namespace Yields

variable {α β : Type} {x : CompileM α} {f : α → CompileM β} {R : β → Prop}

lemma pure {b : β} (h : R b) : Yields (pure b) R := fun _ => h

lemma bind {Q : α → Prop} (hx : Yields x Q) (hf : ∀ a, Q a → Yields (f a) R) : Yields (x >>= f) R :=
  fun s => hf (x s).1 (hx s) (x s).2

lemma after (hf : ∀ a, Yields (f a) R) : Yields (x >>= f) R := fun s => hf (x s).1 (x s).2

end Yields

/-- A node, if there is one, applies no other opcode. -/
def AppliesIfAny (P : Opcode → Prop) (o : Option NodeOp) : Prop := ∀ op ∈ o, op.Applies P

lemma appliesIfAny_none : AppliesIfAny P none := nofun

lemma appliesIfAny_some {op : NodeOp} (h : op.Applies P) : AppliesIfAny P (some op) := by
  rintro _ ⟨⟩
  exact h

lemma yields_applyOpcode (env : CompileEnv) (index : Nat) (cell : Cell) {op : Opcode} (hop : P op)
    (arguments : List Nat) (explicit : KeyMap String Ty) (cells : List Cell)
    (nodes : KeyMap Nat Node) :
    Yields (applyOpcode env index cell op arguments explicit cells nodes) (AppliesIfAny P) := by
  unfold applyOpcode
  refine .after fun s => ?_
  dsimp only
  split
  · refine .after fun fit => .after fun fit' => ?_
    split
    · refine .after fun found => ?_
      split
      · exact .pure (appliesIfAny_some hop)
      · exact .after fun _ => .pure appliesIfAny_none
    · exact .pure appliesIfAny_none
  · exact .after fun _ => .pure appliesIfAny_none

lemma yields_compileNode {env : CompileEnv} (henv : env.opcodes.All P) (index : Nat) (cell : Cell)
    (nodes : KeyMap Nat Node) : Yields (compileNode env index cell nodes) (AppliesIfAny P) := by
  unfold compileNode
  cases cell.kind with
  | external name =>
    dsimp only
    split
    · exact .pure (appliesIfAny_some trivial)
    · exact .after fun _ => .pure appliesIfAny_none
  | constant moduleName name =>
    dsimp only
    split
    · exact .after fun _ => .pure appliesIfAny_none
    · exact .after fun _ => .pure (appliesIfAny_some trivial)
  | structured members => exact .after fun _ => .pure (appliesIfAny_some trivial)
  | iterable items => exact .after fun _ => .pure (appliesIfAny_some trivial)
  | call callable argument => exact .after fun _ => .pure (appliesIfAny_some trivial)
  | opcode mnemonic arguments explicit =>
    dsimp only [compileOpcode]
    split
    · exact .after fun _ => .pure appliesIfAny_none
    · next op hop =>
      split
      · exact .after fun _ => .pure appliesIfAny_none
      · split
        · exact .pure appliesIfAny_none
        · exact yields_applyOpcode env index cell (henv _ op hop) _ _ _ _

lemma yields_compileNodes {env : CompileEnv} (henv : env.opcodes.All P) (order : List Nat)
    {nodes : KeyMap Nat Node} (h : NodesApply P nodes) :
    Yields (compileNodes env order nodes) (NodesApply P) := by
  induction order generalizing nodes with
  | nil => exact .pure h
  | cons index rest ih =>
    unfold compileNodes
    cases env.callable.cell? index with
    | none => exact ih h
    | some cell =>
      refine (yields_compileNode henv index cell nodes).bind fun o ho => ?_
      cases o with
      | none => exact ih h
      | some op => exact ih (h.insert index cell (ho op rfl))

lemma yields_build {env : CompileEnv} (henv : env.opcodes.All P) (argumentType resultType : Ty) :
    Yields (build env argumentType resultType) (NodesApply P) := by
  unfold build
  split
  · exact .after fun _ => .pure nodesApply_nil
  · split
    · exact .after fun _ => .pure nodesApply_nil
    · refine .after fun _ => .after fun _ => ?_
      exact .after fun _ => yields_compileNodes henv _ nodesApply_nil

end Compile

/-- **A compiled call** applies only opcodes that the script has. -/
lemma applies_compileSlot {opcodes : Opcodes} (h : opcodes.All P) (modules : KeyMap String Module)
    (memory : Memory) (a : Address) (types : Registry) :
    Compilation.Applies P (compileSlot opcodes modules memory a types).1 := by
  intro call hcall
  by_cases hcallable : ∃ f name source argument result, memory.value? a = some (.callable f) ∧
      memory.typeOf a = .callable name source argument result
  · obtain ⟨f, name, source, argument, result, hvalue, htype⟩ := hcallable
    rw [compileSlot_callable hvalue htype] at hcall
    split at hcall
    · obtain ⟨-, rfl⟩ := CompileEnv.compile_ok_iff.mp hcall
      have henv : (CompileEnv.mk opcodes modules memory f).opcodes.All P := h
      exact Compile.yields_build henv _ _ _
    · cases hcall
    · cases hcall
    · cases hcall
  · rw [compileSlot_refused] at hcall
    · cases hcall
    · by_contra hno
      push Not at hno
      obtain ⟨⟨f, hf⟩, name, source, argument, result, htype⟩ := hno
      exact hcallable ⟨f, name, source, argument, result, hf, htype⟩

end CellMachine
