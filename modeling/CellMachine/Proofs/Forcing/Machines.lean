import CellMachine.Proofs.Call.Provenance
import CellMachine.Proofs.Machine.Routine
import CellMachine.Proofs.Meaning.Calls
import CellMachine.Proofs.Meaning.Opcodes
import CellMachine.Proofs.Memory.Factories
import CellMachine.Proofs.Memory.Forced

/-!
Machines on which values last. Whatever opcodes a script has, if none of them takes away a slot or a
value, neither does a run: the machine itself only adds slots and fills them.
-/

namespace CellMachine

/-- An opcode that takes away no slot and no value. What a host's opcode is handed lets it do no other:
slots are only added, and the first value that is written to one stays. -/
def Opcode.Keeps (op : Opcode) : Prop :=
  ∀ frame (s : Store), s.memory.Keeps (op.evaluate frame s).2.memory

def Opcodes.Keep (opcodes : Opcodes) : Prop :=
  ∀ mnemonic op, opcodes.get? mnemonic = some op → op.Keeps

/-- A node that applies no opcode but one that keeps memory. -/
def NodeOp.Keeps : NodeOp → Prop
  | .opcode op _ _ => op.Keeps
  | _ => True

def CompiledCall.Keeps (call : CompiledCall) : Prop :=
  ∀ i node, call.nodes.get? i = some node → node.op.Keeps

def Compilation.Keeps (c : Compilation) : Prop := ∀ call, c = .ok call → call.Keeps

/-! ### Compilation -/

lemma CompiledCall.Applies.keeps {call : CompiledCall} (h : call.Applies Opcode.Keeps) :
    call.Keeps := by
  intro i node hi
  have happlies := h.node i node hi
  cases hop : node.op with
  | opcode op arguments bindings =>
    rw [hop] at happlies
    exact happlies
  | _ => trivial

lemma keeps_compileSlot {opcodes : Opcodes} (h : opcodes.Keep) (modules : KeyMap String Module)
    (memory : Memory) (a : Address) (types : Registry) :
    Compilation.Keeps (compileSlot opcodes modules memory a types).1 := fun call hcall =>
  (applies_compileSlot h modules memory a types call hcall).keeps

namespace Machine

/-- **What holds in every state of a run**: no opcode takes away a slot or a value. -/
structure Lasting (m : Machine) : Prop where
  opcodes : m.setting.opcodes.Keep
  compiled : ∀ i c, m.compiled.get? i = some c → c.Keeps
  pending : ∀ i p, m.pending.get? i = some p → p.activation.call.Keeps

/-- A computation after which slots have what they had, and whose result has a property. -/
def Lasts {α : Type} (m : Machine) (x : RunM α) (Q : α → Memory → Prop) : Prop :=
  (x m).2.Lasting ∧ m.store.memory.Keeps (x m).2.store.memory ∧ Q (x m).1 (x m).2.store.memory

variable {m m' : Machine}

lemma Lasting.congr (h : m.Lasting) (hsetting : m'.setting = m.setting)
    (hcompiled : m'.compiled = m.compiled) (hpending : m'.pending = m.pending) : m'.Lasting :=
  ⟨hsetting ▸ h.opcodes, hcompiled ▸ h.compiled, hpending ▸ h.pending⟩

namespace Lasts

variable {α β : Type} {x : RunM α} {P Q : α → Memory → Prop} {R : β → Memory → Prop}

lemma pure (h : m.Lasting) {a : α} (ha : Q a m.store.memory) : Lasts m (pure a) Q := ⟨h, .refl _, ha⟩

lemma bind {f : α → RunM β} (hx : Lasts m x P)
    (hf : ∀ a m', m'.Lasting → m.store.memory.Keeps m'.store.memory → P a m'.store.memory →
      Lasts m' (f a) R) : Lasts m (x >>= f) R := by
  obtain ⟨h, keeps, hP⟩ := hx
  obtain ⟨h', keeps', hR⟩ := hf _ _ h keeps hP
  exact ⟨h', keeps.trans keeps', hR⟩

lemma mono (hx : Lasts m x P) (h : ∀ a memory, P a memory → Q a memory) : Lasts m x Q :=
  ⟨hx.1, hx.2.1, h _ _ hx.2.2⟩

lemma memory {f : Memory → RunM β} (hf : Lasts m (f m.store.memory) R) :
    Lasts m (RunM.memory >>= f) R := hf

lemma setting {f : Setting → RunM β} (hf : Lasts m (f m.setting) R) :
    Lasts m (RunM.setting >>= f) R := hf

lemma value? {a : Address} {f : Option Value → RunM β} (hf : Lasts m (f (m.store.memory.value? a)) R) :
    Lasts m (RunM.value? a >>= f) R := hf

lemma get {f : Machine → RunM β} (hf : Lasts m (f m) R) : Lasts m (MonadState.get >>= f) R := hf

lemma store (h : m.Lasting) {x : StoreM α} (hkeeps : m.store.memory.Keeps (x m.store).2.memory)
    (hQ : Q (x m.store).1 (x m.store).2.memory) : Lasts m (RunM.store x) Q :=
  ⟨h.congr rfl rfl rfl, hkeeps, hQ⟩

lemma reading (h : m.Lasting) {x : StoreM α} (hx : (x m.store).2.memory = m.store.memory) :
    Lasts m (RunM.store x) fun _ _ => True :=
  store h (by rw [hx]; exact .refl _) trivial

lemma checking (h : m.Lasting) (asked : Config → Bool) (c : Check) :
    Lasts m (RunM.checking asked (StoreM.check c)) fun _ _ => True := by
  unfold Lasts RunM.checking
  split
  · exact reading h rfl
  · exact ⟨h, .refl _, trivial⟩

lemma tell (h : m.Lasting) (f : Memory → Notice) : Lasts m (RunM.tell f) fun _ _ => True := by
  unfold Lasts RunM.tell
  split
  · exact ⟨h, .refl _, trivial⟩
  · exact ⟨h.congr rfl rfl rfl, .refl _, trivial⟩

lemma tellOpcode (h : m.Lasting) (f : Memory → Notice) :
    Lasts m (RunM.tellOpcode f) fun _ _ => True := by
  unfold Lasts RunM.tellOpcode
  split
  · exact ⟨h.congr rfl rfl rfl, .refl _, trivial⟩
  · exact ⟨h, .refl _, trivial⟩

lemma memoize (h : m.Lasting) {a : Address} (ha : (m.store.memory.get? a).isSome = true) (v : Value) :
    Lasts m (RunM.store (StoreM.memoize a v)) fun _ memory => memory.isEvaluated a = true :=
  store h (Memory.keeps_memoize _ a v) (Memory.isEvaluated_memoize ha v)

end Lasts

/-! ### Calls -/

lemma lasts_compile (h : m.Lasting) (a : Address) : Lasts m (compile a) fun c _ => c.Keeps := by
  refine ⟨h.congr rfl rfl rfl, .refl _, ?_⟩
  exact keeps_compileSlot h.opcodes m.setting.modules m.store.memory a m.store.types

lemma lasts_compileAt (h : m.Lasting) (i : Nat) : Lasts m (compileAt i) fun c _ => c.Keeps := by
  obtain ⟨c, hc, heq⟩ | ⟨c, types, -, hc, heq⟩ := compileAt_cases i m
  · rw [Lasts, heq]
    exact ⟨h, .refl _, h.compiled i c hc⟩
  · have hkeeps : c.Keeps := by
      obtain rfl | ⟨a, rfl⟩ := hc
      · exact nofun
      · exact keeps_compileSlot h.opcodes m.setting.modules m.store.memory a m.store.types
    rw [Lasts, heq]
    refine ⟨⟨h.opcodes, fun j d hj => ?_, h.pending⟩, .refl _, hkeeps⟩
    rw [KeyMap.get?_insert] at hj
    split at hj
    · cases hj
      exact hkeeps
    · exact h.compiled j d hj

lemma lasting_activated (h : m.Lasting) {call : CompiledCall} (hcall : call.Keeps)
    (argument : Address) : (m.activated call argument).Lasting := by
  refine ⟨h.opcodes, h.compiled, fun i p hp => ?_⟩
  rcases get?_enterSlots ⟨call, (activate argument call.nodes m.store).1⟩ call.nodes m.pending i
    with ⟨e, -, -, -, hget⟩ | ⟨-, hsame⟩
  · have heq : p = ⟨⟨call, (activate argument call.nodes m.store).1⟩, e.1⟩ :=
      Option.some.inj (hp.symm.trans hget)
    rw [heq]
    exact hcall
  · exact h.pending i p (hsame.symm.trans hp)

end Machine

end CellMachine
