import CellMachine.Proofs.Machine.Effects
import CellMachine.Proofs.Script.Regime

/-!
What runs of scripts are made of. All that a run does, from setting up the call to writing out the value,
is effects, one after another, whether it fails, ends or is cut off. For later runs it leaves
compilations and verdicts; so whatever the opcodes of a script promise when it is loaded is promised in
every run of it.
-/

namespace CellMachine

open Machine

lemma Loader.all_opcodes {P : Opcode → Prop} {opcodes : List Opcode} {natives : List Ty} {l : Loader}
    (h : ∀ op ∈ opcodes, P op) (hl : make opcodes natives = .ok l) : l.opcodes.All P := by
  intro mnemonic op hop
  rw [(make_spec hl).1] at hop
  obtain ⟨op', hop', heq⟩ := List.mem_map.mp (KeyMap.mem_of_get?_ofList hop)
  cases heq
  exact h _ hop'

lemma Machine.Acts.stays {α : Type} {P : Opcode → Prop} {m : Machine} {x : RunM α} {Q : α → Prop}
    (hx : Acts P m x Q) (h : m.Applies P) : (Regime.effects P).Stays m x Q :=
  ⟨h.effects hx.1, hx⟩

namespace Script

/-- Whatever opcode a run of the script comes to apply promises something. -/
structure Applies (P : Opcode → Prop) (s : Script) : Prop where
  opcodes : s.opcodes.All P
  compiled : ∀ i c, s.compiled.get? i = some c → c.Applies P

variable {P : Opcode → Prop} {s s₀ : Script} {token : Option String}

lemma Applies.machine (h : s.Applies P) (token : Option String) : (s.machine token).Applies P :=
  ⟨h.opcodes, h.compiled, fun i p hp => absurd hp (not_pending_machine i p)⟩

lemma Applies.of_machine (h : (s.machine token).Applies P) : s.Applies P := ⟨h.opcodes, h.compiled⟩

/-- All that is done around the turns is effects as well. -/
lemma governs_effects : (Regime.effects P).Governs fun call => call.Applies P where
  lawful := Regime.lawful_effects P
  whole _ _ := (Action.applies_evaluate _ _).andThen trivial
  tell f h := (Acts.tell f).stays h
  compileAt i h := (acts_compileAt h i).stays h
  grow h hover := ⟨h.effect (.grown hover), .single (.grown hover)⟩
  construct argument h hcall := (acts_construct hcall argument).stays h
  start h hm hopcodes hcompiled :=
    Applies.machine ⟨hopcodes.symm ▸ h.opcodes, hcompiled.symm ▸ hm.compiled⟩ _

lemma Applies.used (h : s₀.Applies P) (hused : s₀.Used s) : s.Applies P :=
  .of_machine (governs_effects.used (h.machine none) hused)

lemma memory_used (hused : s₀.Used s) : s.memory = s₀.memory := by
  induction hused with
  | start => rfl
  | run _ outside fuel moduleName name argument token ih => exact ih
  | compile _ index ih => exact ih
  | cancel _ token ih => exact ih
  | watch _ h' ih =>
    unfold watch at h'
    split at h'
    · cases h'
    · cases h'
      exact ih

/-- **A script that was loaded** applies the opcodes of its loader, to the constants of its modules. -/
lemma applies_of_load {opcodes : List Opcode} {natives : List Ty} {l : Loader} {config : Config}
    {modules : List Module} (hopcodes : ∀ op ∈ opcodes, P op)
    (hl : Loader.make opcodes natives = .ok l) (hs : load { l with config } modules = .ok s) :
    s.Applies P ∧ ∃ types, Memory.ofModules types modules = .ok s.memory := by
  obtain ⟨types, memory, -, hmemory, hload⟩ := load_induction hs
  obtain ⟨happlies, rfl⟩ := hload (P := fun s' => Applies P s' ∧ s'.memory = memory)
    ⟨⟨Loader.all_opcodes hopcodes hl, fun _ _ hc => by cases hc⟩, rfl⟩ fun s' index hs' =>
      ⟨.of_machine (governs_effects.compiled (hs'.1.machine none) index), hs'.2⟩
  exact ⟨happlies, types, hmemory⟩

end Script

end CellMachine
