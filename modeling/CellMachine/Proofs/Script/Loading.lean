import CellMachine.Proofs.Standard.Declarations
import CellMachine.Script.Basic

/-!
What is known of a script that was loaded: its registry was made by registrations, and the types that
the standard opcodes declare are among them.
-/

namespace CellMachine

namespace Registry

/-- A registry after further registrations. -/
inductive Enlarges (reg : Registry) : Registry → Prop
  | refl : Enlarges reg reg
  | register {reg₁ reg₂ : Registry} {t : Ty} (h : Enlarges reg reg₁)
    (h' : reg₁.register t = .ok reg₂) : Enlarges reg reg₂

/-- A registry after registrations of types of some kind. -/
inductive Takes (P : Ty → Prop) (reg : Registry) : Registry → Prop
  | refl : Takes P reg reg
  | register {reg₁ reg₂ : Registry} {t : Ty} (h : Takes P reg reg₁) (ht : P t)
    (h' : reg₁.register t = .ok reg₂) : Takes P reg reg₂

variable {P : Ty → Prop} {reg reg' reg'' : Registry}

lemma Enlarges.trans (h : Enlarges reg reg') (h' : Enlarges reg' reg'') : Enlarges reg reg'' := by
  induction h' with
  | refl => exact h
  | register _ hr ih => exact ih.register hr

lemma Enlarges.reached (h : Enlarges reg reg') (hreg : Reached reg) : Reached reg' := by
  induction h with
  | refl => exact hreg
  | register _ hr ih => exact ih.register hr

lemma Enlarges.get? (h : Enlarges reg reg') {name : String} {t : Ty} (ht : reg.get? name = some t) :
    reg'.get? name = some t := by
  induction h with
  | refl => exact ht
  | register _ hr ih => exact get?_register hr ih

lemma Takes.trans (h : Takes P reg reg') (h' : Takes P reg' reg'') : Takes P reg reg'' := by
  induction h' with
  | refl => exact h
  | register _ ht hr ih => exact ih.register ht hr

lemma Takes.enlarges (h : Takes P reg reg') : reg.Enlarges reg' := by
  induction h with
  | refl => exact .refl
  | register _ _ hr ih => exact ih.register hr

lemma Reached.fresh (h : Reached reg) : reg.fresh = reg := by
  obtain ⟨types, verdicts⟩ := reg
  have hnone : verdicts = [] := h.verdicts
  rw [hnone]
  rfl

end Registry

lemma unlessProblems_eq_ok_iff {α : Type} {problems : List Problem} {a b : α} :
    unlessProblems problems a = .ok b ↔ problems = [] ∧ a = b := by
  cases problems with
  | nil => exact ⟨fun h => ⟨rfl, Except.ok.inj h⟩, fun h => congrArg Except.ok h.2⟩
  | cons p ps => exact ⟨nofun, fun h => nomatch h.1⟩

/-! ### The loader -/

namespace Loader

lemma takes_registerNatives (natives : List Ty) (types : Registry) :
    types.Takes (fun t => t ∈ natives ∧ t.category = .native) (registerNatives natives types).2 := by
  suffices h : ∀ rest ⊆ natives, ∀ types : Registry, types.Takes
      (fun t => t ∈ natives ∧ t.category = .native) (registerNatives rest types).2 from
    h _ (List.Subset.refl _) types
  intro rest
  induction rest with
  | nil => exact fun _ _ => .refl
  | cons t rest ih =>
    intro hsub types
    obtain ⟨ht, hrest⟩ := List.cons_subset.mp hsub
    unfold registerNatives
    dsimp only
    refine .trans ?_ (ih hrest _)
    cases t with
    | native n s tag ks =>
      cases h : types.register (.native n s tag ks) with
      | ok types₁ => exact .register .refl ⟨ht, rfl⟩ h
      | error p => exact .refl
    | _ => exact .refl

lemma takes_registerDeclared (declared : List (Opcode × TyRef)) (types : Registry) :
    types.Takes (fun t => t.isConcrete = true) (registerDeclared declared types).2 := by
  induction declared generalizing types with
  | nil => exact .refl
  | cons e rest ih =>
    obtain ⟨o, r⟩ := e
    unfold registerDeclared
    dsimp only
    refine .trans ?_ (ih _)
    cases r with
    | inline t =>
      dsimp only
      split
      · next hconcrete =>
        cases h : types.register t with
        | ok types₁ => exact .register .refl hconcrete h
        | error p => exact .refl
      · exact .refl
    | _ => exact .refl

/-- Declared types without generics are registered. -/
lemma exists_register_of_declared {declared : List (Opcode × TyRef)} {types : Registry}
    (h : (registerDeclared declared types).1 = []) {o : Opcode} {t : Ty}
    (ht : (o, .inline t) ∈ declared) (hconcrete : t.isConcrete = true) :
    ∃ types₁ types₂ : Registry, types₁.register t = .ok types₂ ∧
      types₂.Enlarges (registerDeclared declared types).2 := by
  induction declared generalizing types with
  | nil => cases ht
  | cons e rest ih =>
    obtain ⟨o', r⟩ := e
    unfold registerDeclared at h ⊢
    dsimp only at h ⊢
    obtain ⟨hhere, hrest⟩ := List.append_eq_nil_iff.mp h
    rcases List.mem_cons.mp ht with heq | ht
    · cases heq
      dsimp only at hhere ⊢
      rw [if_pos hconcrete] at hhere ⊢
      cases hreg : types.register t with
      | error p =>
        rw [hreg] at hhere
        cases hhere
      | ok types₁ => exact ⟨types, types₁, hreg, (takes_registerDeclared rest types₁).enlarges⟩
    · exact ih hrest ht

/-- **What a loader is made of**: the opcodes it was given, and a registry with the types that they
declare. -/
lemma make_spec {opcodes : List Opcode} {natives : List Ty} {l : Loader}
    (h : make opcodes natives = .ok l) :
    l.opcodes = .ofList opcodes ∧ l.config = {} ∧ l.types.Reached ∧
      ∀ o ∈ opcodes, ∀ t, .inline t ∈ o.signature.declared → t.isConcrete = true →
        ∃ v, l.types.get? t.name = some v ∧ v.sameDefinition t = true := by
  unfold make at h
  dsimp only at h
  split at h
  · obtain ⟨hnone, rfl⟩ := unlessProblems_eq_ok_iff.mp h
    refine ⟨rfl, rfl, ?_, fun o ho t ht hconcrete => ?_⟩
    · have hnatives := (takes_registerNatives natives .initial).enlarges
      exact (hnatives.trans (takes_registerDeclared _ _).enlarges).reached .initial
    · have hmem : (o, TyRef.inline t) ∈ opcodes.flatMap fun o => o.signature.declared.map (o, ·) :=
        List.mem_flatMap.mpr ⟨o, ho, List.mem_map.mpr ⟨_, ht, rfl⟩⟩
      obtain ⟨_, _, hregister, hlater⟩ := exists_register_of_declared hnone hmem hconcrete
      obtain ⟨v, hv, hsame⟩ := Registry.same_register hregister
      exact ⟨v, hlater.get? hv, hsame⟩
  · cases h

end Loader

/-! ### The script -/

namespace Script

lemma enlarges_registerCells (problem : Problem → Problem) (cells : List (Nat × Cell))
    (types : Registry) : types.Enlarges (registerCells problem cells types).2 := by
  induction cells generalizing types with
  | nil => exact .refl
  | cons e rest ih =>
    obtain ⟨index, cell⟩ := e
    unfold registerCells
    dsimp only
    refine .trans ?_ (ih _)
    cases h : types.register cell.type with
    | ok types₁ => exact .register .refl h
    | error p => exact .refl

lemma enlarges_registerConstants (constants : List (String × String × Constant))
    (types : Registry) : types.Enlarges (registerConstants constants types).2 := by
  induction constants generalizing types with
  | nil => exact .refl
  | cons e rest ih =>
    obtain ⟨moduleName, name, c⟩ := e
    unfold registerConstants
    dsimp only
    refine .trans ?_ (ih _)
    unfold registerConstant
    cases h : types.register c.type with
    | error p => exact .refl
    | ok types₁ =>
      have htypes : types.Enlarges types₁ := .register .refl h
      cases c.value with
      | callable f => exact htypes.trans (enlarges_registerCells _ _ _)
      | _ => exact htypes

/-- A script before its constants are compiled. -/
def uncompiled (opcodes : Opcodes) (modules : List Module) (memory : Memory) (types : Registry) :
    Script where
  modules := .ofList (modules.map fun m => (m.name, m))
  opcodes
  config := {}
  memory
  types

/-- What a script is loaded to: constants that were converted, with the types of the loader and those
of the modules. The configuration says whether they are compiled at once. -/
lemma exists_load_eq {l : Loader} {modules : List Module} {s : Script} (h : load l modules = .ok s) :
    ∃ types memory, l.types.fresh.Enlarges types ∧ Memory.ofModules types modules = .ok memory ∧
      ∀ config, load { l with config } modules =
        if config.eagerCompile then
          unlessProblems (compileAll { uncompiled l.opcodes modules memory types with config }).1
            (compileAll { uncompiled l.opcodes modules memory types with config }).2
        else .ok { uncompiled l.opcodes modules memory types with config } := by
  unfold load at h ⊢
  dsimp only at h ⊢
  generalize hregistered : registerConstants
    (modules.flatMap fun m => m.constants.map fun e => (m.name, e.1, e.2)) l.types.fresh = r at h ⊢
  obtain ⟨refused, types⟩ := r
  have hlarger : l.types.fresh.Enlarges types := by
    have := enlarges_registerConstants
      (modules.flatMap fun m => m.constants.map fun e => (m.name, e.1, e.2)) l.types.fresh
    rwa [hregistered] at this
  cases hmemory : Memory.ofModules types modules with
  | error found =>
    rw [hmemory] at h
    cases h
  | ok memory =>
    rw [hmemory] at h
    dsimp only at h ⊢
    refine ⟨types, memory, hlarger, hmemory, fun config => ?_⟩
    split at h
    · next hnone =>
      rw [if_pos hnone]
      rfl
    · cases h

lemma load_cases {l : Loader} {modules : List Module} {s : Script} (h : load l modules = .ok s) :
    ∃ types memory, l.types.fresh.Enlarges types ∧ Memory.ofModules types modules = .ok memory ∧
      if l.config.eagerCompile then
        compileAll { uncompiled l.opcodes modules memory types with config := l.config } = ([], s)
      else s = { uncompiled l.opcodes modules memory types with config := l.config } := by
  obtain ⟨types, memory, hlarger, hmemory, hload⟩ := exists_load_eq h
  refine ⟨types, memory, hlarger, hmemory, ?_⟩
  have heq := (hload l.config).symm.trans h
  split at heq
  · next heager =>
    rw [if_pos heager]
    obtain ⟨hnone, hs⟩ := unlessProblems_eq_ok_iff.mp heq
    exact Prod.ext hnone hs
  · next hlazy =>
    rw [if_neg hlazy]
    exact (Except.ok.inj heq).symm

end Script

end CellMachine
