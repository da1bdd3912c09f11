import CellMachine.Proofs.KeyMap
import CellMachine.Proofs.Opcode.Depth

/-!
What the check of declarations accepts. A signature is well-formed if its generics are declared once and
bound by suitable arguments, if the generics it uses are declared and stand where they can be bound, and
if its arguments can be evaluated as it says. The check has nothing to report exactly if the signature
is well-formed, whatever the registry. A type that is named and not registered is left for the
registration of the types that opcodes mention, unless it has to say where a generic comes from.
-/

namespace CellMachine

namespace Signature

variable {s : Signature} {types : Registry}

/-- The argument at an index exists and is of a type that suits. A generic is no type yet, and nothing
suits that is named but not registered. -/
def BoundBy (s : Signature) (types : Registry) (index : Nat) (suits : Ty → Prop) : Prop :=
  ∃ a, s.arguments[index]? = some a ∧ a.type.isGeneric = false ∧
    ∃ t, types.resolve a.type = .ok t ∧ suits t

/-- A declared generic. -/
def Declares (s : Signature) (id : String) : Prop := ∃ g ∈ s.generics, g.id = id

/-- A well-formed signature. -/
structure WellFormed (s : Signature) (types : Registry) : Prop where
  distinct : (s.generics.map Generic.id).Nodup
  oneSource : ∀ g ∈ s.generics, g.fromArgument = none ∨ g.keyedBy = none
  fromType : ∀ g ∈ s.generics, ∀ i, g.fromArgument = some i →
    s.BoundBy types i fun t => t.tag? = some "meta-type"
  keyed : ∀ g ∈ s.generics, ∀ i, g.keyedBy = some i →
    s.BoundBy types i fun t => t.category = .keyOf
  /-- Generics that are used as types are declared. -/
  bound : ∀ id hint, .generic id hint ∈ s.declared → s.Declares id
  /-- Generics that are used as elements are declared. -/
  elements : ∀ r ∈ s.declared, ∀ name source id hint ends,
    types.resolve r = .ok (.iterable name source (.generic id hint) ends) → s.Declares id
  /-- Generics whose keys are used are declared, and structures wherever they are written. -/
  owners : ∀ r ∈ s.declared, ∀ name source id hint,
    types.resolve r = .ok (.keyOf name source (.generic id hint)) →
      hint = .structured ∧ ∃ g ∈ s.generics, g.id = id ∧ g.hint = .structured
  known : ∀ a ∈ s.arguments, ∀ t, types.resolve a.type = .ok t → t.isRuntimeDetermined = false
  /-- What is evaluated without its members has members. -/
  evaluable : ∀ a ∈ s.arguments, a.evaluation = .shallow → ∀ t, types.resolve a.type = .ok t →
    t.category = .iterable ∨ t.category = .structured
  shallow : ∀ r ∈ s.declared, r.Shallow

/-! ### References that lead to types -/

lemma known?_eq_some_iff {r : TyRef} {t : Ty} :
    types.known? r = some t ↔ types.resolve r = .ok t := by
  cases r with
  | inline u => simp [Registry.known?, Registry.resolve]
  | named n =>
    rw [Registry.known?, Registry.resolve]
    cases types.get? n <;> simp
  | generic id hint => simp [Registry.known?, Registry.resolve]

/-! ### Declared generics -/

lemma contains_bindings_iff {id : String} : s.bindings.contains id = true ↔ s.Declares id := by
  have hkeys : s.bindings = KeyMap.union [] (s.generics.map fun g => (g.id, g)) := rfl
  rw [KeyMap.contains_iff, hkeys, KeyMap.mem_keys_union, KeyMap.keys_nil,
    or_iff_right List.not_mem_nil, KeyMap.keys, List.map_map]
  exact List.mem_map

/-- Where ids are distinct, what is looked up is what is declared. -/
lemma get?_bindings_iff (h : (s.generics.map Generic.id).Nodup) {id : String} {g : Generic} :
    s.bindings.get? id = some g ↔ g ∈ s.generics ∧ g.id = id := by
  have found : ∀ {g}, s.bindings.get? id = some g → g ∈ s.generics ∧ g.id = id := by
    intro g hg
    obtain ⟨g', hg', heq⟩ := List.mem_map.mp (KeyMap.mem_of_get?_ofList hg)
    cases heq
    exact ⟨hg', rfl⟩
  refine ⟨found, fun ⟨hg, hid⟩ => ?_⟩
  have hcontains := contains_bindings_iff.mpr ⟨g, hg, hid⟩
  obtain ⟨g', hget⟩ := Option.isSome_iff_exists.mp hcontains
  obtain ⟨hg', hid'⟩ := found hget
  rw [hget, List.inj_on_of_nodup_map h hg' hg (hid'.trans hid.symm)]

/-! ### Parts of the check -/

lemma bindingSourceCauses_eq_nil_iff {index : Option Nat} {suits : Ty → Bool} {cause : Cause} :
    s.bindingSourceCauses types index suits cause = [] ↔
      ∀ i, index = some i → s.BoundBy types i fun t => suits t = true := by
  cases index with
  | none => exact ⟨fun _ => nofun, fun _ => rfl⟩
  | some i =>
    simp only [bindingSourceCauses, Option.some.injEq, forall_eq', BoundBy]
    cases s.arguments[i]? with
    | none => simp
    | some a =>
      simp only [Option.some.injEq, exists_eq_left', ← known?_eq_some_iff]
      cases a.type.isGeneric <;> simp [Option.any_eq_true]

lemma genericCauses_eq_nil_iff {earlier : List Generic} {g : Generic} :
    s.genericCauses types earlier g = [] ↔ (∀ e ∈ earlier, e.id ≠ g.id) ∧
      (g.fromArgument = none ∨ g.keyedBy = none) ∧
      (∀ i, g.fromArgument = some i → s.BoundBy types i fun t => t.tag? = some "meta-type") ∧
      ∀ i, g.keyedBy = some i → s.BoundBy types i fun t => t.category = .keyOf := by
  have hsource : (if g.fromArgument.isSome && g.keyedBy.isSome then [Cause.genericBindingState]
      else []) = [] ↔ g.fromArgument = none ∨ g.keyedBy = none := by
    cases g.fromArgument <;> cases g.keyedBy <;> simp
  simp only [genericCauses, List.append_eq_nil_iff, bindingSourceCauses_eq_nil_iff, beq_iff_eq,
    and_assoc, hsource]
  simp

lemma checkGenerics_eq_nil_iff {earlier generics : List Generic} :
    s.checkGenerics types earlier generics = [] ↔
      (∀ e ∈ earlier, ∀ g ∈ generics, e.id ≠ g.id) ∧ (generics.map Generic.id).Nodup ∧
        ∀ g ∈ generics, s.genericCauses types [] g = [] := by
  induction generics generalizing earlier with
  | nil => simp [checkGenerics]
  | cons g generics ih =>
    rw [checkGenerics, List.append_eq_nil_iff, List.map_eq_nil_iff, ih, List.map_cons,
      List.nodup_cons, List.forall_mem_cons, genericCauses_eq_nil_iff, genericCauses_eq_nil_iff]
    constructor
    · rintro ⟨⟨hg, hsource⟩, hids, hnodup, hrest⟩
      have hnew : g.id ∉ generics.map Generic.id := fun h => by
        obtain ⟨g', hg', heq⟩ := List.mem_map.mp h
        exact hids g (List.mem_append_right _ List.mem_cons_self) g' hg' heq.symm
      exact ⟨fun e he => List.forall_mem_cons.mpr ⟨hg e he, hids e (List.mem_append_left _ he)⟩,
        ⟨hnew, hnodup⟩, ⟨nofun, hsource⟩, hrest⟩
    · rintro ⟨hids, ⟨hnew, hnodup⟩, ⟨-, hsource⟩, hrest⟩
      refine ⟨⟨fun e he => hids e he g List.mem_cons_self, hsource⟩, fun e he g' hg' => ?_, hnodup,
        hrest⟩
      rcases List.mem_append.mp he with he | he
      · exact hids e he g' (List.mem_cons_of_mem _ hg')
      · cases List.mem_singleton.mp he
        exact fun heq => hnew (heq ▸ List.mem_map_of_mem hg')

lemma shallowCauses_eq_nil_iff {t : Ty} : s.shallowCauses t = [] ↔
    (∀ name source id hint ends, t = .iterable name source (.generic id hint) ends →
      s.Declares id) ∧
    ∀ name source id hint, t = .keyOf name source (.generic id hint) →
      hint = .structured ∧ ∃ g, s.bindings.get? id = some g ∧ g.hint = .structured := by
  cases t with
  | iterable n src e ends =>
    cases e with
    | generic id hint =>
      have hcauses : s.shallowCauses (.iterable n src (.generic id hint) ends) = [] ↔
          s.Declares id := by
        rw [shallowCauses, ← contains_bindings_iff]
        simp
      rw [hcauses]
      refine ⟨fun h => ⟨?_, nofun⟩, fun h => h.1 _ _ _ _ _ rfl⟩
      rintro _ _ _ _ _ ⟨⟩
      exact h
    | _ => simp [shallowCauses]
  | keyOf n src o =>
    cases o with
    | generic id hint =>
      have hcauses : s.shallowCauses (.keyOf n src (.generic id hint)) = [] ↔
          hint = .structured ∧ ∃ g, s.bindings.get? id = some g ∧ g.hint = .structured := by
        rw [shallowCauses]
        cases s.bindings.get? id <;> simp
      rw [hcauses]
      refine ⟨fun h => ⟨nofun, ?_⟩, fun h => h.2 _ _ _ _ rfl⟩
      rintro _ _ _ _ ⟨⟩
      exact h
    | _ => simp [shallowCauses]
  | _ => simp [shallowCauses]

lemma known_eq_nil_iff (extra : Ty → List Cause) (r : TyRef) :
    (match types.known? r with
      | none => []
      | some t => extra t ++ s.shallowCauses t) = [] ↔
      ∀ t, types.resolve r = .ok t → extra t = [] ∧ s.shallowCauses t = [] := by
  simp only [← known?_eq_some_iff]
  cases types.known? r <;> simp

lemma typeCauses_eq_nil_iff {extra : Ty → List Cause} {r : TyRef} :
    s.typeCauses types extra r = [] ↔ (∀ id hint, r = .generic id hint → s.Declares id) ∧
      (∀ t, types.resolve r = .ok t → extra t = [] ∧ s.shallowCauses t = []) ∧ r.Shallow := by
  unfold typeCauses
  rw [List.append_eq_nil_iff, List.map_eq_nil_iff, TyRef.deepGenerics_eq_nil_iff, ← and_assoc]
  refine and_congr_left fun _ => ?_
  cases r with
  | generic id hint =>
    rw [and_iff_left (by rintro _ ⟨⟩)]
    simp [← contains_bindings_iff]
  | inline t =>
    rw [and_iff_right (by rintro _ _ ⟨⟩)]
    exact known_eq_nil_iff extra (.inline t)
  | named n =>
    rw [and_iff_right (by rintro _ _ ⟨⟩)]
    exact known_eq_nil_iff extra (.named n)

lemma argumentCauses_eq_nil_iff {a : Argument} {t : Ty} :
    argumentCauses a t = [] ↔ t.isRuntimeDetermined = false ∧
      (a.evaluation = .shallow → t.category = .iterable ∨ t.category = .structured) := by
  rw [argumentCauses, List.append_eq_nil_iff]
  refine and_congr (by simp) ?_
  simp only [ite_eq_right_iff, List.cons_ne_nil, imp_false]
  tauto

lemma forall_mem_numbered {P : Argument → Prop} :
    (∀ e ∈ s.numbered, P e.2) ↔ ∀ a ∈ s.arguments, P a := by
  constructor
  · intro h a ha
    obtain ⟨i, hi⟩ := List.mem_iff_getElem?.mp ha
    exact h (i, a) (List.mem_map.mpr ⟨(a, i), List.mem_zipIdx_iff_getElem?.mpr hi, rfl⟩)
  · intro h e he
    obtain ⟨e', he', rfl⟩ := List.mem_map.mp he
    exact h _ (List.mem_of_getElem? (List.mem_zipIdx_iff_getElem?.mp he'))

lemma check_eq_nil_iff : s.check types = [] ↔
    ((s.generics.map Generic.id).Nodup ∧ ∀ g ∈ s.generics, s.genericCauses types [] g = []) ∧
    (∀ r ∈ s.declared, s.typeCauses types (fun _ => []) r = []) ∧
    ∀ a ∈ s.arguments, ∀ t, types.resolve a.type = .ok t → argumentCauses a t = [] := by
  have hextra : ∀ extra r, s.typeCauses types extra r = [] ↔
      s.typeCauses types (fun _ => []) r = [] ∧ ∀ t, types.resolve r = .ok t → extra t = [] := by
    intro extra r
    rw [typeCauses_eq_nil_iff, typeCauses_eq_nil_iff]
    exact ⟨fun ⟨h, h', h''⟩ => ⟨⟨h, fun t ht => ⟨rfl, (h' t ht).2⟩, h''⟩, fun t ht => (h' t ht).1⟩,
      fun ⟨⟨h, h', h''⟩, hextra⟩ => ⟨h, fun t ht => ⟨hextra t ht, (h' t ht).2⟩, h''⟩⟩
  have hgenerics : s.checkGenerics types [] s.generics = [] ↔
      (s.generics.map Generic.id).Nodup ∧ ∀ g ∈ s.generics, s.genericCauses types [] g = [] := by
    rw [checkGenerics_eq_nil_iff]
    exact and_iff_right fun _ h => nomatch h
  have harguments : s.numbered.flatMap (fun e =>
      (s.typeCauses types (argumentCauses e.2) e.2.type).map (s.argumentProblem · e.1 e.2)) = [] ↔
      ∀ a ∈ s.arguments, s.typeCauses types (argumentCauses a) a.type = [] := by
    rw [List.flatMap_eq_nil_iff, ← forall_mem_numbered]
    exact forall₂_congr fun _ _ => List.map_eq_nil_iff
  rw [check, List.append_eq_nil_iff, List.append_eq_nil_iff, hgenerics, harguments,
    List.map_eq_nil_iff, and_assoc, declared, List.forall_mem_append, List.forall_mem_map,
    List.forall_mem_singleton]
  simp only [hextra (argumentCauses _), forall_and]
  tauto

/-- **The check accepts the well-formed signatures**, and no others. -/
theorem check_accepts_wellFormed (s : Signature) (types : Registry) :
    s.check types = [] ↔ s.WellFormed types := by
  rw [check_eq_nil_iff]
  simp only [genericCauses_eq_nil_iff, typeCauses_eq_nil_iff, shallowCauses_eq_nil_iff,
    argumentCauses_eq_nil_iff]
  constructor
  · rintro ⟨⟨hdistinct, hgenerics⟩, htypes, harguments⟩
    exact {
      distinct := hdistinct
      oneSource := fun g hg => (hgenerics g hg).2.1
      fromType := fun g hg => (hgenerics g hg).2.2.1
      keyed := fun g hg => (hgenerics g hg).2.2.2
      bound := fun id hint h => (htypes _ h).1 id hint rfl
      elements := fun r hr name source id hint ends h =>
        ((htypes r hr).2.1 _ h).2.1 name source id hint ends rfl
      owners := fun r hr name source id hint h => by
        obtain ⟨hhint, g, hg, hstructured⟩ := ((htypes r hr).2.1 _ h).2.2 name source id hint rfl
        obtain ⟨hmem, hid⟩ := (get?_bindings_iff hdistinct).mp hg
        exact ⟨hhint, g, hmem, hid, hstructured⟩
      known := fun a ha t ht => (harguments a ha t ht).1
      evaluable := fun a ha hshallow t ht => (harguments a ha t ht).2 hshallow
      shallow := fun r hr => (htypes r hr).2.2 }
  · intro h
    refine ⟨⟨h.distinct, fun g hg =>
        ⟨nofun, h.oneSource g hg, h.fromType g hg, h.keyed g hg⟩⟩, fun r hr => ⟨?_, ?_, ?_⟩,
      fun a ha t ht => ⟨h.known a ha t ht, fun hshallow => h.evaluable a ha hshallow t ht⟩⟩
    · rintro id hint rfl
      exact h.bound id hint hr
    · rintro t ht
      refine ⟨trivial, ?_, ?_⟩
      · rintro name source id hint ends rfl
        exact h.elements r hr name source id hint ends ht
      · rintro name source id hint rfl
        obtain ⟨hhint, g, hg, hid, hstructured⟩ := h.owners r hr name source id hint ht
        exact ⟨hhint, g, (get?_bindings_iff h.distinct).mpr ⟨hg, hid⟩, hstructured⟩
    · exact h.shallow r hr

end Signature

end CellMachine
