import CellMachine.Proofs.Opcode.WellFormed
import CellMachine.Proofs.Registry.Conflicts
import CellMachine.Proofs.Script.Loading

/-!
What is known of a loader that was made. A host's native types are registered first, then its opcodes
are checked against them, then the types without generics that the opcodes declare in place are registered.
So every registered type is without generics, along names too, and every opcode, native tag and declared
type is where scripts look for it. Names are only visited below types that are written in place: a name
that is itself what an opcode declares is never asked for.
-/

namespace CellMachine

/-! ### Mnemonics -/

namespace Opcodes

variable {opcodes : List Opcode}

lemma nodup_of_duplicates (h : duplicates opcodes = []) : (opcodes.map Opcode.mnemonic).Nodup := by
  refine List.nodup_iff_count_le_one.mpr fun name => ?_
  by_contra hmany
  have hmem : name ∈ opcodes.map Opcode.mnemonic := List.count_pos_iff.mp (by omega)
  have hkey : name ∈ (KeyMap.ofList (opcodes.map fun o => (o.mnemonic, ()))).keys := by
    rw [KeyMap.mem_keys_ofList, KeyMap.keys, List.map_map]
    exact hmem
  have hlength : (opcodes.filter fun o => o.mnemonic == name).length =
      (opcodes.map Opcode.mnemonic).count name := by
    rw [List.count_eq_countP, List.countP_map, List.countP_eq_length_filter]
    rfl
  have hnone := List.filterMap_eq_nil_iff.mp h name hkey
  split at hnone
  · cases hnone
  · next hfew =>
    cases hfilter : opcodes.filter fun o => o.mnemonic == name with
    | nil =>
      rw [hfilter] at hlength
      exact hmany (by rw [← hlength]; exact Nat.zero_le 1)
    | cons first rest =>
      cases rest with
      | nil =>
        rw [hfilter] at hlength
        exact hmany (by rw [← hlength]; exact le_rfl)
      | cons second rest => exact hfew first second rest hfilter

end Opcodes

/-! ### Native tags -/

mutual

lemma Ty.nativeTags_eq : ∀ t : Ty, t.nativeTags = t.written.filterMap Ty.tag?
  | .native .. => rfl
  | .iterable _ _ e _ => e.nativeTags_eq
  | .structured _ _ m => nativeTagsStores_eq m
  | .callable _ _ a r => by
    rw [Ty.nativeTags, Ty.written, List.filterMap_cons, List.filterMap_append, a.nativeTags_eq,
      r.nativeTags_eq]
    rfl
  | .keyOf _ _ o => o.nativeTags_eq

lemma TyRef.nativeTags_eq : ∀ r : TyRef, r.nativeTags = r.written.filterMap Ty.tag?
  | .inline t => t.nativeTags_eq
  | .named _ => rfl
  | .generic .. => rfl

lemma nativeTagsStores_eq : ∀ m : List (String × TyRef),
    nativeTagsStores m = (writtenStores m).filterMap Ty.tag?
  | [] => rfl
  | (_, r) :: m => by
    rw [nativeTagsStores, writtenStores, List.filterMap_append, r.nativeTags_eq, nativeTagsStores_eq m]

end

lemma Ty.mem_nativeTags {t : Ty} {tag : String} :
    tag ∈ t.nativeTags ↔ ∃ u : Ty, u.Within t ∧ u.tag? = some tag := by
  simp only [nativeTags_eq, List.mem_filterMap, mem_written]

lemma Signature.mem_nativeTags {s : Signature} {t u : Ty} {tag : String}
    (ht : .inline t ∈ s.declared) (hu : u.Within t) (htag : u.tag? = some tag) :
    tag ∈ s.nativeTags := by
  have hmem : tag ∈ s.declared.flatMap TyRef.nativeTags :=
    List.mem_flatMap.mpr ⟨_, ht, Ty.mem_nativeTags.mpr ⟨u, hu, htag⟩⟩
  rw [nativeTags, KeyMap.mem_keys_ofList, KeyMap.keys, List.map_map]
  exact List.mem_map.mpr ⟨tag, hmem, rfl⟩

lemma Ty.isConcrete_iff {t : Ty} :
    t.isConcrete = true ↔ ∀ depth, ¬ (TyRef.inline t).GenericAt depth := by
  rw [← TyRef.genericCount_eq_zero_iff]
  exact beq_iff_eq

lemma Ty.isConcrete_of_within {t u : Ty} (h : u.Within t) (ht : t.isConcrete = true) :
    u.isConcrete = true := by
  induction h with
  | refl => exact ht
  | inline hv _ ih =>
    exact ih (beq_iff_eq.mpr (Ty.genericCount_eq_zero_iff.mp (beq_iff_eq.mp ht) _ hv))

/-! ### Registries -/

namespace Registry

/-- The references below a type: those in it, in the types written in it, and in the registered types
that it names. -/
inductive RefBelow (reg : Registry) : TyRef → Ty → Prop
  | here {r : TyRef} {t : Ty} (hr : r ∈ t.refs) : RefBelow reg r t
  | inline {r : TyRef} {t u : Ty} (hu : .inline u ∈ t.refs) (h : RefBelow reg r u) : RefBelow reg r t
  | named {r : TyRef} {t u : Ty} {n : String} (hn : .named n ∈ t.refs) (hu : reg.get? n = some u)
    (h : RefBelow reg r u) : RefBelow reg r t

variable {P : Ty → Prop} {reg reg' reg'' : Registry} {t u : Ty}

/-- What is registered with a type is written in it. -/
lemma get?_register_cases (h : reg.register t = .ok reg') {n : String} (hu : reg'.get? n = some u) :
    reg.get? n = some u ∨ u.Within t := by
  obtain ⟨found, hc, htypes⟩ := register_spec h
  obtain ⟨_, _, _, _, hnoted, _⟩ := exists_discovery hc
  rw [get?, htypes] at hu
  rcases KeyMap.get?_union_cases hu with hold | hnew
  · exact .inl hold
  · exact .inr (hnoted _ (mem_missing_iff.mp hnew).1).2

/-- Where types of some kind are taken, whatever holds of all that is written in them holds of all that
is registered. -/
lemma Takes.registered {Q : Ty → Prop} (h : Takes P reg reg')
    (hreg : ∀ n u, reg.get? n = some u → Q u) (hP : ∀ t, P t → ∀ u : Ty, u.Within t → Q u) :
    ∀ n u, reg'.get? n = some u → Q u := by
  induction h with
  | refl => exact hreg
  | register _ ht hr ih =>
    intro n u hu
    rcases get?_register_cases hr hu with hold | hwithin
    · exact ih n u hold
    · exact hP _ ht u hwithin

lemma Takes.ascending (h : Takes P .initial reg) : reg.types.Ascending := by
  induction h with
  | refl =>
    show KeyMap.Ascending [_, _]
    exact List.pairwise_pair.mpr rfl
  | register _ _ hr ih =>
    obtain ⟨found, -, htypes⟩ := register_spec hr
    rw [htypes]
    exact KeyMap.ascending_union _ ih

lemma initial_cases {n : String} (h : Registry.initial.get? n = some u) :
    u = .metaType ∨ u = .runtimeDetermined := by
  have hmem := KeyMap.mem_of_get? h
  rw [types_initial] at hmem
  rcases List.mem_cons.mp hmem with hmem | hmem
  · cases hmem
    exact .inl rfl
  · cases List.mem_singleton.mp hmem
    exact .inr rfl

lemma RefBelow.not_generic {r : TyRef} (h : reg.RefBelow r t)
    (hreg : ∀ n u, reg.get? n = some u → u.isConcrete = true) (ht : t.isConcrete = true) :
    r.isGeneric = false := by
  have hrefs : ∀ {t : Ty}, t.isConcrete = true → ∀ r ∈ t.refs, r.genericCount = 0 :=
    fun ht => Ty.genericCount_eq_zero_iff.mp (beq_iff_eq.mp ht)
  induction h with
  | @here t hr =>
    cases r with
    | generic id hint => cases hrefs ht _ hr
    | _ => rfl
  | inline hu _ ih => exact ih (beq_iff_eq.mpr (hrefs ht _ hu))
  | named _ hu _ ih => exact ih (hreg _ _ hu)

lemma Opened.mono {found : KeyMap String Ty} (h : Opened reg t found) (hlarger : reg.Enlarges reg') :
    Opened reg' t found where
  root := h.root
  within := h.within
  inlines := h.inlines
  registered k w hw := by
    obtain ⟨v, hv, hsame⟩ := h.registered k w hw
    exact ⟨v, hlarger.get? hv, hsame⟩
  named k w hw n hn := by
    obtain ⟨v, hv⟩ := h.named k w hw n hn
    exact ⟨v, hlarger.get? hv⟩

lemma Opened.names {found : KeyMap String Ty} (h : Opened reg t found) (huniform : t.Uniform)
    (hu : u.Within t) {n : String} (hn : .named n ∈ u.refs) : ∃ v, reg.get? n = some v := by
  obtain ⟨w, hw, hwu⟩ := h.knows huniform hu
  have hrefs := huniform w u (h.within _ w hw).2 hu hwu
  exact h.named _ w hw n (hrefs ▸ hn)

lemma Enlarges.resolve (h : reg.Enlarges reg') {r : TyRef} (ht : reg.resolve r = .ok t) :
    reg'.resolve r = .ok t := by
  rw [← Signature.known?_eq_some_iff] at ht ⊢
  cases r with
  | inline _ => exact ht
  | named n => exact h.get? ht
  | generic _ _ => cases ht

end Registry

/-! ### Making a loader -/

namespace Loader

variable {opcodes : List Opcode} {natives : List Ty} {l : Loader} {types : Registry}

lemma opened_registerDeclared {declared : List (Opcode × TyRef)}
    (h : (registerDeclared declared types).1 = []) {o : Opcode} {t : Ty}
    (ht : (o, .inline t) ∈ declared) (hconcrete : t.isConcrete = true) :
    ∃ found, Registry.Opened (registerDeclared declared types).2 t found := by
  obtain ⟨types₁, types₂, hregister, hlater⟩ := exists_register_of_declared h ht hconcrete
  obtain ⟨found, hopened⟩ := Registry.exists_opened hregister
  exact ⟨found, hopened.mono hlater⟩

lemma hasTag_of_missingTags {tags : List (Opcode × String)} {reported : List String}
    (h : missingTags types tags reported = []) :
    ∀ e ∈ tags, types.hasTag e.2 = true ∨ e.2 ∈ reported := by
  induction tags with
  | nil => exact nofun
  | cons e rest ih =>
    obtain ⟨o, tag⟩ := e
    rw [missingTags] at h
    split at h
    · next hknown =>
      refine List.forall_mem_cons.mpr ⟨?_, ih h⟩
      simpa using hknown
    · cases h

/-- **The stages of making a loader**: native types are registered, the opcodes pass their checks, the
tags they mention are there, and the types they declare are registered. -/
structure Made (opcodes : List Opcode) (natives : List Ty) (types : Registry) (l : Loader) : Prop where
  opcodes_eq : l.opcodes = .ofList opcodes
  natives : Registry.initial.Takes (fun t => t ∈ natives ∧ t.category = .native) types
  checked : Opcodes.check opcodes types = []
  tagged : ∀ o ∈ opcodes, ∀ tag ∈ o.signature.nativeTags, types.hasTag tag = true
  declared : types.Takes (fun t => t.isConcrete = true) l.types
  opened : ∀ o ∈ opcodes, ∀ t, .inline t ∈ o.signature.declared → t.isConcrete = true →
    ∃ found, Registry.Opened l.types t found

lemma exists_made (h : make opcodes natives = .ok l) : ∃ types, Made opcodes natives types l := by
  unfold make at h
  dsimp only at h
  split at h
  · next hfound =>
    obtain ⟨hnone, rfl⟩ := unlessProblems_eq_ok_iff.mp h
    obtain ⟨hfound, hmissing⟩ := List.append_eq_nil_iff.mp (List.isEmpty_iff.mp hfound)
    obtain ⟨-, hchecked⟩ := List.append_eq_nil_iff.mp hfound
    refine ⟨(registerNatives natives .initial).2, rfl, takes_registerNatives natives _, hchecked,
      fun o ho tag htag => ?_, takes_registerDeclared _ _, fun o ho t ht hconcrete => ?_⟩
    · refine (hasTag_of_missingTags hmissing (o, tag) ?_).resolve_right List.not_mem_nil
      exact List.mem_flatMap.mpr ⟨o, ho, List.mem_map.mpr ⟨tag, htag, rfl⟩⟩
    · refine opened_registerDeclared hnone (o := o) ?_ hconcrete
      exact List.mem_flatMap.mpr ⟨o, ho, List.mem_map.mpr ⟨_, ht, rfl⟩⟩
  · cases h

namespace Made

variable (h : Made opcodes natives types l)
include h

lemma check_eq_nil {o : Opcode} (ho : o ∈ opcodes) : o.signature.check types = [] :=
  List.flatMap_eq_nil_iff.mp (List.append_eq_nil_iff.mp h.checked).1 o ho

lemma nodup : (opcodes.map Opcode.mnemonic).Nodup :=
  Opcodes.nodup_of_duplicates (List.append_eq_nil_iff.mp h.checked).2

lemma perm_opcodes : l.opcodes.Perm (opcodes.map fun o => (o.mnemonic, o)) := by
  rw [h.opcodes_eq]
  refine KeyMap.perm_ofList ?_
  rw [KeyMap.keys, List.map_map]
  exact h.nodup

/-- Before opcodes are asked for their types, the registered types are those of the host, and two more. -/
lemma native_types {n : String} {t : Ty} (ht : types.get? n = some t) :
    t ∈ natives ∨ t = .metaType ∨ t = .runtimeDetermined := by
  refine h.natives.registered (Q := fun t => t ∈ natives ∨ t = .metaType ∨ t = .runtimeDetermined)
    (fun _ _ hu => .inr (Registry.initial_cases hu)) ?_ n t ht
  rintro t ⟨hmem, hnative⟩ u (_ | ⟨hv, -⟩)
  · exact .inl hmem
  · cases t with
    | native => cases hv
    | _ => cases hnative

lemma isConcrete {n : String} {t : Ty} (ht : l.types.get? n = some t) : t.isConcrete = true := by
  have within : ∀ t : Ty, t.isConcrete = true → ∀ u : Ty, u.Within t → u.isConcrete = true :=
    fun t ht u hu => Ty.isConcrete_of_within hu ht
  refine h.declared.registered (fun n u hu => ?_) within n t ht
  refine h.natives.registered (fun n u hu => ?_) (fun t ht => within t ?_) n u hu
  · rcases Registry.initial_cases hu with rfl | rfl <;> rfl
  · cases t with
    | native => rfl
    | _ => cases ht.2

lemma shallow {o : Opcode} (ho : o ∈ opcodes) {r : TyRef} (hr : r ∈ o.signature.declared) :
    r.Shallow :=
  (Signature.typeCauses_eq_nil_iff.mp
    ((Signature.check_eq_nil_iff.mp (h.check_eq_nil ho)).2.1 r hr)).2.2

lemma resolve_bound {o : Opcode} (ho : o ∈ opcodes) {g : Generic} (hg : g ∈ o.signature.generics)
    {i : Nat} (hi : g.fromArgument = some i ∨ g.keyedBy = some i) :
    ∃ a t, o.signature.arguments[i]? = some a ∧ l.types.resolve a.type = .ok t := by
  obtain ⟨-, -, hfrom, hkeyed⟩ := Signature.genericCauses_eq_nil_iff.mp
    ((Signature.check_eq_nil_iff.mp (h.check_eq_nil ho)).1.2 g hg)
  rcases hi with hi | hi
  · obtain ⟨a, ha, -, t, ht, -⟩ := hfrom i hi
    exact ⟨a, t, ha, h.declared.enlarges.resolve ht⟩
  · obtain ⟨a, ha, -, t, ht, -⟩ := hkeyed i hi
    exact ⟨a, t, ha, h.declared.enlarges.resolve ht⟩

lemma holds_of_hasTag {tag : String} (htag : types.hasTag tag = true) :
    ∃ t, types.Holds t ∧ t.tag? = some tag := by
  obtain ⟨t, ht, htag⟩ := List.any_eq_true.mp htag
  obtain ⟨⟨n, t⟩, hmem, rfl⟩ := List.mem_map.mp ht
  have hget : types.get? n = some t := h.natives.ascending.get?_of_mem hmem
  obtain rfl := (h.natives.enlarges.reached .initial).resolved.name_eq n t hget
  exact ⟨t, hget, eq_of_beq htag⟩

end Made

/-- **A loader is complete and free of generics.** If a loader can be made, the opcodes have different
mnemonics and are listed under them, and nothing else is; every tag of a native type that is written
in a declared type, at any depth, is that of a registered native type, of the host or built in; a declared
type without generics is registered under its name; and no generic is below a registered type, in what
is written in it or along the names of registered types. -/
theorem complete_and_generic_free (h : make opcodes natives = .ok l) :
    ((opcodes.map Opcode.mnemonic).Nodup ∧
      l.opcodes.Perm (opcodes.map fun o => (o.mnemonic, o))) ∧
    (∀ o ∈ opcodes, ∀ t, .inline t ∈ o.signature.declared → ∀ u : Ty, u.Within t → ∀ tag,
      u.tag? = some tag → ∃ v, l.types.Holds v ∧ v.tag? = some tag ∧
        (v ∈ natives ∨ v = .metaType ∨ v = .runtimeDetermined)) ∧
    (∀ o ∈ opcodes, ∀ t, .inline t ∈ o.signature.declared →
      (∀ depth, ¬ (TyRef.inline t).GenericAt depth) →
        ∃ v, l.types.get? t.name = some v ∧ v.sameDefinition t = true) ∧
    ∀ n t, l.types.get? n = some t → ∀ r, l.types.RefBelow r t → r.isGeneric = false := by
  obtain ⟨types, made⟩ := exists_made h
  refine ⟨⟨made.nodup, made.perm_opcodes⟩, fun o ho t ht u hu tag htag => ?_,
    fun o ho t ht hnone => ?_, fun n t ht r hr => ?_⟩
  · obtain ⟨v, hv, hvtag⟩ :=
      made.holds_of_hasTag (made.tagged o ho tag (Signature.mem_nativeTags ht hu htag))
    exact ⟨v, made.declared.enlarges.get? hv, hvtag, made.native_types hv⟩
  · obtain ⟨found, hopened⟩ := made.opened o ho t ht (Ty.isConcrete_iff.mpr hnone)
    exact hopened.registered _ t hopened.root
  · exact hr.not_generic (fun _ _ hu => made.isConcrete hu) (made.isConcrete ht)

end Loader

/-! ### Names -/

/-- A name occurs in a reference, at some depth of what is written in place. -/
inductive TyRef.Names (n : String) : TyRef → Prop
  | here : Names n (.named n)
  | inside {t : Ty} {r : TyRef} (hr : r ∈ t.refs) (h : Names n r) : Names n (.inline t)

/-- A name in a type is referred to by a type that is written there. -/
lemma Ty.exists_within_of_names {t : Ty} {n : String} (h : (TyRef.inline t).Names n) :
    ∃ u : Ty, u.Within t ∧ .named n ∈ u.refs := by
  suffices hall : ∀ r : TyRef, r.Names n → ∀ t, r = .inline t →
      ∃ u : Ty, u.Within t ∧ .named n ∈ u.refs from hall _ h t rfl
  intro r hr
  induction hr with
  | here =>
    intro t ht
    cases ht
  | @inside t r hr hn ih =>
    rintro _ ⟨⟩
    cases hn with
    | here => exact ⟨t, .refl, hr⟩
    | inside =>
      obtain ⟨u, hu, hnamed⟩ := ih _ rfl
      exact ⟨u, .inline hr hu, hnamed⟩

lemma Ty.not_names_of_shallow {t : Ty} (h : (TyRef.inline t).Shallow) (hgeneric : t.isConcrete ≠ true)
    (n : String) : ¬ (TyRef.inline t).Names n := by
  obtain ⟨r, hr, hcount⟩ := Ty.exists_ref_of_generic (t := t) fun hzero => hgeneric (beq_iff_eq.mpr hzero)
  obtain ⟨depth, hdepth⟩ := TyRef.exists_genericAt hcount
  obtain ⟨rfl, hcategory⟩ := TyRef.shallow_inline_iff.mp h r hr depth hdepth
  cases hdepth
  rintro (_ | ⟨hr', hn⟩)
  cases t with
  | iterable =>
    cases List.mem_singleton.mp hr
    cases List.mem_singleton.mp hr'
    cases hn
  | keyOf =>
    cases List.mem_singleton.mp hr
    cases List.mem_singleton.mp hr'
    cases hn
  | _ => rcases hcategory with hcategory | hcategory <;> cases hcategory

namespace Loader

variable {opcodes : List Opcode} {natives : List Ty} {l : Loader}

/-- **Names below declared types are registered.** If a loader can be made, the types without generics
that an opcode declares in place have been opened: what was opened refers to registered types only, and
unless types of one definition are written differently, every name in the declared type is registered.
An argument that a generic is bound by has a known type. A name that is itself declared is not asked
for. -/
theorem names_below_declared_types_are_registered (h : make opcodes natives = .ok l) {o : Opcode}
    (ho : o ∈ opcodes) :
    (∀ t, .inline t ∈ o.signature.declared → t.isConcrete = true →
      ∃ found, Registry.Opened l.types t found) ∧
    (∀ t, .inline t ∈ o.signature.declared → t.Uniform → ∀ n, (TyRef.inline t).Names n →
      ∃ v, l.types.get? n = some v) ∧
    ∀ g ∈ o.signature.generics, ∀ i, (g.fromArgument = some i ∨ g.keyedBy = some i) →
      ∃ a t, o.signature.arguments[i]? = some a ∧ l.types.resolve a.type = .ok t := by
  obtain ⟨types, made⟩ := exists_made h
  refine ⟨made.opened o ho, fun t ht huniform n hn => ?_,
    fun g hg i hi => made.resolve_bound ho hg hi⟩
  by_cases hconcrete : t.isConcrete = true
  · obtain ⟨found, hopened⟩ := made.opened o ho t ht hconcrete
    obtain ⟨u, hu, hnamed⟩ := Ty.exists_within_of_names hn
    exact hopened.names huniform hu hnamed
  · exact absurd hn (Ty.not_names_of_shallow (made.shallow ho ht) hconcrete n)

/-! ### A host -/

namespace Sample

/-- A link of a chain of integers, which names itself. -/
def link : Ty :=
  .structured "link" none [("next", .named "link"), ("value", .inline Standard.integer)]

/-- The opcode that takes the next link. -/
def next : Opcode where
  signature := ⟨"next", ⟨"host", 1, 1⟩, [], [⟨some "of", .inline link, .shallow⟩], .inline link⟩
  evaluate f := pure (.error (f.problem .argumentValue))

/-- An opcode whose result is a type that there is only a name for. -/
def lost : Opcode where
  signature := ⟨"lost", ⟨"host", 2, 1⟩, [], [], .named "nowhere"⟩
  evaluate f := pure (.error (f.problem .argumentValue))

lemma makes : (make [next, Standard.peek] [Standard.integer]).isOk = true ∧
    ((make [lost] []).toOption.any fun l => !l.types.contains "nowhere") = true := by
  decide +kernel

lemma exists_chained : ∃ l, make [next, Standard.peek] [Standard.integer] = .ok l := by
  cases h : make [next, Standard.peek] [Standard.integer] with
  | error found => exact absurd makes.1 (by rw [h]; exact Bool.false_ne_true)
  | ok l => exact ⟨l, rfl⟩

lemma exists_lost : ∃ l, make [lost] [] = .ok l ∧ l.types.contains "nowhere" = false := by
  have hmakes := makes.2
  cases h : make [lost] [] with
  | error found =>
    rw [h] at hmakes
    cases hmakes
  | ok l =>
    rw [h] at hmakes
    exact ⟨l, rfl, (Bool.not_eq_true' _).mp hmakes⟩

lemma uniform_link : link.Uniform := by
  let types : KeyMap String Ty := [("link", link), ("int", Standard.integer)]
  refine Ty.uniform_of_names types.get? fun u hu => ?_
  rw [← Ty.mem_written] at hu
  simp only [link, Standard.integer, Ty.written, writtenStores, TyRef.written, List.mem_cons,
    List.mem_append, List.not_mem_nil, or_false, false_or] at hu
  rcases hu with rfl | rfl <;> rfl

/-- Links are registered, with the integers in them, and each opcode is under its mnemonic. -/
theorem links_are_complete : ∃ l, make [next, Standard.peek] [Standard.integer] = .ok l ∧
    l.opcodes.Perm [("next", next), ("peek", Standard.peek)] ∧
    (∃ v, l.types.Holds v ∧ v.tag? = some "integer") ∧
    ∃ v, l.types.get? "link" = some v ∧ v.sameDefinition link = true := by
  obtain ⟨l, h⟩ := exists_chained
  obtain ⟨⟨-, hopcodes⟩, htags, hdeclared, -⟩ := complete_and_generic_free h
  have hnext : next ∈ [next, Standard.peek] := List.mem_cons_self
  have hlink : .inline link ∈ next.signature.declared := List.mem_cons_self
  obtain ⟨v, hv, htag, -⟩ := htags next hnext link hlink Standard.integer
    (.inline (List.mem_cons_of_mem _ List.mem_cons_self) .refl) "integer" rfl
  exact ⟨l, h, hopcodes, ⟨v, hv, htag⟩,
    hdeclared next hnext link hlink (Ty.isConcrete_iff.mp rfl)⟩

/-- The name of a link in the link is that of a registered type. -/
theorem link_names_itself : ∃ l, make [next, Standard.peek] [Standard.integer] = .ok l ∧
    ∃ v, l.types.get? "link" = some v := by
  obtain ⟨l, h⟩ := exists_chained
  obtain ⟨-, hnames, -⟩ := names_below_declared_types_are_registered h (o := next) List.mem_cons_self
  exact ⟨l, h, hnames link List.mem_cons_self uniform_link "link" (.inside List.mem_cons_self .here)⟩

/-- **A name that is itself declared stays unknown**: the loader is made all the same. -/
theorem not_forall_declared_names_are_registered :
    ¬ ∀ (opcodes : List Opcode) (natives : List Ty) (l : Loader), make opcodes natives = .ok l →
      ∀ o ∈ opcodes, ∀ r ∈ o.signature.declared, ∀ n, r.Names n →
        ∃ v, l.types.get? n = some v := by
  intro hall
  obtain ⟨l, hmade, hmissing⟩ := exists_lost
  obtain ⟨v, hv⟩ := hall [lost] [] l hmade lost List.mem_cons_self (.named "nowhere")
    List.mem_cons_self "nowhere" .here
  have hcontains : l.types.contains "nowhere" = true := Option.isSome_iff_exists.mpr ⟨v, hv⟩
  rw [hcontains] at hmissing
  cases hmissing

end Sample

end Loader

end CellMachine
