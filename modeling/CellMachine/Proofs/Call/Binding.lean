import CellMachine.Proofs.Registry.Derived

/-!
Bindings of generics: what a registry remembers plays no part in them, and what generics are bound to,
and what declared types become by it, are types that can be compared.
-/

namespace CellMachine

namespace Registry

/-- A type that is open, or agrees with a registry. -/
def Known (reg : Registry) (t : Ty) : Prop := t.isRuntimeDetermined = true ∨ reg.Agrees t

lemma known_runtimeDetermined (reg : Registry) : reg.Known .runtimeDetermined := .inl rfl

end Registry

namespace Binding

variable {reg types : Registry}

/-! ### What is remembered plays no part -/

lemma fromType?_of_types (h : types.types = reg.types) (id : String) (declared : TyRef)
    (actual : Ty) : fromType? types id declared actual = fromType? reg id declared actual := by
  simp only [fromType?, Registry.resolve_of_types h]

lemma fromArguments?_of_types (h : types.types = reg.types) (id : String)
    (arguments : List Argument) (cells : List Cell) :
    fromArguments? types id arguments cells = fromArguments? reg id arguments cells := by
  simp only [fromArguments?, fromType?_of_types h]

lemma fromKey_of_types (h : types.types = reg.types) (cell : Option Cell) (constant : Option Value)
    (bound : KeyMap String Ty) :
    fromKey types cell constant bound = fromKey reg cell constant bound := by
  simp only [fromKey, Registry.resolve_of_types h]

lemma ofGeneric_of_types {s : Site} (h : s.types.types = reg.types) (bound : KeyMap String Ty)
    (g : Generic) : ofGeneric s bound g = ofGeneric { s with types := reg } bound g := by
  simp only [ofGeneric, fromKey_of_types h, fromArguments?_of_types h, fromType?_of_types h]

lemma all_of_types {s : Site} (h : s.types.types = reg.types) (generics : List Generic)
    (bound : KeyMap String Ty) :
    all s generics bound = all { s with types := reg } generics bound := by
  induction generics generalizing bound with
  | nil => rfl
  | cons g rest ih => rw [all, all, ofGeneric_of_types h, ih]

lemma misfit_of_types {s : Site} (h : s.types.types = reg.types) (generics : List Generic)
    (bound : KeyMap String Ty) :
    misfit s generics bound = misfit { s with types := reg } generics bound := by
  induction generics generalizing bound with
  | nil => rfl
  | cons g rest ih => simp only [misfit, ofGeneric_of_types h, ih]

lemma substitute_of_types (h : types.types = reg.types) (declared : TyRef)
    (bound : KeyMap String Ty) : substitute types declared bound = substitute reg declared bound := by
  simp only [substitute, Registry.resolve_of_types h]

/-! ### What generics are bound to -/

lemma agrees_fromType? (tidy : reg.Tidy) {id : String} {declared : TyRef} {actual t : Ty}
    (hactual : reg.Agrees actual) (h : fromType? reg id declared actual = some t) :
    reg.Agrees t := by
  have inner : ∀ {g : String} {r : TyRef}, r ∈ actual.refs →
      (if g == id then (reg.resolve r).toOption else none) = some t → reg.Agrees t := by
    intro g r hr h
    split at h
    · cases hres : reg.resolve r with
      | error p =>
        rw [hres] at h
        cases h
      | ok u =>
        rw [hres] at h
        cases h
        exact tidy.agrees_resolve hactual hr hres
    · cases h
  unfold fromType? at h
  split at h
  · cases h
  · split at h
    · split at h
      · cases h
        exact hactual
      · cases h
    · split at h
      · cases h
      · split at h
        · exact inner List.mem_cons_self h
        · exact inner List.mem_cons_self h
        · cases h

lemma known_fromKey (tidy : reg.Tidy) {cell : Option Cell} {constant : Option Value}
    {bound : KeyMap String Ty} (hcell : ∀ c, cell = some c → reg.Agrees c.type)
    (hbound : ∀ id t, bound.get? id = some t → reg.Known t) :
    reg.Known (fromKey reg cell constant bound) := by
  unfold fromKey
  dsimp only
  split
  · next key owner k t hkey howner =>
    -- Nothing is known of an open owner, but then it stores nothing.
    have hknown : t.stores ≠ [] → reg.Agrees t := by
      intro hne
      obtain ⟨c, rfl, hc⟩ := Option.bind_eq_some_iff.mp howner
      have hc' := hcell c rfl
      revert hc
      cases htype : c.type with
      | keyOf n s r =>
        rw [htype] at hc'
        cases r with
        | generic id hint =>
          intro hc
          rcases hbound id t hc with hopen | hagrees
          · cases t with
            | structured => cases hopen
            | _ => exact absurd rfl hne
          · exact hagrees
        | inline u =>
          intro hc
          cases hc
          exact tidy.agrees_resolve hc' List.mem_cons_self rfl
        | named m =>
          intro hc
          cases hres : reg.resolve (.named m) with
          | error p =>
            simp only [hres] at hc
            cases hc
          | ok u =>
            simp only [hres] at hc
            cases hc
            exact tidy.agrees_resolve hc' List.mem_cons_self hres
      | _ =>
        intro hc
        cases hc
    cases hget : t.stores.get? k with
    | none => exact Registry.known_runtimeDetermined reg
    | some r =>
      cases hres : reg.resolve r with
      | error p =>
        simp only [Option.bind_some, hres]
        exact Registry.known_runtimeDetermined reg
      | ok u =>
        simp only [Option.bind_some, hres]
        have hmem := KeyMap.mem_of_get? hget
        have hagrees := hknown (List.ne_nil_of_mem hmem)
        refine .inr (tidy.agrees_resolve hagrees ?_ hres)
        cases t with
        | structured n s m => exact List.mem_map_of_mem hmem
        | _ => cases hmem
  · exact Registry.known_runtimeDetermined reg

/-- The bindings at an opcode cell are known types, if those are that are taken from the values of
arguments. -/
lemma known_ofGeneric (tidy : reg.Tidy) {s : Site} (hs : s.types = reg)
    (hcell : reg.Agrees s.cell.type) (hargs : ∀ c ∈ s.arguments, reg.Agrees c.type)
    (hexplicit : ∀ id t, s.explicit.get? id = some t → reg.Agrees t) {bound : KeyMap String Ty}
    (hbound : ∀ id t, bound.get? id = some t → reg.Known t) {g : Generic}
    (hg : ∀ i, g.fromArgument = some i → reg.Known (fromConstant s.constants[i]?.join)) :
    reg.Known (ofGeneric s bound g) := by
  unfold ofGeneric
  cases hex : s.explicit.get? g.id with
  | some t => exact .inr (hexplicit _ t hex)
  | none =>
    cases hfrom : g.fromArgument with
    | some i => exact hg i hfrom
    | none =>
    cases hkey : g.keyedBy with
    | some i =>
      dsimp only
      rw [hs]
      exact known_fromKey tidy (fun c hc => hargs c (List.mem_of_getElem? hc)) hbound
    | none =>
      dsimp only
      rw [hs]
      cases hfirst : fromArguments? reg g.id s.signature.arguments s.arguments with
      | some t =>
        obtain ⟨e, he, ht⟩ := List.exists_of_findSome?_eq_some hfirst
        exact .inr (agrees_fromType? tidy (hargs _ (List.of_mem_zip he).2) ht)
      | none =>
        cases hresult : fromType? reg g.id s.signature.result s.cell.type with
        | some t => exact .inr (agrees_fromType? tidy hcell hresult)
        | none => exact Registry.known_runtimeDetermined reg

lemma known_all (tidy : reg.Tidy) {s : Site} (hs : s.types = reg)
    (hcell : reg.Agrees s.cell.type) (hargs : ∀ c ∈ s.arguments, reg.Agrees c.type)
    (hexplicit : ∀ id t, s.explicit.get? id = some t → reg.Agrees t) {generics : List Generic}
    (hgenerics : ∀ g ∈ generics, ∀ i, g.fromArgument = some i →
      reg.Known (fromConstant s.constants[i]?.join)) {bound : KeyMap String Ty}
    (hbound : ∀ id t, bound.get? id = some t → reg.Known t) :
    ∀ id t, (all s generics bound).get? id = some t → reg.Known t := by
  induction generics generalizing bound with
  | nil => exact hbound
  | cons g rest ih =>
    obtain ⟨hg, hrest⟩ := List.forall_mem_cons.mp hgenerics
    refine ih hrest fun id t ht => ?_
    rw [KeyMap.get?_insert] at ht
    split at ht
    · cases ht
      exact known_ofGeneric tidy hs hcell hargs hexplicit hbound hg
    · exact hbound id t ht

/-- The declared types that can be compared once their generics are bound. -/
inductive Declarable (reg : Registry) : TyRef → Prop
  | generic (id : String) (hint : Hint) : Declarable reg (.generic id hint)
  | concrete {t : Ty} (h : reg.Agrees t) (h' : ∀ r ∈ t.refs, r.isGeneric = false) :
    Declarable reg (.inline t)
  | iterable (source : Option Position) (id : String) (hint : Hint) :
    Declarable reg (.inline (.iterable "iterable" source (.generic id hint) .irrelevant))
  | keyOf (source : Option Position) (id : String) (hint : Hint) :
    Declarable reg (.inline (.keyOf "keyof" source (.generic id hint)))

/-- **What a declared type becomes is open or can be compared.** -/
lemma met_substitute {declared : TyRef} (hdeclared : Declarable reg declared)
    {bound : KeyMap String Ty} (hbound : ∀ id t, bound.get? id = some t → reg.Known t) {t : Ty}
    (h : substitute reg declared bound = .ok t) : t.isRuntimeDetermined = true ∨ reg.Met t := by
  have lookup : ∀ id, reg.Known ((bound.get? id).getD .runtimeDetermined) := by
    intro id
    cases hid : bound.get? id with
    | none => exact Registry.known_runtimeDetermined reg
    | some t => exact hbound id t hid
  cases hdeclared with
  | generic id hint =>
    cases h
    exact (lookup id).imp_right .inl
  -- Only parameters are filled in, and a concrete type has none.
  | @concrete u hu hrefs =>
    have hsame : substitute reg (.inline u) bound = .ok u := by
      cases u with
      | iterable n s r e =>
        cases r with
        | generic id hint => cases hrefs _ List.mem_cons_self
        | _ => rfl
      | keyOf n s r =>
        cases r with
        | generic id hint => cases hrefs _ List.mem_cons_self
        | _ => rfl
      | _ => rfl
    rw [hsame] at h
    cases h
    exact .inr (.inl hu)
  | iterable source id hint =>
    simp only [substitute, Registry.resolve] at h
    split at h
    · next hopen =>
      cases h
      exact .inl hopen
    · next hopen =>
      cases h
      exact .inr (.inr (.iterable source ((lookup id).resolve_left hopen)))
  | keyOf source id hint =>
    simp only [substitute, Registry.resolve] at h
    split at h
    · next hopen =>
      cases h
      exact .inl hopen
    · next hopen =>
      cases h
      exact .inr (.inr (.keyOf source ((lookup id).resolve_left hopen)))

end Binding

end CellMachine
