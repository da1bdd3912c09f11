import Mathlib.Tactic
import CellMachine.Memory.Conversion
import CellMachine.Proofs.KeyMap

/-!
How conversion goes down a stored value. A value is refused as a whole, or gets its slot at once, or its
parts are converted one after the other and it is put together of them; a member that there is no type
for is refused as it is. What holds of all conversions is shown case by case of this.
-/

namespace CellMachine

namespace Stored

/-- The key that a stored value names, where its type asks for one. -/
def key? : Stored → Option String
  | key k => some k
  | native (.string k) => some k
  | _ => none

lemma eq_string_of_key? {n : Native} {k : String} (h : (native n).key? = some k) :
    n = .string k := by
  cases n <;> cases h
  rfl

/-- The items of a list, the members of a record. -/
def parts : Stored → List Stored
  | list items => items
  | record members => members.map Prod.snd
  | _ => []

lemma sizeOf_part_lt {value part : Stored} (h : part ∈ value.parts) : sizeOf part < sizeOf value := by
  cases value with
  | list items =>
    have := List.sizeOf_lt_of_mem (show part ∈ items from h)
    rw [list.sizeOf_spec]
    omega
  | record members =>
    obtain ⟨⟨k, item⟩, he, rfl⟩ := List.mem_map.mp h
    have := List.sizeOf_lt_of_mem he
    rw [Prod.mk.sizeOf_spec] at this
    rw [record.sizeOf_spec]
    dsimp only
    omega
  | _ => cases h

@[elab_as_elim]
lemma byParts {motive : Stored → Prop}
    (step : ∀ value, (∀ part ∈ value.parts, motive part) → motive value) (value : Stored) :
    motive value := by
  induction hn : sizeOf value using Nat.strongRecOn generalizing value with
  | _ n ih => exact step value fun part hpart => ih _ (hn ▸ sizeOf_part_lt hpart) part rfl

end Stored

namespace Conversion

variable {types : Registry} {cell : Cell} {m m' : Memory}

/-! ### What is refused -/

/-- The type of a member of a structure that is no generic and is known. -/
def Typed (types : Registry) (stores : KeyMap String TyRef) (k : String) (t : Ty) : Prop :=
  ∃ r, stores.get? k = some r ∧ r.isGeneric = false ∧ types.resolve r = .ok t

/-- A stored value has the shape that a type asks for. -/
inductive Shaped : Ty → Stored → Prop
  | native {name : String} {source : Option Position} {tag : String} {test : NativeView → Bool}
    {n : Native} : Shaped (.native name source tag test) (.native n)
  | key {name : String} {source : Option Position} {owner : TyRef} {k : String} {value : Stored}
    (hvalue : value.key? = some k) : Shaped (.keyOf name source owner) value
  | callable {name : String} {source : Option Position} {argument result : TyRef} {c : Callable} :
    Shaped (.callable name source argument result) (.callable c)
  | list {name : String} {source : Option Position} {element : TyRef} {ends : Termination}
    {items : List Stored} : Shaped (.iterable name source element ends) (.list items)
  | record {name : String} {source : Option Position} {stores : KeyMap String TyRef}
    {members : List (String × Stored)} : Shaped (.structured name source stores) (.record members)

/-- What is wrong with a stored value as a whole. -/
inductive Unfit (types : Registry) (cell : Cell) : Stored → Problem → Prop
  | shape {value : Stored} (h : ¬Shaped cell.type value) :
    Unfit types cell value (((problem cell .typeValueMismatch).set "category"
      cell.type.category.name).set "value_kind" value.shape)
  | native {name : String} {source : Option Position} {tag : String} {test : NativeView → Bool}
    {n : Native} (htype : cell.type = .native name source tag test) (h : test n.view = false) :
    Unfit types cell (.native n)
      ((problem cell .typeValueMismatch).set "value_kind" n.kind.name)
  | genericOwner {name : String} {source : Option Position} {owner : TyRef} {value : Stored}
    {k : String} (htype : cell.type = .keyOf name source owner) (hvalue : value.key? = some k)
    (h : owner.isGeneric = true) : Unfit types cell value (problem cell .constantGenericType)
  | unknownOwner {name : String} {source : Option Position} {owner : TyRef} {value : Stored}
    {k : String} {p : Problem} (htype : cell.type = .keyOf name source owner)
    (hvalue : value.key? = some k) (hgeneric : owner.isGeneric = false)
    (h : types.resolve owner = .error p) : Unfit types cell value (about p cell)
  | unknownKey {name : String} {source : Option Position} {owner : TyRef} {value : Stored}
    {k : String} {t : Ty} (htype : cell.type = .keyOf name source owner)
    (hvalue : value.key? = some k) (hgeneric : owner.isGeneric = false)
    (howner : types.resolve owner = .ok t) (h : k ∉ t.stores.keys) :
    Unfit types cell value
      (((problem cell .typeValueMismatch).set "key" k).set "structure" t.name)
  | genericFunction {name : String} {source : Option Position} {argument result : TyRef}
    {c : Callable} (htype : cell.type = .callable name source argument result)
    (h : argument.isGeneric = true ∨ result.isGeneric = true) :
    Unfit types cell (.callable c) (problem cell .constantGenericType)
  | genericElement {name : String} {source : Option Position} {element : TyRef} {ends : Termination}
    {items : List Stored} (htype : cell.type = .iterable name source element ends)
    (h : element.isGeneric = true) :
    Unfit types cell (.list items) (problem cell .constantGenericType)
  | unknownElement {name : String} {source : Option Position} {element : TyRef} {ends : Termination}
    {items : List Stored} {p : Problem} (htype : cell.type = .iterable name source element ends)
    (hgeneric : element.isGeneric = false) (h : types.resolve element = .error p) :
    Unfit types cell (.list items) (about p cell)

/-- What is wrong with a member of a record for which there is no type. -/
inductive Untyped (types : Registry) (cell : Cell) (stores : KeyMap String TyRef) (k : String) :
    Problem → Prop
  | unexpected (h : k ∉ stores.keys) :
    Untyped types cell stores k ((problem cell .typeValueMismatch).set "unexpected_key" k)
  | generic {r : TyRef} (hstores : stores.get? k = some r) (h : r.isGeneric = true) :
    Untyped types cell stores k ((problem cell .constantGenericType).set "key" k)
  | unknown {r : TyRef} {p : Problem} (hstores : stores.get? k = some r)
    (hgeneric : r.isGeneric = false) (h : types.resolve r = .error p) :
    Untyped types cell stores k ((about p cell).set "key" k)

/-! ### How results are put together -/

section Results

variable {α β γ : Type}

/-- Two results put together, or the problems of both. -/
def both (f : α → β → γ) :
    Except (List Problem) α → Except (List Problem) β → Except (List Problem) γ
  | .ok a, .ok b => .ok (f a b)
  | .ok _, .error ps => .error ps
  | .error ps, .ok _ => .error ps
  | .error ps, .error qs => .error (ps ++ qs)

/-- Two conversions, one after the other. -/
def pair (f : α → β → γ) (first : Except (List Problem) α × Memory)
    (others : Memory → Except (List Problem) β × Memory) : Except (List Problem) γ × Memory :=
  (both f first.1 (others first.2).1, (others first.2).2)

/-- A new slot of a cell with a value. -/
def allocated (cell : Cell) (v : Value) (m : Memory) : Except (List Problem) Address × Memory :=
  (.ok (m.allocate cell (some v)).1, (m.allocate cell (some v)).2)

/-- A new slot of a cell with what is made of a result, if there is one. -/
def assembled (cell : Cell) (make : α → Value) :
    Except (List Problem) α × Memory → Except (List Problem) Address × Memory
  | (.error ps, m) => (.error ps, m)
  | (.ok parts, m) => allocated cell (make parts) m

lemma exists_of_pair {f : α → β → γ} {first : Except (List Problem) α × Memory}
    {others : Memory → Except (List Problem) β × Memory} {c : γ}
    (h : pair f first others = (.ok c, m')) :
    ∃ a m₁ b, first = (.ok a, m₁) ∧ others m₁ = (.ok b, m') ∧ f a b = c := by
  obtain ⟨o, m₁⟩ := first
  unfold pair at h
  dsimp only at h
  rcases hothers : others m₁ with ⟨o', m₂⟩
  rw [hothers] at h
  cases o <;> cases o' <;> cases h
  exact ⟨_, m₁, _, rfl, hothers, rfl⟩

lemma exists_of_assembled {make : α → Value} {r : Except (List Problem) α × Memory} {a : Address}
    (h : assembled cell make r = (.ok a, m')) :
    ∃ parts m₁, r = (.ok parts, m₁) ∧ allocated cell (make parts) m₁ = (.ok a, m') := by
  obtain ⟨_ | parts, m₁⟩ := r
  · cases h
  · exact ⟨parts, m₁, rfl, h⟩

end Results

/-! ### Parts -/

/-- Converts a member of a record, if there is a type for it. -/
def convertMember (types : Registry) (cell : Cell) (stores : KeyMap String TyRef) (k : String)
    (item : Stored) (m : Memory) : Except (List Problem) Address × Memory :=
  match memberType types cell stores k with
  | .error p => (.error [p], m)
  | .ok t => convert types (cell.part k t) item m

lemma typed_or_untyped (types : Registry) (cell : Cell) (stores : KeyMap String TyRef) (k : String) :
    (∃ t, memberType types cell stores k = .ok t ∧ Typed types stores k t) ∨
      ∃ p, memberType types cell stores k = .error p ∧ Untyped types cell stores k p := by
  unfold memberType
  cases hr : stores.get? k with
  | none =>
    refine .inr ⟨_, rfl, .unexpected fun hin => ?_⟩
    rw [← KeyMap.isSome_get?_iff, hr] at hin
    cases hin
  | some r =>
    dsimp only
    by_cases hgeneric : r.isGeneric = true
    · rw [if_pos hgeneric]
      exact .inr ⟨_, rfl, .generic hr hgeneric⟩
    · rw [if_neg hgeneric]
      have hplain : r.isGeneric = false := Bool.not_eq_true _ ▸ hgeneric
      cases hresolve : types.resolve r with
      | error p => exact .inr ⟨_, rfl, .unknown hr hplain hresolve⟩
      | ok t => exact .inl ⟨t, rfl, r, hr, hplain, hresolve⟩

lemma convertMember_cases (types : Registry) (cell : Cell) (stores : KeyMap String TyRef) (k : String)
    (item : Stored) (m : Memory) :
    (∃ t, Typed types stores k t ∧
        convertMember types cell stores k item m = convert types (cell.part k t) item m) ∨
      ∃ p, Untyped types cell stores k p ∧
        convertMember types cell stores k item m = (.error [p], m) := by
  unfold convertMember
  obtain ⟨t, htype, ht⟩ | ⟨p, htype, hp⟩ := typed_or_untyped types cell stores k
  · exact .inl ⟨t, ht, by rw [htype]⟩
  · exact .inr ⟨p, hp, by rw [htype]⟩

lemma convertItems_nil (types : Registry) (cell : Cell) (element : Ty) (position : Nat) (m : Memory) :
    convertItems types cell element position [] m = (.ok [], m) := by
  unfold convertItems
  rfl

lemma convertItems_cons (types : Registry) (cell : Cell) (element : Ty) (position : Nat)
    (item : Stored) (rest : List Stored) (m : Memory) :
    convertItems types cell element position (item :: rest) m =
      pair List.cons (convert types (cell.part (toString position) element) item m)
        (convertItems types cell element (position + 1) rest) := by
  conv_lhs => unfold convertItems
  unfold pair
  dsimp only
  generalize convert types (cell.part (toString position) element) item m = first
  obtain ⟨o, m₁⟩ := first
  dsimp only
  generalize convertItems types cell element (position + 1) rest m₁ = others
  obtain ⟨o', m₂⟩ := others
  cases o <;> cases o' <;> rfl

lemma convertMembers_nil (types : Registry) (cell : Cell) (stores : KeyMap String TyRef) (m : Memory) :
    convertMembers types cell stores [] m = (.ok [], m) := by
  unfold convertMembers
  rfl

lemma convertMembers_cons (types : Registry) (cell : Cell) (stores : KeyMap String TyRef) (k : String)
    (item : Stored) (rest : List (String × Stored)) (m : Memory) :
    convertMembers types cell stores ((k, item) :: rest) m =
      pair (fun a as => (k, a) :: as) (convertMember types cell stores k item m)
        (convertMembers types cell stores rest) := by
  conv_lhs => unfold convertMembers
  unfold pair convertMember
  cases memberType types cell stores k with
  | error p =>
    dsimp only
    generalize convertMembers types cell stores rest m = others
    obtain ⟨o', m₂⟩ := others
    cases o' <;> rfl
  | ok t =>
    dsimp only
    generalize convert types (cell.part k t) item m = first
    obtain ⟨o, m₁⟩ := first
    generalize convertMembers types cell stores rest m₁ = others
    obtain ⟨o', m₂⟩ := others
    cases o <;> cases o' <;> rfl

/-! ### Values -/

/-- What can come of converting a stored value into the slot of a cell. -/
inductive Descent (types : Registry) (cell : Cell) (m : Memory) :
    Stored → Except (List Problem) Address × Memory → Prop
  | unfit {value : Stored} {p : Problem} (h : Unfit types cell value p) :
    Descent types cell m value (.error [p], m)
  | native {name : String} {source : Option Position} {tag : String} {test : NativeView → Bool}
    {n : Native} (htype : cell.type = .native name source tag test) (h : test n.view = true) :
    Descent types cell m (.native n) (allocated cell (.native n) m)
  | key {name : String} {source : Option Position} {owner : TyRef} {t : Ty} {value : Stored}
    {k : String} (htype : cell.type = .keyOf name source owner) (hvalue : value.key? = some k)
    (hgeneric : owner.isGeneric = false) (howner : types.resolve owner = .ok t)
    (h : k ∈ t.stores.keys) : Descent types cell m value (allocated cell (.key k) m)
  | callable {name : String} {source : Option Position} {argument result : TyRef} {c : Callable}
    (htype : cell.type = .callable name source argument result)
    (hargument : argument.isGeneric = false) (hresult : result.isGeneric = false) :
    Descent types cell m (.callable c) (allocated cell (.callable c) m)
  | list {name : String} {source : Option Position} {element : TyRef} {ends : Termination} {t : Ty}
    {items : List Stored} (htype : cell.type = .iterable name source element ends)
    (hgeneric : element.isGeneric = false) (helement : types.resolve element = .ok t) :
    Descent types cell m (.list items) (assembled cell (fun as => .iterable (.flat as.toArray))
      (convertItems types cell t 0 items m))
  | record {name : String} {source : Option Position} {stores : KeyMap String TyRef}
    {members : List (String × Stored)} (htype : cell.type = .structured name source stores) :
    Descent types cell m (.record members) (assembled cell (fun parts => .structured (.flat parts))
      (pair (fun _ parts => parts) (unlessProblems (missing cell stores members) (), m)
        (convertMembers types cell stores members)))

lemma Descent.misfit {value : Stored} (h : ∀ type, cell.type = type → ¬Shaped type value) :
    Descent types cell m value (.error [misfit cell value], m) :=
  .unfit (.shape (h _ rfl))

lemma descent_key {name : String} {source : Option Position} {owner : TyRef} {k : String}
    {value : Stored} (htype : cell.type = .keyOf name source owner) (hvalue : value.key? = some k)
    (m : Memory) : Descent types cell m value (key types cell owner k m) := by
  unfold key
  split
  · next hgeneric => exact .unfit (.genericOwner htype hvalue hgeneric)
  · next hgeneric =>
    have hplain : owner.isGeneric = false := Bool.not_eq_true _ ▸ hgeneric
    split
    · next p hp => exact .unfit (.unknownOwner htype hvalue hplain hp)
    · next t ht =>
      split
      · next hk => exact .key htype hvalue hplain ht (KeyMap.contains_iff.mp hk)
      · next hk => exact .unfit (.unknownKey htype hvalue hplain ht (mt KeyMap.contains_iff.mpr hk))

lemma descent_native (n : Native) (m : Memory) :
    Descent types cell m (.native n) (convert types cell (.native n) m) := by
  unfold convert
  split
  · next n _ _ name source tag test htype =>
    have hadmits : cell.type.admits n = test n.view := by rw [htype, Ty.admits]
    split
    · next htest => exact .native htype (hadmits ▸ htest)
    · next htest => exact .unfit (.native htype (hadmits ▸ Bool.not_eq_true _ ▸ htest))
  · next htype => exact descent_key htype rfl m
  · next hnative hkey =>
    refine .misfit fun type htype hshaped => ?_
    cases hshaped with
    | native => exact hnative _ _ _ _ htype
    | key hvalue => exact hkey _ _ _ _ htype (Stored.eq_string_of_key? hvalue)

lemma descent_callable (c : Callable) (m : Memory) :
    Descent types cell m (.callable c) (convert types cell (.callable c) m) := by
  unfold convert
  split
  · next htype =>
    split
    · next hgeneric => exact .unfit (.genericFunction htype (Bool.or_eq_true _ _ ▸ hgeneric))
    · next hgeneric =>
      rw [Bool.or_eq_true, not_or, Bool.not_eq_true, Bool.not_eq_true] at hgeneric
      exact .callable htype hgeneric.1 hgeneric.2
  · next hcallable =>
    refine .misfit fun type htype hshaped => ?_
    cases hshaped with
    | key hvalue => cases hvalue
    | callable => exact hcallable _ _ _ _ htype

lemma descent_list (items : List Stored) (m : Memory) :
    Descent types cell m (.list items) (convert types cell (.list items) m) := by
  unfold convert
  split
  · next htype =>
    split
    · next hgeneric => exact .unfit (.genericElement htype hgeneric)
    · next hgeneric =>
      have hplain := Bool.not_eq_true _ ▸ hgeneric
      split
      · next p hp => exact .unfit (.unknownElement htype hplain hp)
      · next t ht =>
        have hlist : Descent types cell m (.list items)
            (assembled cell (fun as => .iterable (.flat as.toArray))
              (convertItems types cell t 0 items m)) := .list htype hplain ht
        generalize convertItems types cell t 0 items m = r at hlist ⊢
        obtain ⟨_ | _, _⟩ := r <;> exact hlist
  · next hiterable =>
    refine .misfit fun type htype hshaped => ?_
    cases hshaped with
    | key hvalue => cases hvalue
    | list => exact hiterable _ _ _ _ htype

lemma descent_record (members : List (String × Stored)) (m : Memory) :
    Descent types cell m (.record members) (convert types cell (.record members) m) := by
  unfold convert
  split
  · next stores htype =>
    have hrecord : Descent types cell m (.record members) (assembled cell
        (fun parts => .structured (.flat parts))
        (pair (fun _ parts => parts) (unlessProblems (missing cell stores members) (), m)
          (convertMembers types cell stores members))) := .record htype
    unfold pair at hrecord
    dsimp only at hrecord
    generalize convertMembers types cell stores members m = r at hrecord ⊢
    generalize missing cell stores members = lacking at hrecord ⊢
    obtain ⟨_ | _, _⟩ := r <;> cases lacking <;> exact hrecord
  · next hstructured =>
    refine .misfit fun type htype hshaped => ?_
    cases hshaped with
    | key hvalue => cases hvalue
    | record => exact hstructured _ _ _ htype

/-- **What comes of a conversion**, by the stored value and the type of the cell. -/
lemma descent_convert (types : Registry) (cell : Cell) (value : Stored) (m : Memory) :
    Descent types cell m value (convert types cell value m) := by
  cases value with
  | native n => exact descent_native n m
  | key k =>
    unfold convert
    split
    · next htype => exact descent_key htype rfl m
    · next hkey =>
      refine .misfit fun type htype hshaped => ?_
      cases hshaped
      exact hkey _ _ _ htype
  | callable c => exact descent_callable c m
  | list items => exact descent_list items m
  | record members => exact descent_record members m

end Conversion

end CellMachine
