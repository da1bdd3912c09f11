import CellMachine.Proofs.Memory.Directory
import CellMachine.Proofs.Memory.Layout
import CellMachine.Proofs.Opcode.Depth
import CellMachine.Proofs.Registry.Written

/-!
Generics in the types of constants. Conversion refuses a type that refers to a generic when it comes to a
part of the value that has this type, and reads no type further than the value goes. A generic can only
stay in a type behind a part that ends the value there: an empty list, a callable or a key.
-/

namespace CellMachine

/-- A type that refers to no generic itself, whatever the types written in it do. -/
def Ty.Specific (t : Ty) : Prop := ∀ r ∈ t.refs, r.isGeneric = false

/-- The type of a part of a stored value, at any depth, as conversion comes to it. -/
inductive Stored.Opens (types : Registry) : Ty → Stored → Ty → Stored → Prop
  | here {t : Ty} {value : Stored} : Opens types t value t value
  | item {name : String} {source : Option Position} {element : TyRef} {ends : Termination} {t u : Ty}
    {items : List Stored} {item part : Stored} (helement : types.resolve element = .ok t)
    (hitem : item ∈ items) (h : Opens types t item u part) :
    Opens types (.iterable name source element ends) (.list items) u part
  | member {name : String} {source : Option Position} {stores : KeyMap String TyRef} {t u : Ty}
    {members : List (String × Stored)} {e : String × Stored} {part : Stored} (hmember : e ∈ members)
    (htyped : Conversion.Typed types stores e.1 t) (h : Opens types t e.2 u part) :
    Opens types (.structured name source stores) (.record members) u part

/-! ### Where a generic occurs in a type -/

lemma TyRef.generic_or_inline {r : TyRef} (h : r.genericCount ≠ 0) :
    r.isGeneric = true ∨ ∃ w, r = .inline w ∧ w.isConcrete = false := by
  cases r with
  | inline w => exact .inr ⟨w, rfl, beq_false_of_ne h⟩
  | named n => exact absurd rfl h
  | generic id hint => exact .inl rfl

/-- A generic that occurs in a type is referred to by the type, or occurs in a type it refers to in
place. -/
lemma Ty.generic_or_inline {t : Ty} (h : t.isConcrete = false) :
    ∃ r ∈ t.refs, r.isGeneric = true ∨ ∃ w, r = .inline w ∧ w.isConcrete = false := by
  obtain ⟨r, hr, hcount⟩ := Ty.exists_ref_of_generic (ne_of_beq_false h)
  exact ⟨r, hr, TyRef.generic_or_inline hcount⟩

lemma Ty.Specific.exists_inline {t : Ty} (h : t.Specific) (hgeneric : t.isConcrete = false) :
    ∃ w, .inline w ∈ t.refs ∧ w.isConcrete = false := by
  obtain ⟨r, hr, hr' | ⟨w, rfl, hw⟩⟩ := Ty.generic_or_inline hgeneric
  · cases (h r hr).symm.trans hr'
  · exact ⟨w, hr, hw⟩

/-! ### Generics and what conforms -/

namespace Stored

variable {types : Registry}

lemma Conforms.specific {t : Ty} {value : Stored} (h : value.Conforms types t)
    (hkeys : t.stores.keys.Nodup) : t.Specific := by
  cases h with
  | native => exact nofun
  | key _ hgeneric => exact List.forall_mem_singleton.mpr hgeneric
  | callable hargument hresult =>
    exact List.forall_mem_cons.mpr ⟨hargument, List.forall_mem_singleton.mpr hresult⟩
  | list hgeneric => exact List.forall_mem_singleton.mpr hgeneric
  | record _ htyped =>
    intro r hr
    obtain ⟨e, he, rfl⟩ := List.mem_map.mp hr
    obtain ⟨t, r, hget, hgeneric, -⟩ := htyped e.1 (KeyMap.mem_keys_of_mem he)
    cases hget.symm.trans (KeyMap.get?_of_nodup hkeys he)
    exact hgeneric

lemma Opens.conforms {t u : Ty} {value part : Stored} (h : Opens types t value u part)
    (hvalue : value.Conforms types t) : part.Conforms types u := by
  induction h with
  | here => exact hvalue
  | item helement hitem _ ih =>
    cases hvalue with
    | list _ helement' hitems =>
      cases helement.symm.trans helement'
      exact ih (hitems _ hitem)
  | member hmember htyped _ ih =>
    cases hvalue with
    | record _ _ hmembers => exact ih (hmembers _ hmember _ htyped)

lemma parts_of_key? {value : Stored} {k : String} (h : value.key? = some k) : value.parts = [] := by
  cases value <;> first | rfl | cases h

lemma Conforms.exists_behind {t : Ty} {value : Stored} (h : value.Conforms types t)
    (hkeys : ∀ u : Ty, u.Within t → u.stores.keys.Nodup) (hgeneric : t.isConcrete = false) :
    ∃ u part w, Opens types t value u part ∧ part.parts = [] ∧ .inline w ∈ u.refs ∧
      w.isConcrete = false := by
  induction value using Stored.byParts generalizing t with | step value ih
  obtain ⟨w, hw, hwgeneric⟩ := (h.specific (hkeys t .refl)).exists_inline hgeneric
  have hwithin : ∀ u : Ty, u.Within w → u.stores.keys.Nodup := fun u hu => hkeys u (.inline hw hu)
  cases h with
  | native => cases hw
  | key hvalue => exact ⟨_, _, w, .here, parts_of_key? hvalue, hw, hwgeneric⟩
  | callable => exact ⟨_, _, w, .here, rfl, hw, hwgeneric⟩
  | @list _ _ element _ t items _ helement hitems =>
    obtain rfl : .inline w = element := List.mem_singleton.mp hw
    cases helement
    cases items with
    | nil => exact ⟨_, _, w, .here, rfl, hw, hwgeneric⟩
    | cons item rest =>
      -- The first item is converted to the type in which the generic is.
      have hitem : item ∈ item :: rest := List.mem_cons_self
      obtain ⟨u, part, v, hopens, hbehind⟩ := ih item hitem (hitems item hitem) hwithin hwgeneric
      exact ⟨u, part, v, .item rfl hitem hopens, hbehind⟩
  | @record _ _ stores members hmembersKeys _ hmembers =>
    -- Its member is there, as every key of the structure is.
    obtain ⟨⟨k, r⟩, hstored, rfl⟩ := List.mem_map.mp hw
    have hk : k ∈ KeyMap.keys members := (hmembersKeys k).mpr (KeyMap.mem_keys_of_mem hstored)
    obtain ⟨e, hmember, rfl⟩ := List.mem_map.mp hk
    have htyped : Conversion.Typed types stores e.1 w :=
      ⟨_, KeyMap.get?_of_nodup (hkeys _ .refl) hstored, rfl, rfl⟩
    obtain ⟨u, part, v, hopens, hbehind⟩ := ih e.2 (List.mem_map_of_mem hmember)
      (hmembers e hmember w htyped) hwithin hwgeneric
    exact ⟨u, part, v, .member hmember htyped hopens, hbehind⟩

end Stored

/-! ### Generics and memory -/

namespace Memory

/-- Memory whose slots have types that refer to no generic. -/
def Specific (m : Memory) : Prop :=
  ∀ (i : Nat) (s : Slot), m.slots[i]? = some s → s.cell.type.stores.keys.Nodup → s.cell.type.Specific

variable {types : Registry} {m : Memory}

lemma specific_empty : Specific {} := fun _ _ hs => nomatch hs

lemma Specific.allocate (h : m.Specific) {cell : Cell}
    (hcell : cell.type.stores.keys.Nodup → cell.type.Specific) (v : Option Value) :
    (m.allocate cell v).2.Specific := by
  intro i s hs
  rcases Nat.lt_or_ge i m.slots.size with hi | hi
  · have hold := (m.over_allocate cell v).slots i hi
    exact h i s (hold.symm.trans hs)
  · have hsize := m.size_allocate cell v
    obtain ⟨hlt, -⟩ := Array.getElem?_eq_some_iff.mp hs
    obtain rfl : i = m.slots.size := by omega
    cases (m.get?_allocate_self cell v).symm.trans hs
    exact hcell

end Memory

namespace Conversion

variable {types : Registry}

mutual

lemma Makes.specific {cell : Cell} {value : Stored} {m : Memory} {a : Address} {m' : Memory}
    (h : Makes types cell value m a m') (hm : m.Specific) : m'.Specific :=
  match h with
  | .mk hconforms hparts _ => (hparts.specific hm).allocate hconforms.specific _

lemma MakesParts.specific {cell : Cell} {parts : List (String × Stored)} {m : Memory}
    {entries : List (String × Address)} {m' : Memory} (h : MakesParts types cell parts m entries m')
    (hm : m.Specific) : m'.Specific :=
  match h with
  | .nil => hm
  | .cons _ hfirst hrest => hrest.specific (hfirst.specific hm)

end

end Conversion

namespace Memory

variable {types : Registry} {m : Memory}

/-- **No constant that is loaded** and no part of one has a type that refers to a generic. -/
lemma specific_ofModules {modules : List Module} (h : ofModules types modules = .ok m) : m.Specific :=
  ofModules_induction (fun _ _ _ hm => hm)
    (fun cell value m _ _ hr hm => (Conversion.makes_convert cell value m hr).specific hm)
    specific_empty h

end Memory

namespace Conversion

/-- **Conversion opens no type with a generic.** Where it succeeds none of the types that it comes to with
the parts of the value refers to a generic; a generic that occurs in the type all the same is in a type
written behind a part that has no parts, and no further part would come to it. No slot of the memory
that modules are loaded to has a type that refers to a generic. -/
theorem conversion_opens_no_generic (types : Registry) :
    (∀ (cell : Cell) (value : Stored) (m : Memory) (a : Address),
      (convert types cell value m).1 = .ok a →
        (∀ u part, Stored.Opens types cell.type value u part → u.stores.keys.Nodup → u.Specific) ∧
        ((∀ u : Ty, u.Within cell.type → u.stores.keys.Nodup) → cell.type.isConcrete = false →
          ∃ u part w, Stored.Opens types cell.type value u part ∧ part.parts = [] ∧
            .inline w ∈ u.refs ∧ w.isConcrete = false)) ∧
    ∀ modules m, Memory.ofModules types modules = .ok m → ∀ (i : Nat) (s : Slot), m.slots[i]? = some s →
      s.cell.type.stores.keys.Nodup → s.cell.type.Specific := by
  refine ⟨fun cell value m a h => ?_, fun modules m h => Memory.specific_ofModules h⟩
  have hconforms := conforms_of_convert h
  exact ⟨fun u part hopens hkeys => (hopens.conforms hconforms).specific hkeys,
    fun hkeys hgeneric => hconforms.exists_behind hkeys hgeneric⟩

/-- A record of functions on lists of anything. -/
def functionsTy : Ty :=
  .structured "functions" none
    [("all", .inline (.iterable "list" none (.inline (.callable "function" none
        (.inline (.iterable "anything" none (.generic "T" .any) .finite)) (.named "int"))) .finite))]

def oneFunction : Stored := .record [("all", .list [.callable ⟨[], none⟩])]

/-- The generic of the argument is behind the function. -/
theorem generic_stays_behind_function :
    (convert .initial (.constant "m" "c" functionsTy) oneFunction {}).1 = .ok (.at 2) ∧
      functionsTy.isConcrete = false ∧ ∃ u part w, Stored.Opens .initial functionsTy oneFunction u part ∧
        part.parts = [] ∧ .inline w ∈ u.refs ∧ w.isConcrete = false := by
  have hkeys : ∀ u ∈ functionsTy.written, u.stores.keys.Nodup := by decide
  have hok : (convert .initial (.constant "m" "c" functionsTy) oneFunction {}).1 = .ok (.at 2) := rfl
  obtain ⟨-, hbehind⟩ := (conversion_opens_no_generic .initial).1 _ oneFunction {} _ hok
  exact ⟨hok, rfl, hbehind (fun u hu => hkeys u (Ty.mem_written.mpr hu)) rfl⟩

/-! ### A generic behind an empty list -/

/-- Lists of lists of anything. -/
def nestedTy : Ty :=
  .iterable "outer" none (.inline (.iterable "inner" none (.generic "T" .any) .finite)) .finite

/-- A module with one constant, an empty list of lists of anything. -/
def nestedModules : List Module := [⟨"m", [("c", ⟨nestedTy, .list [], none⟩)], none⟩]

/-- Whether the constant is loaded with a type in which a generic occurs. -/
def loadsGeneric : Bool :=
  match Registry.initial.register nestedTy with
  | .error _ => false
  | .ok types =>
    match Memory.ofModules types nestedModules with
    | .error _ => false
    | .ok m => m.slots[0]?.any fun s => !s.cell.type.isConcrete

lemma loadsGeneric_eq : loadsGeneric = true := by decide +kernel

lemma exists_loaded_generic : ∃ types m, ∃ (i : Nat) (s : Slot), types.Reached ∧
    Memory.ofModules types nestedModules = .ok m ∧ m.slots[i]? = some s ∧
      s.cell.type.isConcrete = false := by
  have h := loadsGeneric_eq
  unfold loadsGeneric at h
  split at h
  · cases h
  · next types htypes =>
    split at h
    · cases h
    · next m hm =>
      obtain ⟨s, hs, hgeneric⟩ := (Option.any_eq_true _ _).mp h
      exact ⟨types, m, 0, s, .register .initial htypes, hm, hs, Bool.not_eq_true' _ ▸ hgeneric⟩

/-- **A generic is overlooked behind an empty list**: conversion accepts types in which a generic occurs,
and constants are loaded with them. -/
theorem not_forall_generic_types_refused :
    (¬ ∀ types (cell : Cell) value m, cell.type.isConcrete = false →
      ∀ a, (convert types cell value m).1 ≠ .ok a) ∧
    ¬ ∀ types modules m, types.Reached → Memory.ofModules types modules = .ok m →
      ∀ (i : Nat) (s : Slot), m.slots[i]? = some s → s.cell.type.isConcrete = true := by
  constructor
  · intro hrefused
    exact hrefused .initial (.constant "m" "c" nestedTy) (.list []) {} rfl (.at 0) rfl
  · intro hconcrete
    obtain ⟨types, m, i, s, htypes, hm, hs, hgeneric⟩ := exists_loaded_generic
    cases (hconcrete types nestedModules m htypes hm i s hs).symm.trans hgeneric

end Conversion

end CellMachine
