import CellMachine.Proofs.Memory.Conversion

/-!
Conversion accepts what conforms, and otherwise says all that is wrong. Which stored values conform to
a type, and what the flaws of the others are, is said without conversion. A flaw has a place, the
positions at which a reading of the value turns on its way there, and the problem that reports it; places
are in the order in which they are read.
-/

namespace CellMachine

lemma unlessProblems_eq_error_iff {α : Type} {problems ps : List Problem} {a : α} :
    unlessProblems problems a = .error ps ↔ problems ≠ [] ∧ ps = problems := by
  unfold unlessProblems
  cases problems with
  | nil => exact ⟨nofun, fun h => absurd rfl h.1⟩
  | cons p rest => simp [eq_comm]

/-- A stored value conforms to a type. -/
inductive Stored.Conforms (types : Registry) : Ty → Stored → Prop
  | native {name : String} {source : Option Position} {tag : String} {test : NativeView → Bool}
    {n : Native} (h : test n.view = true) :
    Conforms types (.native name source tag test) (.native n)
  | key {name : String} {source : Option Position} {owner : TyRef} {structure_ : Ty} {k : String}
    {value : Stored} (hvalue : value.key? = some k) (hgeneric : owner.isGeneric = false)
    (howner : types.resolve owner = .ok structure_) (h : k ∈ structure_.stores.keys) :
    Conforms types (.keyOf name source owner) value
  | callable {name : String} {source : Option Position} {argument result : TyRef} {c : Callable}
    (hargument : argument.isGeneric = false) (hresult : result.isGeneric = false) :
    Conforms types (.callable name source argument result) (.callable c)
  | list {name : String} {source : Option Position} {element : TyRef} {ends : Termination} {t : Ty}
    {items : List Stored} (hgeneric : element.isGeneric = false)
    (helement : types.resolve element = .ok t) (hitems : ∀ item ∈ items, Conforms types t item) :
    Conforms types (.iterable name source element ends) (.list items)
  | record {name : String} {source : Option Position} {stores : KeyMap String TyRef}
    {members : List (String × Stored)} (hkeys : ∀ k, k ∈ KeyMap.keys members ↔ k ∈ stores.keys)
    (htyped : ∀ k ∈ stores.keys, ∃ t, Conversion.Typed types stores k t)
    (hmembers : ∀ e ∈ members, ∀ t, Conversion.Typed types stores e.1 t → Conforms types t e.2) :
    Conforms types (.structured name source stores) (.record members)

namespace Conversion

variable {types : Registry} {cell : Cell} {m : Memory}

/-! ### Flaws -/

/-- The flaws of a stored value against the type of a cell. A list is read item by item, a record first
key by key of its structure and then member by member, so that the places of its members come after those
of the keys. -/
inductive Flaw (types : Registry) : Cell → Stored → List Nat → Problem → Prop
  | whole {cell : Cell} {value : Stored} {p : Problem} (h : Unfit types cell value p) :
    Flaw types cell value [] p
  | item {cell : Cell} {name : String} {source : Option Position} {element : TyRef}
    {ends : Termination} {t : Ty} {items : List Stored} {i : Nat} {item : Stored} {place : List Nat}
    {p : Problem} (htype : cell.type = .iterable name source element ends)
    (hgeneric : element.isGeneric = false) (helement : types.resolve element = .ok t)
    (hitem : items[i]? = some item) (h : Flaw types (cell.part (toString i) t) item place p) :
    Flaw types cell (.list items) (i :: place) p
  | missing {cell : Cell} {name : String} {source : Option Position} {stores : KeyMap String TyRef}
    {members : List (String × Stored)} {i : Nat} {k : String} {r : TyRef}
    (htype : cell.type = .structured name source stores) (hkey : stores[i]? = some (k, r))
    (h : k ∉ KeyMap.keys members) :
    Flaw types cell (.record members) [i]
      ((problem cell .typeValueMismatch).set "missing_key" k)
  | untyped {cell : Cell} {name : String} {source : Option Position} {stores : KeyMap String TyRef}
    {members : List (String × Stored)} {j : Nat} {k : String} {item : Stored} {p : Problem}
    (htype : cell.type = .structured name source stores) (hmember : members[j]? = some (k, item))
    (h : Untyped types cell stores k p) : Flaw types cell (.record members) [stores.length + j] p
  | member {cell : Cell} {name : String} {source : Option Position} {stores : KeyMap String TyRef}
    {members : List (String × Stored)} {j : Nat} {k : String} {item : Stored} {t : Ty}
    {place : List Nat} {p : Problem} (htype : cell.type = .structured name source stores)
    (hmember : members[j]? = some (k, item)) (htyped : Typed types stores k t)
    (h : Flaw types (cell.part k t) item place p) :
    Flaw types cell (.record members) ((stores.length + j) :: place) p

/-! ### Lists of flaws -/

/-- A list of all flaws there are, each of them once, in the order of their places. -/
structure Enumerates (F : List Nat → Problem → Prop) (flaws : List (List Nat × Problem)) : Prop where
  ordered : flaws.Pairwise fun f g => f.1 < g.1
  exact : ∀ f, f ∈ flaws ↔ F f.1 f.2

/-- A result is refused if there are flaws, with the problem of each in the order of their places. -/
def Reports {α : Type} (F : List Nat → Problem → Prop) (r : Except (List Problem) α) : Prop :=
  ∃ flaws, Enumerates F flaws ∧ ∀ ps, r = .error ps ↔ flaws ≠ [] ∧ ps = flaws.map Prod.snd

variable {α β γ : Type} {F G : List Nat → Problem → Prop}

lemma Enumerates.append {fs gs : List (List Nat × Problem)} (h : Enumerates F fs)
    (h' : Enumerates G gs) (hFG : ∀ a p b q, F a p → G b q → a < b) :
    Enumerates (fun a p => F a p ∨ G a p) (fs ++ gs) := by
  refine ⟨List.pairwise_append.mpr ⟨h.ordered, h'.ordered, fun f hf g hg => ?_⟩, fun f => ?_⟩
  · exact hFG _ _ _ _ ((h.exact f).mp hf) ((h'.exact g).mp hg)
  · rw [List.mem_append, h.exact, h'.exact]

lemma Reports.congr (h : ∀ a p, F a p ↔ G a p) {r : Except (List Problem) α} (hr : Reports F r) :
    Reports G r := by
  obtain ⟨flaws, henum, hresult⟩ := hr
  exact ⟨flaws, ⟨henum.ordered, fun f => (henum.exact f).trans (h _ _)⟩, hresult⟩

lemma reports_ok (h : ∀ a p, ¬F a p) (x : α) : Reports F (.ok x) :=
  ⟨[], ⟨.nil, fun _ => ⟨nofun, fun hf => absurd hf (h _ _)⟩⟩, fun _ =>
    ⟨nofun, fun hne => absurd rfl hne.1⟩⟩

lemma reports_error {p : Problem} (h : ∀ a q, F a q ↔ a = [] ∧ q = p) :
    Reports F (.error [p] : Except (List Problem) α) := by
  refine ⟨[([], p)], ⟨List.pairwise_singleton _ _, fun f => ?_⟩, fun ps => ⟨fun hps => ?_, ?_⟩⟩
  · rw [List.mem_singleton, h, Prod.ext_iff]
  · exact ⟨List.cons_ne_nil _ _, (Except.error.inj hps).symm⟩
  · rintro ⟨-, rfl⟩
    rfl

lemma Reports.map {r : Except (List Problem) α} (h : Reports F r) {r' : Except (List Problem) β}
    (hr : ∀ ps, r' = .error ps ↔ r = .error ps) : Reports F r' := by
  obtain ⟨flaws, henum, hresult⟩ := h
  exact ⟨flaws, henum, fun ps => (hr ps).trans (hresult ps)⟩

lemma Reports.under {r : Except (List Problem) α} (h : Reports F r) (i : Nat) :
    Reports (fun a p => ∃ b, a = i :: b ∧ F b p) r := by
  obtain ⟨flaws, henum, hresult⟩ := h
  refine ⟨flaws.map fun f => (i :: f.1, f.2), ⟨?_, fun f => ?_⟩, fun ps => ?_⟩
  · refine List.pairwise_map.mpr (henum.ordered.imp fun hlt => ?_)
    exact List.cons_lt_cons_iff.mpr (.inr ⟨rfl, hlt⟩)
  · rw [List.mem_map]
    constructor
    · rintro ⟨g, hg, rfl⟩
      exact ⟨g.1, rfl, (henum.exact g).mp hg⟩
    · rintro ⟨b, hb, hF⟩
      exact ⟨(b, f.2), (henum.exact (b, f.2)).mpr hF, Prod.ext hb.symm rfl⟩
  · rw [hresult, List.map_map, Ne, Ne, List.map_eq_nil_iff]
    rfl

lemma eq_nil_of_ok {flaws : List (List Nat × Problem)} {x : α}
    (h : ∀ ps, (.ok x : Except (List Problem) α) = .error ps ↔
      flaws ≠ [] ∧ ps = flaws.map Prod.snd) : flaws = [] := by
  by_contra hne
  cases (h _).mpr ⟨hne, rfl⟩

lemma Reports.both {first : Except (List Problem) α} {others : Except (List Problem) β}
    (h : Reports F first) (h' : Reports G others) (hFG : ∀ a p b q, F a p → G b q → a < b)
    (f : α → β → γ) : Reports (fun a p => F a p ∨ G a p) (Conversion.both f first others) := by
  obtain ⟨fs, hfs, hfirst⟩ := h
  obtain ⟨gs, hgs, hothers⟩ := h'
  refine ⟨fs ++ gs, hfs.append hgs hFG, fun ps => ?_⟩
  rw [List.map_append, Ne, List.append_eq_nil_iff]
  cases first with
  | ok a =>
    obtain rfl := eq_nil_of_ok hfirst
    cases others with
    | ok b =>
      obtain rfl := eq_nil_of_ok hothers
      exact ⟨nofun, fun hne => absurd ⟨rfl, rfl⟩ hne.1⟩
    | error qs =>
      obtain ⟨hne, rfl⟩ := (hothers qs).mp rfl
      simp [Conversion.both, hne, eq_comm]
  | error qs =>
    obtain ⟨hne, rfl⟩ := (hfirst qs).mp rfl
    cases others with
    | ok b =>
      obtain rfl := eq_nil_of_ok hothers
      simp [Conversion.both, hne, eq_comm]
    | error rs =>
      obtain ⟨-, rfl⟩ := (hothers rs).mp rfl
      simp [Conversion.both, hne, eq_comm]

lemma Reports.assembled {make : α → Value} {r : Except (List Problem) α × Memory}
    (h : Reports F r.1) : Reports F (Conversion.assembled cell make r).1 := by
  refine h.map fun ps => ?_
  obtain ⟨_ | parts, m₁⟩ := r
  · simp only [Conversion.assembled, Except.error.injEq]
  · exact ⟨nofun, nofun⟩

/-! ### Values that are unfit as a whole -/

lemma Unfit.only {value : Stored} {p q : Problem} {place : List Nat} (h : Unfit types cell value p)
    (hflaw : Flaw types cell value place q) : place = [] ∧ q = p := by
  cases hflaw with
  | whole h' =>
    refine ⟨rfl, ?_⟩
    cases h <;> cases h' <;> simp_all [Shaped.native, Shaped.key, Shaped.callable, Shaped.list]
  | item htype hgeneric helement _ _ =>
    cases h <;> simp_all [Shaped.list]
  | missing htype _ _ => cases h <;> simp_all [Shaped.record]
  | untyped htype _ _ => cases h <;> simp_all [Shaped.record]
  | member htype _ _ _ => cases h <;> simp_all [Shaped.record]

lemma reports_unfit {value : Stored} {p : Problem} (h : Unfit types cell value p) :
    Reports (Flaw types cell value) (.error [p] : Except (List Problem) α) := by
  refine reports_error fun place q => ⟨h.only, ?_⟩
  rintro ⟨rfl, rfl⟩
  exact .whole h

/-! ### Conforming -/

lemma Shaped.of_conforms {t : Ty} {value : Stored} (h : value.Conforms types t) : Shaped t value := by
  cases h with
  | native => exact .native
  | key hvalue => exact .key hvalue
  | callable => exact .callable
  | list => exact .list
  | record => exact .record

lemma Unfit.not_conforms {value : Stored} {p : Problem} (h : Unfit types cell value p) :
    ¬value.Conforms types cell.type := by
  intro hconforms
  cases h with
  | shape h => exact h (.of_conforms hconforms)
  | native htype h =>
    rw [htype] at hconforms
    cases hconforms with
    | native hin => cases h.symm.trans hin
  | genericOwner htype hvalue h =>
    rw [htype] at hconforms
    cases hconforms with
    | key _ hgeneric => cases h.symm.trans hgeneric
  | unknownOwner htype hvalue _ h =>
    rw [htype] at hconforms
    cases hconforms with
    | key _ _ howner => cases h.symm.trans howner
  | unknownKey htype hvalue _ howner h =>
    rw [htype] at hconforms
    cases hconforms with
    | key hvalue' _ howner' hin =>
      cases howner.symm.trans howner'
      cases hvalue.symm.trans hvalue'
      exact h hin
  | genericFunction htype h =>
    rw [htype] at hconforms
    cases hconforms with
    | callable hargument hresult => simp [hargument, hresult] at h
  | genericElement htype h =>
    rw [htype] at hconforms
    cases hconforms with
    | list hgeneric => cases h.symm.trans hgeneric
  | unknownElement htype _ h =>
    rw [htype] at hconforms
    cases hconforms with
    | list _ helement => cases h.symm.trans helement

lemma Untyped.not_typed {stores : KeyMap String TyRef} {k : String} {p : Problem}
    (h : Untyped types cell stores k p) {t : Ty} : ¬Typed types stores k t := by
  rintro ⟨r, hr, hgeneric, hresolve⟩
  cases h with
  | unexpected h => exact h (KeyMap.isSome_get?_iff.mp (Option.isSome_of_eq_some hr))
  | generic hstores h =>
    cases hstores.symm.trans hr
    cases h.symm.trans hgeneric
  | unknown hstores _ h =>
    cases hstores.symm.trans hr
    cases h.symm.trans hresolve

lemma Untyped.unique {stores : KeyMap String TyRef} {k : String} {p q : Problem}
    (h : Untyped types cell stores k p) (h' : Untyped types cell stores k q) : p = q := by
  have absent : ∀ {r}, k ∉ stores.keys → stores.get? k ≠ some r := fun hk hr =>
    hk (KeyMap.isSome_get?_iff.mp (Option.isSome_of_eq_some hr))
  cases h <;> cases h' <;> grind

lemma Typed.unique {stores : KeyMap String TyRef} {k : String} {t u : Ty}
    (h : Typed types stores k t) (h' : Typed types stores k u) : t = u := by
  obtain ⟨r, hr, -, ht⟩ := h
  obtain ⟨r', hr', -, hu⟩ := h'
  cases hr.symm.trans hr'
  cases ht.symm.trans hu
  rfl

lemma Flaw.not_conforms {value : Stored} {place : List Nat} {p : Problem}
    (h : Flaw types cell value place p) : ¬value.Conforms types cell.type := by
  intro hconforms
  induction h with
  | whole h => exact h.not_conforms hconforms
  | item htype _ helement hitem _ ih =>
    rw [htype] at hconforms
    cases hconforms with
    | list _ helement' hitems =>
      cases helement.symm.trans helement'
      exact ih (hitems _ (List.mem_of_getElem? hitem))
  | missing htype hkey h =>
    rw [htype] at hconforms
    cases hconforms with
    | record hkeys => exact h ((hkeys _).mpr (List.mem_map_of_mem (List.mem_of_getElem? hkey)))
  | untyped htype hmember h =>
    rw [htype] at hconforms
    cases hconforms with
    | record hkeys htyped =>
      have hin := List.mem_map_of_mem (f := Prod.fst) (List.mem_of_getElem? hmember)
      obtain ⟨t, ht⟩ := htyped _ ((hkeys _).mp hin)
      exact h.not_typed ht
  | member htype hmember htyped _ ih =>
    rw [htype] at hconforms
    cases hconforms with
    | record _ _ hmembers => exact ih (hmembers _ (List.mem_of_getElem? hmember) _ htyped)

lemma conforms_of_no_flaw (cell : Cell) (value : Stored)
    (h : ∀ place p, ¬Flaw types cell value place p) : value.Conforms types cell.type := by
  induction value using Stored.byParts generalizing cell with | step value ih
  -- A part that does not conform has a flaw, which is a flaw of the whole.
  have hshaped : Shaped cell.type value := by
    by_contra hshape
    exact h _ _ (.whole (.shape hshape))
  generalize htype : cell.type = type at hshaped ⊢
  cases hshaped with
  | @native name source tag test n =>
    refine .native ?_
    by_contra htest
    exact h _ _ (.whole (.native htype (Bool.not_eq_true _ ▸ htest)))
  | @key name source owner k _ hvalue =>
    have hgeneric : owner.isGeneric = false := by
      rw [← Bool.not_eq_true]
      exact fun hgeneric => h _ _ (.whole (.genericOwner htype hvalue hgeneric))
    cases howner : types.resolve owner with
    | error p => exact absurd (.whole (.unknownOwner htype hvalue hgeneric howner)) (h _ _)
    | ok t =>
      refine .key hvalue hgeneric howner ?_
      by_contra hk
      exact h _ _ (.whole (.unknownKey htype hvalue hgeneric howner hk))
  | @callable name source argument result c =>
    have hgeneric : ¬(argument.isGeneric = true ∨ result.isGeneric = true) :=
      fun hgeneric => h _ _ (.whole (.genericFunction htype hgeneric))
    rw [not_or, Bool.not_eq_true, Bool.not_eq_true] at hgeneric
    exact .callable hgeneric.1 hgeneric.2
  | @list name source element ends items =>
    have hgeneric : element.isGeneric = false := by
      rw [← Bool.not_eq_true]
      exact fun hgeneric => h _ _ (.whole (.genericElement htype hgeneric))
    cases helement : types.resolve element with
    | error p => exact absurd (.whole (.unknownElement htype hgeneric helement)) (h _ _)
    | ok t =>
      refine .list hgeneric helement fun item hitem => ?_
      obtain ⟨i, hi⟩ := List.mem_iff_getElem?.mp hitem
      exact ih item hitem (cell.part (toString i) t) fun place p hflaw =>
        h _ _ (.item htype hgeneric helement hi hflaw)
  | @record name source stores members =>
    have htyped : ∀ k ∈ KeyMap.keys members, ∃ t, Typed types stores k t := by
      intro k hk
      obtain ⟨e, he, rfl⟩ := List.mem_map.mp hk
      obtain ⟨j, hj⟩ := List.mem_iff_getElem?.mp he
      rcases typed_or_untyped types cell stores e.1 with ⟨t, -, ht⟩ | ⟨p, -, hp⟩
      · exact ⟨t, ht⟩
      · exact absurd (.untyped htype hj hp) (h _ _)
    have hkeys : ∀ k, k ∈ KeyMap.keys members ↔ k ∈ stores.keys := by
      refine fun k => ⟨fun hk => ?_, fun hk => ?_⟩
      · obtain ⟨t, r, hr, -, -⟩ := htyped k hk
        exact KeyMap.isSome_get?_iff.mp (Option.isSome_of_eq_some hr)
      · by_contra hmissing
        obtain ⟨e, he, rfl⟩ := List.mem_map.mp hk
        obtain ⟨i, hi⟩ := List.mem_iff_getElem?.mp he
        exact h _ _ (.missing htype hi hmissing)
    refine .record hkeys (fun k hk => htyped k ((hkeys k).mpr hk)) fun e he t ht => ?_
    obtain ⟨j, hj⟩ := List.mem_iff_getElem?.mp he
    exact ih e.2 (List.mem_map_of_mem he) (cell.part e.1 t) fun place p hflaw =>
      h _ _ (.member htype hj ht hflaw)

/-! ### Conversion -/

/-- The flaws of the items of a list from a position on. -/
def ItemFlaw (types : Registry) (cell : Cell) (element : Ty) (position : Nat) (items : List Stored)
    (place : List Nat) (p : Problem) : Prop :=
  ∃ i item rest, items[i]? = some item ∧ place = (position + i) :: rest ∧
    Flaw types (cell.part (toString (position + i)) element) item rest p

/-- The flaws of the members of a record, of which the first has a given place. -/
def MemberFlaw (types : Registry) (cell : Cell) (stores : KeyMap String TyRef) (position : Nat)
    (members : List (String × Stored)) (place : List Nat) (p : Problem) : Prop :=
  ∃ j k item rest, members[j]? = some (k, item) ∧ place = (position + j) :: rest ∧
    (rest = [] ∧ Untyped types cell stores k p ∨
      ∃ t, Typed types stores k t ∧ Flaw types (cell.part k t) item rest p)

/-- A key of a structure that a record lacks. -/
def MissingKey (cell : Cell) (stores : KeyMap String TyRef) (members : List (String × Stored))
    (place : List Nat) (p : Problem) : Prop :=
  ∃ i k r, stores[i]? = some (k, r) ∧ k ∉ KeyMap.keys members ∧ place = [i] ∧
    p = (problem cell .typeValueMismatch).set "missing_key" k

lemma flaw_list_iff {name : String} {source : Option Position} {element : TyRef} {ends : Termination}
    {t : Ty} {items : List Stored} (htype : cell.type = .iterable name source element ends)
    (hgeneric : element.isGeneric = false) (helement : types.resolve element = .ok t)
    (place : List Nat) (p : Problem) :
    ItemFlaw types cell t 0 items place p ↔ Flaw types cell (.list items) place p := by
  constructor
  · rintro ⟨i, item, rest, hitem, rfl, h⟩
    rw [Nat.zero_add] at h ⊢
    exact .item htype hgeneric helement hitem h
  · intro h
    cases h with
    | whole h =>
      cases h with
      | shape h => exact absurd (htype ▸ .list) h
      | genericOwner _ hvalue _ => cases hvalue
      | unknownOwner _ hvalue _ _ => cases hvalue
      | unknownKey _ hvalue _ _ _ => cases hvalue
      | genericElement htype' h =>
        cases htype.symm.trans htype'
        cases h.symm.trans hgeneric
      | unknownElement htype' _ h =>
        cases htype.symm.trans htype'
        cases h.symm.trans helement
    | @item _ _ _ _ _ t' _ i item rest _ htype' _ helement' hitem h =>
      cases htype.symm.trans htype'
      cases helement.symm.trans helement'
      exact ⟨i, item, rest, hitem, by rw [Nat.zero_add], by rwa [Nat.zero_add]⟩

lemma flaw_record_iff {name : String} {source : Option Position} {stores : KeyMap String TyRef}
    {members : List (String × Stored)} (htype : cell.type = .structured name source stores)
    (place : List Nat) (p : Problem) :
    MissingKey cell stores members place p ∨
        MemberFlaw types cell stores stores.length members place p ↔
      Flaw types cell (.record members) place p := by
  constructor
  · rintro (⟨i, k, r, hkey, h, rfl, rfl⟩ | ⟨j, k, item, rest, hmember, rfl, ⟨rfl, h⟩ | ⟨t, ht, h⟩⟩)
    · exact .missing htype hkey h
    · exact .untyped htype hmember h
    · exact .member htype hmember ht h
  · intro h
    cases h with
    | whole h =>
      cases h with
      | shape h => exact absurd (htype ▸ .record) h
      | genericOwner _ hvalue _ => cases hvalue
      | unknownOwner _ hvalue _ _ => cases hvalue
      | unknownKey _ hvalue _ _ _ => cases hvalue
    | missing htype' hkey h =>
      cases htype.symm.trans htype'
      exact .inl ⟨_, _, _, hkey, h, rfl, rfl⟩
    | untyped htype' hmember h =>
      cases htype.symm.trans htype'
      exact .inr ⟨_, _, _, _, hmember, rfl, .inl ⟨rfl, h⟩⟩
    | member htype' hmember ht h =>
      cases htype.symm.trans htype'
      exact .inr ⟨_, _, _, _, hmember, rfl, .inr ⟨_, ht, h⟩⟩

lemma itemFlaw_cons_iff (types : Registry) (cell : Cell) (element : Ty) (position : Nat)
    (item : Stored) (rest : List Stored) (place : List Nat) (p : Problem) :
    ((∃ b, place = position :: b ∧
          Flaw types (cell.part (toString position) element) item b p) ∨
        ItemFlaw types cell element (position + 1) rest place p) ↔
      ItemFlaw types cell element position (item :: rest) place p := by
  constructor
  · rintro (⟨b, rfl, h⟩ | ⟨i, item', b, hitem, rfl, h⟩)
    · exact ⟨0, item, b, rfl, rfl, h⟩
    · rw [Nat.add_right_comm] at h ⊢
      exact ⟨i + 1, item', b, hitem, rfl, h⟩
  · rintro ⟨i, item', b, hitem, rfl, h⟩
    cases i with
    | zero =>
      cases hitem
      exact .inl ⟨b, rfl, h⟩
    | succ i =>
      rw [← Nat.add_assoc, Nat.add_right_comm] at h ⊢
      exact .inr ⟨i, item', b, hitem, rfl, h⟩

lemma memberFlaw_cons_iff (types : Registry) (cell : Cell) (stores : KeyMap String TyRef)
    (position : Nat) (k : String) (item : Stored) (rest : List (String × Stored)) (place : List Nat)
    (p : Problem) :
    ((∃ b, place = position :: b ∧ (b = [] ∧ Untyped types cell stores k p ∨
          ∃ t, Typed types stores k t ∧ Flaw types (cell.part k t) item b p)) ∨
        MemberFlaw types cell stores (position + 1) rest place p) ↔
      MemberFlaw types cell stores position ((k, item) :: rest) place p := by
  constructor
  · rintro (⟨b, rfl, h⟩ | ⟨j, k', item', b, hmember, rfl, h⟩)
    · exact ⟨0, k, item, b, rfl, rfl, h⟩
    · rw [Nat.add_right_comm]
      exact ⟨j + 1, k', item', b, hmember, rfl, h⟩
  · rintro ⟨j, k', item', b, hmember, rfl, h⟩
    cases j with
    | zero =>
      cases hmember
      exact .inl ⟨b, rfl, h⟩
    | succ j =>
      rw [← Nat.add_assoc, Nat.add_right_comm]
      exact .inr ⟨j, k', item', b, hmember, rfl, h⟩

lemma reports_conforming {value : Stored} (h : value.Conforms types cell.type) (x : α) :
    Reports (Flaw types cell value) (.ok x) :=
  reports_ok (fun _ _ hflaw => hflaw.not_conforms h) x

lemma reports_missing (cell : Cell) (stores : KeyMap String TyRef)
    (members : List (String × Stored)) :
    Reports (MissingKey cell stores members) (unlessProblems (missing cell stores members) ()) := by
  have hlacks : ∀ k, (!members.any fun f => f.1 == k) = true ↔ k ∉ KeyMap.keys members := by
    intro k
    rw [Bool.not_eq_true', ← Bool.not_eq_true, List.any_eq_true, KeyMap.keys, List.mem_map]
    simp only [beq_iff_eq]
  refine ⟨(stores.zipIdx.filter fun e => !members.any fun f => f.1 == e.1.1).map fun e =>
    ([e.2], (problem cell .typeValueMismatch).set "missing_key" e.1.1), ⟨?_, fun f => ?_⟩,
    fun ps => ?_⟩
  · refine List.pairwise_map.mpr (List.Pairwise.filter _ ?_)
    have hpositions : (stores.zipIdx.map Prod.snd).Pairwise (· < ·) := by
      rw [List.zipIdx_map_snd]
      exact List.pairwise_lt_range'
    exact (List.pairwise_map.mp hpositions).imp fun hlt => List.cons_lt_cons_iff.mpr (.inl hlt)
  · rw [List.mem_map]
    constructor
    · rintro ⟨⟨⟨k, r⟩, i⟩, he, rfl⟩
      obtain ⟨hin, hlack⟩ := List.mem_filter.mp he
      exact ⟨i, k, r, List.mem_zipIdx_iff_getElem?.mp hin, (hlacks k).mp hlack, rfl, rfl⟩
    · rintro ⟨i, k, r, hi, hlack, hplace, hp⟩
      exact ⟨((k, r), i), List.mem_filter.mpr
        ⟨List.mem_zipIdx_iff_getElem?.mpr hi, (hlacks k).mpr hlack⟩, Prod.ext hplace.symm hp.symm⟩
  · have hmissing : missing cell stores members = ((stores.zipIdx.filter fun e =>
        !members.any fun f => f.1 == e.1.1).map fun e =>
          ([e.2], (problem cell .typeValueMismatch).set "missing_key" e.1.1)).map Prod.snd := by
      have hkeys : stores = stores.zipIdx.map Prod.fst := (List.zipIdx_map_fst 0 stores).symm
      rw [missing, List.map_map]
      conv_lhs => rw [hkeys, List.filter_map, List.map_map]
      rfl
    rw [hmissing, unlessProblems_eq_error_iff, Ne, List.map_eq_nil_iff]

/-- Of a stored value conversion reports the flaws, in any cell. -/
def Reported (types : Registry) (value : Stored) : Prop :=
  ∀ (cell : Cell) (m : Memory), Reports (Flaw types cell value) (convert types cell value m).1

lemma reports_items (cell : Cell) (element : Ty) {items : List Stored}
    (hitems : ∀ item ∈ items, Reported types item) (position : Nat) (m : Memory) :
    Reports (ItemFlaw types cell element position items)
      (convertItems types cell element position items m).1 := by
  induction items generalizing position m with
  | nil =>
    rw [convertItems_nil]
    exact reports_ok (fun _ _ ⟨_, _, _, hitem, _⟩ => by cases hitem) _
  | cons item rest ih =>
    obtain ⟨hitem, hrest⟩ := List.forall_mem_cons.mp hitems
    rw [convertItems_cons]
    refine (((hitem _ m).under position).both (ih hrest (position + 1) _) ?_ List.cons).congr
      (itemFlaw_cons_iff types cell element position item rest)
    rintro _ _ _ _ ⟨b, rfl, -⟩ ⟨i, -, c, -, rfl, -⟩
    exact List.cons_lt_cons_iff.mpr (.inl (by omega))

lemma reports_member {item : Stored} (hitem : Reported types item) (cell : Cell)
    (stores : KeyMap String TyRef) (k : String) (m : Memory) :
    Reports (fun place p => place = [] ∧ Untyped types cell stores k p ∨
      ∃ t, Typed types stores k t ∧ Flaw types (cell.part k t) item place p)
      (convertMember types cell stores k item m).1 := by
  obtain ⟨t, ht, heq⟩ | ⟨p, hp, heq⟩ := convertMember_cases types cell stores k item m
  · rw [heq]
    refine (hitem (cell.part k t) m).congr fun place q => ⟨fun h => .inr ⟨t, ht, h⟩, ?_⟩
    rintro (⟨-, h⟩ | ⟨t', ht', h⟩)
    · exact absurd ht h.not_typed
    · exact ht.unique ht' ▸ h
  · rw [heq]
    refine reports_error fun place q => ⟨?_, ?_⟩
    · rintro (⟨rfl, h⟩ | ⟨t, ht, -⟩)
      · exact ⟨rfl, h.unique hp⟩
      · exact absurd ht hp.not_typed
    · rintro ⟨rfl, rfl⟩
      exact .inl ⟨rfl, hp⟩

lemma reports_members (cell : Cell) (stores : KeyMap String TyRef)
    {members : List (String × Stored)} (hmembers : ∀ e ∈ members, Reported types e.2)
    (position : Nat) (m : Memory) :
    Reports (MemberFlaw types cell stores position members)
      (convertMembers types cell stores members m).1 := by
  induction members generalizing position m with
  | nil =>
    rw [convertMembers_nil]
    exact reports_ok (fun _ _ ⟨_, _, _, _, hmember, _⟩ => by cases hmember) _
  | cons e rest ih =>
    obtain ⟨k, item⟩ := e
    obtain ⟨hitem, hrest⟩ := List.forall_mem_cons.mp hmembers
    rw [convertMembers_cons]
    refine (((reports_member hitem cell stores k m).under position).both
      (ih hrest (position + 1) _) ?_ fun a as => (k, a) :: as).congr
      (memberFlaw_cons_iff types cell stores position k item rest)
    rintro _ _ _ _ ⟨b, rfl, -⟩ ⟨j, -, -, c, -, rfl, -⟩
    exact List.cons_lt_cons_iff.mpr (.inl (by omega))

/-- **Conversion reports the flaws there are.** -/
lemma reports_convert (cell : Cell) (value : Stored) (m : Memory) :
    Reports (Flaw types cell value) (convert types cell value m).1 := by
  induction value using Stored.byParts generalizing cell m with | step value ih
  have hdescent := descent_convert types cell value m
  generalize convert types cell value m = r at hdescent ⊢
  cases hdescent with
  | unfit h => exact reports_unfit h
  | native htype h =>
    refine reports_conforming ?_ _
    rw [htype]
    exact .native h
  | key htype hvalue hgeneric howner h =>
    refine reports_conforming ?_ _
    rw [htype]
    exact .key hvalue hgeneric howner h
  | callable htype hargument hresult =>
    refine reports_conforming ?_ _
    rw [htype]
    exact .callable hargument hresult
  | list htype hgeneric helement =>
    exact ((reports_items cell _ ih 0 m).congr (flaw_list_iff htype hgeneric helement)).assembled
  | @record _ _ stores members htype =>
    have hmembers : ∀ e ∈ members, Reported types e.2 := fun e he => ih e.2 (List.mem_map_of_mem he)
    refine (((reports_missing cell stores members).both
      (reports_members cell stores hmembers stores.length m) ?_ _).congr
        (flaw_record_iff htype)).assembled
    rintro _ _ _ _ ⟨i, k, r, hkey, -, rfl, -⟩ ⟨j, -, -, b, -, rfl, -⟩
    obtain ⟨hi, -⟩ := List.getElem?_eq_some_iff.mp hkey
    exact List.cons_lt_cons_iff.mpr (.inl (by omega))

lemma conforms_of_convert {value : Stored} {a : Address}
    (h : (convert types cell value m).1 = .ok a) : value.Conforms types cell.type := by
  obtain ⟨flaws, henum, hresult⟩ : Reports (Flaw types cell value) (convert types cell value m).1 :=
    reports_convert cell value m
  rw [h] at hresult
  obtain rfl := eq_nil_of_ok hresult
  exact conforms_of_no_flaw cell value fun place p h => nomatch (henum.exact (place, p)).mpr h

/-- **Conversion accepts exactly what conforms and masks no flaw.** It succeeds on the stored values
that conform to the type of the cell. Any other it refuses with a list of problems that is made of one
problem for each flaw of the value, in the order in which the value is read, and nothing else. -/
theorem conversion_reports_every_flaw (types : Registry) (cell : Cell) (value : Stored) (m : Memory) :
    ((∃ a, (convert types cell value m).1 = .ok a) ↔ value.Conforms types cell.type) ∧
      ∃ flaws : List (List Nat × Problem), (flaws.Pairwise fun f g => f.1 < g.1) ∧
        (∀ place p, (place, p) ∈ flaws ↔ Flaw types cell value place p) ∧
        ∀ ps, (convert types cell value m).1 = .error ps ↔ flaws ≠ [] ∧ ps = flaws.map Prod.snd := by
  obtain ⟨flaws, henum, hresult⟩ : Reports (Flaw types cell value) (convert types cell value m).1 :=
    reports_convert cell value m
  refine ⟨⟨fun ⟨a, ha⟩ => conforms_of_convert ha, fun hconforms => ?_⟩, flaws, henum.ordered,
    fun place p => henum.exact (place, p), hresult⟩
  cases h : (convert types cell value m).1 with
  | ok a => exact ⟨a, rfl⟩
  | error ps =>
    obtain ⟨hne, -⟩ := (hresult ps).mp h
    obtain ⟨f, hf⟩ := List.exists_mem_of_ne_nil flaws hne
    exact absurd hconforms ((henum.exact f).mp hf).not_conforms

end Conversion

end CellMachine
