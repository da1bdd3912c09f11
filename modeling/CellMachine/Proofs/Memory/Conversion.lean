import CellMachine.Proofs.Meaning.Conversion
import CellMachine.Proofs.Safety.Problems

/-!
What conversion does, whatever it is given: it adds slots that have their values, and the slot it comes
to holds the stored value down to its last member; or it says what is wrong with the stored value.
-/

namespace CellMachine

namespace Memory

/-- The slot at an address holds a stored value, down to its last member. -/
inductive Carries (m : Memory) : Stored → Address → Prop
  | native {cell : Cell} {n : Native} {a : Address} (h : m.get? a = some ⟨cell, some (.native n)⟩)
    (hcell : cell.type.admits n = true) : Carries m (.native n) a
  | key {cell : Cell} {k : String} {a : Address} (h : m.get? a = some ⟨cell, some (.key k)⟩)
    (hcell : cell.type.category = .keyOf) : Carries m (.key k) a
  /-- A text stands for a key where the slot's type asks for one. -/
  | text {cell : Cell} {k : String} {a : Address} (h : m.get? a = some ⟨cell, some (.key k)⟩)
    (hcell : cell.type.category = .keyOf) : Carries m (.native (.string k)) a
  | callable {cell : Cell} {c : Callable} {a : Address}
    (h : m.get? a = some ⟨cell, some (.callable c)⟩) : Carries m (.callable c) a
  | list {cell : Cell} {items : List Stored} {as : List Address} {a : Address}
    (h : m.get? a = some ⟨cell, some (.iterable (.flat as.toArray))⟩)
    (hlength : items.length = as.length)
    (hitems : ∀ e ∈ items.zip as, Carries m e.1 e.2) : Carries m (.list items) a
  | record {cell : Cell} {members : List (String × Stored)} {parts : KeyMap String Address}
    {a : Address} (h : m.get? a = some ⟨cell, some (.structured (.flat parts))⟩)
    (hkeys : members.map Prod.fst = parts.keys)
    (hmembers : ∀ e ∈ members.zip parts, Carries m e.1.2 e.2.2) : Carries m (.record members) a

variable {m m' : Memory}

/-- What names a key is held as the key. -/
lemma Carries.of_key? {cell : Cell} {k : String} {a : Address}
    (h : m.get? a = some ⟨cell, some (.key k)⟩) (hcell : cell.type.category = .keyOf)
    {value : Stored} (hvalue : value.key? = some k) : m.Carries value a := by
  cases value with
  | native n =>
    obtain rfl := Stored.eq_string_of_key? hvalue
    exact .text h hcell
  | key k' =>
    cases hvalue
    exact .key h hcell
  | _ => cases hvalue

lemma Carries.mono (h : ∀ a s, m.get? a = some s → m'.get? a = some s) {value : Stored}
    {a : Address} (ha : m.Carries value a) : m'.Carries value a := by
  induction ha with
  | native hs hcell => exact .native (h _ _ hs) hcell
  | key hs hcell => exact .key (h _ _ hs) hcell
  | text hs hcell => exact .text (h _ _ hs) hcell
  | callable hs => exact .callable (h _ _ hs)
  | list hs hlength _ ih => exact .list (h _ _ hs) hlength ih
  | record hs hkeys _ ih => exact .record (h _ _ hs) hkeys ih

lemma Over.get?_of_some (h : m.Over m') (a : Address) (s : Slot) (hs : m.get? a = some s) :
    m'.get? a = some s := by
  cases a with
  | «at» i =>
    obtain ⟨hi, -⟩ := Array.getElem?_eq_some_iff.mp (show m.slots[i]? = some s from hs)
    exact (h.get? hi).trans hs
  | loose n =>
    show m'.loose[n]? = some s
    rw [h.loose]
    exact hs

/-! ### Memory with all its values -/

/-- A slot of memory. -/
def Inside (m : Memory) (a : Address) : Prop := ∃ i < m.slots.size, a = .at i

/-- Memory in which every slot has its value, made of slots of memory. -/
structure Complete (m : Memory) : Prop where
  loose : m.loose = #[]
  values : ∀ i < m.slots.size, ∃ v, m.value? (.at i) = some v ∧ v.Within m.Inside

lemma complete_empty : Complete {} := ⟨rfl, nofun⟩

lemma Over.inside (h : m.Over m') {a : Address} (ha : m.Inside a) : m'.Inside a := by
  obtain ⟨i, hi, rfl⟩ := ha
  exact ⟨i, lt_of_lt_of_le hi h.size_le, rfl⟩

lemma Complete.allocate (h : m.Complete) (cell : Cell) {v : Value} (hv : v.Within m.Inside) :
    (m.allocate cell (some v)).2.Complete := by
  have hover := m.over_allocate cell (some v)
  have hsize := m.size_allocate cell (some v)
  refine ⟨h.loose, fun i hi => ?_⟩
  by_cases hlt : i < m.slots.size
  · obtain ⟨w, hw, hwithin⟩ := h.values i hlt
    exact ⟨w, (hover.value? hlt).trans hw, hwithin.mono fun _ => hover.inside⟩
  · have heq : i = m.slots.size := by omega
    subst heq
    refine ⟨v, ?_, hv.mono fun _ => hover.inside⟩
    rw [value?, get?_allocate_self]
    rfl

/-- What holds a value is a slot of memory. -/
lemma Carries.inside (h : m.Complete) {value : Stored} {a : Address} (ha : m.Carries value a) :
    m.Inside a := by
  have inside : ∀ {s}, m.get? a = some s → m.Inside a := by
    intro s hs
    cases a with
    | «at» i => exact ⟨i, (Array.getElem?_eq_some_iff.mp hs).1, rfl⟩
    | loose n =>
      change m.loose[n]? = some s at hs
      rw [h.loose] at hs
      cases hs
  cases ha with
  | native hs _ => exact inside hs
  | key hs _ => exact inside hs
  | text hs _ => exact inside hs
  | callable hs => exact inside hs
  | list hs _ _ => exact inside hs
  | record hs _ _ => exact inside hs

end Memory

namespace Conversion

/-- What a conversion does to memory, and what its result is when it succeeds. -/
structure Gives {α : Type} (m : Memory) (R : Memory → α → Prop)
    (r : Except (List Problem) α × Memory) : Prop where
  isOver : m.Over r.2
  complete : m.Complete → r.2.Complete
  refused : ∀ ps, r.1 = .error ps → ps ≠ [] ∧ ∀ p ∈ ps, p.cause.isOrdinary = true
  result : ∀ a, r.1 = .ok a → R r.2 a

/-- The slot of a cell, with a stored value in it. -/
def Holds (cell : Cell) (value : Stored) (m : Memory) (a : Address) : Prop :=
  ∃ i, a = .at i ∧ (m.get? a).map Slot.cell = some cell ∧ m.Carries value a

variable {types : Registry} {cell : Cell} {m : Memory} {α β γ : Type}

lemma about_cause (p : Problem) (cell : Cell) : (about p cell).cause = p.cause := by
  unfold about
  split <;> rfl

lemma Unfit.ordinary {value : Stored} {p : Problem} (h : Unfit types cell value p) :
    p.cause.isOrdinary = true := by
  cases h with
  | unknownOwner _ _ _ h | unknownElement _ _ h =>
    rw [about_cause]
    exact types.ordinary_resolve _ _ h
  | _ =>
    simp only [Problem.set_cause, problem, about_cause]
    rfl

lemma Untyped.ordinary {stores : KeyMap String TyRef} {k : String} {p : Problem}
    (h : Untyped types cell stores k p) : p.cause.isOrdinary = true := by
  cases h with
  | unknown _ _ h =>
    rw [Problem.set_cause, about_cause]
    exact types.ordinary_resolve _ _ h
  | _ =>
    rw [Problem.set_cause, problem, about_cause]
    rfl

lemma gives_error {R : Memory → α → Prop} {p : Problem} (hp : p.cause.isOrdinary = true) :
    Gives m R (.error [p], m) := by
  refine ⟨.refl m, id, fun ps hps => ?_, nofun⟩
  cases hps
  exact ⟨List.cons_ne_nil _ _, List.forall_mem_singleton.mpr hp⟩

lemma gives_allocated {value : Stored} {v : Value} (hv : m.Complete → v.Within m.Inside)
    (h : ∀ m' : Memory, m'.get? (.at m.slots.size) = some ⟨cell, some v⟩ → m.Over m' →
      m'.Carries value (.at m.slots.size)) :
    Gives m (Holds cell value) (allocated cell v m) := by
  have hget := m.get?_allocate_self cell (some v)
  have hover := m.over_allocate cell (some v)
  refine ⟨hover, fun hm => hm.allocate cell (hv hm), nofun, fun a ha => ?_⟩
  cases ha
  exact ⟨m.slots.size, rfl, congrArg (Option.map Slot.cell) hget, h _ hget hover⟩

lemma Gives.pair {R : Memory → α → Prop} {S : Memory → β → Prop} {T : Memory → γ → Prop}
    {f : α → β → γ} {first : Except (List Problem) α × Memory}
    {others : Memory → Except (List Problem) β × Memory} (h : Gives m R first)
    (h' : Gives first.2 S (others first.2))
    (hT : ∀ m₁ m₂ a b, m₁.Over m₂ → R m₁ a → S m₂ b → T m₂ (f a b)) :
    Gives m T (Conversion.pair f first others) := by
  obtain ⟨o, m₁⟩ := first
  unfold Conversion.pair
  dsimp only at h' ⊢
  generalize others m₁ = r at h' ⊢
  obtain ⟨o', m₂⟩ := r
  refine ⟨h.isOver.trans h'.isOver, fun hm => h'.complete (h.complete hm), fun ps hps => ?_,
    fun c hc => ?_⟩
  · cases o with
    | ok a =>
      cases o' <;> cases hps
      exact h'.refused _ rfl
    | error qs =>
      obtain ⟨hne, hall⟩ := h.refused qs rfl
      cases o' <;> cases hps
      · exact ⟨List.append_ne_nil_of_left_ne_nil hne _,
          List.forall_mem_append.mpr ⟨hall, (h'.refused _ rfl).2⟩⟩
      · exact ⟨hne, hall⟩
  · cases o <;> cases o' <;> cases hc
    exact hT m₁ m₂ _ _ h'.isOver (h.result _ rfl) (h'.result _ rfl)

lemma Gives.assembled {R : Memory → α → Prop} {S : Memory → Address → Prop} {make : α → Value}
    {r : Except (List Problem) α × Memory} (h : Gives m R r)
    (hS : ∀ parts, R r.2 parts → Gives r.2 S (allocated cell (make parts) r.2)) :
    Gives m S (Conversion.assembled cell make r) := by
  obtain ⟨_ | parts, m₁⟩ := r
  · refine ⟨h.isOver, h.complete, fun qs hqs => ?_, nofun⟩
    cases hqs
    exact h.refused _ rfl
  · have h' := hS parts (h.result parts rfl)
    exact ⟨h.isOver.trans h'.isOver, fun hm => h'.complete (h.complete hm), h'.refused, h'.result⟩

/-- Addresses hold stored values one by one. -/
def HoldItems (items : List Stored) (m : Memory) (as : List Address) : Prop :=
  items.length = as.length ∧ ∀ e ∈ items.zip as, m.Carries e.1 e.2

/-- Entries hold stored members under the same keys. -/
def HoldMembers (members : List (String × Stored)) (m : Memory) (parts : KeyMap String Address) :
    Prop :=
  members.map Prod.fst = parts.keys ∧ ∀ e ∈ members.zip parts, m.Carries e.1.2 e.2.2

lemma Holds.cons_items {item : Stored} {rest : List Stored} {m' : Memory} {a : Address}
    {as : List Address} (hover : m.Over m') (ha : Holds cell item m a) (has : HoldItems rest m' as) :
    HoldItems (item :: rest) m' (a :: as) := by
  obtain ⟨i, -, -, hcarries⟩ := ha
  refine ⟨congrArg Nat.succ has.1, ?_⟩
  rw [List.zip_cons_cons]
  exact List.forall_mem_cons.mpr ⟨hcarries.mono hover.get?_of_some, has.2⟩

lemma Holds.cons_members {k : String} {item : Stored} {rest : List (String × Stored)} {m' : Memory}
    {a : Address} {parts : KeyMap String Address} (hover : m.Over m') (ha : Holds cell item m a)
    (hparts : HoldMembers rest m' parts) :
    HoldMembers ((k, item) :: rest) m' ((k, a) :: parts) := by
  obtain ⟨i, -, -, hcarries⟩ := ha
  refine ⟨?_, ?_⟩
  · rw [List.map_cons, KeyMap.keys_cons, hparts.1]
  · rw [List.zip_cons_cons]
    exact List.forall_mem_cons.mpr ⟨hcarries.mono hover.get?_of_some, hparts.2⟩

lemma exists_mem_zip {α β : Type} {l : List α} {l' : List β} (h : l.length = l'.length) {b : β}
    (hb : b ∈ l') : ∃ a, (a, b) ∈ l.zip l' := by
  obtain ⟨i, hi⟩ := List.mem_iff_getElem?.mp hb
  have hlt : i < l.length := h ▸ (List.getElem?_eq_some_iff.mp hi).1
  exact ⟨l[i], List.mem_of_getElem?
    (List.getElem?_zip_eq_some.mpr ⟨List.getElem?_eq_getElem hlt, hi⟩)⟩

lemma gives_missing (cell : Cell) (stores : KeyMap String TyRef) (members : List (String × Stored))
    (m : Memory) : Gives m (fun _ _ => True) (unlessProblems (missing cell stores members) (), m) := by
  refine ⟨.refl m, id, fun ps hps => ?_, fun _ _ => trivial⟩
  have hordinary : ∀ p ∈ missing cell stores members, p.cause.isOrdinary = true := by
    intro p hp
    obtain ⟨e, -, rfl⟩ := List.mem_map.mp hp
    rw [Problem.set_cause, problem, about_cause]
    rfl
  unfold unlessProblems at hps
  generalize missing cell stores members = lacking at hps hordinary
  cases lacking <;> cases hps
  exact ⟨List.cons_ne_nil _ _, hordinary⟩

/-- A stored value is held by the slot that it is converted to in any cell. -/
def Kept (types : Registry) (value : Stored) : Prop :=
  ∀ (cell : Cell) (m : Memory), Gives m (Holds cell value) (convert types cell value m)

lemma gives_items (cell : Cell) (element : Ty) {items : List Stored}
    (hitems : ∀ item ∈ items, Kept types item) (position : Nat) (m : Memory) :
    Gives m (HoldItems items) (convertItems types cell element position items m) := by
  induction items generalizing position m with
  | nil =>
    rw [convertItems_nil]
    refine ⟨.refl m, id, nofun, fun as has => ?_⟩
    cases has
    exact ⟨rfl, nofun⟩
  | cons item rest ih =>
    obtain ⟨hitem, hrest⟩ := List.forall_mem_cons.mp hitems
    rw [convertItems_cons]
    exact (hitem _ m).pair (ih hrest (position + 1) _) fun _ _ _ _ => Holds.cons_items

lemma gives_members (cell : Cell) (stores : KeyMap String TyRef) {members : List (String × Stored)}
    (hmembers : ∀ e ∈ members, Kept types e.2) (m : Memory) :
    Gives m (HoldMembers members) (convertMembers types cell stores members m) := by
  induction members generalizing m with
  | nil =>
    rw [convertMembers_nil]
    refine ⟨.refl m, id, nofun, fun parts hparts => ?_⟩
    cases hparts
    exact ⟨rfl, nofun⟩
  | cons e rest ih =>
    obtain ⟨k, item⟩ := e
    obtain ⟨hitem, hrest⟩ := List.forall_mem_cons.mp hmembers
    have hfirst : ∃ cell', Gives m (Holds cell' item) (convertMember types cell stores k item m) := by
      obtain ⟨t, -, heq⟩ | ⟨p, hp, heq⟩ := convertMember_cases types cell stores k item m
      · exact ⟨cell.part k t, heq ▸ hitem (cell.part k t) m⟩
      · exact ⟨cell, heq ▸ gives_error hp.ordinary⟩
    obtain ⟨cell', hfirst⟩ := hfirst
    rw [convertMembers_cons]
    exact hfirst.pair (ih hrest _) fun _ _ _ _ => Holds.cons_members

/-- **What is converted is held by the slot it is converted to.** -/
lemma gives_convert (cell : Cell) (value : Stored) (m : Memory) :
    Gives m (Holds cell value) (convert types cell value m) := by
  induction value using Stored.byParts generalizing cell m with | step value ih
  have hdescent := descent_convert types cell value m
  generalize convert types cell value m = r at hdescent ⊢
  cases hdescent with
  | unfit h => exact gives_error h.ordinary
  | native htype h =>
    refine gives_allocated (fun _ => .native _) fun m' hs _ => .native hs ?_
    rw [htype, Ty.admits]
    exact h
  | key htype hvalue =>
    have hcell : cell.type.category = .keyOf := htype ▸ rfl
    exact gives_allocated (fun _ => .key _) fun m' hs _ => .of_key? hs hcell hvalue
  | callable => exact gives_allocated (fun _ => .callable _) fun m' hs _ => .callable hs
  | @list _ _ _ _ t items =>
    refine (gives_items cell t ih 0 m).assembled fun as hheld => ?_
    obtain ⟨hlength, hall⟩ := hheld
    refine gives_allocated (fun hm => .iterable trivial fun a ha => ?_) fun m' hs hover =>
      .list hs hlength fun e he => (hall e he).mono hover.get?_of_some
    rw [Sequence.toList_flat] at ha
    obtain ⟨item, hin⟩ := exists_mem_zip hlength ha
    exact (hall _ hin).inside hm
  | @record _ _ stores members =>
    have hmembers : ∀ e ∈ members, Kept types e.2 := fun e he => ih e.2 (List.mem_map_of_mem he)
    refine ((gives_missing cell stores members m).pair (gives_members cell stores hmembers m)
      fun _ _ _ _ _ _ hheld => hheld).assembled fun parts hheld => ?_
    obtain ⟨hkeys, hall⟩ := hheld
    have hlength : members.length = parts.length := by
      have := congrArg List.length hkeys
      rwa [List.length_map, KeyMap.keys, List.length_map] at this
    refine gives_allocated (fun hm => .structured fun k a ha => ?_) fun m' hs hover =>
      .record hs hkeys fun e he => (hall e he).mono hover.get?_of_some
    obtain ⟨item, hin⟩ := exists_mem_zip hlength (KeyMap.mem_of_get? ha)
    exact (hall _ hin).inside hm

end Conversion

/-! ### Constants -/

namespace Memory

variable {types : Registry} {m : Memory}

section Loading

variable {P : Memory → Prop} (hframe : ∀ m directory constants, P m → P { m with directory, constants })
  (hconvert : ∀ cell value m a m', Conversion.convert types cell value m = (.ok a, m') → P m → P m')

include hframe hconvert

lemma loadConstant_induction (hm : P m) {moduleName name : String} {c : Constant}
    (hnone : (loadConstant types moduleName name c m).1 = []) :
    P (loadConstant types moduleName name c m).2 := by
  unfold Memory.loadConstant at hnone ⊢
  dsimp only at hnone ⊢
  cases hregistered : types.get? c.type.name with
  | none => exact hm
  | some registered =>
    rw [hregistered] at hnone
    dsimp only at hnone ⊢
    split at hnone
    · next hsame =>
      rw [if_pos hsame]
      have hgives : Conversion.Gives m _ (Conversion.convert types
          ⟨.constant moduleName name, registered, c.source⟩ c.value m) :=
        Conversion.gives_convert ⟨.constant moduleName name, registered, c.source⟩ c.value m
      generalize hr : Conversion.convert types ⟨.constant moduleName name, registered, c.source⟩
        c.value m = r at hnone hgives ⊢
      obtain ⟨o, m₁⟩ := r
      cases o with
      | error ps => exact absurd hnone (hgives.refused ps rfl).1
      | ok a =>
        have hm₁ : P m₁ := hconvert _ _ _ _ _ hr hm
        cases a with
        | «at» i => exact hframe m₁ _ m₁.constants hm₁
        | loose n => exact hm₁
    · cases hnone

lemma loadConstants_induction (hm : P m) {moduleName : String} {constants : List (String × Constant)}
    (hnone : (loadConstants types moduleName constants m).1 = []) :
    P (loadConstants types moduleName constants m).2 := by
  induction constants generalizing m with
  | nil => exact hm
  | cons e rest ih =>
    unfold Memory.loadConstants at hnone ⊢
    obtain ⟨hhere, hrest⟩ := List.append_eq_nil_iff.mp hnone
    exact ih (loadConstant_induction hframe hconvert hm hhere) hrest

lemma loadModules_induction (hm : P m) {seen : List String} {modules : List Module}
    (hnone : (loadModules types seen modules m).1 = []) : P (loadModules types seen modules m).2 := by
  induction modules generalizing seen m with
  | nil => exact hm
  | cons md rest ih =>
    unfold Memory.loadModules at hnone ⊢
    split at hnone
    · cases hnone
    · next hseen =>
      rw [if_neg hseen]
      obtain ⟨hhere, hrest⟩ := List.append_eq_nil_iff.mp hnone
      exact ih (loadConstants_induction hframe hconvert hm hhere) hrest

/-- What holds of empty memory and is kept by every conversion that succeeds holds of the memory that
modules are loaded to. -/
lemma ofModules_induction (hempty : P {}) {modules : List Module}
    (h : ofModules types modules = .ok m) : P m := by
  unfold ofModules at h
  have hloaded : (Memory.loadModules types [] modules {}).1 = [] →
      P (Memory.loadModules types [] modules {}).2 := loadModules_induction hframe hconvert hempty
  generalize Memory.loadModules types [] modules {} = r at h hloaded
  obtain ⟨problems, m₁⟩ := r
  dsimp only at h hloaded
  unfold unlessProblems at h
  split at h
  · next hnone =>
    cases h
    exact hframe m₁ m₁.directory _ (hloaded (List.isEmpty_iff.mp hnone))
  · cases h

end Loading

/-- **The memory that modules are loaded to** has all its values. -/
lemma complete_ofModules {modules : List Module} (h : ofModules types modules = .ok m) :
    m.Complete := by
  refine ofModules_induction (fun m _ _ hm => ⟨hm.loose, hm.values⟩) (fun cell value m a m' hr hm => ?_)
    complete_empty h
  have hgives : Conversion.Gives m _ (Conversion.convert types cell value m) :=
    Conversion.gives_convert cell value m
  have hcomplete := hgives.complete hm
  rwa [hr] at hcomplete

end Memory

end CellMachine
