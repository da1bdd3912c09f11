import CellMachine.Proofs.Meaning.Heap
import CellMachine.Proofs.Memory.Descent

/-!
Conversion fills memory: every slot it allocates has its value, members of a value come before it, and
types and callables are those of the cells and of the stored value.
-/

namespace CellMachine

/-- A callable is somewhere in a stored value. -/
inductive Stored.Holds (c : Callable) : Stored → Prop
  | callable : Stored.Holds c (.callable c)
  | list {items : List Stored} {item : Stored} (h : item ∈ items) (h' : item.Holds c) :
    Stored.Holds c (.list items)
  | record {members : List (String × Stored)} {e : String × Stored} (h : e ∈ members)
    (h' : e.2.Holds c) : Stored.Holds c (.record members)

/-- Slots of memory that stand for themselves. -/
def Own (n : Nat) (a : Address) (t : Term) : Prop := ∃ j < n, a = .at j ∧ t = .slot (.at j)

namespace Memory

/-- Memory in which every slot has its value, and every callable a property. -/
structure Filled (types : Registry) (admits : Callable → Prop) (m : Memory) : Prop where
  loose : m.loose = #[]
  evaluated : ∀ i < m.slots.size, ∃ v, m.value? (.at i) = some v ∧
    Represents (Own m.slots.size) v (.ofValue v)
  agree : ∀ i < m.slots.size, types.Agrees (m.typeOf (.at i))
  callables : ∀ i c, m.value? (.at i) = some (.callable c) → admits c

lemma filled_empty (types : Registry) (admits : Callable → Prop) : Filled types admits {} :=
  ⟨rfl, nofun, nofun, nofun⟩

variable {types : Registry} {admits : Callable → Prop} {m : Memory}

/-- A slot that gets its value when it is allocated. -/
lemma Filled.allocate (h : m.Filled types admits) {cell : Cell} (hcell : types.Agrees cell.type)
    {v : Value} (hv : Represents (Own m.slots.size) v (.ofValue v))
    (hcallable : ∀ c, v = .callable c → admits c) :
    (m.allocate cell (some v)).2.Filled types admits := by
  have hover := over_allocate m cell (some v)
  have hsize := size_allocate m cell (some v)
  have hself := get?_allocate_self m cell (some v)
  have hmono : ∀ a t, Own m.slots.size a t → Own (m.allocate cell (some v)).2.slots.size a t := by
    rintro a t ⟨j, hj, rfl, rfl⟩
    exact ⟨j, by omega, rfl, rfl⟩
  have hnew : (m.allocate cell (some v)).2.value? (.at m.slots.size) = some v := by
    rw [value?, hself]
    rfl
  refine ⟨h.loose, fun i hi => ?_, fun i hi => ?_, fun i c hc => ?_⟩
  · by_cases hlt : i < m.slots.size
    · obtain ⟨w, hw, hrep⟩ := h.evaluated i hlt
      exact ⟨w, (hover.value? hlt).trans hw, hrep.mono hmono⟩
    · have heq : i = m.slots.size := by omega
      exact heq ▸ ⟨v, hnew, hv.mono hmono⟩
  · by_cases hlt : i < m.slots.size
    · rw [hover.typeOf hlt]
      exact h.agree i hlt
    · have heq : i = m.slots.size := by omega
      rw [heq, typeOf, hself]
      exact hcell
  · by_cases hlt : i < m.slots.size
    · exact h.callables i c ((hover.value? hlt).symm.trans hc)
    · have hi := lt_of_value? hc
      have heq : i = m.slots.size := by omega
      rw [heq, hnew] at hc
      exact hcallable c (Option.some.inj hc)

end Memory

lemma represents_flat {n : Nat} {as : List Address} (h : ∀ a ∈ as, ∃ j < n, a = .at j) :
    Represents (Own n) (.iterable (.flat as.toArray)) (.ofValue (.iterable (.flat as.toArray))) := by
  refine .list trivial ?_
  rw [Sequence.toList_flat, List.toList_toArray, List.forall₂_map_right_iff]
  induction as with
  | nil => exact .nil
  | cons a as ih =>
    obtain ⟨⟨j, hj, rfl⟩, hrest⟩ := List.forall_mem_cons.mp h
    exact .cons ⟨j, hj, rfl, rfl⟩ (ih hrest)

lemma represents_entries {n : Nat} {parts : KeyMap String Address}
    (h : ∀ a ∈ parts.map Prod.snd, ∃ j < n, a = .at j) :
    Represents (Own n) (.structured (.flat parts)) (.ofValue (.structured (.flat parts))) := by
  refine .record (Record.exposed_flat parts) ?_
  have hshown : ∀ e ∈ (Record.flat parts).toList, ∃ j < n, e.2 = .at j := by
    intro e he
    rw [Record.toList_eq] at he
    obtain ⟨k, -, hk⟩ := List.mem_filterMap.mp he
    obtain ⟨a, ha, rfl⟩ := Option.map_eq_some_iff.mp hk
    exact h _ (List.mem_map_of_mem (KeyMap.mem_of_get? ha))
  rw [List.forall₂_map_right_iff]
  generalize (Record.flat parts).toList = shown at hshown
  induction shown with
  | nil => exact .nil
  | cons e shown ih =>
    obtain ⟨⟨j, hj, he⟩, hrest⟩ := List.forall_mem_cons.mp hshown
    exact .cons ⟨rfl, j, hj, he, congrArg Term.slot he⟩ (ih hrest)

namespace Conversion

/-- What a conversion does to memory, and what its result is when it succeeds. -/
structure Converts {α : Type} (types : Registry) (admits : Callable → Prop) (m : Memory)
    (R : Memory → α → Prop) (r : Except (List Problem) α × Memory) : Prop where
  filled : r.2.Filled types admits
  isOver : m.Over r.2
  result : ∀ a, r.1 = .ok a → R r.2 a

/-- A slot of memory that has the type of a cell. -/
def Held (type : Ty) (m : Memory) (a : Address) : Prop :=
  ∃ i < m.slots.size, a = .at i ∧ m.typeOf a = type

/-- Slots of memory. -/
def AllHeld (m : Memory) (as : List Address) : Prop := ∀ a ∈ as, ∃ j < m.slots.size, a = .at j

variable {types : Registry} {admits : Callable → Prop} {cell : Cell} {m : Memory}

lemma converts_error {α : Type} {R : Memory → α → Prop} (h : m.Filled types admits) (ps : List Problem) :
    Converts types admits m R (.error ps, m) := ⟨h, .refl m, nofun⟩

lemma converts_allocated (h : m.Filled types admits) (hcell : types.Agrees cell.type)
    {v : Value} (hv : Represents (Own m.slots.size) v (.ofValue v))
    (hcallable : ∀ c, v = .callable c → admits c) :
    Converts types admits m (Held cell.type) (allocated cell v m) := by
  refine ⟨h.allocate hcell hv hcallable, m.over_allocate cell (some v), fun a ha => ?_⟩
  cases ha
  refine ⟨m.slots.size, ?_, rfl, ?_⟩
  · show _ < (m.allocate cell (some v)).2.slots.size
    rw [m.size_allocate]
    exact Nat.lt_succ_self _
  · show Memory.typeOf _ (.at m.slots.size) = _
    rw [allocated, Memory.typeOf, Memory.get?_allocate_self]

lemma Converts.pair {α β γ : Type} {R : Memory → α → Prop} {S : Memory → β → Prop}
    {T : Memory → γ → Prop} {f : α → β → γ} {first : Except (List Problem) α × Memory}
    {others : Memory → Except (List Problem) β × Memory} (h : Converts types admits m R first)
    (h' : Converts types admits first.2 S (others first.2))
    (hT : ∀ m₁ m₂ a b, m₁.Over m₂ → R m₁ a → S m₂ b → T m₂ (f a b)) :
    Converts types admits m T (Conversion.pair f first others) := by
  obtain ⟨o, m₁⟩ := first
  unfold Conversion.pair
  dsimp only at h' ⊢
  generalize others m₁ = r at h' ⊢
  obtain ⟨o', m₂⟩ := r
  refine ⟨h'.filled, h.isOver.trans h'.isOver, fun c hc => ?_⟩
  cases o <;> cases o' <;> cases hc
  exact hT m₁ m₂ _ _ h'.isOver (h.result _ rfl) (h'.result _ rfl)

lemma Converts.assembled {α : Type} {R : Memory → α → Prop} {S : Memory → Address → Prop}
    {make : α → Value} {r : Except (List Problem) α × Memory} (h : Converts types admits m R r)
    (hS : ∀ parts, R r.2 parts → Converts types admits r.2 S (allocated cell (make parts) r.2)) :
    Converts types admits m S (Conversion.assembled cell make r) := by
  obtain ⟨_ | parts, m₁⟩ := r
  · exact ⟨h.filled, h.isOver, nofun⟩
  · have h' := hS parts (h.result parts rfl)
    exact ⟨h'.filled, h.isOver.trans h'.isOver, h'.result⟩

lemma Held.cons {type : Ty} {m₁ m₂ : Memory} {a : Address} {as : List Address} (hover : m₁.Over m₂)
    (ha : Held type m₁ a) (has : AllHeld m₂ as) : AllHeld m₂ (a :: as) := by
  obtain ⟨j, hj, rfl, -⟩ := ha
  exact List.forall_mem_cons.mpr ⟨⟨j, lt_of_lt_of_le hj hover.size_le, rfl⟩, has⟩

lemma Typed.agrees (tidy : types.Tidy) {name : String} {source : Option Position}
    {stores : KeyMap String TyRef} (htype : cell.type = .structured name source stores)
    (hcell : types.Agrees cell.type) {k : String} {t : Ty} (h : Typed types stores k t) :
    types.Agrees t := by
  obtain ⟨r, hr, -, hresolve⟩ := h
  refine tidy.agrees_resolve hcell ?_ hresolve
  rw [htype]
  exact List.mem_map.mpr ⟨(k, r), KeyMap.mem_of_get? hr, rfl⟩

/-- A stored value is converted in any cell of a type that agrees. -/
def Convertible (types : Registry) (admits : Callable → Prop) (value : Stored) : Prop :=
  ∀ (cell : Cell) (m : Memory), m.Filled types admits → types.Agrees cell.type →
    Converts types admits m (Held cell.type) (convert types cell value m)

lemma converts_items (cell : Cell) {element : Ty} (helement : types.Agrees element)
    {items : List Stored} (hitems : ∀ item ∈ items, Convertible types admits item) (position : Nat)
    (m : Memory) (h : m.Filled types admits) :
    Converts types admits m AllHeld (convertItems types cell element position items m) := by
  induction items generalizing position m with
  | nil =>
    rw [convertItems_nil]
    refine ⟨h, .refl m, fun as has => ?_⟩
    cases has
    exact nofun
  | cons item rest ih =>
    obtain ⟨hitem, hrest⟩ := List.forall_mem_cons.mp hitems
    have hfirst := hitem (cell.part (toString position) element) m h helement
    rw [convertItems_cons]
    exact hfirst.pair (ih hrest (position + 1) _ hfirst.filled) fun _ _ _ _ => Held.cons

lemma converts_members (tidy : types.Tidy) {name : String} {source : Option Position}
    {stores : KeyMap String TyRef} (htype : cell.type = .structured name source stores)
    (hcell : types.Agrees cell.type) {members : List (String × Stored)}
    (hmembers : ∀ e ∈ members, Convertible types admits e.2) (m : Memory)
    (h : m.Filled types admits) :
    Converts types admits m (fun m parts => AllHeld m (parts.map Prod.snd))
      (convertMembers types cell stores members m) := by
  induction members generalizing m with
  | nil =>
    rw [convertMembers_nil]
    refine ⟨h, .refl m, fun as has => ?_⟩
    cases has
    exact nofun
  | cons e rest ih =>
    obtain ⟨k, item⟩ := e
    obtain ⟨hitem, hrest⟩ := List.forall_mem_cons.mp hmembers
    have hfirst : ∃ t, Converts types admits m (Held t) (convertMember types cell stores k item m) := by
      obtain ⟨t, ht, heq⟩ | ⟨p, -, heq⟩ := convertMember_cases types cell stores k item m
      · exact ⟨t, heq ▸ hitem (cell.part k t) m h (ht.agrees tidy htype hcell)⟩
      · exact ⟨cell.type, heq ▸ converts_error h [p]⟩
    obtain ⟨t, hfirst⟩ := hfirst
    rw [convertMembers_cons]
    exact hfirst.pair (ih hrest _ hfirst.filled) fun _ _ _ _ => Held.cons

/-- **A stored value is converted into slots that have their values.** -/
lemma converts (tidy : types.Tidy) (cell : Cell) (value : Stored) (m : Memory)
    (h : m.Filled types admits) (hcell : types.Agrees cell.type)
    (hvalue : ∀ c, value.Holds c → admits c) :
    Converts types admits m (Held cell.type) (convert types cell value m) := by
  induction value using Stored.byParts generalizing cell m with | step value ih
  have hdescent := descent_convert types cell value m
  generalize convert types cell value m = r at hdescent ⊢
  cases hdescent with
  | unfit => exact converts_error h _
  | native => exact converts_allocated h hcell (.native _) nofun
  | key => exact converts_allocated h hcell (.key _) nofun
  | @callable _ _ _ _ c =>
    refine converts_allocated h hcell (.callable c) fun c' hc => ?_
    cases hc
    exact hvalue c .callable
  | @list name source element ends t items htype _ helement =>
    -- A part is converted in a memory that grew, where its cell still agrees with the registry.
    have hitems : ∀ item ∈ items, Convertible types admits item := fun item hin cell m h hcell =>
      ih item hin cell m h hcell fun c hc => hvalue c (.list hin hc)
    have hagrees : types.Agrees t := tidy.agrees_resolve hcell
      (by rw [htype]; exact List.mem_singleton.mpr rfl) helement
    have hparts := converts_items cell hagrees hitems 0 m h
    exact hparts.assembled fun as has =>
      converts_allocated hparts.filled hcell (represents_flat has) nofun
  | @record name source stores members htype =>
    have hmembers : ∀ e ∈ members, Convertible types admits e.2 := fun e hin cell m h hcell =>
      ih e.2 (List.mem_map_of_mem hin) cell m h hcell fun c hc => hvalue c (.record hin hc)
    have hmissing : Converts types admits m (fun _ _ => True)
        (unlessProblems (missing cell stores members) (), m) := ⟨h, .refl m, fun _ _ => trivial⟩
    have hparts := hmissing.pair (f := fun _ parts => parts)
      (converts_members tidy htype hcell hmembers m h) fun _ _ _ _ _ _ hheld => hheld
    exact hparts.assembled fun parts hheld =>
      converts_allocated hparts.filled hcell (represents_entries hheld) nofun

/-! ### What is remembered plays no part -/

variable {types' : Registry}

lemma key_congr (h : ∀ r, types'.resolve r = types.resolve r) (cell : Cell) (owner : TyRef)
    (k : String) (m : Memory) : key types' cell owner k m = key types cell owner k m := by
  unfold key
  rw [h]

lemma memberType_congr (h : ∀ r, types'.resolve r = types.resolve r) (cell : Cell)
    (stores : KeyMap String TyRef) (k : String) :
    memberType types' cell stores k = memberType types cell stores k := by
  unfold memberType
  simp only [h]

mutual

lemma convert_congr (h : ∀ r, types'.resolve r = types.resolve r) (cell : Cell) (value : Stored)
    (m : Memory) : convert types' cell value m = convert types cell value m := by
  match value with
  | .native n =>
    unfold convert
    simp only [key_congr h]
  | .key k =>
    unfold convert
    simp only [key_congr h]
  | .callable c =>
    unfold convert
    rfl
  | .list items =>
    unfold convert
    simp only [h, fun t => convertItems_congr h cell t 0 items m]
  | .record members =>
    unfold convert
    simp only [fun stores => convertMembers_congr h cell stores members m]

lemma convertItems_congr (h : ∀ r, types'.resolve r = types.resolve r) (cell : Cell) (element : Ty)
    (position : Nat) (items : List Stored) (m : Memory) :
    convertItems types' cell element position items m =
      convertItems types cell element position items m := by
  match items with
  | [] =>
    unfold convertItems
    rfl
  | item :: rest =>
    unfold convertItems
    rw [convert_congr h (cell.part (toString position) element) item m]
    dsimp only
    rw [convertItems_congr h cell element (position + 1) rest]

lemma convertMembers_congr (h : ∀ r, types'.resolve r = types.resolve r) (cell : Cell)
    (stores : KeyMap String TyRef) (members : List (String × Stored)) (m : Memory) :
    convertMembers types' cell stores members m = convertMembers types cell stores members m := by
  match members with
  | [] =>
    unfold convertMembers
    rfl
  | (k, item) :: rest =>
    unfold convertMembers
    rw [memberType_congr h]
    simp only [fun t m => convert_congr h (cell.part k t) item m,
      fun m => convertMembers_congr h cell stores rest m]

end

end Conversion

/-! ### Constants -/

namespace Memory

variable {types : Registry} {admits : Callable → Prop} {m : Memory}

/-- Memory that holds constants: filled, with a directory that leads to slots. -/
structure Constants (types : Registry) (admits : Callable → Prop) (m : Memory) : Prop where
  filled : m.Filled types admits
  rooted : m.Rooted

lemma Constants.loadConstant (tidy : types.Tidy) (h : m.Constants types admits)
    (moduleName name : String) {c : Constant} (hc : ∀ f, c.value.Holds f → admits f) :
    (loadConstant types moduleName name c m).2.Constants types admits := by
  unfold Memory.loadConstant
  dsimp only
  cases ht : types.get? c.type.name with
  | none => exact h
  | some registered =>
    dsimp only
    split
    · have hconverts := Conversion.converts tidy ⟨.constant moduleName name, registered, c.source⟩
        c.value m h.filled (tidy.coherent _ _ ht) hc
      generalize Conversion.convert types ⟨.constant moduleName name, registered, c.source⟩ c.value m
        = r at hconverts ⊢
      obtain ⟨o, m₁⟩ := r
      have hrooted : m₁.Rooted := fun id i hi => by
        rw [hconverts.isOver.directory] at hi
        exact lt_of_lt_of_le (h.rooted id i hi) hconverts.isOver.size_le
      cases o with
      | error ps => exact ⟨hconverts.filled, hrooted⟩
      | ok a =>
        obtain ⟨j, hj, rfl, -⟩ := hconverts.result a rfl
        refine ⟨⟨hconverts.filled.loose, hconverts.filled.evaluated, hconverts.filled.agree,
          hconverts.filled.callables⟩, fun id i hi => ?_⟩
        change (m₁.directory.insert (constantId moduleName name) j).get? id = some i at hi
        rw [KeyMap.get?_insert] at hi
        split at hi
        · cases hi
          exact hj
        · exact hrooted id i hi
    · exact h

lemma Constants.loadConstants (tidy : types.Tidy) (moduleName : String)
    {constants : List (String × Constant)}
    (hall : ∀ e ∈ constants, ∀ f, e.2.value.Holds f → admits f) (h : m.Constants types admits) :
    (loadConstants types moduleName constants m).2.Constants types admits := by
  induction constants generalizing m with
  | nil => exact h
  | cons e rest ih =>
    obtain ⟨name, c⟩ := e
    obtain ⟨hc, hrest⟩ := List.forall_mem_cons.mp hall
    unfold Memory.loadConstants
    exact ih hrest (h.loadConstant tidy moduleName name hc)

lemma Constants.loadModules (tidy : types.Tidy) {seen : List String} {modules : List Module}
    (hall : ∀ md ∈ modules, ∀ e ∈ md.constants, ∀ f, e.2.value.Holds f → admits f)
    (h : m.Constants types admits) : (loadModules types seen modules m).2.Constants types admits := by
  induction modules generalizing seen m with
  | nil => exact h
  | cons md rest ih =>
    obtain ⟨hmd, hrest⟩ := List.forall_mem_cons.mp hall
    unfold Memory.loadModules
    split
    · exact ih hrest h
    · exact ih hrest (h.loadConstants tidy md.name hmd)

/-- **The constants of modules** are all there, with their values. -/
lemma constants_ofModules (tidy : types.Tidy) {modules : List Module}
    (hall : ∀ md ∈ modules, ∀ e ∈ md.constants, ∀ f, e.2.value.Holds f → admits f)
    (h : ofModules types modules = .ok m) : m.Constants types admits ∧ m.constants = m.slots.size := by
  unfold ofModules at h
  have hloaded : (Memory.loadModules types [] modules {}).2.Constants types admits :=
    Constants.loadModules tidy hall ⟨filled_empty types admits, nofun⟩
  generalize Memory.loadModules types [] modules {} = r at h hloaded
  obtain ⟨problems, m₁⟩ := r
  dsimp only at h hloaded
  unfold unlessProblems at h
  split at h
  · cases h
    exact ⟨⟨⟨hloaded.filled.loose, hloaded.filled.evaluated, hloaded.filled.agree,
      hloaded.filled.callables⟩, hloaded.rooted⟩, rfl⟩
  · cases h

end Memory

end CellMachine
