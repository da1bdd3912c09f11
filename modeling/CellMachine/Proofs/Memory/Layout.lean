import CellMachine.Proofs.Memory.Conformance

/-!
Where conversion puts what it converts, and what is read there. A stored value takes one slot for each
value it is made of, and its own comes after those of its parts. Reading the slot gives the stored value
back, with its texts as keys where a type asks for keys.
-/

namespace CellMachine

/-- Elements under their positions, from a given one on. -/
def numbered {α : Type} : Nat → List α → List (String × α)
  | _, [] => []
  | i, a :: rest => (toString i, a) :: numbered (i + 1) rest

lemma map_snd_numbered {α : Type} (i : Nat) (l : List α) : (numbered i l).map Prod.snd = l := by
  induction l generalizing i with
  | nil => rfl
  | cons a l ih => rw [numbered, List.map_cons, ih]

/-- The type that a type has for a part of its values. -/
def Registry.partType? (types : Registry) : Ty → String → Option Ty
  | .iterable _ _ element _, _ => (types.resolve element).toOption
  | .structured _ _ stores, k => (KeyMap.get? stores k).bind fun r => (types.resolve r).toOption
  | _, _ => none

/-- What a native is read as: a text is a key where a type asks for one. -/
def Native.tree : Option Ty → Native → Tree
  | some (.keyOf ..), .string k => .key k
  | _, n => .native n

namespace Stored

/-- The parts of a stored value by their names, which are positions in a list and keys in a record. -/
def named : Stored → List (String × Stored)
  | list items => numbered 0 items
  | record members => members
  | _ => []

mutual

/-- How many values a stored value is made of. -/
def nodes : Stored → Nat
  | list items => itemNodes items + 1
  | record members => memberNodes members + 1
  | _ => 1

def itemNodes : List Stored → Nat
  | [] => 0
  | item :: rest => item.nodes + itemNodes rest

def memberNodes : List (String × Stored) → Nat
  | [] => 0
  | (_, item) :: rest => item.nodes + memberNodes rest

end

mutual

/-- What a stored value is read as under a type. -/
def tree (types : Registry) (type : Option Ty) : Stored → Tree
  | native n => n.tree type
  | key k => .key k
  | callable c => .callable c
  | list items => .list (itemTrees types type 0 items)
  | record members => .record (memberTrees types type members)

def itemTrees (types : Registry) (type : Option Ty) : Nat → List Stored → List (Option Tree)
  | _, [] => []
  | i, item :: rest =>
    some (item.tree types (type.bind fun t => types.partType? t (toString i))) ::
      itemTrees types type (i + 1) rest

def memberTrees (types : Registry) (type : Option Ty) :
    List (String × Stored) → List (String × Option Tree)
  | [] => []
  | (k, item) :: rest =>
    (k, some (item.tree types (type.bind fun t => types.partType? t k))) ::
      memberTrees types type rest

end

/-- A stored value whose records have each key once. -/
inductive Keyed : Stored → Prop
  | native {n : Native} : Keyed (native n)
  | key {k : String} : Keyed (key k)
  | callable {c : Callable} : Keyed (callable c)
  | list {items : List Stored} (hitems : ∀ item ∈ items, item.Keyed) : Keyed (list items)
  | record {members : List (String × Stored)} (hkeys : (KeyMap.keys members).Nodup)
    (hmembers : ∀ e ∈ members, e.2.Keyed) : Keyed (record members)

lemma Keyed.nodup {members : List (String × Stored)} (h : (Stored.record members).Keyed) :
    (KeyMap.keys members).Nodup := by
  cases h with | record hkeys _ => exact hkeys

lemma Keyed.named {value : Stored} (h : value.Keyed) : ∀ e ∈ value.named, e.2.Keyed := by
  cases h with
  | list hitems =>
    intro e he
    have hin := List.mem_map_of_mem (f := Prod.snd) he
    rw [Stored.named, map_snd_numbered] at hin
    exact hitems e.2 hin
  | record _ hmembers => exact hmembers
  | _ => exact nofun

/-- What names a key is read as the key where a type asks for keys. -/
lemma tree_of_key? {types : Registry} {name : String} {source : Option Position} {owner : TyRef}
    {value : Stored} {k : String} (h : value.key? = some k) :
    value.tree types (some (.keyOf name source owner)) = .key k := by
  cases value with
  | native n =>
    obtain rfl := eq_string_of_key? h
    rfl
  | key k' =>
    cases h
    rfl
  | _ => cases h

/-- How many values the given parts are made of. -/
def nodesOf (parts : List (String × Stored)) : Nat := (parts.map fun e => e.2.nodes).sum

/-- What parts of a value of a type are read as. -/
def treesOf (types : Registry) (type : Ty) (parts : List (String × Stored)) :
    List (String × Option Tree) :=
  parts.map fun e => (e.1, some (e.2.tree types (types.partType? type e.1)))

lemma itemNodes_eq (i : Nat) (items : List Stored) : itemNodes items = nodesOf (numbered i items) := by
  induction items generalizing i with
  | nil => rfl
  | cons item rest ih => rw [itemNodes, ih (i + 1), nodesOf, nodesOf, numbered, List.map_cons,
      List.sum_cons]

lemma memberNodes_eq (members : List (String × Stored)) : memberNodes members = nodesOf members := by
  induction members with
  | nil => rfl
  | cons e rest ih => rw [memberNodes, ih, nodesOf, nodesOf, List.map_cons, List.sum_cons]

lemma nodes_eq (value : Stored) : value.nodes = nodesOf value.named + 1 := by
  cases value with
  | list items => rw [nodes, itemNodes_eq 0, named]
  | record members => rw [nodes, memberNodes_eq, named]
  | _ => rfl

lemma itemTrees_eq (types : Registry) (type : Ty) (i : Nat) (items : List Stored) :
    itemTrees types (some type) i items = (treesOf types type (numbered i items)).map Prod.snd := by
  induction items generalizing i with
  | nil => rfl
  | cons item rest ih =>
    rw [itemTrees, ih, numbered]
    rfl

lemma memberTrees_eq (types : Registry) (type : Ty) (members : List (String × Stored)) :
    memberTrees types (some type) members = treesOf types type members := by
  induction members with
  | nil => rfl
  | cons e rest ih =>
    rw [memberTrees, ih]
    rfl

end Stored

namespace Value

/-- The parts of a value by their names, as they are visited. -/
def named : Value → List (String × Address)
  | iterable items => numbered 0 items.toList
  | structured r => r.toList
  | _ => []

/-- Getting the parts of a value one by one comes to the same as visiting them. -/
def Coherent : Value → Prop
  | iterable items => items.size = items.toList.length ∧ ∀ i, items.get? i = items.toList[i]?
  | structured r => r.keys = KeyMap.keys r.toList ∧ ∀ k, r.get? k = KeyMap.get? r.toList k
  | _ => True

end Value

/-- A kind of cell that has a name of its own: a constant, or one given from outside. -/
inductive CellKind.IsNamed : CellKind → Prop
  | constant {moduleName name : String} : IsNamed (.constant moduleName name)
  | external {name : String} : IsNamed (.external name)

/-- The name of a cell is extended by that of a part. -/
inductive CellKind.Extends (part : String) : CellKind → CellKind → Prop
  | constant {moduleName name : String} :
    Extends part (.constant moduleName name) (.constant moduleName (name ++ "." ++ part))
  | external {name : String} : Extends part (.external name) (.external (name ++ "." ++ part))

lemma Cell.extends_part {cell : Cell} (h : cell.kind.IsNamed) (name : String) (type : Ty) :
    cell.kind.Extends name (cell.part name type).kind := by
  obtain ⟨kind, type', source⟩ := cell
  cases h with
  | constant => exact .constant
  | external => exact .external

lemma Cell.isNamed_part (cell : Cell) (name : String) (type : Ty) :
    (cell.part name type).kind.IsNamed := by
  obtain ⟨kind, type', source⟩ := cell
  cases kind with
  | constant m n => exact .constant
  | _ => exact .external

namespace Memory

variable {types : Registry} {m m' : Memory}

/-- A part of a value is in a slot from `first` on and before `last`, which has its value, the name of
the whole extended by that of the part, and the type of the part. -/
def HasPart (types : Registry) (m : Memory) (whole : Cell) (first last : Nat)
    (part : String × Address) : Prop :=
  ∃ j s, part.2 = .at j ∧ first ≤ j ∧ j < last ∧ m.get? (.at j) = some s ∧ s.value.isSome = true ∧
    whole.kind.Extends part.1 s.cell.kind ∧ types.partType? whole.type part.1 = some s.cell.type

/-- The slot at an index has a value, the parts of which are in slots from `first` on and before it. -/
def Parted (types : Registry) (m : Memory) (first i : Nat) : Prop :=
  ∃ cell v, m.get? (.at i) = some ⟨cell, some v⟩ ∧ v.Coherent ∧
    ∀ part ∈ v.named, HasPart types m cell first i part

lemma HasPart.mono (h : m.Over m') {whole : Cell} {first last : Nat} {part : String × Address}
    (hpart : HasPart types m whole first last part) {first' last' : Nat} (hfirst : first' ≤ first)
    (hlast : last ≤ last') : HasPart types m' whole first' last' part := by
  obtain ⟨j, s, hj, hle, hlt, hs, hrest⟩ := hpart
  exact ⟨j, s, hj, by omega, by omega, h.get?_of_some _ s hs, hrest⟩

lemma Parted.mono (h : m.Over m') {first i : Nat} (hi : Parted types m first i) {first' : Nat}
    (hfirst : first' ≤ first) : Parted types m' first' i := by
  obtain ⟨cell, v, hs, hv, hparts⟩ := hi
  exact ⟨cell, v, h.get?_of_some _ _ hs, hv, fun part hpart => (hparts part hpart).mono h hfirst le_rfl⟩

end Memory

lemma KeyMap.get?_of_nodup {κ α : Type} [BEq κ] [LawfulBEq κ] {m : KeyMap κ α} (h : m.keys.Nodup)
    {e : κ × α} (he : e ∈ m) : get? m e.1 = some e.2 := by
  induction m with
  | nil => cases he
  | cons f m ih =>
    rw [keys_cons, List.nodup_cons] at h
    rcases List.mem_cons.mp he with rfl | he
    · exact get?_cons_self _ _ _
    · have hne : f.1 ≠ e.1 := fun heq => h.1 (heq ▸ mem_keys_of_mem he)
      rw [get?_cons_of_ne hne]
      exact ih h.2 he

lemma Record.toList_flat {α : Type} {entries : KeyMap String α} (h : entries.keys.Nodup) :
    (flat entries).toList = entries := by
  have hshown : ∀ e ∈ entries, ((fun k => (entries.get? k).map fun a => (k, a)) ∘ Prod.fst) e =
      some e := by
    intro e he
    rw [Function.comp, KeyMap.get?_of_nodup h he]
    rfl
  rw [toList_eq]
  show entries.keys.filterMap (fun k => (entries.get? k).map fun a => (k, a)) = entries
  rw [KeyMap.keys, List.filterMap_map, List.filterMap_congr hshown, List.filterMap_some]

namespace Value

lemma named_flat (as : List Address) : (iterable (.flat as.toArray)).named = numbered 0 as := by
  rw [named, Sequence.toList_flat]

lemma coherent_flat (as : List Address) : (iterable (.flat as.toArray)).Coherent :=
  ⟨Sequence.size_eq trivial, Sequence.get?_eq trivial⟩

lemma named_entries {entries : KeyMap String Address} (h : entries.keys.Nodup) :
    (structured (.flat entries)).named = entries := Record.toList_flat h

lemma coherent_entries {entries : KeyMap String Address} (h : entries.keys.Nodup) :
    (structured (.flat entries)).Coherent := by
  rw [Coherent, Record.toList_flat h]
  exact ⟨rfl, fun _ => rfl⟩

end Value

namespace Conversion

variable {types : Registry} {cell : Cell} {m m' m₁ : Memory}

/-! ### What conversion does when it succeeds -/

/-- The value that is made for a stored value of a type when its parts are in place. -/
inductive Assembles : Ty → Stored → List (String × Address) → Value → Prop
  | native {name : String} {source : Option Position} {tag : String} {test : NativeView → Bool}
    {n : Native} : Assembles (.native name source tag test) (.native n) [] (.native n)
  | key {name : String} {source : Option Position} {owner : TyRef} {k : String} {value : Stored}
    (hvalue : value.key? = some k) : Assembles (.keyOf name source owner) value [] (.key k)
  | callable {name : String} {source : Option Position} {argument result : TyRef} {c : Callable} :
    Assembles (.callable name source argument result) (.callable c) [] (.callable c)
  | list {name : String} {source : Option Position} {element : TyRef} {ends : Termination}
    {items : List Stored} {as : List Address} :
    Assembles (.iterable name source element ends) (.list items) (numbered 0 as)
      (.iterable (.flat as.toArray))
  | record {name : String} {source : Option Position} {stores : KeyMap String TyRef}
    {members : List (String × Stored)} {entries : KeyMap String Address} :
    Assembles (.structured name source stores) (.record members) entries
      (.structured (.flat entries))

mutual

/-- A conversion that succeeds: the parts of a conforming value are converted, and then its own slot is
added. -/
inductive Makes (types : Registry) : Cell → Stored → Memory → Address → Memory → Prop
  | mk {cell : Cell} {value : Stored} {entries : List (String × Address)} {v : Value}
    {m m₁ : Memory} (hconforms : value.Conforms types cell.type)
    (hparts : MakesParts types cell value.named m entries m₁)
    (hv : Assembles cell.type value entries v) :
    Makes types cell value m (m₁.allocate cell (some v)).1 (m₁.allocate cell (some v)).2

/-- Parts are converted one after the other, each in a cell of its own. -/
inductive MakesParts (types : Registry) :
    Cell → List (String × Stored) → Memory → List (String × Address) → Memory → Prop
  | nil {cell : Cell} {m : Memory} : MakesParts types cell [] m [] m
  | cons {cell : Cell} {name : String} {t : Ty} {item : Stored} {rest : List (String × Stored)}
    {a : Address} {entries : List (String × Address)} {m m₁ m' : Memory}
    (hpart : types.partType? cell.type name = some t)
    (hfirst : Makes types (cell.part name t) item m a m₁)
    (hrest : MakesParts types cell rest m₁ entries m') :
    MakesParts types cell ((name, item) :: rest) m ((name, a) :: entries) m'

end

/-- The type of a member's cell is that of the part. -/
lemma Typed.partType? {name : String} {source : Option Position} {stores : KeyMap String TyRef}
    (htype : cell.type = .structured name source stores) {k : String} {t : Ty}
    (h : Typed types stores k t) : types.partType? cell.type k = some t := by
  obtain ⟨r, hr, -, ht⟩ := h
  rw [htype, Registry.partType?, hr, Option.bind_some, ht]
  rfl

lemma makesParts_of_key? {value : Stored} {k : String} (h : value.key? = some k) :
    MakesParts types cell value.named m [] m := by
  cases value <;> first | exact .nil | cases h

/-- A conversion of the stored value that succeeds is made part by part, in any cell. -/
def Made (types : Registry) (value : Stored) : Prop :=
  ∀ (cell : Cell) (m : Memory) (a : Address) (m' : Memory),
    convert types cell value m = (.ok a, m') → Makes types cell value m a m'

lemma makes_items {element : Ty} (hpart : ∀ i : Nat, types.partType? cell.type (toString i) = some element)
    {items : List Stored} (hitems : ∀ item ∈ items, Made types item) {position : Nat} {m : Memory}
    {as : List Address} {m' : Memory}
    (h : convertItems types cell element position items m = (.ok as, m')) :
    MakesParts types cell (numbered position items) m (numbered position as) m' := by
  induction items generalizing position m as with
  | nil =>
    rw [convertItems_nil] at h
    cases h
    exact .nil
  | cons item rest ih =>
    obtain ⟨hitem, hrest⟩ := List.forall_mem_cons.mp hitems
    rw [convertItems_cons] at h
    obtain ⟨a, m₁, as, hfirst, hothers, rfl⟩ := exists_of_pair h
    exact .cons (hpart position) (hitem _ m a m₁ hfirst) (ih hrest hothers)

lemma makes_members {name : String} {source : Option Position} {stores : KeyMap String TyRef}
    (htype : cell.type = .structured name source stores) {members : List (String × Stored)}
    (hmembers : ∀ e ∈ members, Made types e.2) {m : Memory} {entries : KeyMap String Address}
    {m' : Memory} (h : convertMembers types cell stores members m = (.ok entries, m')) :
    MakesParts types cell members m entries m' := by
  induction members generalizing m entries with
  | nil =>
    rw [convertMembers_nil] at h
    cases h
    exact .nil
  | cons e rest ih =>
    obtain ⟨k, item⟩ := e
    obtain ⟨hitem, hrest⟩ := List.forall_mem_cons.mp hmembers
    rw [convertMembers_cons] at h
    obtain ⟨a, m₁, as, hfirst, hothers, rfl⟩ := exists_of_pair h
    obtain ⟨t, ht, heq⟩ | ⟨p, -, heq⟩ := convertMember_cases types cell stores k item m
    · exact .cons (ht.partType? htype) (hitem _ m a m₁ (heq ▸ hfirst)) (ih hrest hothers)
    · cases heq.symm.trans hfirst

lemma makes_convert (cell : Cell) (value : Stored) (m : Memory) {a : Address} {m' : Memory}
    (h : convert types cell value m = (.ok a, m')) : Makes types cell value m a m' := by
  induction value using Stored.byParts generalizing cell m a m' with | step value ih
  have hconforms : value.Conforms types cell.type := conforms_of_convert (congrArg Prod.fst h)
  have hdescent := descent_convert types cell value m
  rw [h] at hdescent
  generalize hr : ((.ok a, m') : Except (List Problem) Address × Memory) = r at hdescent
  cases hdescent with
  | unfit => cases hr
  | native htype =>
    cases hr
    exact .mk hconforms .nil (htype ▸ .native)
  | key htype hvalue =>
    cases hr
    exact .mk hconforms (makesParts_of_key? hvalue) (htype ▸ .key hvalue)
  | callable htype =>
    cases hr
    exact .mk hconforms .nil (htype ▸ .callable)
  | @list _ _ _ _ t items htype _ helement =>
    obtain ⟨as, m₁, hparts, hassembled⟩ := exists_of_assembled hr.symm
    cases hassembled
    have hpart : ∀ i : Nat, types.partType? cell.type (toString i) = some t := by
      intro i
      rw [htype, Registry.partType?, helement]
      rfl
    exact .mk hconforms (makes_items hpart (fun item hitem cell m a m' => ih item hitem cell m) hparts)
      (htype ▸ .list)
  | @record _ _ stores members htype =>
    obtain ⟨entries, m₁, hparts, hassembled⟩ := exists_of_assembled hr.symm
    cases hassembled
    obtain ⟨u, m₂, entries', hmissing, hmembers, rfl⟩ := exists_of_pair hparts
    cases congrArg Prod.snd hmissing
    exact .mk hconforms (makes_members htype (fun e he cell m a m' =>
      ih e.2 (List.mem_map_of_mem he) cell m) hmembers) (htype ▸ .record)

/-! ### Layout -/

/-- A stored value was put into the last of new slots, as many as it is made of values, and is read
there. -/
structure Lays (types : Registry) (cell : Cell) (value : Stored) (m : Memory) (a : Address)
    (m' : Memory) : Prop where
  isOver : m.Over m'
  size : m'.size = m.size + value.nodes
  root : a = .at (m.size + value.nodes - 1)
  slot : ∃ v, m'.get? a = some ⟨cell, some v⟩
  parted : ∀ i, m.size ≤ i → i < m'.size → m'.Parted types m.size i
  reads : ∀ m'' fuel, m'.Over m'' → value.nodes ≤ fuel →
    (m''.value? a).map (m''.expand fuel) = some (value.tree types (some cell.type))

/-- Parts of a value were put into new slots and are read there. -/
structure LaysParts (types : Registry) (cell : Cell) (parts : List (String × Stored)) (m : Memory)
    (entries : List (String × Address)) (m' : Memory) : Prop where
  isOver : m.Over m'
  size : m'.size = m.size + Stored.nodesOf parts
  parted : ∀ i, m.size ≤ i → i < m'.size → m'.Parted types m.size i
  slots : ∀ e ∈ entries, m'.HasPart types cell m.size m'.size e
  reads : ∀ m'' fuel, m'.Over m'' → Stored.nodesOf parts ≤ fuel →
    entries.map (fun e => (e.1, (m''.value? e.2).map (m''.expand fuel))) =
      Stored.treesOf types cell.type parts

lemma laysParts_nil (m : Memory) : LaysParts types cell [] m [] m :=
  ⟨.refl m, rfl, fun _ _ _ => by omega, nofun, fun _ _ _ _ => rfl⟩

/-- A part in front of others. -/
lemma Lays.cons {name : String} {item : Stored} {t : Ty} {a : Address}
    {rest : List (String × Stored)} {entries : List (String × Address)} (hnamed : cell.kind.IsNamed)
    (hpart : types.partType? cell.type name = some t)
    (h : Lays types (cell.part name t) item m a m₁) (h' : LaysParts types cell rest m₁ entries m') :
    LaysParts types cell ((name, item) :: rest) m ((name, a) :: entries) m' := by
  have hnodes : Stored.nodesOf ((name, item) :: rest) = item.nodes + Stored.nodesOf rest := by
    rw [Stored.nodesOf, List.map_cons, List.sum_cons, ← Stored.nodesOf]
  have hpositive : 0 < item.nodes := item.nodes_eq ▸ Nat.succ_pos _
  have hfirst := h.size
  have hrest := h'.size
  refine ⟨h.isOver.trans h'.isOver, by omega, fun i hle hlt => ?_, ?_, fun m'' fuel hover hfuel => ?_⟩
  · by_cases hi : i < m₁.size
    · exact (h.parted i hle hi).mono h'.isOver le_rfl
    · exact (h'.parted i (by omega) hlt).mono (.refl m') (by omega)
  · refine List.forall_mem_cons.mpr ⟨?_, fun e he => (h'.slots e he).mono (.refl m') (by omega) le_rfl⟩
    obtain ⟨v, hv⟩ := h.slot
    rw [h.root] at hv ⊢
    exact ⟨_, _, rfl, by omega, by omega, h'.isOver.get?_of_some _ _ hv, rfl,
      Cell.extends_part hnamed name t, hpart⟩
  · rw [List.map_cons, h'.reads m'' fuel hover (by omega),
      h.reads m'' fuel (h'.isOver.trans hover) (by omega), Stored.treesOf, Stored.treesOf,
      List.map_cons, hpart]
    rfl

/-- A value whose parts are in place is put after them. -/
lemma LaysParts.allocate {value : Stored} {entries : List (String × Address)} {v : Value}
    (h : LaysParts types cell value.named m entries m₁) (hv : v.named = entries) (hcoherent : v.Coherent)
    (hreads : ∀ (m'' : Memory) fuel,
      entries.map (fun e => (e.1, (m''.value? e.2).map (m''.expand fuel))) =
          Stored.treesOf types cell.type value.named →
        m''.expand (fuel + 1) v = value.tree types (some cell.type)) :
    Lays types cell value m (m₁.allocate cell (some v)).1 (m₁.allocate cell (some v)).2 := by
  have hnodes := value.nodes_eq
  have hsize := h.size
  have hnew : (m₁.allocate cell (some v)).2.size = m₁.size + 1 := m₁.size_allocate cell (some v)
  have hself := m₁.get?_allocate_self cell (some v)
  have hover := m₁.over_allocate cell (some v)
  refine ⟨h.isOver.trans hover, by omega, ?_, ⟨v, hself⟩, fun i hle hlt => ?_,
    fun m'' fuel hlater hfuel => ?_⟩
  · show Address.at m₁.size = _
    congr
    omega
  · by_cases hi : i < m₁.size
    · exact (h.parted i hle hi).mono hover le_rfl
    · obtain rfl : i = m₁.size := by omega
      exact ⟨cell, v, hself, hcoherent, fun part hpart =>
        (h.slots part (hv ▸ hpart)).mono hover le_rfl le_rfl⟩
  · obtain ⟨fuel, rfl⟩ : ∃ k, fuel = k + 1 := ⟨fuel - 1, by omega⟩
    have hvalue : m''.value? (m₁.allocate cell (some v)).1 = some v :=
      hlater.keeps (show (m₁.allocate cell (some v)).2.value? (.at m₁.size) = some v by
        rw [Memory.value?]; exact congrArg (Option.bind · Slot.value) hself)
    rw [hvalue, Option.map_some, hreads m'' fuel (h.reads m'' fuel (hover.trans hlater) (by omega))]

lemma LaysParts.keys_eq {parts : List (String × Stored)} {entries : KeyMap String Address}
    (h : LaysParts types cell parts m entries m') : entries.keys = KeyMap.keys parts := by
  have hkeys := congrArg (List.map Prod.fst) (h.reads m' _ (.refl m') le_rfl)
  rwa [Stored.treesOf, List.map_map, List.map_map] at hkeys

lemma expand_list {fuel : Nat} {as : List Address} {items : List Stored}
    (h : (numbered 0 as).map (fun e => (e.1, (m.value? e.2).map (m.expand fuel))) =
      Stored.treesOf types cell.type (Stored.list items).named) :
    m.expand (fuel + 1) (.iterable (.flat as.toArray)) =
      (Stored.list items).tree types (some cell.type) := by
  rw [Memory.expand, Sequence.toList_flat, Stored.tree, Stored.itemTrees_eq, ← Stored.named, ← h,
    List.map_map]
  conv_lhs => rw [List.toList_toArray, ← map_snd_numbered 0 as, List.map_map]
  rfl

lemma expand_record {fuel : Nat} {entries : KeyMap String Address}
    {members : List (String × Stored)} (hkeys : entries.keys.Nodup)
    (h : entries.map (fun e => (e.1, (m.value? e.2).map (m.expand fuel))) =
      Stored.treesOf types cell.type (Stored.record members).named) :
    m.expand (fuel + 1) (.structured (.flat entries)) =
      (Stored.record members).tree types (some cell.type) := by
  rw [Memory.expand, Record.toList_flat hkeys, Stored.tree, Stored.memberTrees_eq]
  exact congrArg Tree.record h

lemma LaysParts.assemble {value : Stored} {entries : List (String × Address)} {v : Value}
    (h : LaysParts types cell value.named m entries m₁) (hkeyed : value.Keyed)
    (hv : Assembles cell.type value entries v) :
    Lays types cell value m (m₁.allocate cell (some v)).1 (m₁.allocate cell (some v)).2 := by
  generalize htype : cell.type = type at hv
  cases hv with
  | native =>
    refine h.allocate rfl trivial fun _ _ _ => ?_
    rw [htype]
    rfl
  | key hvalue =>
    refine h.allocate rfl trivial fun _ _ _ => ?_
    rw [htype]
    exact (Stored.tree_of_key? hvalue).symm
  | callable => exact h.allocate rfl trivial fun _ _ _ => rfl
  | list => exact h.allocate (Value.named_flat _) (Value.coherent_flat _) fun _ _ => expand_list
  | record =>
    have hnodup : (KeyMap.keys entries).Nodup := h.keys_eq ▸ hkeyed.nodup
    exact h.allocate (Value.named_entries hnodup) (Value.coherent_entries hnodup) fun _ _ =>
      expand_record hnodup

mutual

/-- **What is converted is laid out behind what was there.** -/
lemma Makes.lays {cell : Cell} {value : Stored} {m : Memory} {a : Address} {m' : Memory}
    (h : Makes types cell value m a m') (hnamed : cell.kind.IsNamed) (hkeyed : value.Keyed) :
    Lays types cell value m a m' :=
  match h with
  | .mk _ hparts hv => (hparts.lays hnamed hkeyed.named).assemble hkeyed hv

lemma MakesParts.lays {cell : Cell} {parts : List (String × Stored)} {m : Memory}
    {entries : List (String × Address)} {m' : Memory} (h : MakesParts types cell parts m entries m')
    (hnamed : cell.kind.IsNamed) (hkeyed : ∀ e ∈ parts, e.2.Keyed) :
    LaysParts types cell parts m entries m' :=
  match h with
  | .nil => laysParts_nil m
  | .cons hpart hfirst hrest =>
    have ⟨hitem, hothers⟩ := List.forall_mem_cons.mp hkeyed
    (hfirst.lays (Cell.isNamed_part _ _ _) hitem).cons hnamed hpart (hrest.lays hnamed hothers)

end

/-- **Conversion loses nothing and puts parts first.** A stored value that is converted in a cell with a
name takes as many new slots at the end of memory as it is made of values, the last of which is its own,
and changes no other. Every new slot has its value; the parts of that are in new slots before it, under
its name extended by theirs, with the types that its own has for them. What is read off the slot is the
stored value, with all its members and with its texts as keys where its types ask for keys. -/
theorem conversion_lays_out_parts_first (types : Registry) (cell : Cell) (value : Stored) (m : Memory)
    {a : Address} {m' : Memory} (hnamed : cell.kind.IsNamed) (hkeyed : value.Keyed)
    (h : convert types cell value m = (.ok a, m')) :
    m.Over m' ∧ m'.size = m.size + value.nodes ∧ a = .at (m'.size - 1) ∧
      (m'.get? a).map Slot.cell = some cell ∧
      (∀ i, m.size ≤ i → i < m'.size → m'.Parted types m.size i) ∧
      (m'.value? a).map m'.tree = some (value.tree types (some cell.type)) := by
  have hlaid := (makes_convert cell value m h).lays hnamed hkeyed
  have hfuel : value.nodes ≤ m'.slots.size + m'.loose.size + 1 := by
    have hsize : m'.slots.size = m.slots.size + value.nodes := hlaid.size
    omega
  obtain ⟨v, hv⟩ := hlaid.slot
  refine ⟨hlaid.isOver, hlaid.size, hlaid.size ▸ hlaid.root, ?_, hlaid.parted,
    hlaid.reads m' _ (.refl m') hfuel⟩
  rw [hv]
  rfl

/-- A list of keys of points, each with a name for both. -/
def pointKeys : Ty :=
  .structured "named" none
    [("both", .inline (.iterable "keys" none (.inline (.keyOf "key" none (.inline
        (.structured "point" none [("x", .generic "T" .any), ("y", .generic "T" .any)])))) .finite)),
      ("name", .inline (.native "text" none "text" (NativeView.is .string)))]

/-- Keys of a point, one of them written as a text. -/
def bothKeys : Stored :=
  .record [("both", .list [.native (.string "x"), .key "y"]), ("name", .native (.string "x"))]

/-- The text is read back as a key in the list and as a text beside it; the record is put into the last
of five slots. -/
theorem both_keys_are_read_back : ∃ m', convert .initial (.external "arg" pointKeys) bothKeys {} =
      (.ok (.at 4), m') ∧
    m'.size = 5 ∧ (m'.value? (.at 4)).map m'.tree =
      some (.record [("both", some (.list [some (.key "x"), some (.key "y")])),
        ("name", some (.native (.string "x")))]) := by
  have hlist : (Stored.list [.native (.string "x"), .key "y"]).Keyed :=
    .list (List.forall_mem_cons.mpr ⟨.native, List.forall_mem_singleton.mpr .key⟩)
  have hkeyed : bothKeys.Keyed :=
    .record (by decide) (List.forall_mem_cons.mpr ⟨hlist, List.forall_mem_singleton.mpr .native⟩)
  obtain ⟨m', h⟩ : ∃ m', convert .initial (.external "arg" pointKeys) bothKeys {} =
    (.ok (.at 4), m') := ⟨_, rfl⟩
  obtain ⟨-, hsize, -, -, -, hread⟩ :=
    conversion_lays_out_parts_first .initial _ bothKeys {} .external hkeyed h
  exact ⟨m', h, hsize, hread⟩

end Conversion

end CellMachine
