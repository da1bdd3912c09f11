import CellMachine.Proofs.Memory.Conversion
import CellMachine.Proofs.Registry.Comparison
import CellMachine.Proofs.Script.Loading

/-!
The directory of constants. A constant is entered under its module's name and its own, joined into one
identifier, and of the constants that share an identifier the one loaded last is found. Where no
module's name has a mark in it the two names can be told from the identifier, and the directory is
exact.
-/

namespace CellMachine

/-- The constants of modules with their modules' names, in the order in which they are loaded. -/
def definitions (modules : List Module) : List (String × String × Constant) :=
  modules.flatMap fun md => md.constants.map fun e => (md.name, e.1, e.2)

namespace Memory

variable {types : Registry} {defs : List (String × String × Constant)} {m m' : Memory}

/-- Of the constants with an identifier, the last. -/
def lastOf (defs : List (String × String × Constant)) (id : String) :
    Option (String × String × Constant) :=
  defs.reverse.find? fun d => constantId d.1 d.2.1 == id

lemma lastOf_concat (d : String × String × Constant) (id : String) :
    lastOf (defs ++ [d]) id = if constantId d.1 d.2.1 = id then some d else lastOf defs id := by
  rw [lastOf, List.reverse_concat, List.find?_cons]
  by_cases h : constantId d.1 d.2.1 = id
  · rw [if_pos h, h, beq_self_eq_true]
  · rw [if_neg h, beq_false_of_ne h, lastOf]

lemma mem_of_lastOf {id : String} {d : String × String × Constant} (h : lastOf defs id = some d) :
    d ∈ defs ∧ constantId d.1 d.2.1 = id := by
  rw [lastOf] at h
  have hid := List.find?_some h
  exact ⟨List.mem_reverse.mp (List.mem_of_find?_eq_some h), eq_of_beq hid⟩

lemma isSome_lastOf {d : String × String × Constant} (h : d ∈ defs) :
    (lastOf defs (constantId d.1 d.2.1)).isSome = true :=
  List.find?_isSome.mpr ⟨d, List.mem_reverse.mpr h, beq_self_eq_true _⟩

/-- The slot at an index is that of a constant: its cell bears the constant's two names, its type is
the registered one, and it holds the constant's value. -/
def Serves (m : Memory) (types : Registry) (i : Nat) (d : String × String × Constant) : Prop :=
  ∃ registered, types.get? d.2.2.type.name = some registered ∧
    registered.sameDefinition d.2.2.type = true ∧
    Conversion.Holds ⟨.constant d.1 d.2.1, registered, d.2.2.source⟩ d.2.2.value m (.at i)

/-- The directory leads from each identifier to the slot of the last constant that has it. -/
def Lists (types : Registry) (defs : List (String × String × Constant)) (m : Memory) : Prop :=
  ∀ id, Option.Rel (m.Serves types) (m.directory.get? id) (lastOf defs id)

lemma Serves.mono (h : ∀ a s, m.get? a = some s → m'.get? a = some s) {i : Nat}
    {d : String × String × Constant} (hi : m.Serves types i d) : m'.Serves types i d := by
  obtain ⟨registered, hregistered, hsame, j, hj, hcell, hvalue⟩ := hi
  obtain ⟨s, hs, hcell⟩ := Option.map_eq_some_iff.mp hcell
  refine ⟨registered, hregistered, hsame, j, hj, ?_, hvalue.mono h⟩
  rw [h _ s hs, Option.map_some, hcell]

lemma Lists.mono (h : m.Lists types defs) (hslots : ∀ a s, m.get? a = some s → m'.get? a = some s)
    (hdirectory : m'.directory = m.directory) : m'.Lists types defs := by
  intro id
  rw [hdirectory]
  have hid := h id
  generalize m.directory.get? id = o, lastOf defs id = o' at hid ⊢
  cases hid with
  | none => exact .none
  | some hserves => exact .some (hserves.mono hslots)

lemma Lists.enter (h : m.Lists types defs) (hslots : ∀ a s, m.get? a = some s → m'.get? a = some s)
    {d : String × String × Constant} {i : Nat}
    (hdirectory : m'.directory = m.directory.insert (constantId d.1 d.2.1) i)
    (hi : m'.Serves types i d) : m'.Lists types (defs ++ [d]) := by
  intro id
  rw [hdirectory, KeyMap.get?_insert, lastOf_concat]
  split
  · exact .some hi
  · have hid := h id
    generalize m.directory.get? id = o, lastOf defs id = o' at hid ⊢
    cases hid with
    | none => exact .none
    | some hserves => exact .some (hserves.mono hslots)

lemma Lists.loadConstant (h : m.Lists types defs) {moduleName name : String} {c : Constant}
    (hnone : (loadConstant types moduleName name c m).1 = []) :
    (loadConstant types moduleName name c m).2.Lists types (defs ++ [(moduleName, name, c)]) := by
  unfold Memory.loadConstant at hnone ⊢
  dsimp only at hnone ⊢
  cases hregistered : types.get? c.type.name with
  | none =>
    rw [hregistered] at hnone
    cases hnone
  | some registered =>
    rw [hregistered] at hnone
    dsimp only at hnone ⊢
    split at hnone
    · next hsame =>
      rw [if_pos hsame]
      have hgives : Conversion.Gives m _ (Conversion.convert types
          ⟨.constant moduleName name, registered, c.source⟩ c.value m) :=
        Conversion.gives_convert ⟨.constant moduleName name, registered, c.source⟩ c.value m
      generalize Conversion.convert types ⟨.constant moduleName name, registered, c.source⟩ c.value m
        = r at hnone hgives ⊢
      obtain ⟨o, m₁⟩ := r
      cases o with
      | error ps => exact absurd hnone (hgives.refused ps rfl).1
      | ok a =>
        have hover : m.Over m₁ := hgives.isOver
        obtain ⟨i, rfl, -⟩ := id (hgives.result a rfl)
        have hserves : m₁.Serves types i (moduleName, name, c) :=
          ⟨registered, hregistered, hsame, hgives.result _ rfl⟩
        apply h.enter (d := (moduleName, name, c)) (i := i)
        · exact hover.get?_of_some
        · exact congrArg (KeyMap.insert (constantId moduleName name) i) hover.directory
        · refine hserves.mono ?_
          exact fun _ _ hs => hs
    · cases hnone

lemma Lists.loadConstants {moduleName : String} {constants : List (String × Constant)}
    (h : m.Lists types defs) (hnone : (loadConstants types moduleName constants m).1 = []) :
    (loadConstants types moduleName constants m).2.Lists types
      (defs ++ constants.map fun e => (moduleName, e.1, e.2)) := by
  induction constants generalizing m defs with
  | nil => rwa [List.map_nil, List.append_nil]
  | cons e rest ih =>
    obtain ⟨name, c⟩ := e
    unfold Memory.loadConstants at hnone ⊢
    obtain ⟨hhere, hrest⟩ := List.append_eq_nil_iff.mp hnone
    have := ih (h.loadConstant hhere) hrest
    rwa [List.append_assoc] at this

lemma Lists.loadModules {seen : List String} {modules : List Module} (h : m.Lists types defs)
    (hnone : (loadModules types seen modules m).1 = []) :
    (loadModules types seen modules m).2.Lists types (defs ++ definitions modules) := by
  induction modules generalizing seen m defs with
  | nil => rwa [definitions, List.flatMap_nil, List.append_nil]
  | cons md rest ih =>
    unfold Memory.loadModules at hnone ⊢
    split at hnone
    · cases hnone
    · next hseen =>
      rw [if_neg hseen]
      obtain ⟨hhere, hrest⟩ := List.append_eq_nil_iff.mp hnone
      have := ih (h.loadConstants hhere) hrest
      rwa [List.append_assoc] at this

lemma lists_empty (types : Registry) : Lists types [] {} := fun _ => .none

lemma lists_ofModules {modules : List Module} (h : ofModules types modules = .ok m) :
    m.Lists types (definitions modules) := by
  unfold ofModules at h
  have hloaded : (Memory.loadModules types [] modules {}).1 = [] →
      (Memory.loadModules types [] modules {}).2.Lists types (definitions modules) :=
    (lists_empty types).loadModules
  generalize Memory.loadModules types [] modules {} = r at h hloaded
  obtain ⟨problems, m₁⟩ := r
  obtain ⟨hnone, rfl⟩ := unlessProblems_eq_ok_iff.mp h
  exact (hloaded hnone).mono (fun _ _ hs => hs) rfl

lemma rooted_ofModules {modules : List Module} (h : ofModules types modules = .ok m) : m.Rooted := by
  intro id i hi
  have hlists := lists_ofModules h id
  rw [hi] at hlists
  generalize lastOf (definitions modules) id = o at hlists
  obtain hserves | - := hlists
  obtain ⟨_, -, -, j, hj, hcell, -⟩ := hserves
  cases hj
  obtain ⟨slot, hslot, -⟩ := Option.map_eq_some_iff.mp hcell
  exact (Array.getElem?_eq_some_iff.mp (show m.slots[i]? = some slot from hslot)).1

lemma constantId_inj {moduleName name moduleName' name' : String} (h : '!' ∉ moduleName.toList)
    (h' : '!' ∉ moduleName'.toList) (hid : constantId moduleName name = constantId moduleName' name') :
    moduleName = moduleName' ∧ name = name' := Registry.pairKey_inj h h' hid

/-- **What is looked up under two names** is the slot of the constant loaded last of those with the
identifier of the two; where no module's name has a mark in it, that is the constant of these names,
and nothing is found without one. -/
theorem lookup_serves_last_loaded {modules : List Module} (h : ofModules types modules = .ok m)
    (moduleName name : String) :
    Option.Rel (m.Serves types) (m.lookup moduleName name)
        (lastOf (definitions modules) (constantId moduleName name)) ∧
      ('!' ∉ moduleName.toList → (∀ md ∈ modules, '!' ∉ md.name.toList) →
        ((m.lookup moduleName name).isSome = true ↔
            ∃ c, (moduleName, name, c) ∈ definitions modules) ∧
          ∀ i, m.lookup moduleName name = some i →
            ∃ c, (moduleName, name, c) ∈ definitions modules ∧
              m.Serves types i (moduleName, name, c)) := by
  have hrel := lists_ofModules h (constantId moduleName name)
  refine ⟨hrel, fun hname hmodules => ?_⟩
  have hexact : ∀ d, lastOf (definitions modules) (constantId moduleName name) = some d →
      ∃ c, d = (moduleName, name, c) ∧ (moduleName, name, c) ∈ definitions modules := by
    intro d hd
    obtain ⟨hmem, hid⟩ := mem_of_lastOf hd
    obtain ⟨md, hmd, hin⟩ := List.mem_flatMap.mp hmem
    obtain ⟨e, -, rfl⟩ := List.mem_map.mp hin
    obtain ⟨rfl, rfl⟩ := constantId_inj (hmodules md hmd) hname hid
    exact ⟨e.2, rfl, hmem⟩
  have hfound : ∀ i, m.lookup moduleName name = some i →
      ∃ c, (moduleName, name, c) ∈ definitions modules ∧ m.Serves types i (moduleName, name, c) := by
    intro i hi
    rw [← lookup, hi] at hrel
    generalize hlast : lastOf (definitions modules) (constantId moduleName name) = o at hrel
    obtain hserves | - := hrel
    obtain ⟨c, rfl, hmem⟩ := hexact _ hlast
    exact ⟨c, hmem, hserves⟩
  refine ⟨⟨fun hsome => ?_, fun hex => ?_⟩, hfound⟩
  · obtain ⟨i, hi⟩ := Option.isSome_iff_exists.mp hsome
    obtain ⟨c, hc, -⟩ := hfound i hi
    exact ⟨c, hc⟩
  · obtain ⟨c, hc⟩ := hex
    obtain ⟨d, hd⟩ := Option.isSome_iff_exists.mp (isSome_lastOf hc)
    rw [hd] at hrel
    generalize hlookup : m.directory.get? (constantId moduleName name) = o at hrel
    obtain hserves | - := hrel
    rw [lookup, hlookup]
    rfl

/-! ### Two names with one identifier -/

/-- Modules with a constant each, `c` of `a!b` and `b!c` of `a`. -/
def marked : List Module :=
  [⟨"a!b", [("c", ⟨Standard.integer, .native (.int 1), none⟩)], none⟩,
    ⟨"a", [("b!c", ⟨Standard.integer, .native (.int 2), none⟩)], none⟩]

/-- The names of the constant at an index. -/
def namesAt (m : Memory) (i : Nat) : Option (String × String) :=
  match (m.get? (.at i)).map fun s => s.cell.kind with
  | some (CellKind.constant moduleName name) => some (moduleName, name)
  | _ => none

/-- Whether the constant `c` of `a!b` is found at the slot of `b!c` of `a`. -/
def misled : Bool :=
  match Registry.initial.register Standard.integer with
  | .error _ => false
  | .ok types =>
    match ofModules types marked with
    | .error _ => false
    | .ok m => m.lookup "a!b" "c" == some 1 && m.namesAt 1 == some ("a", "b!c")

lemma misled_eq : misled = true := by decide +kernel

lemma exists_misled : ∃ types m, Registry.initial.register Standard.integer = .ok types ∧
    ofModules types marked = .ok m ∧ m.lookup "a!b" "c" = some 1 ∧
      m.namesAt 1 = some ("a", "b!c") := by
  have h := misled_eq
  unfold misled at h
  split at h
  · cases h
  · next types htypes =>
    split at h
    · cases h
    · next m hm =>
      obtain ⟨hlookup, hnames⟩ := Bool.and_eq_true_iff.mp h
      exact ⟨types, m, htypes, hm, eq_of_beq hlookup, eq_of_beq hnames⟩

lemma Serves.namesAt_eq {i : Nat} {d : String × String × Constant} (h : m.Serves types i d) :
    m.namesAt i = some (d.1, d.2.1) := by
  obtain ⟨registered, -, -, j, -, hcell, -⟩ := h
  obtain ⟨s, hs, hcell⟩ := Option.map_eq_some_iff.mp hcell
  rw [namesAt, hs, Option.map_some, hcell]

/-- What is found under `a!b` and `c` is the constant `b!c` of `a`, which was loaded last. -/
theorem lookup_serves_other_constant : ∃ types m, ofModules types marked = .ok m ∧
    Option.Rel (m.Serves types) (m.lookup "a!b" "c")
      (some ("a", "b!c", ⟨Standard.integer, .native (.int 2), none⟩)) := by
  obtain ⟨types, m, -, hm, -⟩ := exists_misled
  refine ⟨types, m, hm, ?_⟩
  have hlast : lastOf (definitions marked) (constantId "a!b" "c") =
      some ("a", "b!c", ⟨Standard.integer, .native (.int 2), none⟩) := by rfl
  exact hlast ▸ (lookup_serves_last_loaded hm "a!b" "c").1

/-- **Marks in names mislead**: a constant is not always found at its own slot. -/
theorem not_forall_lookup_exact : ¬ ∀ types modules m, types.Reached →
    ofModules types modules = .ok m → ∀ moduleName name i, m.lookup moduleName name = some i →
      ∃ c, (moduleName, name, c) ∈ definitions modules ∧ m.Serves types i (moduleName, name, c) := by
  intro hexact
  obtain ⟨types, m, htypes, hm, hlookup, hnames⟩ := exists_misled
  obtain ⟨c, -, hserves⟩ := hexact types marked m (.register .initial htypes) hm _ _ _ hlookup
  have hown := hserves.namesAt_eq.symm.trans hnames
  simp at hown

end Memory

end CellMachine
