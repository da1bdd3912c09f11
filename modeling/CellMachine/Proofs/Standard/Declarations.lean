import CellMachine.Proofs.Call.Agreement
import CellMachine.Opcode.Declaration
import CellMachine.Standard.Opcodes

/-!
What compilation relies on in the standard opcodes: the types they declare can be compared, and their
own checks see nothing but the slots of their arguments.
-/

namespace CellMachine

lemma Registry.run_bind {α β : Type} (x : StateM Registry α) (f : α → StateM Registry β)
    (types : Registry) : (x >>= f) types = f (x types).1 (x types).2 := rfl

namespace Standard

variable {reg : Registry} {modules : KeyMap String Module} {f : Frame} {m m' : Memory}

/-! ### Checks -/

/-- Two memories with the same slots of a frame's arguments. -/
def SameSlots (f : Frame) (m m' : Memory) : Prop := ∀ a ∈ f.args, m.get? a = m'.get? a

lemma SameSlots.value? (h : SameSlots f m m') (i : Nat) : f.value? m i = f.value? m' i := by
  unfold Frame.value?
  cases ha : f.args[i]? with
  | none => rfl
  | some a =>
    rw [Option.bind_some, Option.bind_some, Memory.value?, Memory.value?,
      h a (List.mem_of_getElem? ha)]

lemma SameSlots.checkNative (h : SameSlots f m m') (i : Nat) (evaluated : Bool) (expected : Ty) :
    Standard.checkNative f m i evaluated expected =
      Standard.checkNative f m' i evaluated expected := by
  unfold Standard.checkNative
  cases ha : f.args[i]? with
  | none => rfl
  | some a =>
    dsimp only
    rw [Memory.typeOf, Memory.typeOf, Memory.value?, Memory.value?, h a (List.mem_of_getElem? ha)]

lemma SameSlots.checkNatives (h : SameSlots f m m') (indices : List Nat) (evaluated : Bool)
    (expected : Ty) :
    Standard.checkNatives f m indices evaluated expected =
      Standard.checkNatives f m' indices evaluated expected := by
  unfold Standard.checkNatives
  simp only [h.checkNative]

lemma SameSlots.checkBounds (h : SameSlots f m m') (evaluated : Bool) :
    Standard.checkBounds f m evaluated = Standard.checkBounds f m' evaluated := by
  unfold Standard.checkBounds intArg
  rw [h.checkNatives, h.value? 1, h.value? 2]

/-- What an argument of a native type has to be: of this type or open, and if it is known or has to be, a
native value that the type admits. -/
lemma checkNative_eq_none_iff {i : Nat} {evaluated : Bool} {expected : Ty} :
    checkNative f m i evaluated expected = none ↔
      (∃ tag, expected.tag? = some tag ∧ ∃ t, f.args[i]?.map m.typeOf = some t ∧
        (t.isRuntimeDetermined = true ∨ t.tag? = some tag)) ∧
      (evaluated = true → (f.value? m i).isSome = true) ∧
      ∀ v, f.value? m i = some v → ∃ n, v.asNative? = some n ∧ expected.admits n = true := by
  unfold checkNative Frame.value?
  cases expected.tag? with
  | none => simp
  | some tag =>
    cases f.args[i]? with
    | none => simp
    | some a =>
      simp only [Option.some.injEq, exists_eq_left', Option.map_some, Option.bind_some,
        Bool.or_eq_true, beq_iff_eq]
      split
      · cases m.value? a with
        | none => cases evaluated <;> simp [*]
        | some v => cases v <;> simp [*, Value.asNative?]
      · simp [*]

lemma checkNatives_pair {m : Memory} {i j : Nat} {evaluated : Bool} {expected : Ty} :
    checkNatives f m [i, j] evaluated expected = [] ↔
      checkNative f m i evaluated expected = none ∧ checkNative f m j evaluated expected = none := by
  rw [checkNatives, List.filterMap_cons, List.filterMap_cons, List.filterMap_nil]
  cases checkNative f m i evaluated expected <;> cases checkNative f m j evaluated expected <;> simp

lemma checkNatives_of_checkBounds {m : Memory} {evaluated : Bool}
    (h : checkBounds f m evaluated = []) : checkNatives f m [1, 2] evaluated integer = [] := by
  cases hfound : checkNatives f m [1, 2] evaluated integer with
  | nil => rfl
  | cons p ps => simp [checkBounds, hfound] at h

lemma checkBounds_eq {m : Memory} {evaluated : Bool} {start stop : Option Int64}
    (hnatives : checkNatives f m [1, 2] evaluated integer = []) (hstart : intArg f m 1 = start)
    (hstop : intArg f m 2 = stop) :
    checkBounds f m evaluated = [] ↔ (∀ low ∈ start, 0 ≤ low.toInt) ∧
      ∀ low ∈ start, ∀ high ∈ stop, ¬ (0 ≤ high.toInt ∧ high.toInt < low.toInt) := by
  subst hstart hstop
  simp only [checkBounds, hnatives]
  cases intArg f m 1 with
  | none => simp
  | some low =>
    cases intArg f m 2 with
    | none => simp
    | some high => simp

lemma steady_of_pure {op : Opcode} {check : Frame → Memory → List Problem}
    (hop : op.staticCheck = fun f m => pure (check f m))
    (hcheck : ∀ f m m', SameSlots f m m' → check f m = check f m') : op.Steady reg modules := by
  intro f m m' types types' _ _ hslots ht ht'
  rw [hop]
  refine ⟨?_, ht, ht'⟩
  show check f m = [] ↔ check f m' = []
  rw [hcheck f m m' hslots]

/-! ### Constants by name -/

/-- Whether a constant is found depends on the modules and on the type of the result, and not on what is
remembered. -/
lemma findConstant_agree (tidy : reg.Tidy) {f f' : Frame} (hf : f'.modules = f.modules)
    (htype : f'.resultType = f.resultType) (hmodules : ModulesAgree reg f.modules)
    (hresult : reg.Agrees f.resultType) {types types' : Registry} (ht : reg.Recalls types)
    (ht' : reg.Recalls types') (moduleName name : String) :
    ((findConstant f moduleName name types).1 = .ok () ↔
      (findConstant f' moduleName name types').1 = .ok ()) ∧
      reg.Recalls (findConstant f moduleName name types).2 ∧
      reg.Recalls (findConstant f' moduleName name types').2 := by
  unfold findConstant
  rw [hf, htype]
  cases hmd : f.modules.get? moduleName with
  | none => exact ⟨⟨nofun, nofun⟩, ht, ht'⟩
  | some md =>
    dsimp only
    cases hc : md.constants.get? name with
    | none => exact ⟨⟨nofun, nofun⟩, ht, ht'⟩
    | some c =>
      dsimp only
      split
      · exact ⟨Iff.rfl, ht, ht'⟩
      · have hagrees := hmodules _ _ _ _ hmd hc
        obtain ⟨hiff, hrecalls⟩ := ht.matchTypes tidy (.inl hagrees) (.inl hresult) f.source
        obtain ⟨hiff', hrecalls'⟩ := ht'.matchTypes tidy (.inl hagrees) (.inl hresult) f'.source
        have hboth := hiff.trans hiff'.symm
        clear hiff hiff'
        generalize types.matchTypes f.source c.type (some f.resultType) = r at hboth hrecalls ⊢
        generalize types'.matchTypes f'.source c.type (some f.resultType) = r' at hboth hrecalls' ⊢
        obtain ⟨o, types₁⟩ := r
        obtain ⟨o', types₁'⟩ := r'
        cases o with
        | ok u =>
          cases o' with
          | ok u' => exact ⟨Iff.rfl, hrecalls, hrecalls'⟩
          | error q => cases hboth.mp rfl
        | error q =>
          cases o' with
          | ok u' => cases hboth.mpr rfl
          | error q' => exact ⟨⟨nofun, nofun⟩, hrecalls, hrecalls'⟩

/-- Whether a constant fits the type of its cell is asked if there is such a constant, and nothing else
is asked. -/
lemma findConstant_asks (moduleName name : String) (types : Registry) :
    (findConstant f moduleName name types).2 = types ∨ ∃ md c,
      f.modules.get? moduleName = some md ∧ md.constants.get? name = some c ∧
      (findConstant f moduleName name types).2 =
        (Registry.Question.types f.source c.type (some f.resultType)).ask types := by
  unfold findConstant
  cases hmd : f.modules.get? moduleName with
  | none => exact .inl rfl
  | some md =>
    dsimp only
    cases hc : md.constants.get? name with
    | none => exact .inl rfl
    | some c =>
      dsimp only
      split
      · exact .inl rfl
      · refine .inr ⟨md, c, rfl, hc, ?_⟩
        rw [Registry.Question.ask]
        generalize types.matchTypes f.source c.type (some f.resultType) = r
        obtain ⟨o, types₁⟩ := r
        cases o <;> rfl

/-- The check of a constant's names, by what is found. -/
lemma checkNames_eq (f : Frame) (m : Memory) (types : Registry) :
    checkNames f m types = match Standard.checkNatives f m [0, 1] true string with
      | [] =>
        match stringArg f m 0, stringArg f m 1 with
        | some moduleName, some name =>
          match findConstant f moduleName name types with
          | (.ok _, types) => ([], types)
          | (.error p, types) => ([p], types)
        | _, _ => ([f.problem .nonEvaluatedValue], types)
      | problems => (problems, types) := by
  unfold checkNames
  cases Standard.checkNatives f m [0, 1] true string with
  | cons p ps => rfl
  | nil =>
    cases stringArg f m 0 with
    | none => rfl
    | some moduleName =>
      cases stringArg f m 1 with
      | none => rfl
      | some name =>
        simp only [Registry.run_bind]
        generalize findConstant f moduleName name types = r
        obtain ⟨o, types₁⟩ := r
        cases o <;> rfl

lemma exists_stringArg {index : Nat} (h : checkNative f m index true string = none) :
    ∃ s, stringArg f m index = some s := by
  obtain ⟨-, hknown, hvalue⟩ := checkNative_eq_none_iff.mp h
  obtain ⟨v, hv⟩ := Option.isSome_iff_exists.mp (hknown rfl)
  obtain ⟨n, hn, hadmits⟩ := hvalue v hv
  rw [stringArg, hv, Option.bind_some, Value.asString?, hn, Option.bind_some]
  cases n with
  | string s => exact ⟨s, rfl⟩
  | _ =>
    revert hadmits
    simp [Ty.admits, string, NativeView.is, NativeView.kind, Native.view]

lemma checkNames_of_strings {m : Memory} (types : Registry) {moduleName name : String}
    (hnatives : checkNatives f m [0, 1] true string = [])
    (hmodule : stringArg f m 0 = some moduleName) (hname : stringArg f m 1 = some name) :
    checkNames f m types = (match (findConstant f moduleName name types).1 with
      | .ok _ => []
      | .error q => [q], (findConstant f moduleName name types).2) := by
  rw [checkNames_eq, hnatives, hmodule, hname]
  dsimp only
  rcases findConstant f moduleName name types with ⟨o, types'⟩
  cases o <;> rfl

lemma checkNames_of_none {m : Memory} (types : Registry)
    (h : checkNatives f m [0, 1] true string ≠ [] ∨ stringArg f m 0 = none ∨
      stringArg f m 1 = none) : ∃ found, checkNames f m types = (found, types) ∧ found ≠ [] := by
  rw [checkNames_eq]
  cases hnatives : checkNatives f m [0, 1] true string with
  | cons q found => exact ⟨_, rfl, nofun⟩
  | nil =>
    cases hmodule : stringArg f m 0 with
    | none => exact ⟨_, rfl, nofun⟩
    | some moduleName =>
      cases hname : stringArg f m 1 with
      | none => exact ⟨_, rfl, nofun⟩
      | some name =>
        rw [hnatives, hmodule, hname] at h
        simp at h

lemma checkNames_agree (tidy : reg.Tidy) (hmodules : ModulesAgree reg f.modules)
    (hresult : reg.Agrees f.resultType) {types types' : Registry} (ht : reg.Recalls types)
    (ht' : reg.Recalls types') :
    ((checkNames f m types).1 = [] ↔ (checkNames f m types').1 = []) ∧
      reg.Recalls (checkNames f m types).2 ∧ reg.Recalls (checkNames f m types').2 := by
  rw [checkNames_eq, checkNames_eq]
  split
  · split
    · next moduleName name _ _ =>
      have hagree := findConstant_agree tidy rfl rfl hmodules hresult ht ht' moduleName name
      generalize findConstant f moduleName name types = r at hagree ⊢
      generalize findConstant f moduleName name types' = r' at hagree ⊢
      obtain ⟨o, types₁⟩ := r
      obtain ⟨o', types₁'⟩ := r'
      obtain ⟨hiff, hrecalls, hrecalls'⟩ := hagree
      cases o with
      | ok u =>
        cases o' with
        | ok u' => exact ⟨Iff.rfl, hrecalls, hrecalls'⟩
        | error q => cases hiff.mp rfl
      | error q =>
        cases o' with
        | ok u' => cases hiff.mpr rfl
        | error q' => exact ⟨⟨nofun, nofun⟩, hrecalls, hrecalls'⟩
    · exact ⟨⟨nofun, nofun⟩, ht, ht'⟩
  · exact ⟨Iff.rfl, ht, ht'⟩

lemma staticCheck_loadConst (f : Frame) (m : Memory) (types : Registry) :
    loadConst.staticCheck f m types = match f.value? m 0, f.value? m 1 with
      | some _, some _ => checkNames f m types
      | some _, none => (checkModuleName f m, types)
      | none, _ => ([], types) := by
  show (match f.value? m 0, f.value? m 1 with
    | some _, some _ => checkNames f m
    | some _, none => pure (checkModuleName f m)
    | none, _ => pure [] : StateM Registry (List Problem)) types = _
  cases f.value? m 0 with
  | none => rfl
  | some v => cases f.value? m 1 <;> rfl

lemma SameSlots.staticCheck (h : SameSlots f m m') (types : Registry) :
    loadConst.staticCheck f m types = loadConst.staticCheck f m' types := by
  have hnames : checkNames f m types = checkNames f m' types := by
    rw [checkNames_eq, checkNames_eq, h.checkNatives]
    unfold stringArg
    rw [h.value? 0, h.value? 1]
  have hmodule : checkModuleName f m = checkModuleName f m' := by
    unfold checkModuleName stringArg
    rw [h.checkNative, h.value? 0]
  rw [staticCheck_loadConst, staticCheck_loadConst, h.value? 0, h.value? 1, hnames, hmodule]

lemma steady_loadConst (tidy : reg.Tidy) (hmodules : ModulesAgree reg modules) :
    loadConst.Steady reg modules := by
  intro f m m' types types' hf hresult hslots ht ht'
  subst hf
  rw [SameSlots.staticCheck hslots, staticCheck_loadConst, staticCheck_loadConst]
  split
  · exact checkNames_agree tidy hmodules hresult ht ht'
  · exact ⟨Iff.rfl, ht, ht'⟩
  · exact ⟨Iff.rfl, ht, ht'⟩

lemma loadConst_asks (f : Frame) (m : Memory) (types : Registry) :
    (loadConst.staticCheck f m types).2 = types ∨ ∃ moduleName md name c,
      f.modules.get? moduleName = some md ∧ md.constants.get? name = some c ∧
      (loadConst.staticCheck f m types).2 =
        (Registry.Question.types f.source c.type (some f.resultType)).ask types := by
  rw [staticCheck_loadConst]
  split
  · rw [checkNames_eq]
    split
    · split
      · next moduleName name _ _ =>
        have hasks := findConstant_asks (f := f) moduleName name types
        generalize findConstant f moduleName name types = r at hasks ⊢
        obtain ⟨o, types₁⟩ := r
        refine hasks.imp (fun h => ?_) ?_
        · cases o <;> exact h
        · rintro ⟨md, c, hmd, hc, h⟩
          refine ⟨moduleName, md, name, c, hmd, hc, ?_⟩
          cases o <;> exact h
      · exact .inl rfl
    · exact .inl rfl
  · exact .inl rfl
  · exact .inl rfl

lemma onlyAsks_loadConst : loadConst.OnlyAsks := by
  intro f m types
  rcases loadConst_asks f m types with h | ⟨_, _, _, _, _, _, h⟩
  · rw [h]
    exact .refl _
  · rw [h]
    exact .single _ _

/-! ### Declared types -/

/-- The finite lists that sums are declared for. -/
def finiteList (type : Ty) (place : String) : Ty :=
  .iterable ("finite-" ++ type.name ++ "-list") (some (.core place)) (.inline type) .finite

/-- The types that the standard opcodes declare, apart from generics and what is made of them. -/
def declaredTypes : List Ty :=
  [integer, number, string, .runtimeDetermined, finiteList integer "core.integers.sum",
    finiteList number "core.numbers.sum"]

lemma agrees_declaredTypes {reg : Registry}
    (h : ∀ t ∈ declaredTypes, ∃ v, reg.get? t.name = some v ∧ v.sameDefinition t = true) :
    ∀ t ∈ declaredTypes, reg.Agrees t := by
  have leaf : ∀ t ∈ declaredTypes, t.refs = [] → reg.Agrees t := by
    intro t ht hrefs u hu
    cases hu with
    | refl => exact h t ht
    | inline hin _ =>
      rw [hrefs] at hin
      cases hin
  have list : ∀ t ∈ declaredTypes, ∀ e ∈ declaredTypes, e.refs = [] →
      t.refs = [.inline e] → reg.Agrees t := by
    intro t ht e he hleaf hrefs u hu
    cases hu with
    | refl => exact h t ht
    | inline hin hu =>
      rw [hrefs] at hin
      cases List.mem_singleton.mp hin
      exact leaf e he hleaf u hu
  have hinteger : integer ∈ declaredTypes := by simp [declaredTypes]
  have hnumber : number ∈ declaredTypes := by simp [declaredTypes]
  intro t ht
  have hin := ht
  simp only [declaredTypes, List.mem_cons, List.not_mem_nil, or_false] at hin
  rcases hin with rfl | rfl | rfl | rfl | rfl | rfl
  · exact leaf _ ht rfl
  · exact leaf _ ht rfl
  · exact leaf _ ht rfl
  · exact leaf _ ht rfl
  · exact list _ ht _ hinteger rfl rfl
  · exact list _ ht _ hnumber rfl rfl

lemma exists_declared {t : Ty} (ht : t ∈ declaredTypes) :
    ∃ op ∈ opcodes, .inline t ∈ op.signature.declared ∧ t.isConcrete = true := by
  simp only [declaredTypes, List.mem_cons, List.not_mem_nil, or_false] at ht
  rcases ht with rfl | rfl | rfl | rfl | rfl | rfl
  · exact ⟨addIntegers, by simp [opcodes], List.mem_cons_self, rfl⟩
  · exact ⟨addNumbers, by simp [opcodes], List.mem_cons_self, rfl⟩
  · exact ⟨concatStrings, by simp [opcodes], List.mem_cons_self, rfl⟩
  · exact ⟨loadConst, by simp [opcodes], List.mem_append_right _ List.mem_cons_self, rfl⟩
  · exact ⟨sumIntegers, by simp [opcodes], List.mem_cons_self, rfl⟩
  · exact ⟨sumNumbers, by simp [opcodes], List.mem_cons_self, rfl⟩

lemma declared_cases {op : Opcode} (hop : op ∈ opcodes) : ∀ r ∈ op.signature.declared,
    (∃ t ∈ declaredTypes, r = .inline t) ∨ (∃ id hint, r = .generic id hint) ∨
      r = .inline iterableOfT ∨ r = .inline keyOfS := by
  let P : TyRef → Prop := fun r => (∃ t ∈ declaredTypes, r = .inline t) ∨
    (∃ id hint, r = .generic id hint) ∨ r = .inline iterableOfT ∨ r = .inline keyOfS
  have concrete : ∀ {t}, t ∈ declaredTypes → P (.inline t) := fun ht => .inl ⟨_, ht, rfl⟩
  have hinteger := concrete (t := integer) (by simp [declaredTypes])
  have hnumber := concrete (t := number) (by simp [declaredTypes])
  have hstring := concrete (t := string) (by simp [declaredTypes])
  have hopen := concrete (t := .runtimeDetermined) (by simp [declaredTypes])
  have hintegers := concrete (t := finiteList integer "core.integers.sum") (by simp [declaredTypes])
  have hnumbers := concrete (t := finiteList number "core.numbers.sum") (by simp [declaredTypes])
  have generic : ∀ {id hint}, P (.generic id hint) := .inr (.inl ⟨_, _, rfl⟩)
  have hlist : P (.inline iterableOfT) := .inr (.inr (.inl rfl))
  have hkey : P (.inline keyOfS) := .inr (.inr (.inr rfl))
  have next : ∀ {r l}, P r → (∀ r ∈ l, P r) → ∀ r' ∈ r :: l, P r' := fun hr hl =>
    List.forall_mem_cons.mpr ⟨hr, hl⟩
  simp only [opcodes, List.mem_cons, List.not_mem_nil, or_false] at hop
  rcases hop with rfl | rfl | rfl | rfl | rfl | rfl | rfl | rfl | rfl
  · exact next hinteger (next hinteger (next hinteger nofun))
  · exact next hnumber (next hnumber (next hnumber nofun))
  · exact next hintegers (next hinteger (next hinteger nofun))
  · exact next hnumbers (next hnumber (next hnumber nofun))
  · exact next hstring (next hstring (next hstring nofun))
  · exact next hlist (next generic (next generic nofun))
  · exact next hlist (next hinteger (next hinteger (next hlist nofun)))
  · exact next generic (next hkey (next generic nofun))
  · exact next hstring (next hstring (next hopen nofun))

lemma check_signature {op : Opcode} (hop : op ∈ opcodes) (reg : Registry) :
    op.signature.check reg = [] := by
  simp only [opcodes, List.mem_cons, List.not_mem_nil, or_false] at hop
  -- The walk through a type is recursive in what is left to visit, and has to be unfolded.
  rcases hop with rfl | rfl | rfl | rfl | rfl | rfl | rfl | rfl | rfl <;> with_unfolding_all rfl

lemma declarable (h : ∀ t ∈ declaredTypes, reg.Agrees t) {op : Opcode} (hop : op ∈ opcodes) :
    ∀ r ∈ op.signature.declared, Binding.Declarable reg r := by
  intro r hr
  rcases declared_cases hop r hr with ⟨t, ht, rfl⟩ | ⟨id, hint, rfl⟩ | rfl | rfl
  · refine .concrete (h t ht) ?_
    simp only [declaredTypes, List.mem_cons, List.not_mem_nil, or_false] at ht
    rcases ht with rfl | rfl | rfl | rfl | rfl | rfl <;> simp [Ty.refs, integer, number, string,
      Ty.runtimeDetermined, finiteList, TyRef.isGeneric]
  · exact .generic id hint
  · exact .iterable _ _ _
  · exact .keyOf _ _ _

lemma staticCheck_cases {op : Opcode} (hop : op ∈ opcodes) : op = loadConst ∨
    ∃ check : Frame → Memory → List Problem, (op.staticCheck = fun f m => pure (check f m)) ∧
      ∀ f m m', SameSlots f m m' → check f m = check f m' := by
  have natives : ∀ {op : Opcode} type, op.staticCheck = nativesCheck [0, 1] false type →
      ∃ check : Frame → Memory → List Problem, (op.staticCheck = fun f m => pure (check f m)) ∧
        ∀ f m m', SameSlots f m m' → check f m = check f m' := fun type h =>
    ⟨fun f m => checkNatives f m [0, 1] false type, h, fun _ _ _ hslots =>
      hslots.checkNatives _ _ _⟩
  have unchecked : ∀ {op : Opcode}, op.staticCheck = (fun _ _ => pure []) →
      ∃ check : Frame → Memory → List Problem, (op.staticCheck = fun f m => pure (check f m)) ∧
        ∀ f m m', SameSlots f m m' → check f m = check f m' := fun h =>
    ⟨fun _ _ => [], h, fun _ _ _ _ => rfl⟩
  simp only [opcodes, List.mem_cons, List.not_mem_nil, or_false] at hop
  rcases hop with rfl | rfl | rfl | rfl | rfl | rfl | rfl | rfl | rfl
  · exact .inr (natives integer rfl)
  · exact .inr (natives number rfl)
  · exact .inr (unchecked rfl)
  · exact .inr (unchecked rfl)
  · exact .inr (natives string rfl)
  · exact .inr (unchecked rfl)
  · exact .inr ⟨fun f m => checkBounds f m false, rfl, fun _ _ _ hslots => hslots.checkBounds false⟩
  · exact .inr (unchecked rfl)
  · exact .inl rfl

lemma steady (tidy : reg.Tidy) (hmodules : ModulesAgree reg modules) {op : Opcode}
    (hop : op ∈ opcodes) : op.Steady reg modules := by
  rcases staticCheck_cases hop with rfl | ⟨check, hcheck, hsame⟩
  · exact steady_loadConst tidy hmodules
  · exact steady_of_pure hcheck hsame

lemma onlyAsks {op : Opcode} (hop : op ∈ opcodes) : op.OnlyAsks := by
  rcases staticCheck_cases hop with rfl | ⟨check, hcheck, -⟩
  · exact onlyAsks_loadConst
  · intro f m types
    rw [hcheck]
    exact .refl _

lemma keepsTypes {op : Opcode} (hop : op ∈ opcodes) : op.KeepsTypes := (onlyAsks hop).keepsTypes

/-- **The standard opcodes are regular.** -/
lemma regular (tidy : reg.Tidy) (hmodules : ModulesAgree reg modules)
    (h : ∀ t ∈ declaredTypes, reg.Agrees t) {op : Opcode} (hop : op ∈ opcodes) :
    op.Regular reg modules := by
  have hdeclared := declarable h hop
  have hgenerics : ∀ g ∈ op.signature.generics, g.fromArgument = none := by
    simp only [opcodes, List.mem_cons, List.not_mem_nil, or_false] at hop
    rcases hop with rfl | rfl | rfl | rfl | rfl | rfl | rfl | rfl | rfl <;> decide
  refine ⟨fun a ha => hdeclared _ ?_, hdeclared _ ?_, hgenerics, steady tidy hmodules hop,
    keepsTypes hop⟩
  · exact List.mem_append_left _ (List.mem_map_of_mem ha)
  · exact List.mem_append_right _ List.mem_cons_self

lemma resultCheck_eq {op : Opcode} (hop : op ∈ opcodes) : op.resultCheck = fun _ _ _ => pure [] := by
  simp only [opcodes, List.mem_cons, List.not_mem_nil, or_false] at hop
  rcases hop with rfl | rfl | rfl | rfl | rfl | rfl | rfl | rfl | rfl <;> rfl

lemma mem_opcodes {mnemonic : String} {op : Opcode}
    (h : (Opcodes.ofList opcodes).get? mnemonic = some op) : op ∈ opcodes := by
  obtain ⟨op', hop, heq⟩ := List.mem_map.mp (KeyMap.mem_of_get?_ofList h)
  cases heq
  exact hop

end Standard

end CellMachine
