import CellMachine.Proofs.Registry.Refusals
import CellMachine.Proofs.Standard.Declarations

/-!
No standard opcode is refused at load without being refused in a run. When a script is loaded, the
values of some arguments are known and those of others are not. What a check finds wrong then it finds
wrong in every run in which the known arguments have their values, whatever the others turn out to be.

A check that asks for less finds less, so it is shown that what passes in a run passed at load. Only a
lookup of a constant asks the registry, whose answers stand.
-/

namespace CellMachine

/-- One cell as it is seen at load and in a run. The source, the modules, the types and the bindings
are the same. A value that is known at load is there in the run, as far as it is native; nothing is said
of the values that are not known. -/
structure Foresees (f : Frame) (m : Memory) (f' : Frame) (m' : Memory) : Prop where
  source : f'.source = f.source
  modules : f'.modules = f.modules
  resultType : f'.resultType = f.resultType
  bindings : f'.bindings = f.bindings
  types : f'.args.map m'.typeOf = f.args.map m.typeOf
  values : ∀ i v, f.value? m i = some v →
    ∃ v', f'.value? m' i = some v' ∧ v'.asNative? = v.asNative?

namespace Foresees

variable {f f' : Frame} {m m' : Memory}

lemma args (h : Foresees f m f' m') (i : Nat) :
    f'.args[i]?.map m'.typeOf = f.args[i]?.map m.typeOf := by
  rw [← List.getElem?_map, ← List.getElem?_map, h.types]

lemma read {α : Type} (h : Foresees f m f' m') (g : Native → Option α) {i : Nat} {x : α}
    (hx : (f.value? m i).bind (fun v => v.asNative?.bind g) = some x) :
    (f'.value? m' i).bind (fun v => v.asNative?.bind g) = some x := by
  obtain ⟨v, hv, hvx⟩ := Option.bind_eq_some_iff.mp hx
  obtain ⟨v', hv', hnative⟩ := h.values i v hv
  rw [hv', Option.bind_some, hnative, hvx]

end Foresees

namespace Standard

variable {f f' : Frame} {m m' : Memory}

/-! ### Native arguments -/

/-- What passes in a run passes at load, where less is asked. -/
lemma checkNative_eq_none (h : Foresees f m f' m') {i : Nat} {expected : Ty} {evaluated : Bool}
    (hknown : evaluated = true → (f.value? m i).isSome = true)
    (hrun : checkNative f' m' i true expected = none) :
    checkNative f m i evaluated expected = none := by
  rw [checkNative_eq_none_iff, h.args i] at hrun
  obtain ⟨htype, -, hvalue⟩ := hrun
  refine checkNative_eq_none_iff.mpr ⟨htype, hknown, fun v hv => ?_⟩
  obtain ⟨v', hv', hnative⟩ := h.values i v hv
  exact hnative ▸ hvalue v' hv'

lemma checkNatives_eq_nil (h : Foresees f m f' m') {indices : List Nat} {expected : Ty}
    {evaluated : Bool} (hknown : evaluated = true → ∀ i ∈ indices, (f.value? m i).isSome = true)
    (hrun : checkNatives f' m' indices true expected = []) :
    checkNatives f m indices evaluated expected = [] := by
  rw [checkNatives, List.filterMap_eq_nil_iff] at hrun ⊢
  exact fun i hi => checkNative_eq_none h (fun he => hknown he i hi) (hrun i hi)

lemma checkNatives_load_eq_nil (h : Foresees f m f' m') {indices : List Nat} {expected : Ty}
    (hrun : checkNatives f' m' indices true expected = []) :
    checkNatives f m indices false expected = [] :=
  checkNatives_eq_nil h (fun hknown => absurd hknown Bool.false_ne_true) hrun

lemma checkBounds_eq_nil (h : Foresees f m f' m') (hrun : checkBounds f' m' true = []) :
    checkBounds f m false = [] := by
  have hnatives := checkNatives_of_checkBounds hrun
  obtain ⟨hstart, hstop⟩ := (checkBounds_eq hnatives rfl rfl).mp hrun
  have hload := checkNatives_load_eq_nil h hnatives
  refine (checkBounds_eq hload rfl rfl).mpr ⟨?_, ?_⟩
  · exact fun low hlow => hstart low (h.read _ hlow)
  · exact fun low hlow high hhigh => hstop low (h.read _ hlow) high (h.read _ hhigh)

/-! ### Constants by name -/

lemma findConstant_eq (h : Foresees f m f' m') : findConstant f' = findConstant f := by
  funext moduleName name types
  simp only [findConstant, noModule, noConstant, Frame.problem, h.modules, h.resultType, h.source]

lemma findConstant_cases (f : Frame) (moduleName name : String) :
    (∃ o, ∀ types, findConstant f moduleName name types = (o, types)) ∨ ∃ t, ∀ types,
      ((findConstant f moduleName name types).1 = .ok () ↔
        (types.matchTypes f.source t (some f.resultType)).1 = .ok ()) ∧
      (findConstant f moduleName name types).2 =
        (types.matchTypes f.source t (some f.resultType)).2 := by
  unfold findConstant
  cases f.modules.get? moduleName with
  | none => exact .inl ⟨_, fun _ => rfl⟩
  | some md =>
    dsimp only
    cases md.constants.get? name with
    | none => exact .inl ⟨_, fun _ => rfl⟩
    | some c =>
      dsimp only
      split
      · exact .inl ⟨_, fun _ => rfl⟩
      · refine .inr ⟨c.type, fun types => ?_⟩
        generalize types.matchTypes f.source c.type (some f.resultType) = r
        obtain ⟨_ | _, _⟩ := r
        · exact ⟨⟨nofun, nofun⟩, rfl⟩
        · exact ⟨Iff.rfl, rfl⟩

lemma found_of_found {types later : Registry} {moduleName name : String}
    (hstates : Registry.Interleaved (fun types => (findConstant f moduleName name types).2)
      (fun types => (findConstant f moduleName name types).2) types later)
    (hrun : (findConstant f moduleName name later).1 = .ok ()) :
    (findConstant f moduleName name types).1 = .ok () := by
  rcases findConstant_cases f moduleName name with ⟨o, ho⟩ | ⟨t, ht⟩
  · rw [ho] at hrun ⊢
    exact hrun
  · simp only [ht] at hstates hrun ⊢
    exact Registry.matches_of_matches hstates hrun

lemma checkNames_eq_nil_iff {types : Registry} : (checkNames f m types).1 = [] ↔
    checkNatives f m [0, 1] true string = [] ∧ ∃ moduleName name,
      stringArg f m 0 = some moduleName ∧ stringArg f m 1 = some name ∧
        (findConstant f moduleName name types).1 = .ok () := by
  constructor
  · intro hrun
    have hnatives : checkNatives f m [0, 1] true string = [] := by
      by_contra hne
      obtain ⟨found, heq, hfound⟩ := checkNames_of_none types (.inl hne)
      rw [heq] at hrun
      exact hfound hrun
    obtain ⟨hfirst, hsecond⟩ := checkNatives_pair.mp hnatives
    obtain ⟨moduleName, hmodule⟩ := exists_stringArg hfirst
    obtain ⟨name, hname⟩ := exists_stringArg hsecond
    refine ⟨hnatives, moduleName, name, hmodule, hname, ?_⟩
    rw [checkNames_of_strings types hnatives hmodule hname] at hrun
    cases hfound : (findConstant f moduleName name types).1 with
    | ok _ => rfl
    | error p =>
      rw [hfound] at hrun
      cases hrun
  · rintro ⟨hnatives, moduleName, name, hmodule, hname, hfound⟩
    rw [checkNames_of_strings types hnatives hmodule hname, hfound]

lemma checkNames_eq_nil (h : Foresees f m f' m') (hmodule : (f.value? m 0).isSome = true)
    (hname : (f.value? m 1).isSome = true) {types later : Registry}
    (hstates : Registry.Interleaved (fun types => (checkNames f m types).2)
      (fun types => (checkNames f' m' types).2) types later)
    (hrun : (checkNames f' m' later).1 = []) : (checkNames f m types).1 = [] := by
  obtain ⟨hnatives', moduleName', name', hmodule', hname', hfound⟩ :=
    checkNames_eq_nil_iff.mp hrun
  have hnatives : checkNatives f m [0, 1] true string = [] :=
    checkNatives_eq_nil h (fun _ => by simp [hmodule, hname]) hnatives'
  obtain ⟨hfirst, hsecond⟩ := checkNatives_pair.mp hnatives
  obtain ⟨moduleName, hmodule⟩ := exists_stringArg hfirst
  obtain ⟨name, hname⟩ := exists_stringArg hsecond
  cases hmodule'.symm.trans (h.read _ hmodule)
  cases hname'.symm.trans (h.read _ hname)
  simp only [checkNames_of_strings _ hnatives hmodule hname,
    checkNames_of_strings _ hnatives' hmodule' hname', findConstant_eq h] at hstates
  rw [findConstant_eq h] at hfound
  exact checkNames_eq_nil_iff.mpr
    ⟨hnatives, _, _, hmodule, hname, found_of_found hstates hfound⟩

lemma contains_of_found {types : Registry} {moduleName name : String}
    (h : (findConstant f moduleName name types).1 = .ok ()) :
    f.modules.contains moduleName = true := by
  rw [findConstant] at h
  cases hget : f.modules.get? moduleName with
  | none =>
    rw [hget] at h
    cases h
  | some md => rw [KeyMap.contains, hget, Option.isSome_some]

lemma checkModuleName_eq_nil (h : Foresees f m f' m') (hmodule : (f.value? m 0).isSome = true)
    {later : Registry} (hrun : (checkNames f' m' later).1 = []) : checkModuleName f m = [] := by
  obtain ⟨hnatives', moduleName', name', hmodule', -, hfound⟩ := checkNames_eq_nil_iff.mp hrun
  have hnative : checkNative f m 0 true string = none :=
    checkNative_eq_none h (fun _ => hmodule) (checkNatives_pair.mp hnatives').1
  obtain ⟨moduleName, hmodule⟩ := exists_stringArg hnative
  cases hmodule'.symm.trans (h.read _ hmodule)
  rw [findConstant_eq h] at hfound
  simp only [checkModuleName, hnative, hmodule, contains_of_found hfound, if_true]

lemma loadConst_eq_nil (h : Foresees f m f' m') {types later : Registry}
    (hstates : Registry.Interleaved (fun types => (loadConst.staticCheck f m types).2)
      (fun types => (checkNames f' m' types).2) types later)
    (hrun : (checkNames f' m' later).1 = []) : (loadConst.staticCheck f m types).1 = [] := by
  simp only [staticCheck_loadConst] at hstates ⊢
  cases hmodule : f.value? m 0 with
  | none => rfl
  | some v =>
    have hknown : (f.value? m 0).isSome = true := by rw [hmodule, Option.isSome_some]
    cases hname : f.value? m 1 with
    | none => exact checkModuleName_eq_nil h hknown hrun
    | some w =>
      rw [hmodule, hname] at hstates
      have hknown' : (f.value? m 1).isSome = true := by rw [hname, Option.isSome_some]
      exact checkNames_eq_nil h hknown hknown' hstates hrun

/-! ### The standard opcodes -/

/-- **No opcode is refused at load in vain.** If the check of a standard opcode finds something wrong
when a script is loaded, its check in a run does so too, whatever the values are that were not known at
load. The registry may be asked anything in between, and either check may come first. -/
theorem load_refusals_are_run_refusals {o : Opcode} (ho : o ∈ opcodes) (h : Foresees f m f' m')
    {types later : Registry}
    (hstates : Registry.Interleaved (fun types => (o.staticCheck f m types).2)
      (fun types => (o.runtimeCheck f' m' types).2) types later)
    (hload : (o.staticCheck f m types).1 ≠ []) : (o.runtimeCheck f' m' later).1 ≠ [] := by
  intro hrun
  apply hload
  simp only [opcodes, List.mem_cons, List.not_mem_nil, or_false] at ho
  rcases ho with rfl | rfl | rfl | rfl | rfl | rfl | rfl | rfl | rfl
  · exact checkNatives_load_eq_nil h hrun
  · exact checkNatives_load_eq_nil h hrun
  · rfl
  · rfl
  · exact checkNatives_load_eq_nil h hrun
  · rfl
  · exact checkBounds_eq_nil h hrun
  · rfl
  · exact loadConst_eq_nil h hstates hrun

namespace Sample

/-- A cell that takes a part of a list. -/
def part : Frame where
  source := none
  args := [.at 0, .at 1, .at 2]
  resultType := iterableOfT
  bindings := []
  modules := []

/-- The slots of a list and of the bounds of its part, of which the first is known to be negative. -/
def bounded (list stop : Option Value) : Memory where
  slots := #[⟨.external "list" iterableOfT, list⟩, ⟨.external "start" integer, some (.int (-1))⟩,
    ⟨.external "end" integer, stop⟩]

lemma foresees_bounded (list stop : Option Value) :
    Foresees part (bounded none none) part (bounded list stop) where
  source := rfl
  modules := rfl
  resultType := rfl
  bindings := rfl
  types := rfl
  values i v hv := by
    match i with
    | 0 => cases hv
    | 1 => exact ⟨v, hv, rfl⟩
    | 2 => cases hv
    | _ + 3 => cases hv

/-- A part that starts before the list is refused before its end is known. -/
theorem negative_start_is_refused :
    (slice.staticCheck part (bounded none none) .initial).1 ≠ [] ∧
    (slice.runtimeCheck part (bounded (some (.iterable (.flat #[]))) (some (.int 2)))
      ((Registry.Question.types none .metaType (some integer)).ask .initial)).1 ≠ [] := by
  have hload : (slice.staticCheck part (bounded none none) .initial).1 ≠ [] := by
    intro h
    have hempty : (slice.staticCheck part (bounded none none) .initial).1.isEmpty = false := by
      decide +kernel
    rw [h] at hempty
    cases hempty
  refine ⟨hload, load_refusals_are_run_refusals (by simp [opcodes]) (foresees_bounded _ _)
    (.inr (.inl (.single _ _))) hload⟩

end Sample

end Standard

end CellMachine
