import CellMachine.Proofs.Meaning.Opcodes
import CellMachine.Proofs.Safety.Compilation
import CellMachine.Proofs.Standard.Declarations

/-!
What a run relies on in an opcode: given arguments that are evaluated as declared, it comes to a value
made of slots it was given, to such slots, or to a problem that does not blame the machine. The standard
opcodes keep to it.
-/

namespace CellMachine

/-- What an evaluation may come to, with slots that have a property. -/
def Result.Safe (R : Address → Prop) : Result → Prop
  | .value v => v.Within R
  | .error p => p.cause.isOrdinary = true
  | .lazy a => R a
  | .reduce (.opcode _ context iterable initial) => (∀ a ∈ context, R a) ∧ R iterable ∧ R initial
  | .reduce (.function ..) => False

lemma Result.Safe.mono {R S : Address → Prop} (hRS : ∀ a, R a → S a) {r : Result} (h : r.Safe R) :
    r.Safe S := by
  cases r with
  | value v => exact Value.Within.mono hRS h
  | error p => exact h
  | lazy a => exact hRS a h
  | reduce r =>
    cases r with
    | opcode mnemonic context iterable initial =>
      exact ⟨fun a ha => hRS a (h.1 a ha), hRS _ h.2.1, hRS _ h.2.2⟩
    | function f first second contextKey context iterable initial => exact h

/-- A computation that leaves memory as it is and verdicts ordinary, and whose result has a property. -/
def Reading {α : Type} (memory : Memory) (x : StoreM α) (P : α → Prop) : Prop :=
  ∀ s, s.memory = memory → Registry.OrdinaryVerdicts s.types.verdicts →
    (x s).2.memory = memory ∧ Registry.OrdinaryVerdicts (x s).2.types.verdicts ∧ P (x s).1

namespace Reading

variable {α β : Type} {m : Memory} {x : StoreM α} {P : α → Prop}

lemma pure {a : α} (h : P a) : Reading m (pure a) P := fun _ hs ht => ⟨hs, ht, h⟩

lemma bind {f : α → StoreM β} {Q : β → Prop} (hx : Reading m x P)
    (hf : ∀ a, P a → Reading m (f a) Q) : Reading m (x >>= f) Q := by
  intro s hs ht
  obtain ⟨hs', ht', ha⟩ := hx s hs ht
  exact hf _ ha _ hs' ht'

lemma ofMemory {f : Memory → StoreM β} {Q : β → Prop} (hf : Reading m (f m) Q) :
    Reading m (StoreM.memory >>= f) Q := by
  rintro s rfl ht
  exact hf s rfl ht

lemma check {c : Check} (h : OrdinaryCheck (c m)) :
    Reading m (StoreM.check c) fun found => ∀ p ∈ found, p.cause.isOrdinary = true := by
  rintro s rfl ht
  obtain ⟨hfound, hverdicts⟩ := h s.types ht
  exact ⟨rfl, hverdicts, hfound⟩

end Reading

namespace Opcode

variable {op : Opcode} {f : Frame} {m : Memory}

/-- The arguments have values where the opcode asks for them. -/
def Served (op : Opcode) (f : Frame) (m : Memory) : Prop :=
  ∀ e ∈ op.signature.arguments.zip f.args, e.1.evaluation ≠ .lazy → m.isEvaluated e.2 = true

/-- What a frame leads to has a property: its arguments, their members at any depth, and constants. -/
structure Leads (R : Address → Prop) (f : Frame) (m : Memory) : Prop where
  args : ∀ a ∈ f.args, R a
  values : ∀ a v, R a → m.value? a = some v → v.Within R
  constants : ∀ moduleName name a, (m.lookup moduleName name).bind m.address? = some a → R a

/-- **What a run relies on** in an opcode. -/
structure Careful (op : Opcode) : Prop where
  keeps : op.KeepsTypes
  static : op.ChecksOrdinarily
  runtime : ∀ {f m}, op.Served f m → OrdinaryCheck (op.runtimeCheck f m)
  result : ∀ f v m, OrdinaryCheck (op.resultCheck f v m)
  evaluate : ∀ {R f m}, op.Served f m → Leads R f m →
    Reading m (op.evaluate f) (Result.Safe R)

lemma Served.evaluated (h : op.Served f m) {i : Nat} {d : Argument} {a : Address}
    (hd : op.signature.arguments[i]? = some d) (hlazy : d.evaluation ≠ .lazy)
    (ha : f.args[i]? = some a) : m.isEvaluated a = true := by
  have hin : (op.signature.arguments.zip f.args)[i]? = some (d, a) :=
    List.getElem?_zip_eq_some.mpr ⟨hd, ha⟩
  exact h (d, a) (List.mem_of_getElem? hin) hlazy

/-- The value of an argument is made of slots that the frame leads to. -/
lemma Leads.value? {R : Address → Prop} (h : Leads R f m) {i : Nat} {v : Value}
    (hv : f.value? m i = some v) : v.Within R := by
  obtain ⟨a, ha, hvalue⟩ := Option.bind_eq_some_iff.mp hv
  exact h.values a v (h.args a (List.mem_of_getElem? ha)) hvalue

end Opcode

lemma ordinaryCheck_pure {found : List Problem} (h : ∀ p ∈ found, p.cause.isOrdinary = true) :
    OrdinaryCheck (pure found) := fun _ ht => ⟨h, ht⟩

lemma ordinaryCheck_nil : OrdinaryCheck (pure []) := ordinaryCheck_pure (List.forall_mem_nil _)

namespace Standard

open Opcode

variable {f : Frame} {m : Memory} {R : Address → Prop}

/-! ### Native arguments -/

lemma ordinary_checkNative {index : Nat} {evaluated : Bool} {expected : Ty}
    (htag : expected.tag?.isSome = true)
    (hvalue : evaluated = true → ∀ a, f.args[index]? = some a → m.isEvaluated a = true) {p : Problem}
    (h : checkNative f m index evaluated expected = some p) : p.cause.isOrdinary = true := by
  obtain ⟨tag, htag⟩ := Option.isSome_iff_exists.mp htag
  unfold checkNative at h
  rw [htag] at h
  cases ha : f.args[index]? with
  | none =>
    rw [ha] at h
    cases h
    rfl
  | some a =>
    rw [ha] at h
    dsimp only at h
    split at h
    · split at h
      · next hnone =>
        split at h
        · next hevaluated =>
          have hsome := hvalue hevaluated a ha
          rw [Memory.isEvaluated, hnone] at hsome
          cases hsome
        · cases h
      · split at h
        · cases h
        · cases h
          rfl
      · cases h
        rfl
    · cases h
      rfl

lemma ordinary_checkNatives {indices : List Nat} {evaluated : Bool} {expected : Ty}
    (htag : expected.tag?.isSome = true)
    (hvalue : evaluated = true → ∀ i ∈ indices, ∀ a, f.args[i]? = some a → m.isEvaluated a = true) :
    ∀ p ∈ checkNatives f m indices evaluated expected, p.cause.isOrdinary = true := by
  intro p hp
  obtain ⟨i, hi, hcheck⟩ := List.mem_filterMap.mp hp
  exact ordinary_checkNative htag (fun hevaluated a ha => hvalue hevaluated i hi a ha) hcheck

lemma ordinary_refuse {problems : List Problem} (h : ∀ p ∈ problems, p.cause.isOrdinary = true) :
    (refuse f problems).Safe R := by
  cases problems with
  | nil => rfl
  | cons p rest => exact h p List.mem_cons_self

lemma ordinary_wrongFirst (expected : String) : (wrongFirst f m expected).Safe R := rfl

lemma evaluated_at {op : Opcode} (h : op.Served f m) {indices : List Nat}
    (hindices : ∀ i ∈ indices, ∃ d, op.signature.arguments[i]? = some d ∧ d.evaluation ≠ .lazy) :
    ∀ i ∈ indices, ∀ a, f.args[i]? = some a → m.isEvaluated a = true := by
  intro i hi a ha
  obtain ⟨d, hd, hlazy⟩ := hindices i hi
  exact h.evaluated hd hlazy ha

/-! ### Arithmetic -/

lemma careful_binary {α : Type} {mnemonic place : String} {type : Ty}
    {read : Frame → Memory → Nat → Option α} {combine : α → α → Value}
    (htag : type.tag?.isSome = true) (hcombine : ∀ x y, ∃ n, combine x y = .native n) :
    (binary mnemonic place type read combine).Careful := by
  have natives : ∀ {f m}, (binary mnemonic place type read combine).Served f m →
      ∀ p ∈ checkNatives f m [0, 1] true type, p.cause.isOrdinary = true := by
    intro f m h
    refine ordinary_checkNatives htag fun _ => evaluated_at h ?_
    rintro i hi
    rcases List.mem_pair.mp hi with rfl | rfl <;> exact ⟨_, rfl, nofun⟩
  constructor
  case keeps => exact fun _ _ _ => rfl
  case static => exact fun f m => ordinaryCheck_pure (ordinary_checkNatives htag nofun)
  case runtime => exact fun h => ordinaryCheck_pure (natives h)
  case result => exact fun _ _ _ => ordinaryCheck_nil
  case evaluate =>
    intro R f m h _
    refine .ofMemory ?_
    split
    · next x y _ _ =>
      obtain ⟨n, hn⟩ := hcombine x y
      rw [hn]
      exact .pure (.native n)
    · exact .pure (ordinary_refuse (natives h))

lemma careful_sum {mnemonic place adding : String} {type : Ty} :
    (sum mnemonic place adding type).Careful := by
  constructor
  case keeps => exact fun _ _ _ => rfl
  case static => exact fun _ _ => ordinaryCheck_nil
  case runtime => exact fun _ => ordinaryCheck_nil
  case result => exact fun _ _ _ => ordinaryCheck_nil
  case evaluate =>
    intro R f m _ hleads
    simp only [sum]
    split
    · next items initial rest hargs =>
      refine .pure ⟨(fun _ hc => by cases hc), hleads.args _ ?_, hleads.args _ ?_⟩ <;> rw [hargs]
      · exact List.mem_cons_self
      · exact List.mem_cons_of_mem _ List.mem_cons_self
    · exact .pure rfl

/-! ### Parts of values -/

lemma careful_peek : peek.Careful := by
  constructor
  case keeps => exact fun _ _ _ => rfl
  case static => exact fun _ _ => ordinaryCheck_nil
  case runtime => exact fun _ => ordinaryCheck_nil
  case result => exact fun _ _ _ => ordinaryCheck_nil
  case evaluate =>
    intro R f m _ hleads
    refine .ofMemory ?_
    split
    · exact .pure (ordinary_wrongFirst _)
    · next items hitems =>
      obtain ⟨v, hv, hvitems⟩ := Option.bind_eq_some_iff.mp hitems
      have hwithin := hleads.value? hv
      split
      · next a ha =>
        refine .pure ?_
        cases v <;> cases hvitems
        obtain - | - | - | ⟨hwf, hall⟩ := hwithin
        rw [Sequence.get?_eq hwf] at ha
        cases hfirst : items.toList[0]? with
        | some b =>
          rw [hfirst] at ha
          cases ha
          exact hall a (List.mem_of_getElem? hfirst)
        | none =>
          rw [hfirst] at ha
          exact hleads.args a (List.mem_of_getElem? ha)
      · exact .pure rfl

lemma careful_getKey : getKey.Careful := by
  constructor
  case keeps => exact fun _ _ _ => rfl
  case static => exact fun _ _ => ordinaryCheck_nil
  case runtime => exact fun _ => ordinaryCheck_nil
  case result => exact fun _ _ _ => ordinaryCheck_nil
  case evaluate =>
    intro R f m _ hleads
    refine .ofMemory ?_
    split
    · exact .pure (ordinary_wrongFirst _)
    · next members hmembers =>
      obtain ⟨v, hv, hvmembers⟩ := Option.bind_eq_some_iff.mp hmembers
      have hwithin := hleads.value? hv
      split
      · exact .pure rfl
      · next key _ =>
        split
        · next a ha =>
          refine .pure ?_
          cases v <;> cases hvmembers
          obtain - | - | - | - | hall := hwithin
          exact hall key a ha
        · exact .pure rfl

lemma ordinary_checkBounds {evaluated : Bool}
    (h : ∀ p ∈ checkNatives f m [1, 2] evaluated integer, p.cause.isOrdinary = true) :
    ∀ p ∈ checkBounds f m evaluated, p.cause.isOrdinary = true := by
  intro p hp
  unfold checkBounds at hp
  split at hp
  · rcases List.mem_append.mp hp with hp | hp
    · split at hp
      · split at hp
        · cases List.mem_singleton.mp hp
          rfl
        · cases hp
      · cases hp
    · split at hp
      · split at hp
        · cases List.mem_singleton.mp hp
          rfl
        · cases hp
      · cases hp
  · exact h p hp

lemma reading_sub {a : Address} {items : Sequence Address}
    (hv : m.value? a = some (.iterable items)) (hitems : (Value.iterable items).Within R)
    {low high : Nat} (hle : low ≤ high) (hhigh : high ≤ items.size) :
    Reading m (Build.sub a low high).run fun o => ∃ v, o = .ok v ∧ v.Within R := by
  rintro s rfl ht
  obtain - | - | - | ⟨hwf, hall⟩ := hitems
  obtain ⟨r, hr, hrwf, hpart⟩ := Sequence.sub_ok hwf hle hhigh
  have hrun : (Build.sub a low high).run s = _ := Build.run_sub hv hr
  rw [hrun]
  refine ⟨rfl, ht, _, rfl, .iterable hrwf fun b hb => hall b ?_⟩
  rw [hpart, List.extract_eq_take_drop] at hb
  exact List.mem_of_mem_drop (List.mem_of_mem_take hb)

lemma careful_slice : slice.Careful := by
  have bounds : ∀ {f m}, slice.Served f m → ∀ p ∈ checkBounds f m true, p.cause.isOrdinary = true := by
    intro f m h
    refine ordinary_checkBounds (ordinary_checkNatives rfl fun _ => evaluated_at h ?_)
    rintro i hi
    rcases List.mem_pair.mp hi with rfl | rfl <;> exact ⟨_, rfl, nofun⟩
  constructor
  case keeps => exact fun _ _ _ => rfl
  case static =>
    exact fun f m => ordinaryCheck_pure (ordinary_checkBounds (ordinary_checkNatives rfl nofun))
  case runtime => exact fun h => ordinaryCheck_pure (bounds h)
  case result => exact fun _ _ _ => ordinaryCheck_nil
  case evaluate =>
    intro R f m h hleads
    refine .ofMemory ?_
    split
    · next list items hlist hitems =>
      obtain ⟨v, hv, hvitems⟩ := Option.bind_eq_some_iff.mp hitems
      have hwithin := hleads.value? hv
      rw [Frame.value?, hlist, Option.bind_some] at hv
      split
      · split
        · exact .pure (ordinary_refuse (bounds h))
        · next start stop _ _ _ =>
          cases v <;> cases hvitems
          cases hspan : Span.resolve ⟨some start.toNatClampNeg, some stop⟩ items.size with
          | none => exact .pure (Value.within_ofList (List.forall_mem_nil _))
          | some span =>
            obtain ⟨low, high⟩ := span
            obtain ⟨hlt, hhigh⟩ := Span.bounds_of_resolve hspan
            refine (reading_sub hv hwithin hlt.le hhigh).bind fun o ho => ?_
            obtain ⟨v, rfl, hv⟩ := ho
            exact .pure hv
      · exact .pure (ordinary_refuse (bounds h))
    · exact .pure (ordinary_wrongFirst _)

/-! ### Constants by name -/

lemma ordinary_findConstant (moduleName name : String) {types : Registry}
    (ht : Registry.OrdinaryVerdicts types.verdicts) :
    Registry.OrdinaryOutcome (findConstant f moduleName name types).1 ∧
      Registry.OrdinaryVerdicts (findConstant f moduleName name types).2.verdicts := by
  unfold findConstant
  split
  · exact ⟨Registry.ordinary_error rfl, ht⟩
  · split
    · exact ⟨Registry.ordinary_error rfl, ht⟩
    · split
      · exact ⟨Registry.ordinary_ok (), ht⟩
      · next c _ _ =>
        obtain ⟨hfail, hverdicts⟩ :=
          Registry.ordinary_matchTypes ht f.source c.type (some f.resultType)
        generalize types.matchTypes f.source c.type (some f.resultType) = r at hfail hverdicts
        obtain ⟨o, types₁⟩ := r
        cases o with
        | ok u => exact ⟨Registry.ordinary_ok (), hverdicts⟩
        | error p =>
          refine ⟨Registry.ordinary_error ?_, hverdicts⟩
          exact hfail p rfl

lemma ordinary_checkNames
    (hvalue : ∀ i ∈ [0, 1], ∀ a, f.args[i]? = some a → m.isEvaluated a = true) :
    OrdinaryCheck (checkNames f m) := by
  intro types ht
  rw [checkNames_eq]
  split
  · next hnatives =>
    obtain ⟨hfirst, hsecond⟩ := checkNatives_pair.mp hnatives
    obtain ⟨moduleName, hmodule⟩ := exists_stringArg hfirst
    obtain ⟨name, hname⟩ := exists_stringArg hsecond
    rw [hmodule, hname]
    dsimp only
    obtain ⟨hfail, hverdicts⟩ := ordinary_findConstant (f := f) moduleName name ht
    generalize findConstant f moduleName name types = r at hfail hverdicts
    obtain ⟨o, types₁⟩ := r
    cases o with
    | ok u => exact ⟨List.forall_mem_nil _, hverdicts⟩
    | error p => exact ⟨List.forall_mem_singleton.mpr (hfail p rfl), hverdicts⟩
  · exact ⟨ordinary_checkNatives rfl fun _ => hvalue, ht⟩

lemma ordinary_staticCheck (f : Frame) (m : Memory) : OrdinaryCheck (loadConst.staticCheck f m) := by
  have known : ∀ {i v}, f.value? m i = some v →
      ∀ a, f.args[i]? = some a → m.isEvaluated a = true := by
    intro i v hv a ha
    rw [Frame.value?, ha, Option.bind_some] at hv
    rw [Memory.isEvaluated, hv]
    rfl
  intro types ht
  rw [staticCheck_loadConst]
  split
  · next v w hv hw =>
    refine ordinary_checkNames (fun i hi => ?_) types ht
    rcases List.mem_pair.mp hi with rfl | rfl
    · exact known hv
    · exact known hw
  · next v hv _ =>
    refine ⟨fun p hp => ?_, ht⟩
    unfold checkModuleName at hp
    split at hp
    · next q hq =>
      cases List.mem_singleton.mp hp
      exact ordinary_checkNative rfl (fun _ => known hv) hq
    · split at hp
      · split at hp
        · cases hp
        · cases List.mem_singleton.mp hp
          rfl
      · cases hp
  · exact ⟨List.forall_mem_nil _, ht⟩

lemma careful_loadConst : loadConst.Careful := by
  have names : ∀ {f m}, loadConst.Served f m → OrdinaryCheck (checkNames f m) := by
    intro f m h
    refine ordinary_checkNames (evaluated_at h ?_)
    rintro i hi
    rcases List.mem_pair.mp hi with rfl | rfl <;> exact ⟨_, rfl, nofun⟩
  constructor
  case keeps => exact onlyAsks_loadConst.keepsTypes
  case static => exact ordinary_staticCheck
  case runtime => exact names
  case result => exact fun _ _ _ => ordinaryCheck_nil
  case evaluate =>
    intro R f m h hleads
    refine .ofMemory ?_
    split
    · next moduleName name _ _ =>
      refine Reading.bind (P := Registry.OrdinaryOutcome) ?_ fun o ho => ?_
      · rintro s rfl ht
        obtain ⟨hfail, hverdicts⟩ := ordinary_findConstant (f := f) moduleName name ht
        exact ⟨rfl, hverdicts, hfail⟩
      cases o with
      | error p => exact .pure (ho p rfl)
      | ok u =>
        dsimp only
        split
        · next a ha => exact .pure (hleads.constants _ _ a ha)
        · exact .pure rfl
    · next hnone =>
      -- A name that cannot be read did not pass its check, which says what is wrong.
      rintro s rfl ht
      obtain ⟨hfound, hverdicts⟩ := names h s.types ht
      refine ⟨rfl, hverdicts, ?_⟩
      show ((checkNames f s.memory s.types).1.head?.getD _).cause.isOrdinary = true
      obtain ⟨found, hcheck, hne⟩ := checkNames_of_none (f := f) (m := s.memory) s.types (by
        by_contra hall
        push Not at hall
        obtain ⟨-, hmodule, hname⟩ := hall
        obtain ⟨moduleName, hmodule⟩ := Option.ne_none_iff_exists'.mp hmodule
        obtain ⟨name, hname⟩ := Option.ne_none_iff_exists'.mp hname
        exact hnone _ _ hmodule hname)
      rw [hcheck] at hfound ⊢
      cases found with
      | nil => exact absurd rfl hne
      | cons p rest => exact hfound p List.mem_cons_self

/-- **The standard opcodes are careful.** -/
lemma careful {op : Opcode} (hop : op ∈ opcodes) : op.Careful := by
  simp only [opcodes, List.mem_cons, List.not_mem_nil, or_false] at hop
  rcases hop with rfl | rfl | rfl | rfl | rfl | rfl | rfl | rfl | rfl
  · exact careful_binary rfl fun _ _ => ⟨_, rfl⟩
  · exact careful_binary rfl fun _ _ => ⟨_, rfl⟩
  · exact careful_sum
  · exact careful_sum
  · exact careful_binary rfl fun _ _ => ⟨_, rfl⟩
  · exact careful_peek
  · exact careful_slice
  · exact careful_getKey
  · exact careful_loadConst

end Standard

end CellMachine
