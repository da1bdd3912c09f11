import CellMachine.Proofs.Meaning.Opcodes
import CellMachine.Proofs.Tandem.Slots

/-!
The standard opcodes on two machines side by side: what one of them checks and evaluates to for slots,
the other does for the slots that these are paired with.
-/

namespace CellMachine

namespace Tandem

variable {T : Tandem} {D : Nat → Nat → Prop} {m n : Machine} {f f' : Frame}

/-- Frames of paired arguments. -/
structure SameFrame (T : Tandem) (D : Nat → Nat → Prop) (f f' : Frame) : Prop where
  args : List.Forall₂ (Paired D) f.args f'.args
  type : f'.resultType = f.resultType
  agrees : T.types.Agrees f.resultType
  modules : f.modules = T.modules
  modules' : f'.modules = T.modules

/-- The opcodes that fold lists in a tandem. -/
def Folds (T : Tandem) (mnemonic : String) : Prop :=
  mnemonic = "iadd" ∨ mnemonic = "nadd" ∧ T.following.reduceStrategy ≠ .pairwise

/-- The opcodes that are applied in a tandem. -/
structure Allows (T : Tandem) (op : Opcode) : Prop where
  standard : op ∈ Standard.opcodes
  sums : T.following.reduceStrategy = .pairwise → op.mnemonic ≠ "nsum"

/-- Results that differ in nothing but slots. -/
inductive SameResult (T : Tandem) (D : Nat → Nat → Prop) : Result → Result → Prop
  | value {v w : Value} (h : T.Alike D v w) : SameResult T D (.value v) (.value w)
  | lazy {a b : Address} (h : Paired D a b) : SameResult T D (.lazy a) (.lazy b)
  | reduce {mnemonic : String} {items items' initial initial' : Address} (hfolds : T.Folds mnemonic)
    (hitems : Paired D items items') (hinitial : Paired D initial initial') :
    SameResult T D (.reduce (.opcode mnemonic none items initial))
      (.reduce (.opcode mnemonic none items' initial'))

/-- A check that finds nothing on one side finds nothing on the other. -/
def ChecksAlike (T : Tandem) (op : Opcode) : Prop :=
  ∀ ⦃D m n f f'⦄, T.Abreast D m n → T.SameFrame D f f' →
    T.types.Recalls (op.runtimeCheck f m.store.memory m.store.types).2 ∧
    T.types.Recalls (op.runtimeCheck f' n.store.memory n.store.types).2 ∧
    ((op.runtimeCheck f m.store.memory m.store.types).1 = [] →
      (op.runtimeCheck f' n.store.memory n.store.types).1 = [])

/-- An evaluation that does not fail on one side comes to the same on the other, and adds nothing but
verdicts. -/
def EvaluatesAlike (T : Tandem) (op : Opcode) : Prop :=
  ∀ ⦃D m n f f'⦄, T.Abreast D m n → T.SameFrame D f f' →
    (∃ q, (op.evaluate f m.store).1 = .error q) ∨
    ∃ types types', T.types.Recalls types ∧ T.types.Recalls types' ∧
      (op.evaluate f m.store).2 = { m.store with types } ∧
      (op.evaluate f' n.store).2 = { n.store with types := types' } ∧
      T.SameResult D (op.evaluate f m.store).1 (op.evaluate f' n.store).1

/-! ### Arguments -/

lemma SameFrame.arg (hf : T.SameFrame D f f') (i : Nat) :
    Option.Rel (Paired D) f.args[i]? f'.args[i]? := by
  have hargs := hf.args
  generalize f.args = as at hargs
  generalize f'.args = bs at hargs
  induction hargs generalizing i with
  | nil => exact .none
  | cons hab _ ih =>
    cases i with
    | zero => exact .some hab
    | succ i => exact ih i

lemma SameFrame.value? (hf : T.SameFrame D f f') (h : T.Abreast D m n) (i : Nat) :
    Option.Rel (T.Alike D) (f.value? m.store.memory i) (f'.value? n.store.memory i) := by
  have harg := hf.arg i
  unfold Frame.value?
  generalize f.args[i]? = o at harg
  generalize f'.args[i]? = o' at harg
  cases harg with
  | none => exact .none
  | some hab => exact h.value? hab

lemma SameFrame.native (hf : T.SameFrame D f f') (h : T.Abreast D m n) (i : Nat) :
    (f'.value? n.store.memory i).bind Value.asNative? =
      (f.value? m.store.memory i).bind Value.asNative? := by
  have hvalue := hf.value? h i
  generalize f.value? m.store.memory i = o at hvalue
  generalize f'.value? n.store.memory i = o' at hvalue
  cases hvalue with
  | none => rfl
  | some hvw => exact hvw.asNative?

lemma SameFrame.read {α : Type} (hf : T.SameFrame D f f') (h : T.Abreast D m n)
    {read : Frame → Memory → Nat → Option α} (extract : Native → Option α)
    (hread : ∀ f m i, read f m i = (f.value? m i).bind fun v => v.asNative?.bind extract) (i : Nat) :
    read f' n.store.memory i = read f m.store.memory i := by
  have hnative := congrArg (Option.bind · extract) (hf.native h i)
  simpa only [hread, Option.bind_assoc] using hnative

lemma SameFrame.intArg (hf : T.SameFrame D f f') (h : T.Abreast D m n) (i : Nat) :
    Standard.intArg f' n.store.memory i = Standard.intArg f m.store.memory i :=
  hf.read h Native.asInt? (fun _ _ _ => rfl) i

lemma SameFrame.stringArg (hf : T.SameFrame D f f') (h : T.Abreast D m n) (i : Nat) :
    Standard.stringArg f' n.store.memory i = Standard.stringArg f m.store.memory i :=
  hf.read h Native.asString? (fun _ _ _ => rfl) i

lemma SameFrame.checkNative (hf : T.SameFrame D f f') (h : T.Abreast D m n) (i : Nat)
    (expected : Ty) :
    (Standard.checkNative f' n.store.memory i true expected).isSome =
      (Standard.checkNative f m.store.memory i true expected).isSome := by
  have harg := hf.arg i
  unfold Standard.checkNative
  generalize f.args[i]? = o at harg
  generalize f'.args[i]? = o' at harg
  cases harg with
  | none => cases expected.tag? <;> rfl
  | some hab =>
    cases expected.tag? with
    | none => rfl
    | some tag =>
      have hvalue := h.value? hab
      simp only [h.typeOf hab]
      split
      · generalize m.store.memory.value? _ = v at hvalue
        generalize n.store.memory.value? _ = w at hvalue
        cases hvalue with
        | none => rfl
        | some hvw =>
          cases hvw with
          | native x =>
            dsimp only
            split <;> rfl
          | _ => rfl
      · rfl

lemma SameFrame.checkNatives (hf : T.SameFrame D f f') (h : T.Abreast D m n) {i j : Nat}
    {expected : Ty} :
    Standard.checkNatives f' n.store.memory [i, j] true expected = [] ↔
      Standard.checkNatives f m.store.memory [i, j] true expected = [] := by
  have hi := hf.checkNative h i expected
  have hj := hf.checkNative h j expected
  rw [Standard.checkNatives_pair, Standard.checkNatives_pair, ← Option.not_isSome_iff_eq_none,
    ← Option.not_isSome_iff_eq_none, ← Option.not_isSome_iff_eq_none,
    ← Option.not_isSome_iff_eq_none, hi, hj]

namespace Standard

open CellMachine.Standard

/-! ### Arithmetic -/

lemma checksAlike_nothing {op : Opcode} (hop : op.runtimeCheck = fun _ _ => pure []) :
    T.ChecksAlike op := by
  intro D m n f f' h _
  rw [hop]
  exact ⟨h.leader.recalls, h.follower.recalls, fun _ => rfl⟩

section Binary

variable {α : Type} {mnemonic place : String} {type : Ty}
  {read : Frame → Memory → Nat → Option α} {combine : α → α → Value}

lemma checksAlike_binary : T.ChecksAlike (binary mnemonic place type read combine) := by
  intro D m n f f' h hf
  exact ⟨h.leader.recalls, h.follower.recalls, (hf.checkNatives h).mpr⟩

lemma evaluatesAlike_binary (extract : Native → Option α)
    (hread : ∀ f m i, read f m i = (f.value? m i).bind fun v => v.asNative?.bind extract)
    (hcombine : ∀ x y, ∃ k, combine x y = .native k) :
    T.EvaluatesAlike (binary mnemonic place type read combine) := by
  intro D m n f f' h hf
  simp only [evaluate_binary, hf.read h extract hread]
  cases read f m.store.memory 0 with
  | none => exact .inl ⟨_, rfl⟩
  | some x =>
    cases read f m.store.memory 1 with
    | none => exact .inl ⟨_, rfl⟩
    | some y =>
      obtain ⟨k, hk⟩ := hcombine x y
      refine .inr ⟨_, _, h.leader.recalls, h.follower.recalls, rfl, rfl, ?_⟩
      dsimp only
      rw [hk]
      exact .value (.native k)

end Binary

lemma evaluatesAlike_sum {mnemonic place adding : String} {type : Ty} (hfolds : T.Folds adding) :
    T.EvaluatesAlike (sum mnemonic place adding type) := by
  intro D m n f f' h hf
  have hargs := hf.args
  simp only [sum]
  generalize f.args = as at hargs
  generalize f'.args = bs at hargs
  cases hargs with
  | nil => exact .inl ⟨_, rfl⟩
  | cons hitems hrest =>
    cases hrest with
    | nil => exact .inl ⟨_, rfl⟩
    | cons hinitial _ =>
      exact .inr ⟨_, _, h.leader.recalls, h.follower.recalls, rfl, rfl,
        .reduce hfolds hitems hinitial⟩

/-! ### Parts of values -/

lemma evaluatesAlike_peek : T.EvaluatesAlike peek := by
  intro D m n f f' h hf
  have hvalue := hf.value? h 0
  have hsecond := hf.arg 1
  have failed : (f.value? m.store.memory 0).bind Value.asIterable? = none →
      ∃ q, (peek.evaluate f m.store).1 = .error q := fun hnone => by
    rw [evaluate_peek_of_none hnone]
    exact ⟨_, rfl⟩
  cases hitems : (f.value? m.store.memory 0).bind Value.asIterable? with
  | none => exact .inl (failed hitems)
  | some items =>
    obtain ⟨v, hv, hvitems⟩ := Option.bind_eq_some_iff.mp hitems
    obtain ⟨w, hw, hvw⟩ := exists_of_rel hvalue hv
    cases hvw with
    | @iterable items₁ items' hwf hwf' hall =>
      cases hvitems
      have hitems' : (f'.value? n.store.memory 0).bind Value.asIterable? = some items' := by
        rw [hw]
        rfl
      -- The first elements are paired, or there are none and the defaults are.
      have hfirst : Option.Rel (Paired D) (items.get? 0 <|> f.args[1]?)
          (items'.get? 0 <|> f'.args[1]?) := by
        rw [Sequence.get?_eq hwf, Sequence.get?_eq hwf']
        generalize items.toList = as at hall
        generalize items'.toList = bs at hall
        cases hall with
        | nil => exact hsecond
        | cons hab _ => exact .some hab
      cases ha : (items.get? 0 <|> f.args[1]?) with
      | none =>
        left
        simp only [peek, StoreM.run_bind, StoreM.run_memory, hitems, ha]
        exact ⟨_, rfl⟩
      | some a =>
        obtain ⟨b, hb, hab⟩ := exists_of_rel hfirst ha
        rw [evaluate_peek hitems ha, evaluate_peek hitems' hb]
        exact .inr ⟨_, _, h.leader.recalls, h.follower.recalls, rfl, rfl, .lazy hab⟩
    | _ => cases hvitems

lemma rel_keyedMember (h : T.Abreast D m n) (hf : T.SameFrame D f f') {a : Address}
    (ha : keyedMember f m.store.memory = some a) :
    ∃ b, keyedMember f' n.store.memory = some b ∧ Paired D a b := by
  obtain ⟨members, hmembers, ha⟩ := Option.bind_eq_some_iff.mp ha
  obtain ⟨key, hkey, ha⟩ := Option.bind_eq_some_iff.mp ha
  obtain ⟨v, hv, hvmembers⟩ := Option.bind_eq_some_iff.mp hmembers
  obtain ⟨u, hu, hukey⟩ := Option.bind_eq_some_iff.mp hkey
  obtain ⟨w, hw, hvw⟩ := exists_of_rel (hf.value? h 0) hv
  obtain ⟨x, hx, hux⟩ := exists_of_rel (hf.value? h 1) hu
  have hxkey : (x.asKey? <|> x.asString?) = some key := by
    rw [hux.asKey?, Value.asString?, hux.asNative?]
    exact hukey
  cases hvw with
  | @structured r r' hkeys hall =>
    cases hvmembers
    obtain ⟨b, hb, hab⟩ := exists_of_rel (hall key) ha
    refine ⟨b, ?_, hab⟩
    rw [keyedMember, hw, hx, Option.bind_some, Option.bind_some, hxkey]
    exact hb
  | _ => cases hvmembers

lemma evaluatesAlike_getKey : T.EvaluatesAlike getKey := by
  intro D m n f f' h hf
  cases ha : keyedMember f m.store.memory with
  | none =>
    obtain ⟨q, hq⟩ := evaluate_getKey_of_none ha
    exact .inl ⟨q, by rw [hq]⟩
  | some a =>
    obtain ⟨b, hb, hab⟩ := rel_keyedMember h hf ha
    rw [evaluate_getKey ha, evaluate_getKey hb]
    exact .inr ⟨_, _, h.leader.recalls, h.follower.recalls, rfl, rfl, .lazy hab⟩

lemma checksAlike_slice : T.ChecksAlike slice := by
  intro D m n f f' h hf
  refine ⟨h.leader.recalls, h.follower.recalls, fun hnil => ?_⟩
  change checkBounds f m.store.memory true = [] at hnil
  show checkBounds f' n.store.memory true = []
  have hnatives := checkNatives_of_checkBounds hnil
  have hbounds := checkBounds_eq hnatives rfl rfl
  have hbounds' := checkBounds_eq ((hf.checkNatives h).mpr hnatives) (hf.intArg h 1) (hf.intArg h 2)
  exact hbounds'.mpr (hbounds.mp hnil)

lemma alike_sub {items items' : Sequence Address} (hwf : items.WellFormed)
    (hwf' : items'.WellFormed) (hall : List.Forall₂ (Paired D) items.toList items'.toList)
    {low high : Nat} (hle : low ≤ high) (hhigh : high ≤ items.size) :
    ∃ r r', items.toRope.sub low high = .ok r ∧ items'.toRope.sub low high = .ok r' ∧
      T.Alike D (.iterable (.rope r)) (.iterable (.rope r')) := by
  have hhigh' : high ≤ items'.size := by
    rwa [Sequence.size_eq hwf', ← hall.length_eq, ← Sequence.size_eq hwf]
  obtain ⟨r, hr, hrwf, hpart⟩ := Sequence.sub_ok hwf hle hhigh
  obtain ⟨r', hr', hrwf', hpart'⟩ := Sequence.sub_ok hwf' hle hhigh'
  refine ⟨r, r', hr, hr', .iterable hrwf hrwf' ?_⟩
  rw [hpart, hpart']
  exact Window.forall₂_extract hall low high

lemma evaluatesAlike_slice : T.EvaluatesAlike slice := by
  intro D m n f f' h hf
  have failed : (f.value? m.store.memory 0).bind Value.asIterable? = none ∨
      intArg f m.store.memory 1 = none ∨ intArg f m.store.memory 2 = none →
      ∃ q, (slice.evaluate f m.store).1 = .error q := fun hnone => by
    obtain ⟨q, hq⟩ := evaluate_slice_of_none hnone
    exact ⟨q, by rw [hq]⟩
  cases hitems : (f.value? m.store.memory 0).bind Value.asIterable? with
  | none => exact .inl (failed (.inl hitems))
  | some items =>
    cases hstart : intArg f m.store.memory 1 with
    | none => exact .inl (failed (.inr (.inl hstart)))
    | some start =>
      cases hstop : intArg f m.store.memory 2 with
      | none => exact .inl (failed (.inr (.inr hstop)))
      | some stop =>
        obtain ⟨v, hv, hvitems⟩ := Option.bind_eq_some_iff.mp hitems
        obtain ⟨w, hw, hvw⟩ := exists_of_rel (hf.value? h 0) hv
        obtain ⟨list, hlist, hlistv⟩ := Option.bind_eq_some_iff.mp hv
        obtain ⟨list', hlist', hlistw⟩ := Option.bind_eq_some_iff.mp hw
        have hstart' := (hf.intArg h 1).trans hstart
        have hstop' := (hf.intArg h 2).trans hstop
        by_cases hsign : start.toInt < 0
        · left
          simp only [slice, StoreM.run_bind, StoreM.run_memory, hlist, hitems, hstart, hstop,
            if_pos hsign]
          exact ⟨_, rfl⟩
        · cases hvw with
          | @iterable items₁ items' hwf hwf' hall =>
            cases hvitems
            -- The lists may differ in how they are written, but not in their length.
            have hsize : items'.size = items.size := by
              rw [Sequence.size_eq hwf, Sequence.size_eq hwf', hall.length_eq]
            have heval := evaluate_slice hlist hlistv hstart hstop hsign
            have heval' := evaluate_slice hlist' hlistw hstart' hstop' hsign
            rw [hsize] at heval'
            rw [heval, heval']
            cases hspan : Span.resolve ⟨some start.toNatClampNeg, some stop⟩ items.size with
            | none =>
              refine .inr ⟨_, _, h.leader.recalls, h.follower.recalls, rfl, rfl, .value ?_⟩
              refine .iterable (Rope.wellFormed_ofList _) (Rope.wellFormed_ofList _) ?_
              rw [Sequence.toList_ofList]
              exact .nil
            | some bounds =>
              obtain ⟨low, high⟩ := bounds
              obtain ⟨hlt, hhigh⟩ := Span.bounds_of_resolve hspan
              obtain ⟨r, r', hr, hr', halike⟩ := alike_sub (T := T) hwf hwf' hall hlt.le hhigh
              dsimp only
              rw [Build.run_sub hlistv hr, Build.run_sub hlistw hr']
              exact .inr ⟨_, _, h.leader.recalls, h.follower.recalls, rfl, rfl, .value halike⟩
          | _ => cases hvitems

/-! ### Constants by name -/

lemma checksAlike_loadConst (hT : T.Sound) : T.ChecksAlike loadConst := by
  intro D m n f f' h hf
  have hmodules : ModulesAgree T.types f.modules := hf.modules ▸ hT.modules
  show T.types.Recalls (checkNames f _ _).2 ∧ T.types.Recalls (checkNames f' _ _).2 ∧
    ((checkNames f _ _).1 = [] → (checkNames f' _ _).1 = [])
  have unnamed : checkNatives f m.store.memory [0, 1] true string ≠ [] ∨
      stringArg f m.store.memory 0 = none ∨ stringArg f m.store.memory 1 = none →
      T.types.Recalls (checkNames f m.store.memory m.store.types).2 ∧
      T.types.Recalls (checkNames f' n.store.memory n.store.types).2 ∧
      ((checkNames f m.store.memory m.store.types).1 = [] →
        (checkNames f' n.store.memory n.store.types).1 = []) := by
    intro hnone
    obtain ⟨found, hfound, hne⟩ := checkNames_of_none m.store.types hnone
    rw [← hf.stringArg h, ← hf.stringArg h, ne_eq, ← hf.checkNatives h] at hnone
    obtain ⟨found', hfound', -⟩ := checkNames_of_none n.store.types hnone
    rw [hfound, hfound']
    exact ⟨h.leader.recalls, h.follower.recalls, fun hnil => absurd hnil hne⟩
  by_cases hnatives : checkNatives f m.store.memory [0, 1] true string = []
  case neg => exact unnamed (.inl hnatives)
  cases hmodule : stringArg f m.store.memory 0 with
  | none => exact unnamed (.inr (.inl hmodule))
  | some moduleName =>
    cases hname : stringArg f m.store.memory 1 with
    | none => exact unnamed (.inr (.inr hname))
    | some name =>
      obtain ⟨hiff, hrecalls, hrecalls'⟩ := findConstant_agree hT.around.tidy
        (hf.modules'.trans hf.modules.symm) hf.type hmodules hf.agrees h.leader.recalls
        h.follower.recalls moduleName name
      rw [checkNames_of_strings _ hnatives hmodule hname,
        checkNames_of_strings _ ((hf.checkNatives h).mpr hnatives) ((hf.stringArg h 0).trans hmodule)
          ((hf.stringArg h 1).trans hname)]
      refine ⟨hrecalls, hrecalls', fun hnil => ?_⟩
      cases ho : (findConstant f moduleName name m.store.types).1 with
      | error q =>
        rw [ho] at hnil
        cases hnil
      | ok u => rw [hiff.mp ho]

lemma evaluatesAlike_loadConst (hT : T.Sound) : T.EvaluatesAlike loadConst := by
  intro D m n f f' h hf
  have hmodules : ModulesAgree T.types f.modules := hf.modules ▸ hT.modules
  have unnamed : stringArg f m.store.memory 0 = none ∨ stringArg f m.store.memory 1 = none →
      ∃ q, (loadConst.evaluate f m.store).1 = .error q := by
    intro hnone
    simp only [loadConst, StoreM.run_bind, StoreM.run_memory]
    cases hmodule : stringArg f m.store.memory 0 with
    | none => exact ⟨_, rfl⟩
    | some moduleName =>
      rw [hmodule] at hnone
      rw [hnone.resolve_left (Option.some_ne_none _)]
      exact ⟨_, rfl⟩
  cases hmodule : stringArg f m.store.memory 0 with
  | none => exact .inl (unnamed (.inl hmodule))
  | some moduleName =>
    cases hname : stringArg f m.store.memory 1 with
    | none => exact .inl (unnamed (.inr hname))
    | some name =>
      obtain ⟨hiff, hrecalls, hrecalls'⟩ := findConstant_agree hT.around.tidy
        (hf.modules'.trans hf.modules.symm) hf.type hmodules hf.agrees h.leader.recalls
        h.follower.recalls moduleName name
      cases ho : (findConstant f moduleName name m.store.types).1 with
      | error q =>
        left
        rcases hfind : findConstant f moduleName name m.store.types with ⟨o, types⟩
        rw [hfind] at ho
        obtain rfl : o = .error q := ho
        simp only [loadConst, StoreM.run_bind, StoreM.run_memory, hmodule, hname, hfind]
        exact ⟨_, rfl⟩
      | ok u =>
        rw [evaluate_loadConst hmodule hname ho, evaluate_loadConst ((hf.stringArg h 0).trans hmodule)
          ((hf.stringArg h 1).trans hname) (hiff.mp ho),
          h.leader.memory.constant hT.around.rooted, h.follower.memory.constant hT.around.rooted,
          hT.around.rooted.constant]
        cases hi : T.constants.lookup moduleName name with
        | none => exact .inl ⟨_, rfl⟩
        | some i =>
          exact .inr ⟨_, _, hrecalls, hrecalls', rfl, rfl,
            .lazy ⟨h.base i (hT.around.rooted _ i hi)⟩⟩

end Standard

/-! ### All of them -/

lemma Allows.checksAlike (hT : T.Sound) {op : Opcode} (hop : T.Allows op) : T.ChecksAlike op := by
  have hin := hop.standard
  simp only [Standard.opcodes, List.mem_cons, List.not_mem_nil, or_false] at hin
  rcases hin with rfl | rfl | rfl | rfl | rfl | rfl | rfl | rfl | rfl
  · exact Standard.checksAlike_binary
  · exact Standard.checksAlike_binary
  · exact Standard.checksAlike_nothing rfl
  · exact Standard.checksAlike_nothing rfl
  · exact Standard.checksAlike_binary
  · exact Standard.checksAlike_nothing rfl
  · exact Standard.checksAlike_slice
  · exact Standard.checksAlike_nothing rfl
  · exact Standard.checksAlike_loadConst hT

lemma Allows.evaluatesAlike (hT : T.Sound) {op : Opcode} (hop : T.Allows op) :
    T.EvaluatesAlike op := by
  obtain ⟨hin, hsums⟩ := hop
  simp only [Standard.opcodes, List.mem_cons, List.not_mem_nil, or_false] at hin
  rcases hin with rfl | rfl | rfl | rfl | rfl | rfl | rfl | rfl | rfl
  · exact Standard.evaluatesAlike_binary Native.asInt? (fun _ _ _ => rfl) fun _ _ => ⟨_, rfl⟩
  · exact Standard.evaluatesAlike_binary Native.asNumber? (fun _ _ _ => rfl) fun _ _ => ⟨_, rfl⟩
  · exact Standard.evaluatesAlike_sum (.inl rfl)
  · exact Standard.evaluatesAlike_sum (.inr ⟨rfl, fun hpairwise => hsums hpairwise rfl⟩)
  · exact Standard.evaluatesAlike_binary Native.asString? (fun _ _ _ => rfl) fun _ _ => ⟨_, rfl⟩
  · exact Standard.evaluatesAlike_peek
  · exact Standard.evaluatesAlike_slice
  · exact Standard.evaluatesAlike_getKey
  · exact Standard.evaluatesAlike_loadConst hT

end Tandem

end CellMachine
