import CellMachine.Proofs.Meaning.Calls
import CellMachine.Proofs.Standard.Declarations

/-!
The standard opcodes: what they check and evaluate is what they denote.
-/

namespace CellMachine

/-- A result of an opcode is the answer it should give, or a failure when there is none. -/
inductive Settles (D : Address → Term → Prop) : Result → Option Answer → Prop
  | error (q : Problem) : Settles D (.error q) none
  | value {v : Value} {h : Head} (hv : Represents D v h) : Settles D (.value v) (some (.value h))
  | same {a : Address} {t : Term} (ha : D a t) : Settles D (.lazy a) (some (.same t))
  | fold {adding : String} {a b : Address} {items initial : Term} (ha : D a items)
    (hb : D b initial) :
    Settles D (.reduce (.opcode adding none a b)) (some (.fold adding items initial))

/-- An argument as far as it was evaluated. -/
inductive Argued (terms : List Term) (m : Machine) :
    Argument × Address → Term × Option Head → Prop
  | lazy {d : Argument} {a : Address} {t : Term} (hd : d.evaluation = .lazy)
    (ha : Stands terms m a t) : Argued terms m (d, a) (t, none)
  | known {d : Argument} {a : Address} {t : Term} {v : Value} {h : Head}
    (hd : d.evaluation ≠ .lazy) (ha : Stands terms m a t)
    (hv : m.store.memory.value? a = some v) (hrep : Represents (Stands terms m) v h) :
    Argued terms m (d, a) (t, some h)

lemma Argued.stands {terms : List Term} {m : Machine} {d : Argument} {a : Address}
    {e : Term × Option Head} (h : Argued terms m (d, a) e) : Stands terms m a e.1 := by
  cases h with
  | lazy _ ha => exact ha
  | known _ ha _ _ => exact ha

lemma Argued.exists_known {terms : List Term} {m : Machine} {d : Argument} {a : Address}
    {e : Term × Option Head} (h : Argued terms m (d, a) e) (hd : d.evaluation ≠ .lazy) :
    ∃ t v head, e = (t, some head) ∧ Stands terms m a t ∧ m.store.memory.value? a = some v ∧
      Represents (Stands terms m) v head := by
  cases h with
  | lazy hlazy _ => exact absurd hlazy hd
  | known _ ha hv hrep => exact ⟨_, _, _, rfl, ha, hv, hrep⟩

namespace StoreM

variable {α β : Type}

lemma run_bind (x : StoreM α) (f : α → StoreM β) (s : Store) :
    (x >>= f) s = f (x s).1 (x s).2 := rfl

lemma run_pure (a : α) (s : Store) : (pure a : StoreM α) s = (a, s) := rfl

lemma run_memory (s : Store) : StoreM.memory s = (s.memory, s) := rfl

lemma run_check (c : Check) (s : Store) :
    StoreM.check c s = ((c s.memory s.types).1, { s with types := (c s.memory s.types).2 }) := rfl

end StoreM

namespace Opcode

/-- The check of an opcode's arguments and then its evaluation. -/
def attempt (op : Opcode) (f : Frame) : StoreM Result := do
  match firstOf (← StoreM.check (op.runtimeCheck f)) with
  | some q => pure (.error q)
  | none => op.evaluate f

section Attempting

variable {op : Opcode} {f : Frame} {s : Store} {found : List Problem} {types : Registry}

lemma attempt_of_refused (hcheck : op.runtimeCheck f s.memory s.types = (found, types)) {q : Problem}
    (hfound : firstOf found = some q) : op.attempt f s = (.error q, { s with types }) := by
  simp only [attempt, StoreM.run_bind, StoreM.run_check, hcheck, hfound, StoreM.run_pure]

lemma attempt_of_passed (hcheck : op.runtimeCheck f s.memory s.types = (found, types))
    (hfound : firstOf found = none) : op.attempt f s = op.evaluate f { s with types } := by
  simp only [attempt, StoreM.run_bind, StoreM.run_check, hcheck, hfound]

end Attempting

/-- An opcode comes to an answer, or to a failure when there is none; verdicts may be added. -/
def Gives (p : Program) (terms : List Term) (m : Machine) (op : Opcode) (f : Frame)
    (answer : Option Answer) : Prop :=
  ∃ types, p.types.Recalls types ∧ (op.attempt f m.store).2 = { m.store with types } ∧
    Settles (Stands terms m) (op.attempt f m.store).1 answer

/-- What an opcode does for arguments that stand for terms. -/
def Meets (p : Program) (mnemonic : String) (op : Opcode) : Prop :=
  ∀ {terms : List Term} {m : Machine} {f : Frame} {args : List (Term × Option Head)},
    Models p terms m → f.modules = p.modules → p.types.Agrees f.resultType →
    op.signature.arguments.length = f.args.length →
    List.Forall₂ (Argued terms m) (op.signature.arguments.zip f.args) args →
    op.Gives p terms m f (p.denote mnemonic f.resultType args)

variable {p : Program} {terms : List Term} {m : Machine} {op : Opcode} {f : Frame}

lemma gives_of_refused {found : List Problem} {types : Registry}
    (hcheck : op.runtimeCheck f m.store.memory m.store.types = (found, types)) (hfound : found ≠ [])
    (htypes : p.types.Recalls types) : op.Gives p terms m f none := by
  obtain ⟨q, hq⟩ : ∃ q, firstOf found = some q := by
    cases hq : firstOf found with
    | some q => exact ⟨q, rfl⟩
    | none => exact absurd (Machine.firstOf_eq_none hq) hfound
  have hattempt := attempt_of_refused hcheck hq
  exact ⟨types, htypes, by rw [hattempt], by rw [hattempt]; exact .error q⟩

lemma gives_of_evaluate {types types' : Registry} {r : Result} {answer : Option Answer}
    (hcheck : op.runtimeCheck f m.store.memory m.store.types = ([], types))
    (heval : op.evaluate f { m.store with types } = (r, { m.store with types := types' }))
    (htypes : p.types.Recalls types') (hr : Settles (Stands terms m) r answer) :
    op.Gives p terms m f answer := by
  have hattempt : op.attempt f m.store = (r, { m.store with types := types' }) :=
    (attempt_of_passed hcheck rfl).trans heval
  exact ⟨types', htypes, by rw [hattempt], by rw [hattempt]; exact hr⟩

end Opcode

lemma Attempt.run_bind_of_ok {α β : Type} {x : Attempt α} {f : α → Attempt β} {s s' : Store} {a : α}
    (h : x.run s = (.ok a, s')) : (x >>= f).run s = (f a).run s' := by
  rw [ExceptT.run_bind, StoreM.run_bind, h]

lemma Build.run_evaluated {s : Store} {a : Address} {v : Value} (hv : s.memory.value? a = some v) :
    (Build.evaluated a).run s = (.ok v, s) := by
  have hread : (StoreM.value? a : Attempt (Option Value)).run s = (.ok (some v), s) := by
    rw [← hv]
    rfl
  rw [Build.evaluated, Attempt.run_bind_of_ok hread]
  rfl

lemma Build.run_sub {s : Store} {a : Address} {items : Sequence Address}
    (hv : s.memory.value? a = some (.iterable items)) {low high : Nat} {r : Rope Address}
    (hr : items.toRope.sub low high = .ok r) :
    (Build.sub a low high).run s = (.ok (.iterable (.rope r)), s) := by
  have hrope : (Build.ropeOf a).run s = (.ok items.toRope, s) := by
    rw [Build.ropeOf, Attempt.run_bind_of_ok (Build.run_evaluated hv)]
    rfl
  rw [Build.sub, Attempt.run_bind_of_ok hrope, hr]
  rfl

namespace Standard

variable {p : Program} {terms : List Term} {m : Machine} {f : Frame}

/-! ### Native arguments -/

/-- A native argument passes its check and is what its term is read as, or its term cannot be read. -/
lemma checkNative_cases (h : Models p terms m) {index : Nat} {a : Address}
    (ha : f.args[index]? = some a) {t : Term} (ht : Stands terms m a t) {v : Value} {head : Head}
    (hv : m.store.memory.value? a = some v) (hrep : Represents (Stands terms m) v head) {expected : Ty}
    (htag : expected.tag?.isSome = true) :
    (p.native? expected (t, some head) = (f.value? m.store.memory index).bind Value.asNative? ∧
        checkNative f m.store.memory index true expected = none) ∨
      p.native? expected (t, some head) = none ∧
        ∃ q, checkNative f m.store.memory index true expected = some q := by
  obtain ⟨tag, htag⟩ := Option.isSome_iff_exists.mp htag
  rw [Frame.value?, ha, Option.bind_some]
  simp only [checkNative, htag, ha, hv, h.typeOf ht]
  cases hrep with
  | native n =>
    simp only [Program.native?, htag]
    cases hfits : (p.typeOf t).isRuntimeDetermined || (p.typeOf t).tag? == some tag with
    | false => simp
    | true =>
      cases hadmits : expected.admits n with
      | false => simp
      | true => simp [Value.asNative?]
  | _ =>
    refine .inr ⟨rfl, ?_⟩
    split <;> exact ⟨_, rfl⟩

/-- Two native arguments pass their check, or one of their terms cannot be read. -/
lemma checkNatives_cases (h : Models p terms m) {i j : Nat} {a b : Address}
    (ha : f.args[i]? = some a) (hb : f.args[j]? = some b) {t u : Term} (ht : Stands terms m a t)
    (hu : Stands terms m b u) {v w : Value} {head head' : Head}
    (hv : m.store.memory.value? a = some v) (hw : m.store.memory.value? b = some w)
    (hrep : Represents (Stands terms m) v head) (hrep' : Represents (Stands terms m) w head')
    {expected : Ty} (htag : expected.tag?.isSome = true) :
    (p.native? expected (t, some head) = (f.value? m.store.memory i).bind Value.asNative? ∧
        p.native? expected (u, some head') = (f.value? m.store.memory j).bind Value.asNative? ∧
        checkNatives f m.store.memory [i, j] true expected = []) ∨
      (p.native? expected (t, some head) = none ∨ p.native? expected (u, some head') = none) ∧
        checkNatives f m.store.memory [i, j] true expected ≠ [] := by
  obtain ⟨hread, hcheck⟩ | ⟨hnone, q, hcheck⟩ := checkNative_cases h ha ht hv hrep htag
  · obtain ⟨hread', hcheck'⟩ | ⟨hnone, q, hcheck'⟩ := checkNative_cases h hb hu hw hrep' htag
    · exact .inl ⟨hread, hread', checkNatives_pair.mpr ⟨hcheck, hcheck'⟩⟩
    · exact .inr ⟨.inr hnone, fun hnil => nomatch hcheck'.symm.trans (checkNatives_pair.mp hnil).2⟩
  · exact .inr ⟨.inl hnone, fun hnil => nomatch hcheck.symm.trans (checkNatives_pair.mp hnil).1⟩

lemma int?_eq {e : Term × Option Head} {memory : Memory} {i : Nat}
    (h : p.native? integer e = (f.value? memory i).bind Value.asNative?) :
    p.int? e = intArg f memory i := by
  rw [Program.int?, h, Option.bind_assoc]
  rfl

lemma string?_eq {e : Term × Option Head} {memory : Memory} {i : Nat}
    (h : p.native? string e = (f.value? memory i).bind Value.asNative?) :
    p.string? e = stringArg f memory i := by
  rw [Program.string?, h, Option.bind_assoc]
  rfl

/-! ### Operations on two native values -/

lemma evaluate_binary {α : Type} {mnemonic place : String} {type : Ty}
    {read : Frame → Memory → Nat → Option α} {combine : α → α → Value} {s : Store} :
    (binary mnemonic place type read combine).evaluate f s =
      (match read f s.memory 0, read f s.memory 1 with
        | some x, some y => .value (combine x y)
        | _, _ => refuse f (checkNatives f s.memory [0, 1] true type), s) := by
  simp only [binary, StoreM.run_bind, StoreM.run_memory]
  cases read f s.memory 0 <;> cases read f s.memory 1 <;> rfl

lemma meets_binary {α : Type} {mnemonic place : String} {type : Ty}
    {read : Frame → Memory → Nat → Option α} {combine : α → α → Value} (extract : Native → Option α)
    (hread : ∀ f m i, read f m i = (f.value? m i).bind fun v => v.asNative?.bind extract)
    (result : α → α → Native) (hcombine : ∀ x y, combine x y = .native (result x y))
    (htag : type.tag?.isSome = true)
    (hdenote : ∀ type' a b, p.denote mnemonic type' [a, b] =
      ((p.native? type a).bind extract).bind fun x =>
        ((p.native? type b).bind extract).map fun y => .value (.native (result x y))) :
    (binary mnemonic place type read combine).Meets p mnemonic := by
  intro terms m f args h _ _ hlen hargs
  obtain ⟨a, b, hf⟩ : ∃ a b, f.args = [a, b] := List.length_eq_two.mp hlen.symm
  rw [hf] at hargs
  obtain _ | ⟨ha, _ | ⟨hb, _ | _⟩⟩ := hargs
  obtain ⟨t, v, head, rfl, hat, hav, harep⟩ := ha.exists_known nofun
  obtain ⟨u, w, head', rfl, hbt, hbv, hbrep⟩ := hb.exists_known nofun
  have hfirst : f.args[0]? = some a := by rw [hf]; rfl
  have hsecond : f.args[1]? = some b := by rw [hf]; rfl
  rw [hdenote]
  obtain ⟨hx, hy, hcheck⟩ | ⟨hnone, hcheck⟩ :=
    checkNatives_cases h hfirst hsecond hat hbt hav hbv harep hbrep htag
  · have hread₀ : (p.native? type (t, some head)).bind extract = read f m.store.memory 0 := by
      rw [hx, hread, Option.bind_assoc]
    have hread₁ : (p.native? type (u, some head')).bind extract = read f m.store.memory 1 := by
      rw [hy, hread, Option.bind_assoc]
    refine Opcode.gives_of_evaluate (Prod.ext hcheck rfl) evaluate_binary h.recalls ?_
    rw [hread₀, hread₁]
    dsimp only
    cases read f m.store.memory 0 with
    | none => exact .error _
    | some x =>
      cases read f m.store.memory 1 with
      | none => exact .error _
      | some y =>
        dsimp only
        rw [hcombine]
        exact .value (.native _)
  · -- A native of another tag has no reading, so neither has the application.
    have hdenoted : (((p.native? type (t, some head)).bind extract).bind fun x =>
        ((p.native? type (u, some head')).bind extract).map fun y =>
          Answer.value (.native (result x y))) = none := by
      obtain hnone | hnone := hnone
      · rw [hnone]
        rfl
      · rw [hnone]
        cases (p.native? type (t, some head)).bind extract <;> rfl
    rw [hdenoted]
    exact Opcode.gives_of_refused rfl hcheck h.recalls

lemma meets_addIntegers : addIntegers.Meets p "iadd" :=
  meets_binary Native.asInt? (fun _ _ _ => rfl) (fun x y => .int (x + y)) (fun _ _ => rfl) rfl
    fun _ _ _ => rfl

lemma meets_addNumbers : addNumbers.Meets p "nadd" :=
  meets_binary Native.asNumber? (fun _ _ _ => rfl) (fun x y => .number (x + y)) (fun _ _ => rfl) rfl
    fun _ _ _ => rfl

lemma meets_concatStrings : concatStrings.Meets p "concat" :=
  meets_binary Native.asString? (fun _ _ _ => rfl) (fun x y => .string (x ++ y)) (fun _ _ => rfl)
    rfl fun _ _ _ => rfl

/-! ### Sums -/

lemma meets_sum {mnemonic place adding : String} {type : Ty}
    (hdenote : ∀ type' a b, p.denote mnemonic type' [a, b] = some (.fold adding a.1 b.1)) :
    (sum mnemonic place adding type).Meets p mnemonic := by
  intro terms m f args h _ _ hlen hargs
  obtain ⟨a, b, hf⟩ : ∃ a b, f.args = [a, b] := List.length_eq_two.mp hlen.symm
  rw [hf] at hargs
  obtain _ | ⟨ha, _ | ⟨hb, _ | _⟩⟩ := hargs
  rw [hdenote]
  refine Opcode.gives_of_evaluate rfl ?_ h.recalls (.fold ha.stands hb.stands)
  simp only [sum, hf]
  rfl

lemma meets_sumIntegers : sumIntegers.Meets p "isum" := meets_sum fun _ _ _ => rfl

lemma meets_sumNumbers : sumNumbers.Meets p "nsum" := meets_sum fun _ _ _ => rfl

/-! ### Parts of values -/

lemma evaluate_peek {s : Store} {items : Sequence Address} {a : Address}
    (hitems : (f.value? s.memory 0).bind Value.asIterable? = some items)
    (ha : (items.get? 0 <|> f.args[1]?) = some a) : peek.evaluate f s = (.lazy a, s) := by
  simp only [peek, StoreM.run_bind, StoreM.run_memory, hitems, ha, StoreM.run_pure]

lemma evaluate_peek_of_none {s : Store} (h : (f.value? s.memory 0).bind Value.asIterable? = none) :
    peek.evaluate f s = (wrongFirst f s.memory "iterable", s) := by
  simp only [peek, StoreM.run_bind, StoreM.run_memory, h, StoreM.run_pure]

lemma meets_peek : peek.Meets p "peek" := by
  intro terms m f args h _ _ hlen hargs
  obtain ⟨a, b, hf⟩ : ∃ a b, f.args = [a, b] := List.length_eq_two.mp hlen.symm
  rw [hf] at hargs
  obtain _ | ⟨ha, _ | ⟨hb, _ | _⟩⟩ := hargs
  obtain ⟨t, v, head, rfl, hat, hav, harep⟩ := ha.exists_known nofun
  have hvalue : f.value? m.store.memory 0 = some v := by rw [Frame.value?, hf]; exact hav
  have hsecond : f.args[1]? = some b := by rw [hf]; rfl
  cases harep with
  | @list items ts hitems hts =>
    have hlist : (f.value? m.store.memory 0).bind Value.asIterable? = some items := by
      rw [hvalue]
      rfl
    have hget := Sequence.get?_eq hitems 0
    generalize items.toList = l at hts hget
    cases hts with
    | nil =>
      have hlazy := evaluate_peek (s := m.store) hlist (a := b) (by rw [hget]; exact hsecond)
      exact Opcode.gives_of_evaluate rfl hlazy h.recalls (.same hb.stands)
    | @cons c u l ts hc _ =>
      have hlazy := evaluate_peek (s := m.store) hlist (a := c) (by rw [hget]; rfl)
      exact Opcode.gives_of_evaluate rfl hlazy h.recalls (.same hc)
  | _ =>
    have hnone := evaluate_peek_of_none (f := f) (s := m.store) (by rw [hvalue]; rfl)
    exact Opcode.gives_of_evaluate rfl hnone h.recalls (.error _)

lemma asKey_of_represents {D : Address → Term → Prop} {v : Value} {head : Head}
    (h : Represents D v head) : (v.asKey? <|> v.asString?) = head.asKey? := by
  cases h with
  | native n => cases n <;> rfl
  | _ => rfl

/-- The member of the first argument under the key that the second one holds. -/
def keyedMember (f : Frame) (m : Memory) : Option Address :=
  ((f.value? m 0).bind Value.asStructured?).bind fun members =>
    ((f.value? m 1).bind fun v => v.asKey? <|> v.asString?).bind members.get?

lemma evaluate_getKey {s : Store} {a : Address} (h : keyedMember f s.memory = some a) :
    getKey.evaluate f s = (.lazy a, s) := by
  obtain ⟨members, hmembers, h⟩ := Option.bind_eq_some_iff.mp h
  obtain ⟨key, hkey, ha⟩ := Option.bind_eq_some_iff.mp h
  simp only [getKey, StoreM.run_bind, StoreM.run_memory, hmembers, hkey, ha, StoreM.run_pure]

lemma evaluate_getKey_of_none {s : Store} (h : keyedMember f s.memory = none) :
    ∃ q, getKey.evaluate f s = (.error q, s) := by
  simp only [keyedMember] at h
  simp only [getKey, StoreM.run_bind, StoreM.run_memory]
  cases hmembers : (f.value? s.memory 0).bind Value.asStructured? with
  | none => exact ⟨_, rfl⟩
  | some members =>
    cases hkey : (f.value? s.memory 1).bind fun v => v.asKey? <|> v.asString? with
    | none => exact ⟨_, rfl⟩
    | some key =>
      rw [hmembers, hkey] at h
      have hnone : members.get? key = none := h
      simp only [hnone]
      exact ⟨_, rfl⟩

lemma meets_getKey : getKey.Meets p "kload" := by
  intro terms m f args h _ _ hlen hargs
  obtain ⟨a, b, hf⟩ : ∃ a b, f.args = [a, b] := List.length_eq_two.mp hlen.symm
  rw [hf] at hargs
  obtain _ | ⟨ha, _ | ⟨hb, _ | _⟩⟩ := hargs
  obtain ⟨t, v, head, rfl, hat, hav, harep⟩ := ha.exists_known nofun
  obtain ⟨u, w, head', rfl, hbt, hbv, hbrep⟩ := hb.exists_known nofun
  have hfirst : f.value? m.store.memory 0 = some v := by rw [Frame.value?, hf]; exact hav
  have hsecond : f.value? m.store.memory 1 = some w := by rw [Frame.value?, hf]; exact hbv
  have refused : keyedMember f m.store.memory = none → getKey.Gives p terms m f none := fun hnone =>
    have ⟨q, heval⟩ := evaluate_getKey_of_none hnone
    Opcode.gives_of_evaluate rfl heval h.recalls (.error q)
  cases harep with
  | @record r ts hr hts =>
    have hdenote : p.denote "kload" f.resultType [(t, some (.record ts)), (u, some head')] =
        (head'.asKey?.bind fun k => KeyMap.get? ts k).map .same := rfl
    have hkeyed : keyedMember f m.store.memory = head'.asKey?.bind r.get? := by
      rw [keyedMember, hfirst, hsecond, Option.bind_some, Option.bind_some,
        asKey_of_represents hbrep]
      rfl
    rw [hdenote]
    cases hkey : head'.asKey? with
    | none =>
      rw [hkey] at hkeyed
      exact refused hkeyed
    | some key =>
      rw [hkey, Option.bind_some] at hkeyed
      have hrel := KeyMap.rel_get? (R := fun _ => Stands terms m) hts key
      rw [hr.get?_toList, ← hkeyed] at hrel
      rw [Option.bind_some]
      -- The record of the machine and the one that is meant have the same keys.
      generalize KeyMap.get? ts key = found at hrel
      cases hmember : keyedMember f m.store.memory with
      | none =>
        rw [hmember] at hrel
        cases hrel
        exact refused hmember
      | some a =>
        rw [hmember] at hrel
        obtain ⟨ht⟩ := hrel
        exact Opcode.gives_of_evaluate rfl (evaluate_getKey hmember) h.recalls (.same ht)
  | _ =>
    refine refused ?_
    rw [keyedMember, hfirst]
    rfl

lemma represents_sub {D : Address → Term → Prop} {items : Sequence Address} {ts : List Term}
    (hitems : items.WellFormed) (hts : List.Forall₂ D items.toList ts) {low high : Nat}
    (hle : low ≤ high) (hhigh : high ≤ ts.length) :
    ∃ r, items.toRope.sub low high = .ok r ∧
      Represents D (.iterable (.rope r)) (.list (ts.extract low high)) := by
  rw [← hts.length_eq, ← Sequence.size_eq hitems] at hhigh
  obtain ⟨r, hr, hwf, hpart⟩ := Sequence.sub_ok hitems hle hhigh
  exact ⟨r, hr, .list hwf (hpart ▸ Window.forall₂_extract hts low high)⟩

lemma evaluate_slice_of_none {s : Store}
    (h : (f.value? s.memory 0).bind Value.asIterable? = none ∨ intArg f s.memory 1 = none ∨
      intArg f s.memory 2 = none) : ∃ q, slice.evaluate f s = (.error q, s) := by
  simp only [slice, StoreM.run_bind, StoreM.run_memory]
  cases f.args[0]? with
  | none => exact ⟨_, rfl⟩
  | some list =>
    cases hitems : (f.value? s.memory 0).bind Value.asIterable? with
    | none => exact ⟨_, rfl⟩
    | some items =>
      cases hstart : intArg f s.memory 1 with
      | none => exact ⟨_, rfl⟩
      | some start =>
        cases hstop : intArg f s.memory 2 with
        | none => exact ⟨_, rfl⟩
        | some stop =>
          rw [hitems, hstart, hstop] at h
          simp at h

lemma evaluate_slice {s : Store} {list : Address} {items : Sequence Address} {start stop : Int64}
    (hfirst : f.args[0]? = some list) (hvalue : s.memory.value? list = some (.iterable items))
    (hstart : intArg f s.memory 1 = some start) (hstop : intArg f s.memory 2 = some stop)
    (hsign : ¬ start.toInt < 0) :
    slice.evaluate f s = match Span.resolve ⟨some start.toNatClampNeg, some stop⟩ items.size with
      | some (low, high) =>
        (.ofOutcome ((Build.sub list low high).run s).1, ((Build.sub list low high).run s).2)
      | none => (.value (Build.ofMembers []), s) := by
  have hitems : (f.value? s.memory 0).bind Value.asIterable? = some items := by
    rw [Frame.value?, hfirst, Option.bind_some, hvalue]
    rfl
  simp only [slice, StoreM.run_bind, StoreM.run_memory, hfirst, hitems, hstart, hstop, if_neg hsign]
  cases Span.resolve ⟨some start.toNatClampNeg, some stop⟩ items.size <;> rfl

lemma denote_slice_of_none {type : Ty} {t : Term} {head : Head} {x y : Term × Option Head}
    (h : p.int? x = none ∨ p.int? y = none ∨
      ∃ low high, p.int? x = some low ∧ p.int? y = some high ∧
        (low.toInt < 0 ∨ (0 ≤ high.toInt ∧ high.toInt < low.toInt))) :
    p.denote "slice" type [(t, some head), x, y] = none := by
  cases head with
  | list items =>
    show ((p.int? x).bind fun low => (p.int? y).bind fun high =>
      (Program.sliced items low high).map fun items => Answer.value (.list items)) = none
    rcases h with h | h | ⟨low, high, hx, hy, hbounds⟩
    · rw [h]
      rfl
    · rw [h]
      cases p.int? x <;> rfl
    · rw [hx, hy, Option.bind_some, Option.bind_some, Program.sliced, if_pos hbounds]
      rfl
  | _ => rfl

/-- A slice with bounds that are in order. -/
lemma gives_slice (h : Models p terms m) {a : Address} (hfirst : f.args[0]? = some a) {t : Term}
    {v : Value} {head : Head} (hav : m.store.memory.value? a = some v)
    (harep : Represents (Stands terms m) v head) {x y : Term × Option Head} {low high : Int64}
    (hstart : intArg f m.store.memory 1 = some low) (hstop : intArg f m.store.memory 2 = some high)
    (hx : p.int? x = some low) (hy : p.int? y = some high)
    (hgood : ¬ (low.toInt < 0 ∨ (0 ≤ high.toInt ∧ high.toInt < low.toInt)))
    (hnil : checkBounds f m.store.memory true = []) :
    slice.Gives p terms m f (p.denote "slice" f.resultType [(t, some head), x, y]) := by
  have hvalue : f.value? m.store.memory 0 = some v := by
    rw [Frame.value?, hfirst, Option.bind_some, hav]
  cases harep with
  | @list items ts hitems hts =>
    have hdenote : p.denote "slice" f.resultType [(t, some (.list ts)), x, y] =
        (Program.sliced ts low high).map fun items => .value (.list items) := by
      show ((p.int? x).bind fun low => (p.int? y).bind fun high =>
        (Program.sliced ts low high).map fun items => Answer.value (.list items)) = _
      rw [hx, hy]
      rfl
    have hsize : items.size = ts.length := by rw [Sequence.size_eq hitems, hts.length_eq]
    have heval := evaluate_slice hfirst hav hstart hstop (fun hneg => hgood (.inl hneg))
    rw [hdenote, Program.sliced, if_neg hgood]
    rw [hsize] at heval
    cases hspan : Span.resolve ⟨some low.toNatClampNeg, some high⟩ ts.length with
    | none =>
      rw [hspan] at heval
      refine Opcode.gives_of_evaluate (Prod.ext hnil rfl) heval h.recalls (.value (.list ?_ ?_))
      · exact Rope.wellFormed_ofList _
      · rw [Sequence.toList_ofList]
        exact .nil
    | some bounds =>
      obtain ⟨i, j⟩ := bounds
      obtain ⟨hlt, hj⟩ := Span.bounds_of_resolve hspan
      obtain ⟨r, hr, hrep⟩ := represents_sub hitems hts hlt.le hj
      rw [hspan] at heval
      dsimp only at heval
      rw [Build.run_sub hav hr] at heval
      exact Opcode.gives_of_evaluate (Prod.ext hnil rfl) heval h.recalls (.value hrep)
  | _ =>
    obtain ⟨q, hq⟩ := evaluate_slice_of_none (f := f) (s := m.store) (.inl (by rw [hvalue]; rfl))
    exact Opcode.gives_of_evaluate (Prod.ext hnil rfl) hq h.recalls (.error q)

/-- A slice whose bounds pass their check as native values. -/
lemma gives_slice_of_natives (h : Models p terms m) {a : Address} (hfirst : f.args[0]? = some a)
    {t : Term} {v : Value} {head : Head} (hav : m.store.memory.value? a = some v)
    (harep : Represents (Stands terms m) v head) {x y : Term × Option Head}
    (hx : p.int? x = intArg f m.store.memory 1) (hy : p.int? y = intArg f m.store.memory 2)
    (hnatives : checkNatives f m.store.memory [1, 2] true integer = []) :
    slice.Gives p terms m f (p.denote "slice" f.resultType [(t, some head), x, y]) := by
  have failed : p.denote "slice" f.resultType [(t, some head), x, y] = none →
      (intArg f m.store.memory 1 = none ∨ intArg f m.store.memory 2 = none) →
      slice.Gives p terms m f (p.denote "slice" f.resultType [(t, some head), x, y]) := by
    intro hnone hread
    rw [hnone]
    by_cases hnil : checkBounds f m.store.memory true = []
    · obtain ⟨q, hq⟩ := evaluate_slice_of_none (s := m.store) (.inr hread)
      exact Opcode.gives_of_evaluate (Prod.ext hnil rfl) hq h.recalls (.error q)
    · exact Opcode.gives_of_refused rfl hnil h.recalls
  cases hstart : intArg f m.store.memory 1 with
  | none => exact failed (denote_slice_of_none (.inl (hx.trans hstart))) (.inl hstart)
  | some low =>
    cases hstop : intArg f m.store.memory 2 with
    | none => exact failed (denote_slice_of_none (.inr (.inl (hy.trans hstop)))) (.inr hstop)
    | some high =>
      rw [hstart] at hx
      rw [hstop] at hy
      have hbounds := checkBounds_eq hnatives hstart hstop
      by_cases hbad : low.toInt < 0 ∨ (0 ≤ high.toInt ∧ high.toInt < low.toInt)
      · rw [denote_slice_of_none (.inr (.inr ⟨low, high, hx, hy, hbad⟩))]
        refine Opcode.gives_of_refused rfl (fun hnil => ?_) h.recalls
        obtain ⟨hsign, horder⟩ := hbounds.mp hnil
        rcases hbad with hbad | hbad
        · exact absurd (hsign low rfl) (by omega)
        · exact horder low rfl high rfl hbad
      · refine gives_slice h hfirst hav harep hstart hstop hx hy hbad (hbounds.mpr ⟨?_, ?_⟩)
        · rintro _ ⟨rfl⟩
          omega
        · rintro _ ⟨rfl⟩ _ ⟨rfl⟩
          exact fun hlt => hbad (.inr hlt)

lemma meets_slice : slice.Meets p "slice" := by
  intro terms m f args h _ _ hlen hargs
  obtain ⟨a, b, c, hf⟩ : ∃ a b c, f.args = [a, b, c] := List.length_eq_three.mp hlen.symm
  rw [hf] at hargs
  obtain _ | ⟨ha, _ | ⟨hb, _ | ⟨hc, _ | _⟩⟩⟩ := hargs
  obtain ⟨t, v, head, rfl, -, hav, harep⟩ := ha.exists_known nofun
  obtain ⟨x, v₁, head₁, rfl, hbt, hbv, hbrep⟩ := hb.exists_known nofun
  obtain ⟨y, v₂, head₂, rfl, hct, hcv, hcrep⟩ := hc.exists_known nofun
  have hfirst : f.args[0]? = some a := by rw [hf]; rfl
  have hsecond : f.args[1]? = some b := by rw [hf]; rfl
  have hthird : f.args[2]? = some c := by rw [hf]; rfl
  have htag : integer.tag?.isSome = true := rfl
  obtain ⟨hx, hy, hcheck⟩ | ⟨hnone, hcheck⟩ :=
    checkNatives_cases h hsecond hthird hbt hct hbv hcv hbrep hcrep htag
  · exact gives_slice_of_natives h hfirst hav harep (int?_eq hx) (int?_eq hy) hcheck
  · have hunread : p.int? (x, some head₁) = none ∨ p.int? (y, some head₂) = none :=
      hnone.imp (fun hx => by rw [Program.int?, hx]; rfl) fun hy => by rw [Program.int?, hy]; rfl
    rw [denote_slice_of_none (hunread.imp_right .inl)]
    exact Opcode.gives_of_refused rfl (mt checkNatives_of_checkBounds hcheck) h.recalls

/-! ### Constants by name -/

/-- Whether a constant of a module may stand for a value of a type. -/
def Listed (p : Program) (type : Ty) (moduleName name : String) : Prop :=
  ∃ md c, p.modules.get? moduleName = some md ∧ md.constants.get? name = some c ∧
    (type.isRuntimeDetermined || p.suits c.type type) = true

lemma Listed.loaded {type : Ty} {moduleName name : String} (h : Listed p type moduleName name) :
    p.loaded type moduleName name = p.constant? moduleName name := by
  obtain ⟨md, c, hmd, hc, hfits⟩ := h
  rw [Program.loaded, hmd, Option.bind_some, hc, Option.bind_some, if_pos hfits]

lemma loaded_of_not_listed {type : Ty} {moduleName name : String}
    (h : ¬ Listed p type moduleName name) : p.loaded type moduleName name = none := by
  rw [← Option.not_isSome_iff_eq_none, Option.isSome_iff_exists]
  rintro ⟨a, ha⟩
  obtain ⟨md, hmd, ha⟩ := Option.bind_eq_some_iff.mp ha
  obtain ⟨c, hc, ha⟩ := Option.bind_eq_some_iff.mp ha
  split at ha
  · next hfits => exact h ⟨md, c, hmd, hc, hfits⟩
  · cases ha

lemma findConstant_spec (hp : p.Sound) (hmodules : f.modules = p.modules)
    (hresult : p.types.Agrees f.resultType) {types : Registry} (ht : p.types.Recalls types)
    (moduleName name : String) :
    p.types.Recalls (findConstant f moduleName name types).2 ∧
      ((findConstant f moduleName name types).1 = .ok () ↔
        Listed p f.resultType moduleName name) := by
  unfold findConstant Listed
  rw [hmodules]
  cases hmd : p.modules.get? moduleName with
  | none => exact ⟨ht, nofun, nofun⟩
  | some md =>
    dsimp only
    cases hc : md.constants.get? name with
    | none =>
      refine ⟨ht, nofun, ?_⟩
      rintro ⟨_, _, ⟨rfl⟩, hc', -⟩
      rw [hc] at hc'
      cases hc'
    | some c =>
      have hlisted : (∃ md' c', some md = some md' ∧ md'.constants.get? name = some c' ∧
          (f.resultType.isRuntimeDetermined || p.suits c'.type f.resultType) = true) ↔
          (f.resultType.isRuntimeDetermined || p.suits c.type f.resultType) = true := by
        refine ⟨?_, fun hfits => ⟨md, c, rfl, hc, hfits⟩⟩
        rintro ⟨_, c', ⟨rfl⟩, hc', hfits⟩
        rw [hc] at hc'
        cases hc'
        exact hfits
      rw [hlisted]
      dsimp only
      cases hopen : f.resultType.isRuntimeDetermined with
      | true => exact ⟨ht, fun _ => rfl, fun _ => rfl⟩
      | false =>
        have hagrees := hp.modules _ _ _ _ hmd hc
        have hsuits := hp.suits_iff ht hagrees hresult f.source
        have hrecalls := (ht.matchTypes hp.tidy (.inl hagrees) (.inl hresult) f.source).2
        rw [if_neg nofun, Bool.false_or, hsuits]
        rcases hmatch : types.matchTypes f.source c.type (some f.resultType) with ⟨o, types'⟩
        rw [hmatch] at hrecalls
        cases o with
        | ok u => exact ⟨hrecalls, fun _ => rfl, fun _ => rfl⟩
        | error q => exact ⟨hrecalls, nofun, nofun⟩

lemma evaluate_loadConst {s : Store} {moduleName name : String}
    (hmodule : stringArg f s.memory 0 = some moduleName) (hname : stringArg f s.memory 1 = some name)
    (hfound : (findConstant f moduleName name s.types).1 = .ok ()) :
    loadConst.evaluate f s =
      (match (s.memory.lookup moduleName name).bind s.memory.address? with
        | some a => .lazy a
        | none => .error (noConstant f moduleName name),
      { s with types := (findConstant f moduleName name s.types).2 }) := by
  rcases hfind : findConstant f moduleName name s.types with ⟨o, types⟩
  rw [hfind] at hfound
  cases hfound
  simp only [loadConst, StoreM.run_bind, StoreM.run_memory, hmodule, hname, hfind]
  cases (s.memory.lookup moduleName name).bind s.memory.address? <;> rfl

/-- A constant with both names known. -/
lemma gives_loadConst (hp : p.Sound) (h : Models p terms m) (hmodules : f.modules = p.modules)
    (hresult : p.types.Agrees f.resultType) {moduleName name : String}
    (hnatives : checkNatives f m.store.memory [0, 1] true string = [])
    (hmodule : stringArg f m.store.memory 0 = some moduleName)
    (hname : stringArg f m.store.memory 1 = some name) :
    loadConst.Gives p terms m f
      ((p.loaded f.resultType moduleName name).map fun a => .same (.slot a)) := by
  have hcheck := checkNames_of_strings m.store.types hnatives hmodule hname
  obtain ⟨hrecalls, hfound⟩ := findConstant_spec hp hmodules hresult h.recalls moduleName name
  by_cases hlisted : Listed p f.resultType moduleName name
  · rw [hfound.mpr hlisted] at hcheck
    obtain ⟨hrecalls', hfound'⟩ := findConstant_spec hp hmodules hresult hrecalls moduleName name
    refine Opcode.gives_of_evaluate hcheck
      (evaluate_loadConst hmodule hname (hfound'.mpr hlisted)) hrecalls' ?_
    have hconstant : (m.store.memory.lookup moduleName name).bind m.store.memory.address? =
        p.constant? moduleName name := (h.over_constants hp).constant hp.around.rooted
    dsimp only
    rw [hconstant, hlisted.loaded]
    cases ha : p.constant? moduleName name with
    | none => exact .error _
    | some a => exact .same (h.stands_constant hp ha)
  · rw [loaded_of_not_listed hlisted]
    cases ho : (findConstant f moduleName name m.store.types).1 with
    | ok u => exact absurd (hfound.mp ho) hlisted
    | error q =>
      rw [ho] at hcheck
      exact Opcode.gives_of_refused hcheck nofun hrecalls

lemma meets_loadConst (hp : p.Sound) : loadConst.Meets p "cload" := by
  intro terms m f args h hmodules hresult hlen hargs
  obtain ⟨a, b, hf⟩ : ∃ a b, f.args = [a, b] := List.length_eq_two.mp hlen.symm
  rw [hf] at hargs
  obtain _ | ⟨ha, _ | ⟨hb, _ | _⟩⟩ := hargs
  obtain ⟨t, v, head, rfl, hat, hav, harep⟩ := ha.exists_known nofun
  obtain ⟨u, w, head', rfl, hbt, hbv, hbrep⟩ := hb.exists_known nofun
  have hfirst : f.args[0]? = some a := by rw [hf]; rfl
  have hsecond : f.args[1]? = some b := by rw [hf]; rfl
  have hdenote : p.denote "cload" f.resultType [(t, some head), (u, some head')] =
      (p.string? (t, some head)).bind fun moduleName => (p.string? (u, some head')).bind fun name =>
        (p.loaded f.resultType moduleName name).map fun a => .same (.slot a) := rfl
  rw [hdenote]
  have refused : checkNatives f m.store.memory [0, 1] true string ≠ [] ∨
      stringArg f m.store.memory 0 = none ∨ stringArg f m.store.memory 1 = none →
      loadConst.Gives p terms m f none := by
    intro hcheck
    obtain ⟨found, hfound, hne⟩ := checkNames_of_none m.store.types hcheck
    exact Opcode.gives_of_refused hfound hne h.recalls
  have htag : string.tag?.isSome = true := rfl
  obtain ⟨hx, hy, hcheck⟩ | ⟨hnone, hcheck⟩ :=
    checkNatives_cases h hfirst hsecond hat hbt hav hbv harep hbrep htag
  · rw [string?_eq hx, string?_eq hy]
    cases hmodule : stringArg f m.store.memory 0 with
    | none => exact refused (.inr (.inl hmodule))
    | some moduleName =>
      rw [Option.bind_some]
      cases hname : stringArg f m.store.memory 1 with
      | none => exact refused (.inr (.inr hname))
      | some name =>
        exact gives_loadConst hp h hmodules hresult hcheck hmodule hname
  · have hunread : ((p.string? (t, some head)).bind fun moduleName =>
        (p.string? (u, some head')).bind fun name =>
          (p.loaded f.resultType moduleName name).map fun a => Answer.same (.slot a)) = none := by
      obtain hnone | hnone := hnone
      · rw [Program.string?, hnone]
        rfl
      · rw [show p.string? (u, some head') = none by rw [Program.string?, hnone]; rfl]
        cases p.string? (t, some head) <;> rfl
    rw [hunread]
    exact refused (.inl hcheck)

/-! ### All of them -/

lemma get?_iadd : (Opcodes.ofList opcodes).get? "iadd" = some addIntegers := by
  simp [Opcodes.ofList, KeyMap.ofList, opcodes, KeyMap.get?_insert, Opcode.mnemonic, addIntegers,
    addNumbers, sumIntegers, sumNumbers, concatStrings, peek, slice, getKey, loadConst, binary, sum,
    binarySignature]

lemma get?_nadd : (Opcodes.ofList opcodes).get? "nadd" = some addNumbers := by
  simp [Opcodes.ofList, KeyMap.ofList, opcodes, KeyMap.get?_insert, Opcode.mnemonic, addIntegers,
    addNumbers, sumIntegers, sumNumbers, concatStrings, peek, slice, getKey, loadConst, binary, sum,
    binarySignature]

/-- **The standard opcodes do what they denote.** -/
lemma meets (hp : p.Sound) {mnemonic : String} {op : Opcode}
    (hop : p.opcodes.get? mnemonic = some op) : op.Meets p mnemonic := by
  rw [hp.standard] at hop
  obtain ⟨o, ho, hpair⟩ := List.mem_map.mp (KeyMap.mem_of_get?_ofList hop)
  cases hpair
  simp only [opcodes, List.mem_cons, List.not_mem_nil, or_false] at ho
  rcases ho with rfl | rfl | rfl | rfl | rfl | rfl | rfl | rfl | rfl
  · exact meets_addIntegers
  · exact meets_addNumbers
  · exact meets_sumIntegers
  · exact meets_sumNumbers
  · exact meets_concatStrings
  · exact meets_peek
  · exact meets_slice
  · exact meets_getKey
  · exact meets_loadConst hp

lemma exists_folding (hp : p.Sound) {mnemonic : String} {type : Ty}
    {args : List (Term × Option Head)} {adding : String} {items initial : Term}
    (h : p.denote mnemonic type args = some (.fold adding items initial)) :
    ∃ op, p.opcodes.get? adding = some op ∧
      op.signature.arguments.map Argument.evaluation = [.evaluated, .evaluated] := by
  rw [hp.standard]
  unfold Program.denote at h
  split at h <;> simp [Option.bind_eq_some_iff, Option.map_eq_some_iff] at h
  · exact h.1 ▸ ⟨_, get?_iadd, rfl⟩
  · exact h.1 ▸ ⟨_, get?_nadd, rfl⟩

end Standard

end CellMachine
