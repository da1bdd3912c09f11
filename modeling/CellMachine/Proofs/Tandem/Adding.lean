import CellMachine.Proofs.Meaning.Completeness
import CellMachine.Proofs.Tandem.Success

/-!
A leader that adds integers from the left, as a source of terms: each time the next term is evaluated
on both machines, the leader adds it to the sum so far. How the follower groups what it gets is left
open here.
-/

namespace CellMachine

/-! ### Slots with values -/

namespace Machine

variable {m : Machine}

/-- A slot has a value, and no member of it is still to be evaluated. -/
def Settled (memory : Memory) (a : Address) (v : Value) : Prop :=
  memory.value? a = some v ∧ openMembers memory v = []

lemma force_deep_of_settled {a : Address} {v : Value} (h : Settled m.store.memory a v) :
    force a .deep m = (.value a, m) := by
  rw [force_deep_of_value h.1, deepen_eq, h.2]

lemma ends_of_settled {a : Address} {v : Value} (h : Settled m.store.memory a v) (depth : Depth) :
    Ends (.evaluate a depth) m a m.tick := by
  have hv : m.tick.store.memory.value? a = some v := h.1
  have hall : SucceedAll Ends [] m [] m := ⟨rfl, rfl⟩
  refine ends_of hall ?_
  show Leads Ends (force a depth m.tick) a m.tick
  cases depth with
  | shallow =>
    rw [force_shallow_of_value hv]
    exact ⟨rfl, rfl⟩
  | deep =>
    rw [force_deep_of_settled (m := m.tick) h]
    exact ⟨rfl, rfl⟩

lemma force_deep_of_native {a : Address} {v : Native}
    (hv : m.store.memory.value? a = some (.native v)) : force a .deep m = (.value a, m) :=
  force_deep_of_settled ⟨hv, rfl⟩

end Machine

namespace Tandem

open Machine

variable {T : Tandem} {D D' : Nat → Nat → Prop} {m m' n n' : Machine} {type : Ty}

/-! ### Slots of a machine alone -/

/-- A slot of a machine alone, made for a sum. -/
structure Own (type : Ty) (base : Nat) (shared : Nat → Prop) (m : Machine) (i : Nat)
    (v : Option Value) : Prop where
  base : base ≤ i
  alone : ¬ shared i
  slot : m.store.memory.get? (.at i) = some ⟨reduceCell type, v⟩
  pending : m.pending.get? i = none

section Own

variable {base i : Nat} {shared shared' : Nat → Prop} {v : Option Value}

lemma Own.lt_size (h : Own type base shared m i v) : i < m.store.memory.slots.size :=
  (Array.getElem?_eq_some_iff.mp h.slot).1

lemma Own.value? (h : Own type base shared m i v) : m.store.memory.value? (.at i) = v := by
  rw [Memory.value?, h.slot]
  rfl

lemma Own.tick (h : Own type base shared m i v) : Own type base shared m.tick i v :=
  ⟨h.base, h.alone, h.slot, h.pending⟩

lemma Own.advances (h : Own type base shared m i v) (ha : Advances shared m m')
    (hfresh : ∀ k, shared' k → shared k ∨ m.store.memory.slots.size ≤ k) :
    Own type base shared' m' i v := by
  have hlt := h.lt_size
  refine ⟨h.base, fun hs => ?_, (ha.frame i hlt h.alone).trans h.slot,
    (ha.pending i hlt).trans h.pending⟩
  rcases hfresh i hs with hs | hle
  · exact h.alone hs
  · omega

lemma Own.still {config : Config} (h : Own type base shared m i v) (hs : T.Still config m m') :
    Own type base shared m' i v :=
  ⟨h.base, h.alone, by rw [hs.memory, h.slot], by rw [hs.pending, h.pending]⟩

lemma Own.aside {config : Config} {kept : Nat → Prop} (h : Own type base shared m i v)
    (ha : T.Aside config kept m m') (hkept : kept i) : Own type base shared m' i v :=
  ⟨h.base, h.alone, (ha.slots i hkept).trans h.slot, by rw [ha.pending, h.pending]⟩

end Own

section Aside

variable {config : Config} {kept kept' : Nat → Prop}

lemma Aside.mono (h : T.Aside config kept m m') (hk : ∀ i, kept' i → kept i) :
    T.Aside config kept' m m' :=
  { h with slots := fun i hi => h.slots i (hk i hi) }

lemma Aside.trans {m'' : Machine} (h : T.Aside config kept m m') (h' : T.Aside config kept m' m'') :
    T.Aside config kept m m'' where
  rides := h'.rides
  size := h.size.trans h'.size
  values := fun a v hv => h'.values a v (h.values a v hv)
  slots := fun i hi => (h'.slots i hi).trans (h.slots i hi)
  pending := h'.pending.trans h.pending

lemma Rides.aside_refl (h : T.Rides config m) : T.Aside config kept m m :=
  ⟨h, le_rfl, fun _ _ => id, fun _ _ => rfl, rfl⟩

lemma Rides.aside_tick (h : T.Rides config m) : T.Aside config kept m m.tick :=
  h.tick.aside

/-- Room for a sum is a new slot. -/
lemma Rides.aside_withRoom (h : T.Rides config m) (type : Ty) :
    T.Aside config (· < m.store.memory.slots.size) m (withRoom type m) := by
  have hover := m.store.memory.over_allocate (reduceCell type) none
  exact ⟨h.withMemory (h.memory.trans hover) hover.size_le, hover.size_le, fun _ _ => hover.keeps,
    fun _ => hover.get?, rfl⟩

lemma Rides.own_withRoom (h : T.Rides config m) {base : Nat} {shared : Nat → Prop}
    (hbase : base ≤ m.store.memory.slots.size) (hshared : ∀ i, shared i →
      i < m.store.memory.slots.size) :
    Own type base shared (withRoom type m) m.store.memory.slots.size none :=
  ⟨hbase, fun hs => lt_irrefl _ (hshared _ hs), Memory.get?_allocate_self _ _ _,
    Abreast.pending_size h le_rfl⟩

lemma Rides.aside_memoize (hT : T.Sound) (h : T.Rides config m) (s : Nat) (v : Value) :
    T.Aside config (· ≠ s) m
      { m with store := { m.store with memory := m.store.memory.memoize (.at s) v } } where
  rides := h.withMemory (Abreast.over_memoize hT h s v) (Memory.size_memoize _ _ _).ge
  size := (Memory.size_memoize _ _ _).ge
  values := fun _ _ hu => Memory.value?_memoize_of_some hu v
  slots := fun i hi => by
    show (m.store.memory.memoize (.at s) v).get? (.at i) = _
    rw [Memory.get?_memoize, if_neg (Ne.symm hi)]
  pending := rfl

lemma Own.memoize {base s : Nat} {shared : Nat → Prop} (h : Own type base shared m s none)
    (v : Value) : Own type base shared
      { m with store := { m.store with memory := m.store.memory.memoize (.at s) v } } s (some v) := by
  refine ⟨h.base, h.alone, ?_, h.pending⟩
  show (m.store.memory.memoize (.at s) v).get? (.at s) = _
  rw [Memory.get?_memoize, if_pos rfl, h.slot]
  rfl

end Aside

lemma Abreast.beside {D₀ : Nat → Nat → Prop} {m₀ n₀ : Machine} (h : T.Abreast D m n)
    (onward : Onward D₀ m₀ n₀ D m n)
    (hm : T.Aside T.leading (fun i => i < m₀.store.memory.slots.size ∨ ∃ j, D i j) m m')
    (hn : T.Aside T.following (fun j => j < n₀.store.memory.slots.size ∨ ∃ i, D i j) n n') :
    T.Abreast D m' n' ∧ Onward D₀ m₀ n₀ D m' n' := by
  have later : ∀ {config shared kept} {k k' k₀ : Machine}, T.Aside config kept k k' →
      (∀ i < k₀.store.memory.slots.size, kept i) → Advances shared k₀ k → Advances shared k₀ k' := by
    intro config shared kept k k' k₀ ha hk hadv
    refine ⟨hadv.size.trans ha.size, fun a v hv => ha.values a v (hadv.values a v hv),
      fun i hi hno => ?_, fun i hi => ?_⟩
    · rw [ha.slots i (hk i hi), hadv.frame i hi hno]
    · rw [ha.pending, hadv.pending i hi]
  refine ⟨h.aside (hm.mono fun _ => .inr) (hn.mono fun _ => .inr), onward.pairs, onward.fresh, ?_, ?_⟩
  · exact later hm (fun _ => .inl) onward.leader
  · exact later hn (fun _ => .inl) onward.follower

lemma Abreast.join {D₀ : Nat → Nat → Prop} {m₀ n₀ : Machine} (h : T.Abreast D m n)
    (onward : Onward D₀ m₀ n₀ D m n) (htype : T.types.Agrees type) {i j : Nat} {v : Native}
    (hi : Own type m₀.store.memory.slots.size (fun i => ∃ j, D i j) m i (some (.native v)))
    (hj : Own type n₀.store.memory.slots.size (fun j => ∃ i, D i j) n j (some (.native v))) :
    ∃ D', T.Abreast D' m n ∧ Onward D₀ m₀ n₀ D' m n ∧ D' i j := by
  have hpairs : ∀ k l, D k l → D k l ∨ k = i ∧ l = j := fun _ _ => .inl
  refine ⟨fun k l => D k l ∨ k = i ∧ l = j, ⟨h.leader, h.follower, fun k hk => .inl (h.base k hk),
    ⟨?_, ?_⟩, ?_⟩, ⟨fun k l hkl => .inl (onward.pairs k l hkl), ?_, onward.leader, onward.follower⟩,
    .inr ⟨rfl, rfl⟩⟩
  · rintro k k' l (hkl | ⟨rfl, rfl⟩) (hkl' | ⟨rfl, heq⟩)
    · exact h.unique.1 hkl hkl'
    · exact absurd ⟨k, heq ▸ hkl⟩ hj.alone
    · exact absurd ⟨k', hkl'⟩ hj.alone
    · rfl
  · rintro k l l' (hkl | ⟨rfl, rfl⟩) (hkl' | ⟨heq, rfl⟩)
    · exact h.unique.2 hkl hkl'
    · exact absurd ⟨l, heq ▸ hkl⟩ hi.alone
    · exact absurd ⟨l', hkl'⟩ hi.alone
    · rfl
  · rintro k l (hkl | ⟨rfl, rfl⟩)
    · obtain ⟨s, s', hs, hs', hsame⟩ := h.slots k l hkl
      exact ⟨s, s', hs, hs', hsame.mono hpairs⟩
    · refine ⟨_, _, hi.slot, hj.slot, rfl, htype, .some (.native v), ?_, nofun⟩
      rw [hi.pending, hj.pending]
      exact .none
  · rintro k l (hkl | ⟨rfl, rfl⟩)
    · exact onward.fresh k l hkl
    · exact .inr ⟨hi.base, hj.base⟩

/-! ### Additions of integers -/

section Additions

variable {config : Config} {l r : Address} {s : Nat} {j k : Int64}

lemma evaluate_addIntegers {f : Frame} {store : Store} (hargs : f.args = [l, r])
    (hl : store.memory.value? l = some (.int j)) (hr : store.memory.value? r = some (.int k)) :
    Standard.addIntegers.evaluate f store = (.value (.int (j + k)), store) := by
  have first : Standard.intArg f store.memory 0 = some j := by
    rw [Standard.intArg, Frame.value?, hargs]
    show ((store.memory.value? l).bind _) = _
    rw [hl]
    rfl
  have second : Standard.intArg f store.memory 1 = some k := by
    rw [Standard.intArg, Frame.value?, hargs]
    show ((store.memory.value? r).bind _) = _
    rw [hr]
    rfl
  rw [Standard.addIntegers, Standard.evaluate_binary, first, second]

lemma exists_of_intArg {f : Frame} {memory : Memory} {i : Nat} {a : Address}
    (ha : f.args[i]? = some a) (h : Standard.intArg f memory i = some j) :
    memory.value? a = some (.int j) := by
  rw [Standard.intArg, Frame.value?, ha, Option.bind_some] at h
  obtain ⟨v, hv, h⟩ := Option.bind_eq_some_iff.mp h
  obtain ⟨x, hx, h⟩ := Option.bind_eq_some_iff.mp h
  rw [hv]
  cases v with
  | native y =>
    cases hx
    cases x with
    | int i =>
      cases h
      rfl
    | _ => cases h
  | _ => cases hx

lemma evaluate_addIntegers_of_none {f : Frame} {store : Store}
    (h : Standard.intArg f store.memory 0 = none ∨ Standard.intArg f store.memory 1 = none) :
    ∃ q, Standard.addIntegers.evaluate f store = (.error q, store) := by
  rw [Standard.addIntegers, Standard.evaluate_binary]
  rcases h with h | h
  · rw [h]
    exact ⟨_, rfl⟩
  · rw [h]
    cases Standard.intArg f store.memory 0 <;> exact ⟨_, rfl⟩

/-- An invocation adds the integers of two slots. -/
structure Adds (i : Invocation) (l r : Address) (s : Nat) : Prop where
  opcode : i.opcode = Standard.addIntegers
  args : i.args = [l, r]
  target : i.target = .at s

lemma adds_addition (type : Ty) (l r : Address) (s : Nat) :
    Adds (addition Standard.addIntegers type l r s) l r s := ⟨rfl, rfl, rfl⟩

/-- A machine that put a value in a slot of its own. -/
structure Summed (T : Tandem) (config : Config) (s : Nat) (v : Value) (m m' : Machine) : Prop where
  aside : T.Aside config (· ≠ s) m m'
  own : ∀ {type : Ty} {base : Nat} {shared : Nat → Prop}, Own type base shared m s none →
    Own type base shared m' s (some v)

variable {i : Invocation}

/-- What an addition does before it runs its opcode. -/
lemma Adds.exists_findings (hi : Adds i l r s) (h : T.Rides config m)
    (hready : i.unready m.store.memory = none) :
    ∃ found m₁, T.Still config m m₁ ∧ (config.runtimeValidation = false → found = []) ∧
      invoke i m = match firstOf found with
        | some q => (i.failure q, m₁)
        | none => proceed i (frameOf i m) (Standard.addIntegers.evaluate (frameOf i m) m₁.store).1
            { m₁ with store := (Standard.addIntegers.evaluate (frameOf i m) m₁.store).2 } := by
  have hstill := h.tellOpcode fun _ => .opcodeStarted i.function i.index i.cell
  have hinvoke := invoke_eq_of_ready hready
  rw [hi.opcode] at hinvoke
  refine ⟨_, _, hstill.trans ?_, fun hvalidate => ?_, hinvoke⟩
  · unfold findings RunM.checking
    rw [hi.opcode]
    split
    · exact hstill.rides.still rfl rfl hstill.rides.recalls hstill.rides.compiled rfl
    · exact hstill.rides.still rfl rfl hstill.rides.recalls hstill.rides.compiled rfl
  · rw [findings, RunM.checking, hstill.rides.config, hvalidate]
    rfl

lemma Adds.exists_integers (hi : Adds i l r s) (h : T.Rides config m) :
    (∃ q m', invoke i m = (.error q, m')) ∨
      ∃ j k, m.store.memory.value? l = some (.int j) ∧ m.store.memory.value? r = some (.int k) := by
  cases hready : i.unready m.store.memory with
  | some position =>
    exact .inl ⟨_, _, invoke_of_unready hready⟩
  | none =>
    obtain ⟨found, m₁, hstill, -, hinvoke⟩ := hi.exists_findings h hready
    rw [hinvoke, ← hstill.memory]
    cases firstOf found with
    | some q => exact .inl ⟨_, _, rfl⟩
    | none =>
      have refused : Standard.intArg (frameOf i m) m₁.store.memory 0 = none ∨
          Standard.intArg (frameOf i m) m₁.store.memory 1 = none →
          ∃ q m', proceed i (frameOf i m) (Standard.addIntegers.evaluate (frameOf i m) m₁.store).1
            { m₁ with store := (Standard.addIntegers.evaluate (frameOf i m) m₁.store).2 } =
            (.error q, m') := by
        intro hnone
        obtain ⟨q, hq⟩ := evaluate_addIntegers_of_none hnone
        rw [hq]
        exact ⟨_, _, rfl⟩
      have hfirst : (frameOf i m).args[0]? = some l := by rw [frameOf, hi.args]; rfl
      have hsecond : (frameOf i m).args[1]? = some r := by rw [frameOf, hi.args]; rfl
      cases hj : Standard.intArg (frameOf i m) m₁.store.memory 0 with
      | none => exact .inl (refused (.inl hj))
      | some j =>
        cases hk : Standard.intArg (frameOf i m) m₁.store.memory 1 with
        | none => exact .inl (refused (.inr hk))
        | some k => exact .inr ⟨j, k, exists_of_intArg hfirst hj, exists_of_intArg hsecond hk⟩

/-- **Integers are added**, unless something is found before. -/
lemma Adds.invoke (hT : T.Sound) (hi : Adds i l r s) (h : T.Rides config m)
    (hl : m.store.memory.value? l = some (.int j)) (hr : m.store.memory.value? r = some (.int k)) :
    (∃ q m', invoke i m = (.error q, m') ∧ config.runtimeValidation = true) ∨
    ∃ m', Machine.invoke i m = (.value (.at s), m') ∧ T.Summed config s (.int (j + k)) m m' := by
  have hready : i.unready m.store.memory = none := by
    simp [Invocation.unready, hi.opcode, hi.args, Standard.addIntegers, Standard.binary,
      Standard.binarySignature, Memory.isEvaluated, hl, hr]
  have hallows : T.Allows i.opcode := hi.opcode ▸ ⟨by simp [Standard.opcodes], fun _ => by decide⟩
  obtain ⟨found, m₁, hstill, hvalidate, hinvoke⟩ := hi.exists_findings h hready
  rw [hinvoke]
  cases hfound : firstOf found with
  | some q =>
    refine .inl ⟨_, _, rfl, ?_⟩
    cases hconfig : config.runtimeValidation with
    | true => rfl
    | false =>
      rw [hvalidate hconfig] at hfound
      cases hfound
  | none =>
    right
    have heval : Standard.addIntegers.evaluate (frameOf i m) m₁.store =
        (.value (.int (j + k)), m₁.store) :=
      evaluate_addIntegers hi.args (hstill.memory.symm ▸ hl) (hstill.memory.symm ▸ hr)
    have hfilled := hstill.rides.aside_memoize hT s (.int (j + k))
    have hresolved := hfilled.rides.tellOpcode fun memory =>
      .opcodeResolved i.function i.index i.cell (memory.treeAt i.target)
    dsimp only
    rw [heval]
    dsimp only
    rw [proceed_of_value hallows.standard, hi.target]
    rw [hi.target] at hresolved
    refine ⟨(i.resolved _).2, rfl, ?_, fun {type base shared} hown => ?_⟩
    · rw [Invocation.resolved, hi.target]
      exact hstill.aside.trans (hfilled.trans hresolved.aside)
    · rw [Invocation.resolved, hi.target]
      exact ((hown.still hstill).memoize (.int (j + k))).still hresolved

end Additions

/-! ### Slots with native values -/

section Native

variable {a b : Address} {v : Native}

lemma succeeds_native {fuel : Nat} (hv : m.store.memory.value? a = some (.native v))
    (hs : Succeeds fuel (.evaluate a .deep) m b m') : b = a ∧ m' = m.tick := by
  cases fuel with
  | zero => cases hs
  | succ fuel =>
    obtain ⟨bs, m₁, ⟨rfl, rfl⟩, hleads⟩ := succeeds_succ_iff.mp hs
    change Leads _ (force a .deep m.tick) b m' at hleads
    rw [force_deep_of_native (m := m.tick) hv] at hleads
    obtain ⟨rfl, rfl⟩ := hleads
    exact ⟨rfl, rfl⟩

end Native

/-! ### What is left of a sum -/

/-- A sum of the leader: where it began, and where it ends. -/
structure Folding where
  type : Ty
  fuel : Nat
  pairs : Nat → Nat → Prop
  leader : Machine
  follower : Machine
  result : Address
  final : Machine

namespace Folding

/-- How the terms of a sum are combined. -/
def combiner (F : Folding) : Combiner := .opcode Standard.addIntegers none F.type

/-- The leader is about to evaluate the second of two terms, to add it in a slot, and to go on. -/
def Adding (F : Folding) (a t : Address) (rest : List Address) (s : Nat) (m : Machine) : Prop :=
  ∃ c m₁ c' m₂, Succeeds F.fuel (.evaluate t .deep) m.tick c m₁ ∧
    Leads (Succeeds F.fuel) (invoke (addition Standard.addIntegers F.type a t s) m₁.tick) c' m₂ ∧
    Leads (Succeeds F.fuel) (sequential F.combiner c' rest m₂.tick) F.result F.final

/-- A slot of the leader's own since the sum began. -/
def Leads (F : Folding) (D : Nat → Nat → Prop) : Machine → Nat → Option Value → Prop :=
  Own F.type F.leader.store.memory.slots.size fun i => ∃ j, D i j

/-- A slot of the follower's own since the sum began. -/
def Follows (F : Folding) (D : Nat → Nat → Prop) : Machine → Nat → Option Value → Prop :=
  Own F.type F.follower.store.memory.slots.size fun j => ∃ i, D i j

/-- What the leader has still to do, by the sum so far and the terms that are left. -/
inductive Remaining (F : Folding) (D : Nat → Nat → Prop) : Int64 → List Address → Machine → Prop
  | first {a t x : Address} {rest : List Address} {s : Nat} {m m₁ : Machine}
    (hroom : F.Leads D m s none) (ha : Succeeds F.fuel (.evaluate a .deep) m.tick x m₁)
    (hadd : F.Adding a t rest s m₁) : Remaining F D 0 (a :: t :: rest) m
  | next {a t : Address} {rest : List Address} {s : Nat} {m : Machine} {k : Int64}
    (hroom : F.Leads D m s none) (ha : m.store.memory.value? a = some (.int k))
    (hadd : F.Adding a t rest s m) : Remaining F D k (t :: rest) m
  | last {s : Nat} {k : Int64} (hroom : F.Leads D F.final s (some (.int k)))
    (hresult : F.result = .at s) : Remaining F D k [] F.final

end Folding

/-- The follower, while the leader with a sum so far has still to add the terms that these are paired
with. -/
def Feed (T : Tandem) (F : Folding) (D : Nat → Nat → Prop) (n : Machine) (k : Int64)
    (todo : List Address) : Prop :=
  ∃ m terms, T.Abreast D m n ∧ Onward F.pairs F.leader F.follower D m n ∧ F.Remaining D k terms m ∧
    List.Forall₂ (Paired D) terms todo

variable {F : Folding} {k : Int64}

lemma adding_of_sequential {a t : Address} {rest : List Address}
    (h : Leads (Succeeds F.fuel) (sequential F.combiner a (t :: rest) m) F.result F.final) :
    ∃ x m₁, Succeeds F.fuel (.evaluate a .deep) (withRoom F.type m).tick.tick x m₁ ∧
      F.Adding a t rest m.store.memory.slots.size m₁ := by
  rw [Folding.combiner, sequential_of_combine (combine_eq _ F.type a t m)] at h
  change Succeeds F.fuel _ (withRoom F.type m) F.result F.final at h
  obtain ⟨fuel, hfuel⟩ : ∃ fuel, F.fuel = fuel + 2 := by
    match hf : F.fuel with
    | 0 => rw [hf] at h; cases h
    | 1 =>
      rw [hf] at h
      obtain ⟨b₁, m₁, hfirst, -⟩ := succeeds_andThen h
      cases hfirst
    | fuel + 2 => exact ⟨fuel, rfl⟩
  have more : ∀ {f}, f ≤ fuel + 2 → ∀ x m b m', Succeeds f x m b m' → Succeeds F.fuel x m b m' := by
    intro f hle x m b m' hs
    rw [hfuel]
    exact succeeds_mono hle hs
  rw [hfuel] at h
  obtain ⟨c', m₃, hadd, hrest⟩ := succeeds_andThen h
  obtain ⟨bs, m₂, hall, hinvoke⟩ := succeeds_succ_iff.mp hadd
  obtain ⟨x, m₁, bs', hx, ⟨c, m₂', bs'', hc, ⟨rfl, rfl⟩, rfl⟩, rfl⟩ := hall
  exact ⟨x, m₁, more (by omega) _ _ _ _ hx, c, m₂', c', m₃, more (by omega) _ _ _ _ hc,
    hinvoke.mono (more (by omega)), hrest.mono (more (by omega))⟩

lemma Folding.Leads.ne {s : Nat} {v : Option Value} (h : F.Leads D m s v) {i : Nat}
    (hi : i < F.leader.store.memory.slots.size ∨ ∃ j, D i j) : i ≠ s := by
  rintro rfl
  rcases hi with hi | hi
  · have := h.base
    omega
  · exact h.alone hi

/-- **The leader adds a term** and waits with the next. -/
lemma feed_of_adding (hT : T.Sound) (h : T.Abreast D m n)
    (onward : Onward F.pairs F.leader F.follower D m n) {a t c' : Address} {s : Nat}
    {m₂ : Machine} {y : Int64} {rest todo : List Address} (hroom : F.Leads D m s none)
    (ha : m.store.memory.value? a = some (.int k)) (ht : m.store.memory.value? t = some (.int y))
    (hinvoke : Leads (Succeeds F.fuel) (invoke (addition Standard.addIntegers F.type a t s) m.tick)
      c' m₂)
    (hrest : Leads (Succeeds F.fuel) (sequential F.combiner c' rest m₂.tick) F.result F.final)
    (htodo : List.Forall₂ (Paired D) rest todo) : T.Feed F D n (k + y) todo := by
  rcases (adds_addition F.type a t s).invoke hT h.leader.tick.rides ha ht with
    ⟨q, m₃, hq, -⟩ | ⟨m₃, heq, hsum⟩
  · rw [hq] at hinvoke
    exact hinvoke.elim
  rw [heq] at hinvoke
  obtain ⟨rfl, rfl⟩ := hinvoke
  have hsize : ∀ i, (i < F.leader.store.memory.slots.size ∨ ∃ j, D i j) →
      i < m.store.memory.slots.size := by
    rintro i (hi | ⟨j, hij⟩)
    · exact lt_of_lt_of_le hi onward.leader.size
    · exact (h.lt_size hij).1
  have haside : T.Aside T.leading (fun i => i < F.leader.store.memory.slots.size ∨ ∃ j, D i j) m
      m₃.tick :=
    h.leader.aside_tick.trans ((hsum.aside.mono fun i => hroom.ne).trans
      hsum.aside.rides.aside_tick)
  have hsummed : F.Leads D m₃.tick s (some (.int (k + y))) := (hsum.own hroom.tick).tick
  cases htodo with
  | nil =>
    change Leads _ (force (.at s) .shallow m₃.tick) F.result F.final at hrest
    rw [force_shallow_of_value hsummed.value?] at hrest
    obtain ⟨hresult, hfinal⟩ := hrest
    obtain ⟨h', onward'⟩ := h.beside onward haside h.follower.aside_refl
    rw [hfinal] at h' onward' hsummed
    exact ⟨F.final, [], h', onward', .last hsummed hresult.symm, .nil⟩
  | @cons next next' rest todo hnext htodo =>
    obtain ⟨x, m₄, hx, hadd⟩ := adding_of_sequential hrest
    have hnew := haside.rides.aside_withRoom F.type
    have hvalue : (withRoom F.type m₃.tick).tick.tick.store.memory.value? (.at s) =
        some (.native (.int (k + y))) := hnew.values _ _ hsummed.value?
    obtain ⟨rfl, rfl⟩ := succeeds_native hvalue hx
    have hroom' : F.Leads D (withRoom F.type m₃.tick) m₃.tick.store.memory.slots.size none := by
      refine haside.rides.own_withRoom (onward.leader.size.trans haside.size) fun i hi => ?_
      exact lt_of_lt_of_le (hsize i (.inr hi)) haside.size
    have hticked := hnew.rides.tick.rides.tick
    have haside' := haside.trans ((hnew.mono fun i hi => lt_of_lt_of_le (hsize i hi) haside.size).trans
      (hnew.rides.aside_tick.trans (hnew.rides.tick.rides.aside_tick.trans hticked.rides.aside_tick)))
    obtain ⟨h', onward'⟩ := h.beside onward haside' h.follower.aside_refl
    exact ⟨_, _, h', onward', .next hroom'.tick.tick.tick hvalue hadd, .cons hnext htodo⟩

/-- What an evaluation of the follower leaves alone. -/
structure Folding.Spares (F : Folding) (D : Nat → Nat → Prop) (n : Machine) (D' : Nat → Nat → Prop)
    (n' : Machine) : Prop where
  values : ∀ a v, n.store.memory.value? a = some v → n'.store.memory.value? a = some v
  own : ∀ j v, F.Follows D n j v → F.Follows D' n' j v

lemma Folding.spares_of_onward (onward : Onward D m n D' m' n') : F.Spares D n D' n' where
  values := onward.follower.values
  own := fun j v hown => hown.advances onward.follower fun l ⟨i, hil⟩ => by
    rcases onward.fresh i l hil with hil | ⟨-, hle⟩
    · exact .inl ⟨i, hil⟩
    · exact .inr hle

lemma Folding.Leads.advances {s : Nat} {v : Option Value} (h : F.Leads D m s v)
    (onward : Onward D m n D' m' n') : F.Leads D' m' s v :=
  Own.advances h onward.leader fun k ⟨j, hkj⟩ => by
    rcases onward.fresh k j hkj with hkj | ⟨hle, -⟩
    · exact .inl ⟨j, hkj⟩
    · exact .inr hle

/-- The first of two terms that are added is an integer. -/
lemma exists_integer (hl : T.Leading F.fuel) (h : T.Abreast D m n) {a t t' : Address}
    {rest : List Address} {s : Nat} (htt : Paired D t t') (hadd : F.Adding a t rest s m)
    {v : Value} (hv : m.store.memory.value? a = some v) : ∃ y, v = .int y := by
  obtain ⟨c, m₁, c', m₂, ht, hinvoke, -⟩ := hadd
  obtain ⟨D₁, _, n₁, -, h₁, onward₁, -⟩ := hl.ticked h (.evaluate htt .deep) ht
  rcases (adds_addition F.type a t s).exists_integers h₁.leader.tick.rides with
    ⟨q, m₃, hq⟩ | ⟨j, _, hj, -⟩
  · rw [hq] at hinvoke
    exact hinvoke.elim
  · have hv₁ : m₁.tick.store.memory.value? a = some v := onward₁.leader.values a v hv
    rw [hv₁] at hj
    cases hj
    exact ⟨j, rfl⟩

/-- **The next term** is evaluated on both machines, and the leader adds it. -/
lemma Feed.next (hT : T.Sound) (hl : T.Leading F.fuel) {a : Address} {todo : List Address}
    (h : T.Feed F D n k (a :: todo)) : ∃ D' n' y, Ends (.evaluate a .deep) n.tick a n' ∧
      n'.store.memory.value? a = some (.int y) ∧ T.Feed F D' n' (k + y) todo ∧
      F.Spares D n D' n' := by
  obtain ⟨m, terms, habreast, onward, hremaining, hall⟩ := h
  -- What the evaluation of a term of the leader means for the follower.
  have evaluated : ∀ {x c m₁}, Paired D x a → Succeeds F.fuel (.evaluate x .deep) m.tick c m₁ →
      ∃ D₁ n₁, Ends (.evaluate a .deep) n.tick a n₁ ∧ T.Abreast D₁ m₁ n₁ ∧
        Onward D m n D₁ m₁ n₁ ∧ ∃ v, m₁.store.memory.value? x = some v := by
    intro x c m₁ hxa hx
    obtain ⟨D₁, c', n₁, hends, h₁, onward₁, hpaired⟩ :=
      hl.ticked habreast (.evaluate hxa .deep) hx
    obtain ⟨rfl, hfull⟩ := hl.reaching hT habreast.tick.1 hxa hx
    obtain ⟨hij⟩ := onward₁.paired hxa
    obtain ⟨hij'⟩ := hpaired
    rw [h₁.unique.2 hij' hij] at hends
    obtain ⟨hv, -⟩ := hfull
    exact ⟨D₁, n₁, hends, h₁, onward₁, _, hv⟩
  cases hremaining with
  | @first x t c rest s _ m₁ hroom hx hadd =>
    obtain _ | ⟨hxa, hall⟩ := hall
    obtain ⟨D₁, n₁, hends, h₁, onward₁, v, hv⟩ := evaluated hxa hx
    have hall₁ := onward₁.forall₂ hall
    obtain _ | ⟨htt, -⟩ := id hall₁
    obtain ⟨y, rfl⟩ := exists_integer hl h₁ htt hadd hv
    obtain ⟨w, hw, hvw⟩ := h₁.exists_value (onward₁.paired hxa) hv
    cases hvw
    refine ⟨D₁, n₁, y, hends, hw, ?_, F.spares_of_onward onward₁⟩
    rw [Int64.zero_add]
    exact ⟨m₁, _, h₁, onward.trans onward₁, .next (hroom.advances onward₁) hv hadd, hall₁⟩
  | @next x t rest s _ _ hroom hx hadd =>
    obtain _ | ⟨hta, hall⟩ := hall
    obtain ⟨c, m₁, c', m₂, ht, hinvoke, hrest⟩ := hadd
    obtain ⟨D₁, n₁, hends, h₁, onward₁, -⟩ := evaluated hta ht
    have hroom₁ := hroom.advances onward₁
    have hx₁ := onward₁.leader.values _ _ hx
    rcases (adds_addition F.type x t s).exists_integers h₁.leader.tick.rides with
      ⟨q, m₃, hq⟩ | ⟨_, y, -, hy⟩
    · rw [hq] at hinvoke
      exact hinvoke.elim
    · obtain ⟨w, hw, hvw⟩ := h₁.exists_value (onward₁.paired hta) hy
      cases hvw
      exact ⟨D₁, n₁, y, hends, hw, feed_of_adding hT h₁ (onward.trans onward₁) hroom₁ hx₁ hy hinvoke
        hrest (onward₁.forall₂ hall), F.spares_of_onward onward₁⟩
  | last => cases hall

lemma Feed.aside {todo : List Address} (h : T.Feed F D n k todo)
    (ha : T.Aside T.following
      (fun j => j < F.follower.store.memory.slots.size ∨ ∃ i, D i j) n n') :
    T.Feed F D n' k todo := by
  obtain ⟨m, terms, habreast, onward, hremaining, hall⟩ := h
  obtain ⟨h', onward'⟩ := habreast.beside onward habreast.leader.aside_refl ha
  exact ⟨m, terms, h', onward', hremaining, hall⟩

end Tandem

end CellMachine
