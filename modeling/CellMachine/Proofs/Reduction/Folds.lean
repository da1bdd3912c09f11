import CellMachine.Proofs.Machine.Order
import CellMachine.Proofs.Reduction.Strategies

/-!
What reductions come to. From the left it is the fold of the terms, by neighbours the value of the terms
bracketed in some way in their order, which is the fold if the operation is associative; the sum of
integers is so in either case.
-/

namespace CellMachine

open Machine

/-! ### Values that slots hold -/

namespace Representation

/-- Values as they are written out. -/
def trees : Representation Tree where
  holds memory a t := memory.Forced a ∧ memory.treeAt a = some t
  forced h := h.1
  retained hr h := ⟨hr.keeps.forced h.1, (h.1.treeAt_of_keeps hr.keeps).trans h.2⟩

/-- Integers, in slots of the type of integers or of an open one. -/
def integers : Representation Int64 where
  holds memory a k := memory.value? a = some (.int k) ∧
    ((memory.typeOf a).isRuntimeDetermined || (memory.typeOf a).tag? == some "integer") = true
  forced h := .mk h.1 nofun
  retained hr h := by
    refine ⟨hr.keeps.value? h.1, ?_⟩
    obtain ⟨s, hs, -⟩ := Option.bind_eq_some_iff.mp h.1
    rw [hr.typeOf (by rw [hs]; rfl)]
    exact h.2

lemma checkNative_of_integers {frame : Frame} {memory : Memory} {index : Nat} {a : Address} {k : Int64}
    (harg : frame.args[index]? = some a) (ha : integers.holds memory a k) :
    Standard.checkNative frame memory index true Standard.integer = none := by
  obtain ⟨hv, htype⟩ := ha
  have htag : Standard.integer.tag? = some "integer" := rfl
  simp only [Standard.checkNative, htag, harg, htype, hv, if_true]
  rfl

/-- **The addition of integers combines them**, whatever does not fit. -/
lemma combines_addIntegers {type : Ty}
    (htype : (type.isRuntimeDetermined || type.tag? == some "integer") = true) :
    Standard.addIntegers.Combines integers (· + ·) type where
  arguments := rfl
  valid := fun frame memory types l r x y hargs hl hr => by
    show Standard.checkNatives frame memory [0, 1] true Standard.integer = []
    refine Standard.checkNatives_pair.mpr ⟨?_, ?_⟩
    · exact checkNative_of_integers (a := l) (by rw [hargs]; rfl) hl
    · exact checkNative_of_integers (a := r) (by rw [hargs]; rfl) hr
  evaluates := fun frame s l r x y hargs hl hr => by
    refine ⟨.int (x + y), s, Tandem.evaluate_addIntegers hargs hl.1 hr.1, .refl _, rfl, fun _ => rfl,
      fun i hi => ?_⟩
    have hwritten : (s.memory.memoize (.at i) (.int (x + y))).get? (.at i) =
        some ⟨reduceCell type, some (.int (x + y))⟩ := by
      rw [Memory.get?_memoize, if_pos rfl, hi]
      rfl
    refine ⟨by rw [Memory.value?, hwritten]; rfl, ?_⟩
    rw [Memory.typeOf, hwritten]
    exact htype

lemma foldl_add (x : Int64) (ys : List Int64) :
    ys.foldl (· + ·) x = Int64.ofInt (x.toInt + (ys.map Int64.toInt).sum) := by
  induction ys generalizing x with
  | nil => rw [List.foldl_nil, List.map_nil, List.sum_nil, Int.add_zero, Int64.ofInt_toInt]
  | cons y ys ih =>
    rw [List.foldl_cons, ih, List.map_cons, List.sum_cons, Int64.ofInt_add, Int64.ofInt_add,
      Int64.ofInt_add, Int64.ofInt_toInt, Int64.ofInt_toInt, Int64.ofInt_toInt, Int64.add_assoc]

/-! ### Reductions of lists -/

variable {α : Type} {R : Representation α} {f : α → α → α} {op : Opcode} {type : Ty}
  {mine rooms : Nat → Prop} {m m' : Machine} {iterable initial : Address} {x : α} {ys : List α}
  {k s : Nat}

/-- How far a reduction evaluates its terms: an initial term that is alone is evaluated without its
members. -/
def demand : List α → Depth
  | [] => .shallow
  | _ :: _ => .deep

/-- **A list comes to values**, and an initial term too, with some number of starts of opcodes in all:
wherever a reduction has come to by itself when it asks for the list, that is evaluated, and from there
the terms come to their values. -/
def Lists (R : Representation α) (op : Opcode) (rooms : Nat → Prop) (m : Machine)
    (iterable initial : Address) (x : α) (ys : List α) (k : Nat) : Prop :=
  ∀ m₁, Reducing op rooms m m₁ → ∃ m₂ items k₁ k₂,
    Leads Ends (force iterable .shallow m₁) iterable m₂ ∧
    m₂.store.memory.value? iterable = some (.iterable items) ∧
    Spares (roomsSince rooms m m₁) m₁ m₂ ∧ m₂.invocations = m₁.invocations + k₁ ∧
    R.Supplies op (demand ys) (roomsSince rooms m m₁) m₂ (initial :: items.toList) (x :: ys) k₂ ∧
    k = k₁ + k₂

lemma lists_of_holds {items : Sequence Address}
    (hlist : m.store.memory.value? iterable = some (.iterable items))
    (hinitial : R.holds m.store.memory initial x)
    (hall : List.Forall₂ (R.holds m.store.memory) items.toList ys) :
    R.Lists op rooms m iterable initial x ys 0 := by
  intro m₁ hreducing
  have hlist₁ := hreducing.memory.keeps.value? hlist
  refine ⟨m₁, items, 0, 0, ?_, hlist₁, .refl m₁, rfl, supplies_of_holds (.cons ?_ ?_), rfl⟩
  · rw [force_shallow_of_value hlist₁]
    exact ⟨rfl, rfl⟩
  · exact R.retained hreducing.memory hinitial
  · exact hall.imp fun _ _ => R.retained hreducing.memory

/-- What a reduction comes to: a slot that shows the value of its terms, bracketed in some way in their
order, from the left if that is the strategy; as many opcodes were started as there were terms beside the
initial one, and as terms need. -/
structure Reduced (R : Representation α) (f : α → α → α) (strategy : ReduceStrategy)
    (initial : Address) (x : α) (ys : List α) (k : Nat) (m : Machine) (b : Address) (m' : Machine)
    (t : Bracketing α) : Prop where
  leaves : t.leaves = x :: ys
  sequential : strategy = .sequential → t = (Bracketing.term x).fromLeft ys
  shows : R.Shows m' b (t.value f) .shallow
  alone : ys = [] → b = initial
  count : m'.invocations = m.invocations + ys.length * m.setting.heard + k

lemma leads_reduceElements (hop : op.Combines R f type) {items : Sequence Address}
    (hlist : m.store.memory.value? iterable = some (.iterable items))
    (h : R.Offers op (demand ys) mine m (initial :: items.toList) (x :: ys) k) : ∃ b m' t,
      Leads Ends (reduceElements (.opcode op none type) initial iterable m) b m' ∧
      Spares mine m m' ∧
      R.Reduced f m.setting.config.reduceStrategy initial x ys k m b m' t := by
  have hsequential (hs : m.setting.config.reduceStrategy = .sequential) :
      reduceElements (.opcode op none type) initial iterable m =
        sequential (.opcode op none type) initial items.toList m := by
    simp only [reduceElements, RunM.run_bind, RunM.run_memory, hlist, RunM.run_setting, hs]
  have hpairwise (hs : m.setting.config.reduceStrategy = .pairwise) :
      reduceElements (.opcode op none type) initial iterable m =
        pairwise (.opcode op none type) (initial :: items.toList) m := by
    simp only [reduceElements, RunM.run_bind, RunM.run_memory, hlist, RunM.run_setting, hs]
  have hlength := h.length_eq
  generalize items.toList = rest at h hlength hsequential hpairwise
  -- Without elements the initial value is the result as it is; else a strategy takes over.
  cases ys with
  | nil =>
    obtain rfl : rest = [] := List.length_eq_zero_iff.mp (Nat.succ.inj hlength)
    obtain ⟨m', k₁, k₂, hleads, hshows, hspares, hcount, hrest, rfl⟩ := h.next
    obtain rfl := hrest.eq_zero
    refine ⟨initial, m', .term x, ?_, hspares, rfl, fun _ => rfl, hshows, fun _ => rfl, ?_⟩
    · cases hstrategy : m.setting.config.reduceStrategy with
      | sequential => rwa [hsequential hstrategy]
      | pairwise => rwa [hpairwise hstrategy]
    · rw [hcount, List.length_nil, Nat.zero_mul]
      rfl
  | cons y ys =>
    cases rest with
    | nil => cases hlength
    | cons b rest =>
      have hline : R.InLine op mine m (initial :: b :: rest) (x :: y :: ys) k := h.inLine
      cases hstrategy : m.setting.config.reduceStrategy with
      | sequential =>
        rw [hsequential hstrategy]
        obtain ⟨c, m', hleads, hholds, hspares, hcount⟩ := leads_sequential hop hline
        refine ⟨c, m', (Bracketing.term x).fromLeft (y :: ys), hleads, hspares,
          Bracketing.leaves_fromLeft _ _, fun _ => rfl, ?_, fun heq => (by cases heq), hcount⟩
        rw [Bracketing.value_fromLeft]
        exact shows_of_holds hholds .shallow
      | pairwise =>
        have hterms : (Bracketing.term x :: .term y :: ys.map Bracketing.term).map
            (Bracketing.value f) = x :: y :: ys := by
          rw [List.map_cons, List.map_cons, List.map_map]
          exact congrArg (x :: y :: ·) (List.map_id ys)
        rw [← hterms] at hline
        obtain ⟨c, m', t, hleads, hleaves, hholds, hspares, hcount⟩ := leads_pairwise hop hline
        rw [hpairwise hstrategy]
        refine ⟨c, m', t, hleads, hspares, ?_, fun heq => (by cases heq),
          shows_of_holds hholds .shallow, fun heq => (by cases heq), ?_⟩
        · rw [hleaves, List.flatMap_cons, List.flatMap_cons, List.flatMap_map]
          exact congrArg (x :: y :: ·) (List.flatMap_singleton' ys)
        · rw [hcount, List.length_cons, List.length_map]
          rfl

/-- The work that evaluates a list and reduces its elements. -/
def reduction (op : Opcode) (type : Ty) (iterable initial : Address) : Action :=
  (Action.evaluate iterable .shallow).andThen (.reduce (.opcode op none type) initial)

lemma ends_reduction (hop : op.Combines R f type) (h : R.Lists op mine m iterable initial x ys k)
    {m₀ : Machine} (hbefore : Reducing op mine m m₀) : ∃ b m' t,
      Ends (reduction op type iterable initial) m₀ b m' ∧ Spares mine m₀ m' ∧
      R.Reduced f m₀.setting.config.reduceStrategy initial x ys k m₀ b m' t := by
  have hticked : Reducing op mine m₀ m₀.tick.tick := .steps m₀ _
  have hticks : Spares mine m₀ m₀.tick.tick := .steps m₀ _
  obtain ⟨m₁, items, k₁, k₂, hleads, hlist, hspares, hcount, hsupplies, rfl⟩ :=
    h _ (hbefore.trans hticked fun _ => .inl)
  have hoffers : R.Offers op (demand ys) mine m₁.tick (initial :: items.toList) (x :: ys) k₂ :=
    (hsupplies.offers.reducing (.steps m₁ _)).mono fun i hi => .inl (.inl hi)
  obtain ⟨b, m', t, hreduces, hspares', hreduced⟩ :=
    leads_reduceElements (m := m₁.tick) hop hlist hoffers
  have hsetting : m₁.setting = m₀.setting := hspares.setting
  have hspares₁ : Spares mine m₀ m₁ := hticks.andThen (hspares.mono fun i => .inl)
  refine ⟨b, m', t, ends_andThen (ends_evaluate hleads) hreduces,
    (hspares₁.andThen (.steps m₁ _)).andThen hspares', hreduced.leaves, ?_, hreduced.shows,
    hreduced.alone, ?_⟩
  · rw [← hsetting]
    exact hreduced.sequential
  · have hcounted := hreduced.count
    change _ = m₁.invocations + ys.length * m₁.setting.heard + k₂ at hcounted
    change m₁.invocations = m₀.invocations + k₁ at hcount
    rw [hcounted, hsetting]
    omega

/-! ### Sums of integers -/

/-- An invocation that sums a list up, for a slot without a value. -/
structure Sums (m : Machine) (i : Invocation) (iterable initial : Address) (s : Nat) : Prop where
  opcode : i.opcode = Standard.sumIntegers
  args : i.args = [iterable, initial]
  target : i.target = .at s
  vacant : ∃ cell, m.store.memory.get? (.at s) = some ⟨cell, none⟩
  type : (i.cell.type.isRuntimeDetermined || i.cell.type.tag? == some "integer") = true
  adding : m.setting.opcodes.get? "iadd" = some Standard.addIntegers

/-- A sum is a reduction whose value is handed on. -/
lemma Sums.invoke {i : Invocation} (h : Sums m i iterable initial s) : ∃ m',
    Machine.invoke i m = (.action ((reduction Standard.addIntegers i.cell.type iterable initial).andThen
      (.conclude i)), m') ∧ Reducing Standard.addIntegers mine m m' := by
  have hready : i.unready m.store.memory = none := by
    rw [Invocation.unready, h.opcode, h.args]
    rfl
  have htold : Reducing Standard.addIntegers mine m
      (RunM.tellOpcode (fun _ => .opcodeStarted i.function i.index i.cell) m).2 :=
    reducing_tellOpcode _ m
  have hinvoke := invoke_eq_of_ready hready
  dsimp only at hinvoke
  generalize (RunM.tellOpcode (fun _ => .opcodeStarted i.function i.index i.cell) m).2 = m₁
    at htold hinvoke
  have hfound : findings i (frameOf i m) m₁ = ([], m₁) := by
    unfold findings RunM.checking
    rw [h.opcode]
    split <;> rfl
  have heval : i.opcode.evaluate (frameOf i m) m₁.store =
      (.reduce (.opcode "iadd" none iterable initial), m₁.store) := by
    have hargs : (frameOf i m).args = [iterable, initial] := h.args
    rw [h.opcode]
    simp only [Standard.sumIntegers, Standard.sum, hargs]
    rfl
  have hadding : m₁.setting.opcodes.get? "iadd" = some Standard.addIntegers :=
    htold.setting ▸ h.adding
  rw [hfound] at hinvoke
  dsimp only [firstOf] at hinvoke
  rw [heval] at hinvoke
  exact ⟨m₁, hinvoke.trans (proceed_fold hadding), htold⟩

/-- **A sum of integers** is written in its slot, under either strategy. -/
lemma ends_sum {i : Invocation} {x : Int64} {ys : List Int64} (hi : Sums m i iterable initial s)
    (hs : mine s) (h : integers.Lists Standard.addIntegers mine m iterable initial x ys k) :
    ∃ m', Ends i.action m (.at s) m' ∧ m'.store.memory.value? (.at s) =
      some (.int (Int64.ofInt (x.toInt + (ys.map Int64.toInt).sum))) := by
  have hdeps : i.action.dependencies = [] := by
    show ((i.opcode.signature.arguments.zip i.args).filterMap _) = _
    rw [hi.opcode, hi.args]
    rfl
  obtain ⟨cell, hvacant⟩ := hi.vacant
  obtain ⟨m₁, hinvoke, hstarted⟩ : ∃ m₁, Machine.invoke i m.tick = (.action
      ((reduction Standard.addIntegers i.cell.type iterable initial).andThen (.conclude i)), m₁) ∧
      Reducing Standard.addIntegers (fun _ => False) m.tick m₁ :=
    Sums.invoke ⟨hi.opcode, hi.args, hi.target, hi.vacant, hi.type, hi.adding⟩
  have hbefore : Reducing Standard.addIntegers (fun _ => False) m m₁.tick :=
    ((Reducing.steps m _).trans hstarted fun _ => .inl).trans (.steps m₁ _) fun _ => .inl
  obtain ⟨b, m₂, t, hreduces, hspares, hreduced⟩ :=
    ends_reduction (combines_addIntegers hi.type) h (hbefore.mono fun _ => False.elim)
  -- the sum is in the slot that the reduction comes to, and nobody wrote to the slot of the invocation
  have hsum : t.value (· + ·) = Int64.ofInt (x.toInt + (ys.map Int64.toInt).sum) := by
    rw [Bracketing.value_eq_foldl ⟨Int64.add_assoc⟩ hreduced.leaves, foldl_add]
  have hvalue : m₂.store.memory.value? b =
      some (.int (Int64.ofInt (x.toInt + (ys.map Int64.toInt).sum))) := by
    obtain ⟨hevaluated, m₃, -, hretains, hholds⟩ := hreduced.shows
    obtain ⟨v, hv⟩ := Option.isSome_iff_exists.mp hevaluated
    have hv₃ := hretains.keeps.value? hv
    rw [hholds.1, hsum] at hv₃
    rw [hv, ← hv₃]
  have hempty : m₂.store.memory.get? (.at s) = some ⟨cell, none⟩ := by
    have hvacant₁ : m₁.tick.store.memory.get? (.at s) = some ⟨cell, none⟩ :=
      (hbefore.slots s (Array.getElem?_eq_some_iff.mp hvacant).1 id).trans hvacant
    exact (hspares.rooms s (Array.getElem?_eq_some_iff.mp hvacant₁).1 hs).trans hvacant₁
  let m₃ : Machine := { m₂.tick with store := { m₂.tick.store with
    memory := m₂.store.memory.memoize i.target
      (.int (Int64.ofInt (x.toInt + (ys.map Int64.toInt).sum))) } }
  have hconclude : conclude i b m₂.tick = (.value i.target, (i.resolved m₃).2) :=
    conclude_of_value hvalue
  have hnone : SucceedAll Ends i.action.dependencies m [] m := by
    rw [hdeps]
    exact ⟨rfl, rfl⟩
  refine ⟨(i.resolved m₃).2, ends_of hnone ?_, ?_⟩
  · show Leads Ends (Machine.invoke i m.tick) _ _
    rw [hinvoke]
    refine ends_andThen hreduces ?_
    show Leads Ends (conclude i b m₂.tick) _ _
    rw [hconclude]
    exact ⟨hi.target, rfl⟩
  · rw [store_resolved]
    show (m₂.store.memory.memoize i.target _).value? (.at s) = _
    rw [hi.target, Memory.value?, Memory.get?_memoize, if_pos rfl, hempty]
    rfl

/-- An action comes to a slot, on top of whatever jobs wait for it, unless the machine is stopped. -/
def Comes (a : Action) (m : Machine) (b : Address) (m' : Machine) : Prop :=
  ∀ below, Undisturbed (Job.ofAction a :: below) m →
    Delivers (Job.ofAction a :: below) m (.ok b) below m'

lemma comes_of_ends {a : Action} {b : Address} (h : Ends a m b m') : Comes a m b m' := by
  intro below hfree
  obtain ⟨fuel, hfuel⟩ := h
  exact delivers_evaluate hfree hfuel

/-- **Both strategies come to folds.** A reducer with a combining opcode, over a list that comes to
values, comes to the value of the initial term and these, bracketed in some way in their order: from the
left if that is the strategy, and under either strategy to their fold from the left if the operation is
associative. The combining opcode is invoked once for each element; without elements the initial term is
what the reduction comes to. Integers are so summed up under either strategy, as far as the sum fits. -/
theorem reductions_come_to_folds :
    (∀ {α : Type} (R : Representation α) (f : α → α → α) (op : Opcode) (type : Ty) (mnemonic : String)
      (mine : Nat → Prop) (m : Machine) (iterable initial : Address) (x : α) (ys : List α) (k : Nat),
      op.Combines R f type → m.setting.opcodes.get? mnemonic = some op →
      R.Lists op mine m iterable initial x ys k →
      ∃ c b m', ∃ t : Bracketing α,
        combinerOf (.opcode mnemonic none iterable initial) type m = .ok c ∧
        Comes ((Action.evaluate iterable .shallow).andThen (.reduce c initial)) m b m' ∧
        t.leaves = x :: ys ∧ R.Shows m' b (t.value f) .shallow ∧
        (m.setting.config.reduceStrategy = .sequential → t.value f = ys.foldl f x) ∧
        (Std.Associative f → t.value f = ys.foldl f x) ∧
        (ys = [] → b = initial) ∧
        (m.setting.attention = .opcodes → m'.invocations = m.invocations + ys.length + k)) ∧
    ∀ (mine : Nat → Prop) (m : Machine) (i : Invocation) (iterable initial : Address) (s : Nat)
      (x : Int64) (ys : List Int64) (k : Nat),
      Sums m i iterable initial s → mine s →
      integers.Lists Standard.addIntegers mine m iterable initial x ys k →
      ∃ m', Comes i.action m (.at s) m' ∧ m'.store.memory.value? (.at s) =
        some (.int (Int64.ofInt (x.toInt + (ys.map Int64.toInt).sum))) := by
  refine ⟨fun R f op type mnemonic mine m iterable initial x ys k hop hget h => ?_,
    fun mine m i iterable initial s x ys k hi hs h => ?_⟩
  · obtain ⟨b, m', t, hends, -, hreduced⟩ := ends_reduction hop h (.refl m)
    have hcombiner : combinerOf (.opcode mnemonic none iterable initial) type m =
        .ok (.opcode op none type) := by
      simp only [combinerOf, hget]
    refine ⟨_, b, m', t, hcombiner, comes_of_ends hends, hreduced.leaves, hreduced.shows,
      fun hstrategy => ?_, fun hf => Bracketing.value_eq_foldl hf hreduced.leaves, hreduced.alone,
      fun hattention => ?_⟩
    · rw [hreduced.sequential hstrategy, Bracketing.value_fromLeft]
      rfl
    · rw [hreduced.count, Setting.heard, if_pos hattention, Nat.mul_one]
  · obtain ⟨m', hends, hvalue⟩ := ends_sum hi hs h
    exact ⟨m', comes_of_ends hends, hvalue⟩

/-! ### Three terms -/

namespace Sample

/-- Lists two values: a combination that is not associative. -/
def listing : Opcode where
  signature := {
    mnemonic := "listing"
    source := .core "core.sample.listing"
    arguments := [⟨some "first", .generic "T" .any, .evaluated⟩,
      ⟨some "second", .generic "S" .any, .evaluated⟩]
    result := .inline .runtimeDetermined }
  evaluate := fun f => pure (.value (.iterable (.rope (.ofList f.args))))

lemma combines_listing (type : Ty) :
    listing.Combines trees (fun t u => .list [some t, some u]) type where
  arguments := rfl
  valid := fun _ _ _ _ _ _ _ _ _ _ => rfl
  evaluates := fun frame s l r t u hargs hl hr => by
    refine ⟨.iterable (.rope (.ofList [l, r])), s, ?_, .refl _, rfl, fun _ => rfl, fun i hi => ?_⟩
    · show (Result.value (.iterable (.rope (.ofList frame.args))), s) = _
      rw [hargs]
    have hretains := s.memory.retains_memoize (.at i) (.iterable (.rope (.ofList [l, r])))
    have hvalue : (s.memory.memoize (.at i) (.iterable (.rope (.ofList [l, r])))).value? (.at i) =
        some (.iterable (.rope (.ofList [l, r]))) := by
      rw [Memory.value?, Memory.get?_memoize, if_pos rfl, hi]
      rfl
    generalize s.memory.memoize (.at i) (.iterable (.rope (.ofList [l, r]))) = memory
      at hretains hvalue
    obtain ⟨hl, hlt⟩ := trees.retained hretains hl
    obtain ⟨hr, hru⟩ := trees.retained hretains hr
    refine ⟨.mk hvalue fun c hc => ?_, ?_⟩
    · rw [Value.members, Sequence.toList_ofList] at hc
      rcases List.mem_pair.mp hc with rfl | rfl
      · exact hl
      · exact hr
    · rw [Memory.treeAt, hvalue, Option.map_some, Memory.tree, Memory.expand, Sequence.toList_ofList,
        List.map_cons, List.map_cons, List.map_nil, hl.expand_eq_treeAt, hr.expand_eq_treeAt, hlt, hru]

def slot (v : Option Value) : Slot := ⟨⟨.external "term", Standard.integer, none⟩, v⟩

/-- A list of three integers, the greatest integer, and a slot for a sum. -/
def machine (strategy : ReduceStrategy) : Machine where
  setting := {
    opcodes := Opcodes.ofList (listing :: Standard.opcodes)
    config := { reduceStrategy := strategy }
    attention := .opcodes }
  store := { memory := { slots := #[slot (some (.iterable (.flat #[.at 1, .at 2, .at 3]))),
    slot (some (.int 1)), slot (some (.int 2)), slot (some (.int 3)),
    slot (some (.int Int64.maxValue)), slot none] } }

/-- The sum of the list, from the greatest integer on. -/
def summing : Invocation :=
  ⟨Standard.sumIntegers, [.at 0, .at 4], [], ⟨.external "sum", Standard.integer, none⟩, none, 5, .at 5⟩

/-- The reduction of the list with a combination, from the greatest integer on. -/
def reducing (c : Combiner) : Action := (Action.evaluate (.at 0) .shallow).andThen (.reduce c (.at 4))

lemma undisturbed_reducing (strategy : ReduceStrategy) (c : Combiner) :
    Undisturbed [Job.ofAction (reducing c)] (machine strategy) :=
  undisturbed_of_plain ((Action.plain_evaluate _ _).andThen rfl) rfl rfl

lemma holds_integer (strategy : ReduceStrategy) {i : Nat} {k : Int64}
    (hi : (machine strategy).store.memory.get? (.at i) = some (slot (some (.int k)))) :
    integers.holds (machine strategy).store.memory (.at i) k := by
  refine ⟨by rw [Memory.value?, hi]; rfl, ?_⟩
  rw [Memory.typeOf, hi]
  rfl

lemma holds_tree (strategy : ReduceStrategy) {i : Nat} {k : Int64}
    (hi : (machine strategy).store.memory.get? (.at i) = some (slot (some (.int k)))) :
    trees.holds (machine strategy).store.memory (.at i) (.native (.int k)) := by
  have hv : (machine strategy).store.memory.value? (.at i) = some (.int k) := by
    rw [Memory.value?, hi]
    rfl
  refine ⟨.mk hv nofun, ?_⟩
  rw [Memory.treeAt, hv]
  rfl

lemma lists_integers (strategy : ReduceStrategy) (mine : Nat → Prop) :
    integers.Lists Standard.addIntegers mine (machine strategy) (.at 0) (.at 4) Int64.maxValue [1, 2, 3]
      0 := by
  have hlist : (machine strategy).store.memory.value? (.at 0) =
      some (.iterable (.flat #[.at 1, .at 2, .at 3])) := rfl
  refine lists_of_holds hlist (holds_integer strategy rfl) ?_
  rw [Sequence.toList_flat]
  exact .cons (holds_integer strategy rfl) (.cons (holds_integer strategy rfl)
    (.cons (holds_integer strategy rfl) .nil))

lemma lists_trees (strategy : ReduceStrategy) (mine : Nat → Prop) :
    trees.Lists listing mine (machine strategy) (.at 0) (.at 4) (.native (.int Int64.maxValue))
      [.native (.int 1), .native (.int 2), .native (.int 3)] 0 := by
  have hlist : (machine strategy).store.memory.value? (.at 0) =
      some (.iterable (.flat #[.at 1, .at 2, .at 3])) := rfl
  refine lists_of_holds hlist (holds_tree strategy rfl) ?_
  rw [Sequence.toList_flat]
  exact .cons (holds_tree strategy rfl) (.cons (holds_tree strategy rfl)
    (.cons (holds_tree strategy rfl) .nil))

end Sample

open Sample in
/-- Three integers after the greatest one: lists of lists are grouped from the left, sums wrap around
under either strategy, and each of the three is combined once. -/
theorem three_terms_come_to_folds :
    (∃ c b m', Delivers [Job.ofAction (reducing c)] (machine .sequential) (.ok b) [] m' ∧
      trees.Shows m' b (.list [some (.list [some (.list [some (.native (.int Int64.maxValue)),
        some (.native (.int 1))]), some (.native (.int 2))]), some (.native (.int 3))]) .shallow ∧
      m'.invocations = 3) ∧
    (∃ c b m', Delivers [Job.ofAction (reducing c)] (machine .pairwise) (.ok b) [] m' ∧
      integers.Shows m' b (Int64.minValue + 5) .shallow ∧ m'.invocations = 3) ∧
    ∀ strategy, ∃ m', Delivers [Job.ofAction summing.action] (machine strategy) (.ok (.at 5)) [] m' ∧
      m'.store.memory.value? (.at 5) = some (.int (Int64.minValue + 5)) := by
  refine ⟨?_, ?_, fun strategy => ?_⟩
  · obtain ⟨c, b, m', t, -, hcomes, -, hshows, hsequential, -, -, hcount⟩ :=
      reductions_come_to_folds.1 trees _ listing Standard.integer "listing" (fun _ => False)
        (machine .sequential) (.at 0) (.at 4) _ _ 0 (combines_listing _) rfl (lists_trees _ _)
    rw [hsequential rfl] at hshows
    exact ⟨c, b, m', hcomes [] (undisturbed_reducing _ c), hshows, hcount rfl⟩
  · obtain ⟨c, b, m', t, -, hcomes, -, hshows, -, hassociative, -, hcount⟩ :=
      reductions_come_to_folds.1 integers _ Standard.addIntegers Standard.integer "iadd"
        (fun _ => False) (machine .pairwise) (.at 0) (.at 4) _ _ 0 (combines_addIntegers rfl) rfl
        (lists_integers _ _)
    rw [hassociative ⟨Int64.add_assoc⟩] at hshows
    exact ⟨c, b, m', hcomes [] (undisturbed_reducing _ c), hshows, hcount rfl⟩
  · obtain ⟨m', hcomes, hvalue⟩ := reductions_come_to_folds.2 (· = 5) (machine strategy) summing (.at 0)
      (.at 4) 5 _ _ 0 ⟨rfl, rfl, rfl, ⟨_, rfl⟩, rfl, rfl⟩ rfl (lists_integers strategy _)
    exact ⟨m', hcomes [] (undisturbed_of_plain (Action.quiet_invocation _).plain rfl rfl), hvalue⟩

end Representation

end CellMachine
