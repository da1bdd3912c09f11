import CellMachine.Proofs.Tandem.Adding

/-!
A follower that adds neighbours, level by level, beside a leader that adds from the left. The terms of
a level are sums that the follower has, and then terms that nobody has evaluated yet: with what was
taken of the level so far they make up the leader's sum.
-/

namespace CellMachine

namespace Tandem

open Machine

variable {T : Tandem} {D D' : Nat → Nat → Prop} {m m' n n' : Machine} {F : Folding}

/-! ### One level -/

/-- The additions of neighbours, in slots from an index on. -/
def additions (type : Ty) : List Address → Nat → List Invocation
  | l :: r :: rest, i => addition Standard.addIntegers type l r i :: additions type rest (i + 1)
  | _, _ => []

/-- The term without a neighbour. -/
def leftOver : List Address → Option Address
  | _ :: _ :: rest => leftOver rest
  | [a] => some a
  | [] => none

lemma length_leftOver (terms : List Address) :
    (leftOver terms).toList.length + 2 * (terms.length / 2) = terms.length := by
  induction terms using leftOver.induct with
  | case1 l r rest ih =>
    rw [leftOver]
    simp only [List.length_cons] at ih ⊢
    omega
  | case2 a => simp [leftOver]
  | case3 => rfl

/-- Every addition of a level has a room of the follower's own. -/
def Folding.Rooms (F : Folding) (D : Nat → Nat → Prop) (n : Machine) (i : Nat)
    (terms : List Address) : Prop :=
  ∀ k < terms.length / 2, F.Follows D n (i + k) none

/-- Neighbours are paired up: each pair gets a room for its sum. -/
lemma exists_pairUp (terms : List Address) (h : T.Rides T.following n)
    (hbase : F.follower.store.memory.slots.size ≤ n.store.memory.slots.size)
    (hshared : ∀ j, (∃ i, D i j) → j < n.store.memory.slots.size) :
    ∃ n', pairUp F.combiner terms n =
        (.ok ((additions F.type terms n.store.memory.slots.size).map Invocation.action,
          leftOver terms), n') ∧
      T.Aside T.following (· < n.store.memory.slots.size) n n' ∧
      F.Rooms D n' n.store.memory.slots.size terms := by
  induction terms using leftOver.induct generalizing n with
  | case1 l r rest ih =>
    have hroom := h.aside_withRoom F.type
    have hown : F.Follows D (withRoom F.type n) n.store.memory.slots.size none :=
      h.own_withRoom hbase hshared
    have hsize : (withRoom F.type n).store.memory.slots.size = n.store.memory.slots.size + 1 :=
      Memory.size_allocate _ _ _
    obtain ⟨n', hpair, haside, hrooms⟩ := ih hroom.rides (hbase.trans hroom.size)
      fun j hj => lt_of_lt_of_le (hshared j hj) hroom.size
    rw [hsize] at hpair haside hrooms
    refine ⟨n', ?_, hroom.trans (haside.mono fun _ hi => Nat.lt_succ_of_lt hi), fun k hk => ?_⟩
    · show (combine F.combiner l r >>= _ : RunM _) n = _
      rw [RunM.run_bind, Folding.combiner, combine_eq]
      show (pairUp F.combiner rest >>= _ : RunM _) (withRoom F.type n) = _
      rw [RunM.run_bind, hpair]
      rfl
    · cases k with
      | zero => exact hown.aside haside (Nat.lt_succ_self _)
      | succ k =>
        have := hrooms k (by simp only [List.length_cons] at hk; omega)
        rwa [Nat.add_assoc, Nat.add_comm 1 k] at this
  | case2 a => exact ⟨n, rfl, h.aside_refl, fun k hk => absurd hk (by simp)⟩
  | case3 => exact ⟨n, rfl, h.aside_refl, fun k hk => absurd hk (by simp)⟩

/-! ### The terms of a level -/

/-- A slot holds an integer. -/
def Holds (n : Machine) (a : Address) (y : Int64) : Prop :=
  n.store.memory.value? a = some (.int y)

/-- **The terms of a level** make up the leader's sum, with what was taken of the level before. -/
def Supplies (T : Tandem) (F : Folding) (D : Nat → Nat → Prop) (n : Machine) (taken : Int64)
    (terms : List Address) : Prop :=
  ∃ done sums todo, terms = done ++ todo ∧ List.Forall₂ (Holds n) done sums ∧
    T.Feed F D n (taken + sums.sum) todo

variable {taken : Int64} {terms : List Address}

lemma Supplies.exists_leader (h : T.Supplies F D n taken terms) : ∃ m, T.Abreast D m n := by
  obtain ⟨done, sums, todo, -, -, m, ts, habreast, -⟩ := h
  exact ⟨m, habreast⟩

lemma Folding.Follows.ne {s : Nat} {v : Option Value} (h : F.Follows D n s v) {j : Nat}
    (hj : j < F.follower.store.memory.slots.size ∨ ∃ i, D i j) : j ≠ s := by
  rintro rfl
  rcases hj with hj | hj
  · have := h.base
    omega
  · exact h.alone hj

lemma Supplies.aside (h : T.Supplies F D n taken terms)
    (ha : T.Aside T.following
      (fun j => j < F.follower.store.memory.slots.size ∨ ∃ i, D i j) n n') :
    T.Supplies F D n' taken terms := by
  obtain ⟨done, sums, todo, hterms, hdone, hfeed⟩ := h
  exact ⟨done, sums, todo, hterms, hdone.imp fun _ _ => ha.values _ _, hfeed.aside ha⟩

/-- **The next term of a level** is evaluated. -/
lemma Supplies.next (hT : T.Sound) (hl : T.Leading F.fuel) {a : Address}
    (h : T.Supplies F D n taken (a :: terms)) : ∃ D' n' y, Ends (.evaluate a .deep) n.tick a n' ∧
      Holds n' a y ∧ T.Supplies F D' n' (taken + y) terms ∧ F.Spares D n D' n' := by
  obtain ⟨done, sums, todo, hterms, hdone, hfeed⟩ := h
  cases hdone with
  | nil =>
    obtain rfl : a :: terms = todo := hterms
    obtain ⟨D', n', y, hends, hy, hfeed', hspares⟩ := hfeed.next hT hl
    refine ⟨D', n', y, hends, hy, ⟨[], [], terms, rfl, .nil, ?_⟩, hspares⟩
    simpa using hfeed'
  | @cons b y done sums hy hdone =>
    obtain ⟨rfl, rfl⟩ : a = b ∧ terms = done ++ todo := by simpa using hterms
    obtain ⟨m, ts, habreast, -⟩ := id hfeed
    have haside : ∀ {kept}, T.Aside T.following kept n n.tick.tick :=
      habreast.follower.aside_tick.trans habreast.follower.tick.rides.aside_tick
    have hends := ends_of_settled (m := n.tick) ⟨hy, rfl⟩ .deep
    refine ⟨D, n.tick.tick, y, hends, hy, ⟨done, sums, todo, rfl, hdone, ?_⟩,
      ⟨fun _ _ => id, fun j v hown => hown.tick.tick⟩⟩
    have hsum : taken + (y :: sums).sum = taken + y + sums.sum := by
      rw [List.sum_cons, Int64.add_assoc]
    exact hsum ▸ hfeed.aside haside

/-- **Two neighbours** are added in a room of the follower's own. -/
lemma Supplies.add (hT : T.Sound) (hl : T.Leading F.fuel)
    (hvalidate : T.following.runtimeValidation = false) {l r : Address} {s : Nat}
    (h : T.Supplies F D n taken (l :: r :: terms)) (hroom : F.Follows D n s none) :
    ∃ D' n' y, Ends (addition Standard.addIntegers F.type l r s).action n.tick (.at s) n' ∧
      F.Follows D' n' s (some (.int y)) ∧ T.Supplies F D' n' (taken + y) terms ∧
      ∀ j v, j ≠ s → F.Follows D n j v → F.Follows D' n' j v := by
  obtain ⟨m, habreast⟩ := h.exists_leader
  have h₀ : T.Supplies F D n.tick taken (l :: r :: terms) := h.aside habreast.follower.aside_tick
  obtain ⟨D₁, n₁, y, hends₁, hy, h₁, hspares₁⟩ := h₀.next hT hl
  obtain ⟨D₂, n₂, z, hends₂, hz, h₂, hspares₂⟩ := h₁.next hT hl
  obtain ⟨m₂, habreast₂⟩ := h₂.exists_leader
  have hroom₂ : F.Follows D₂ n₂ s none := hspares₂.own s none (hspares₁.own s none hroom.tick)
  have hall : SucceedAll Ends (addition Standard.addIntegers F.type l r s).action.dependencies n.tick
      [l, r] n₂ := ⟨l, n₁, [r], hends₁, ⟨r, n₂, [], hends₂, ⟨rfl, rfl⟩, rfl⟩, rfl⟩
  rcases (adds_addition F.type l r s).invoke hT habreast₂.follower.tick.rides
    (hspares₂.values _ _ hy) hz with ⟨_, _, -, hvalidate'⟩ | ⟨n', hinvoke, hsum⟩
  · rw [hvalidate] at hvalidate'
    cases hvalidate'
  · refine ⟨D₂, n', y + z, ?_, hsum.own hroom₂.tick, ?_, fun j v hne hown => ?_⟩
    · refine ends_of hall ?_
      show Leads Ends (invoke (addition Standard.addIntegers F.type l r s) n₂.tick) _ _
      rw [hinvoke]
      exact ⟨rfl, rfl⟩
    · rw [← Int64.add_assoc]
      exact (h₂.aside habreast₂.follower.aside_tick).aside
        (hsum.aside.mono fun j => hroom₂.ne)
    · exact (hspares₂.own j v (hspares₁.own j v hown.tick)).tick.aside hsum.aside hne

/-- **A level** of additions: the follower has the sums of neighbours, and the term left over. -/
lemma Supplies.level (hT : T.Sound) (hl : T.Leading F.fuel)
    (hvalidate : T.following.runtimeValidation = false) {i : Nat}
    (h : T.Supplies F D n taken terms) (hrooms : F.Rooms D n i terms) :
    ∃ D' n' bs sums, SucceedAll Ends ((additions F.type terms i).map Invocation.action) n bs n' ∧
      List.Forall₂ (fun b y => ∃ j, b = .at j ∧ F.Follows D' n' j (some (.int y))) bs sums ∧
      T.Supplies F D' n' (taken + sums.sum) (leftOver terms).toList ∧
      bs.length = terms.length / 2 ∧
      ∀ j v, j < i → F.Follows D n j v → F.Follows D' n' j v := by
  -- On pairs, as they are added: the terms behind them stand ready as before.
  induction terms using leftOver.induct generalizing D n taken i with
  | case1 l r rest ih =>
    have hlength : (l :: r :: rest).length / 2 = rest.length / 2 + 1 := by
      simp only [List.length_cons]
      omega
    obtain ⟨D₁, n₁, y, hends, hroom, h₁, hkeeps⟩ :=
      h.add hT hl hvalidate (hrooms 0 (by omega))
    have hrooms₁ : F.Rooms D₁ n₁ (i + 1) rest := by
      intro k hk
      have hown := hkeeps _ _ (by omega) (hrooms (k + 1) (by omega))
      rwa [Nat.add_comm k 1, ← Nat.add_assoc] at hown
    obtain ⟨D₂, n₂, bs, sums, hall, hbs, h₂, hlen, hkeeps₂⟩ := ih h₁ hrooms₁
    refine ⟨D₂, n₂, .at i :: bs, y :: sums, ⟨.at i, n₁, bs, hends, hall, rfl⟩,
      .cons ⟨i, rfl, hkeeps₂ i _ (Nat.lt_succ_self i) hroom⟩ hbs, ?_, ?_, fun j v hj hown => ?_⟩
    · rw [List.sum_cons, ← Int64.add_assoc]
      exact h₂
    · rw [List.length_cons, hlen, hlength]
    · exact hkeeps₂ j v (by omega) (hkeeps j v (by omega) hown)
  | case2 a =>
    refine ⟨D, n, [], [], ⟨rfl, rfl⟩, .nil, ?_, by simp, fun _ _ _ => id⟩
    rw [List.sum_nil, Int64.add_zero]
    exact h
  | case3 =>
    refine ⟨D, n, [], [], ⟨rfl, rfl⟩, .nil, ?_, rfl, fun _ _ _ => id⟩
    rw [List.sum_nil, Int64.add_zero]
    exact h

/-! ### All levels -/

lemma pairwise_of_pairUp {c : Combiner} {l r : Address} {rest : List Address} {actions : List Action}
    {carry : Option Address} (h : pairUp c (l :: r :: rest) n = (.ok (actions, carry), n')) :
    pairwise c (l :: r :: rest) n = (.action (.mk actions (.combineLevel c carry)), n') := by
  show (pairUp c (l :: r :: rest) >>= _ : Stepped) n = _
  rw [RunM.run_bind, h]
  rfl

/-- **From one level to the next**, which begins with a sum of the follower's own. -/
lemma Supplies.round (hT : T.Sound) (hl : T.Leading F.fuel)
    (hvalidate : T.following.runtimeValidation = false)
    (hbase : F.follower.store.memory.slots.size ≤ n.store.memory.slots.size) {l r : Address}
    (h : T.Supplies F D n 0 (l :: r :: terms)) :
    ∃ D' n' j y rest, F.Follows D' n' j (some (.int y)) ∧ T.Supplies F D' n' 0 (.at j :: rest) ∧
      rest.length ≤ terms.length ∧ ∀ c n'', Leads Ends (pairwise F.combiner (.at j :: rest) n') c n'' →
        Leads Ends (pairwise F.combiner (l :: r :: terms) n) c n'' := by
  obtain ⟨m, habreast⟩ := h.exists_leader
  have hshared : ∀ j, (∃ i, D i j) → j < n.store.memory.slots.size := by
    rintro j ⟨i, hij⟩
    exact (habreast.lt_size hij).2
  obtain ⟨n₁, hpair, haside, hrooms⟩ :=
    exists_pairUp (l :: r :: terms) habreast.follower hbase hshared
  have h₁ : T.Supplies F D n₁ 0 (l :: r :: terms) := by
    refine h.aside (haside.mono fun j hj => ?_)
    rcases hj with hj | hj
    · exact lt_of_lt_of_le hj hbase
    · exact hshared j hj
  obtain ⟨D₂, n₂, bs, sums, hall, hbs, h₂, hlen, -⟩ := h₁.level hT hl hvalidate hrooms
  obtain ⟨m₂, habreast₂⟩ := h₂.exists_leader
  have hcount := length_leftOver (l :: r :: terms)
  cases hbs with
  | nil =>
    simp only [List.length_nil, List.length_cons] at hlen
    omega
  | @cons b y bs sums hb hbs =>
    obtain ⟨j, rfl, hown⟩ := hb
    refine ⟨D₂, n₂.tick, j, y, bs ++ (leftOver (l :: r :: terms)).toList, hown.tick, ?_, ?_, ?_⟩
    · obtain ⟨done, sums', todo, hterms, hdone, hfeed⟩ := h₂.aside habreast₂.follower.aside_tick
      refine ⟨.at j :: bs ++ done, y :: sums ++ sums', todo, ?_, ?_, ?_⟩
      · rw [hterms, List.append_assoc, List.cons_append]
      · have hsums : List.Forall₂ (Holds n₂.tick) bs sums := by
          refine hbs.imp ?_
          rintro b z ⟨j', rfl, hown'⟩
          exact hown'.value?
        exact List.rel_append (R := Holds n₂.tick) (.cons hown.value? hsums) hdone
      · rw [List.sum_append, ← Int64.add_assoc]
        exact hfeed
    · simp only [List.length_append, List.length_cons] at hcount hlen ⊢
      omega
    · intro c n'' hleads
      rw [pairwise_of_pairUp hpair]
      exact ends_of hall hleads

lemma Supplies.single (htype : T.types.Agrees F.type) {j : Nat} {y : Int64}
    (hown : F.Follows D n j (some (.int y))) (h : T.Supplies F D n 0 [.at j]) :
    ∃ D', T.Abreast D' F.final n ∧ Onward F.pairs F.leader F.follower D' F.final n ∧
      Paired D' F.result (.at j) := by
  obtain ⟨done, sums, todo, hterms, hdone, m, ts, habreast, onward, hremaining, hall⟩ := h
  cases hdone with
  | nil =>
    obtain rfl : [Address.at j] = todo := hterms
    obtain _ | ⟨hpaired, -⟩ := hall
    obtain ⟨hij⟩ := hpaired
    exact absurd ⟨_, hij⟩ hown.alone
  | @cons b z done sums hz hdone =>
    obtain ⟨rfl, hnil⟩ : Address.at j = b ∧ [] = done ++ todo := by simpa using hterms
    obtain ⟨rfl, rfl⟩ := List.append_eq_nil_iff.mp hnil.symm
    obtain rfl : y = z := by
      have hvalue := hown.value?.symm.trans hz
      injection hvalue with hvalue
      injection hvalue with hvalue
      injection hvalue
    cases hdone
    cases hall
    have hsum : 0 + [y].sum = y := by simp
    rw [hsum] at hremaining
    cases hremaining with
    | @last s _ hroom hresult =>
      obtain ⟨D', h', onward', hpair⟩ := habreast.join onward htype hroom hown
      exact ⟨D', h', onward', hresult ▸ ⟨hpair⟩⟩

lemma Supplies.finish (hT : T.Sound) (hl : T.Leading F.fuel)
    (hvalidate : T.following.runtimeValidation = false) (htype : T.types.Agrees F.type) {j : Nat}
    {y : Int64} (hown : F.Follows D n j (some (.int y))) (h : T.Supplies F D n 0 (.at j :: terms)) :
    T.Reaches F.pairs F.leader F.follower (Leads Ends (pairwise F.combiner (.at j :: terms) n))
      F.result F.final := by
  induction hlen : terms.length using Nat.strong_induction_on generalizing D n j y terms with
  | _ len ih =>
    have hbase := hown.base.trans hown.lt_size.le
    cases terms with
    | nil =>
      obtain ⟨D', h', onward', hpaired⟩ := h.single htype hown
      have hforce : pairwise F.combiner [.at j] n = (.value (.at j), n) :=
        force_shallow_of_value hown.value?
      rw [hforce]
      exact ⟨D', .at j, n, ⟨rfl, rfl⟩, h', onward', hpaired⟩
    | cons r rest =>
      obtain ⟨D', n', j', y', rest', hown', h', hle, hleads⟩ := h.round hT hl hvalidate hbase
      rw [List.length_cons] at hlen
      obtain ⟨D'', c, n'', hR, h'', onward'', hpaired⟩ := ih rest'.length (by omega) hown' h' rfl
      exact ⟨D'', c, n'', hleads c n'' hR, h'', onward'', hpaired⟩

/-- **Adding neighbours comes to what adding from the left comes to.** -/
lemma pairwise_follows (hT : T.Sound) {fuel : Nat} (hl : T.Leading fuel)
    (hpairwise : T.following.reduceStrategy = .pairwise) (h : T.Abreast D m n) {c : Combiner}
    (hc : T.Combines c) {a b x : Address} (hab : Paired D a b) {rest rest' : List Address}
    (hrest : List.Forall₂ (Paired D) rest rest')
    (hleads : Leads (Succeeds fuel) (sequential c a rest m) x m') :
    T.Reaches D m n (Leads Ends (pairwise c (b :: rest') n)) x m' := by
  obtain ⟨hvalidate, -⟩ := hT.regrouped hpairwise
  cases hrest with
  | nil => exact hl.leads (force_lockstep hT h hab .shallow) hleads
  | @cons t t' rest rest' ht hrest =>
    obtain @⟨op, type, hop, htype⟩ := hc
    obtain rfl : op = Standard.addIntegers := hop.resolve_right fun hne => hne.2 hpairwise
    -- The sum begins where the machines stand now.
    let F : Folding := ⟨type, fuel, D, m, n, x, m'⟩
    obtain ⟨z, m₁, hz, hadd⟩ := adding_of_sequential (F := F) hleads
    have hnew := h.leader.aside_withRoom type
    have hshared : ∀ i, (∃ j, D i j) → i < m.store.memory.slots.size := by
      rintro i ⟨j, hij⟩
      exact (h.lt_size hij).1
    have hroom : F.Leads D (withRoom type m) m.store.memory.slots.size none :=
      h.leader.own_withRoom le_rfl hshared
    obtain ⟨h₁, onward₁⟩ := h.beside (.refl D m n)
      ((hnew.mono fun i hi => hi.elim id (hshared i)).trans hnew.rides.aside_tick)
      h.follower.aside_refl
    have hsupplies : T.Supplies F D n 0 (b :: t' :: rest') := by
      refine ⟨[], [], _, rfl, .nil, _, _, h₁, onward₁, ?_, .cons hab (.cons ht hrest)⟩
      exact .first hroom.tick hz hadd
    obtain ⟨D', n', j, y, terms, hown, h', -, hround⟩ := hsupplies.round hT hl hvalidate le_rfl
    obtain ⟨D'', c, n'', hR, h'', onward'', hpaired⟩ := h'.finish hT hl hvalidate htype hown
    exact ⟨D'', c, n'', hround c n'' hR, h'', onward'', hpaired⟩

end Tandem

end CellMachine
