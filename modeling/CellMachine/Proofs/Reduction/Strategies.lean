import CellMachine.Proofs.Reduction.Combining

/-!
Both strategies of reductions. A reduction from the left combines the first two of its terms until one is
left; one by neighbours combines all neighbours of a level before it goes on with the next. Terms that
stand in line hold their values or are still to be evaluated, and each combination takes two of them off.
-/

namespace CellMachine

open Machine Tandem

/-! ### Bracketings -/

/-- How some terms, in their order, are combined two by two. -/
inductive Bracketing (α : Type) where
  | term (y : α)
  | pair (left right : Bracketing α)

namespace Bracketing

variable {α : Type}

/-- The terms in their order. -/
def leaves : Bracketing α → List α
  | term y => [y]
  | pair l r => l.leaves ++ r.leaves

/-- What the terms are combined to. -/
def value (f : α → α → α) : Bracketing α → α
  | term y => y
  | pair l r => f (l.value f) (r.value f)

/-- Terms that are combined from the left. -/
def fromLeft (t : Bracketing α) (ys : List α) : Bracketing α := ys.foldl (fun t y => t.pair (.term y)) t

lemma leaves_fromLeft (t : Bracketing α) (ys : List α) : (t.fromLeft ys).leaves = t.leaves ++ ys := by
  induction ys generalizing t with
  | nil => exact (List.append_nil _).symm
  | cons y ys ih => exact (ih _).trans (List.append_assoc _ _ _)

lemma value_fromLeft (f : α → α → α) (t : Bracketing α) (ys : List α) :
    (t.fromLeft ys).value f = ys.foldl f (t.value f) := by
  induction ys generalizing t with
  | nil => rfl
  | cons y ys ih => exact ih _

/-- **However terms are bracketed**, an associative operation takes them to their fold from the left. -/
lemma value_eq_foldl {f : α → α → α} (hf : Std.Associative f) {t : Bracketing α} {x : α} {ys : List α}
    (h : t.leaves = x :: ys) : t.value f = ys.foldl f x := by
  induction t generalizing x ys with
  | term y =>
    cases h
    rfl
  | pair l r ihl ihr =>
    have nonempty : ∀ t : Bracketing α, ∃ y zs, t.leaves = y :: zs := by
      intro t
      induction t with
      | term y => exact ⟨y, [], rfl⟩
      | pair l r ih _ =>
        obtain ⟨y, zs, hl⟩ := ih
        exact ⟨y, zs ++ r.leaves, congrArg (· ++ r.leaves) hl⟩
    obtain ⟨y, zs, hl⟩ := nonempty l
    obtain ⟨w, ws, hr⟩ := nonempty r
    rw [leaves, hl, hr] at h
    obtain ⟨rfl, rfl⟩ : y = x ∧ zs ++ w :: ws = ys := List.cons.inj h
    rw [value, ihl hl, ihr hr, List.foldl_append, List.foldl_cons, List.foldl_assoc]

end Bracketing

section Levels

variable {α β : Type}

/-- Neighbours are combined, and the last term is carried over if it has no neighbour. -/
def neighbours (f : β → β → β) : List β → List β
  | x :: y :: rest => f x y :: neighbours f rest
  | [x] => [x]
  | [] => []

lemma length_neighbours (f : β → β → β) (xs : List β) :
    (neighbours f xs).length + xs.length / 2 = xs.length := by
  induction xs using neighbours.induct with
  | case1 x y rest ih =>
    rw [neighbours]
    simp only [List.length_cons] at ih ⊢
    omega
  | case2 x => simp [neighbours]
  | case3 => simp [neighbours]

lemma map_neighbours (f : α → α → α) (ts : List (Bracketing α)) :
    (neighbours .pair ts).map (Bracketing.value f) = neighbours f (ts.map (Bracketing.value f)) := by
  induction ts using neighbours.induct with
  | case1 l r rest ih =>
    rw [neighbours, List.map_cons, ih]
    rfl
  | case2 t => rfl
  | case3 => rfl

lemma flatMap_neighbours (ts : List (Bracketing α)) :
    (neighbours .pair ts).flatMap Bracketing.leaves = ts.flatMap Bracketing.leaves := by
  induction ts using neighbours.induct with
  | case1 l r rest ih =>
    rw [neighbours, List.flatMap_cons, ih, List.flatMap_cons, List.flatMap_cons]
    exact List.append_assoc _ _ _
  | case2 t => rfl
  | case3 => rfl

end Levels

namespace Representation

variable {α : Type} {R : Representation α} {f : α → α → α} {op : Opcode} {type : Ty}
  {mine : Nat → Prop} {m m' : Machine} {a b : Address} {terms : List Address} {x y : α} {xs : List α}
  {k s : Nat}

/-! ### Terms in line -/

/-- **Terms in line** for their combination: the first hold their values, the others are still to be
evaluated. -/
def InLine (R : Representation α) (op : Opcode) (mine : Nat → Prop) (m : Machine)
    (terms : List Address) (xs : List α) (k : Nat) : Prop :=
  ∃ done todo xs₁ xs₂, terms = done ++ todo ∧ xs = xs₁ ++ xs₂ ∧
    List.Forall₂ (R.holds m.store.memory) done xs₁ ∧ R.Offers op .deep mine m todo xs₂ k

lemma Offers.inLine (h : R.Offers op .deep mine m terms xs k) : R.InLine op mine m terms xs k :=
  ⟨[], terms, [], xs, rfl, rfl, .nil, h⟩

lemma InLine.cons (ha : R.holds m.store.memory a x) (h : R.InLine op mine m terms xs k) :
    R.InLine op mine m (a :: terms) (x :: xs) k := by
  obtain ⟨done, todo, xs₁, xs₂, rfl, rfl, hdone, htodo⟩ := h
  exact ⟨a :: done, todo, x :: xs₁, xs₂, rfl, rfl, .cons ha hdone, htodo⟩

lemma InLine.length_eq (h : R.InLine op mine m terms xs k) : terms.length = xs.length := by
  obtain ⟨done, todo, xs₁, xs₂, rfl, rfl, hdone, htodo⟩ := h
  rw [List.length_append, List.length_append, hdone.length_eq, htodo.length_eq]

lemma InLine.reducing (h : R.InLine op mine m terms xs k) (hr : Reducing op mine m m') :
    R.InLine op (roomsSince mine m m') m' terms xs k := by
  obtain ⟨done, todo, xs₁, xs₂, hterms, hxs, hdone, htodo⟩ := h
  exact ⟨done, todo, xs₁, xs₂, hterms, hxs, hdone.imp fun _ _ => R.retained hr.memory,
    htodo.reducing hr⟩

lemma InLine.mono {mine' : Nat → Prop} (h : R.InLine op mine m terms xs k)
    (hmine : ∀ i, mine' i → mine i) : R.InLine op mine' m terms xs k := by
  obtain ⟨done, todo, xs₁, xs₂, hterms, hxs, hdone, htodo⟩ := h
  exact ⟨done, todo, xs₁, xs₂, hterms, hxs, hdone, htodo.mono hmine⟩

lemma InLine.aside (h : R.InLine op mine m terms xs k) (hr : Reducing op mine m m') :
    R.InLine op mine m' terms xs k :=
  (h.reducing hr).mono fun _ => .inl

lemma InLine.eq_zero (h : R.InLine op mine m [] [] k) : k = 0 := by
  obtain ⟨done, todo, xs₁, xs₂, hterms, hxs, -, htodo⟩ := h
  obtain ⟨rfl, rfl⟩ := List.append_eq_nil_iff.mp hterms.symm
  obtain ⟨rfl, rfl⟩ := List.append_eq_nil_iff.mp hxs.symm
  exact htodo.eq_zero

/-- **The next term in line** is evaluated, unless it was before. -/
lemma InLine.next (h : R.InLine op mine m (a :: terms) (x :: xs) k) : ∃ m' k',
    Leads Ends (force a .deep m) a m' ∧ R.holds m'.store.memory a x ∧
    R.InLine op mine m' terms xs k' ∧ Spares mine m m' ∧
    m'.invocations + k' = m.invocations + k := by
  obtain ⟨done, todo, xs₁, xs₂, hterms, hxs, hdone, htodo⟩ := h
  cases hdone with
  | nil =>
    obtain rfl : a :: terms = todo := hterms
    obtain rfl : x :: xs = xs₂ := hxs
    obtain ⟨m', k₁, k₂, hleads, hshows, hspares, hcount, hrest, rfl⟩ := htodo.next
    exact ⟨m', k₂, hleads, hshows, hrest.inLine, hspares, by rw [hcount, Nat.add_assoc]⟩
  | @cons c z done xs₁ hc hdone =>
    obtain ⟨rfl, rfl⟩ := List.cons.inj hterms
    obtain ⟨rfl, rfl⟩ := List.cons.inj hxs
    obtain ⟨n, hleads⟩ := exists_forced hc
    have hcounted : Reducing op mine m { m with steps := n } := .steps m n
    have hrest : R.InLine op mine m (done ++ todo) (xs₁ ++ xs₂) k :=
      ⟨done, todo, xs₁, xs₂, rfl, rfl, hdone, htodo⟩
    exact ⟨_, k, hleads, hc, hrest.aside hcounted, Spares.steps m n, rfl⟩

/-! ### One combination -/

lemma dependencies_addition
    (hargs : op.signature.arguments.map Argument.evaluation = [.evaluated, .evaluated])
    (type : Ty) (l r : Address) (s : Nat) :
    (addition op type l r s).action.dependencies = [.evaluate l .deep, .evaluate r .deep] := by
  simp only [addition, Invocation.action, Action.dependencies]
  generalize op.signature.arguments = declared at hargs
  obtain ⟨d, declared, rfl, hd, hargs⟩ := List.map_eq_cons_iff.mp hargs
  obtain ⟨e, declared, rfl, he, hargs⟩ := List.map_eq_cons_iff.mp hargs
  obtain rfl := List.map_eq_nil_iff.mp hargs
  simp only [List.zip_cons_cons, List.zip_nil_right, List.filterMap_cons, List.filterMap_nil, hd, he]

/-- A machine without a value in one of its rooms. -/
def Vacant (m : Machine) (type : Ty) (s : Nat) : Prop :=
  m.store.memory.get? (.at s) = some ⟨reduceCell type, none⟩

/-- **The first two terms in line are combined** in a room of the reduction; its other rooms stay as they
are. -/
lemma InLine.combine (hop : op.Combines R f type)
    (h : R.InLine op mine m (a :: b :: terms) (x :: y :: xs) k) (hs : Vacant m type s)
    (hmine : mine s) : ∃ m' k', Ends (addition op type a b s).action m (.at s) m' ∧
      R.holds m'.store.memory (.at s) (f x y) ∧ R.InLine op mine m' terms xs k' ∧
      Spares (fun i => mine i ∧ i ≠ s) m m' ∧
      m'.invocations + k' = m.invocations + m.setting.heard + k := by
  -- the two terms one after the other
  have h₀ : R.InLine op mine m.tick.tick (a :: b :: terms) (x :: y :: xs) k :=
    h.aside (.steps m _)
  obtain ⟨m₁, k₁, hleads₁, ha, h₁, hspares₁, hcount₁⟩ := h₀.next
  obtain ⟨m₂, k₂, hleads₂, hb, h₂, hspares₂, hcount₂⟩ := (h₁.aside (.steps m₁ (m₁.steps + 1 + 1))).next
  have hticks₀ : Spares mine m m.tick.tick := .steps m _
  have hticks₁ : Spares mine m₁ { m₁ with steps := m₁.steps + 1 + 1 } := .steps m₁ _
  have hspares : Spares mine m m₂ := (hticks₀.andThen hspares₁).andThen (hticks₁.andThen hspares₂)
  have hall : SucceedAll Ends (addition op type a b s).action.dependencies m [a, b] m₂ := by
    rw [dependencies_addition hop.arguments]
    exact ⟨a, m₁, [b], ends_evaluate hleads₁, ⟨b, m₂, [], ends_evaluate hleads₂, ⟨rfl, rfl⟩, rfl⟩, rfl⟩
  -- then the opcode
  have hroom : Vacant m₂.tick type s :=
    (hspares.rooms s (Array.getElem?_eq_some_iff.mp hs).1 hmine).trans hs
  obtain ⟨m', hinvoke, hsum, hreducing, hcount⟩ :=
    hop.invoke (m := m₂.tick) (R.retained hspares₂.memory ha) hb hroom
  have hticked : Reducing op mine m₂ m₂.tick := .steps m₂ _
  have hown : ∀ i, i = s → mine i := fun i hi => hi ▸ hmine
  have hticked' : Spares mine m₂ m₂.tick := .steps m₂ _
  have hothers : Spares (· ≠ s) m₂.tick m' := hreducing.spares fun i => id
  refine ⟨m', k₂, ends_of hall ?_, hsum, h₂.aside (hticked.trans hreducing fun i hi => .inl (hown i hi)),
    (hspares.andThen hticked').trans hothers fun i _ => id, ?_⟩
  · show Leads Ends (Machine.invoke (addition op type a b s) m₂.tick) _ _
    rw [hinvoke]
    exact ⟨rfl, rfl⟩
  · have hheard : m₂.tick.setting.heard = m.setting.heard := congrArg Setting.heard hspares.setting
    have hticks : m.tick.tick.invocations = m.invocations ∧ m₂.tick.invocations = m₂.invocations ∧
        ({ m₁ with steps := m₁.steps + 1 + 1 } : Machine).invocations = m₁.invocations :=
      ⟨rfl, rfl, rfl⟩
    omega

/-! ### From the left -/

/-- One combination of a reduction from the left. -/
lemma InLine.step (hop : op.Combines R f type)
    (h : R.InLine op mine m (a :: b :: terms) (x :: y :: xs) k) : ∃ mine' m' k' s,
      R.holds m'.store.memory (.at s) (f x y) ∧ R.InLine op mine' m' terms xs k' ∧
      (∀ i, mine i → mine' i) ∧ Spares mine m m' ∧
      m'.invocations + k' = m.invocations + m.setting.heard + k ∧
      ∀ c m'', Leads Ends (sequential (.opcode op none type) (.at s) terms m') c m'' →
        Leads Ends (sequential (.opcode op none type) a (b :: terms) m) c m'' := by
  let s := m.store.memory.slots.size
  have hnew : Reducing op (fun _ => False) m (withRoom type m) := .withRoom m type
  have hroom : Reducing op mine m (withRoom type m) := hnew.mono fun _ => False.elim
  have hmade : Spares mine m (withRoom type m).tick := (hnew.spares fun _ _ => id).andThen (.steps _ _)
  have hticked : Reducing op (roomsSince mine m (withRoom type m)) (withRoom type m)
    (withRoom type m).tick := .steps _ _
  have hvacant : Vacant (withRoom type m).tick type s := Memory.get?_allocate_self _ _ _
  have hmine : roomsSince mine m (withRoom type m) s :=
    .inr ⟨le_rfl, lt_of_lt_of_eq (Nat.lt_succ_self s) (Memory.size_allocate _ _ _).symm⟩
  obtain ⟨m', k', hends, hsum, hrest, hspares, hcount⟩ :=
    ((h.reducing hroom).aside hticked).combine hop hvacant hmine
  refine ⟨_, m'.tick, k', s, hsum, hrest.aside (.steps m' _), fun i => .inl, ?_, hcount,
    fun c m'' hleads => ?_⟩
  · refine (hmade.trans hspares fun i hi hi' => ⟨hi', .inl hi', hi.ne⟩).andThen (.steps m' _)
  · rw [sequential_of_combine (combine_eq op type a b m)]
    exact ends_andThen hends hleads

/-- **A reduction from the left** of two or more terms in line. -/
lemma leads_sequential (hop : op.Combines R f type)
    (h : R.InLine op mine m (a :: b :: terms) (x :: y :: xs) k) : ∃ c m',
      Leads Ends (sequential (.opcode op none type) a (b :: terms) m) c m' ∧
      R.holds m'.store.memory c ((y :: xs).foldl f x) ∧ Spares mine m m' ∧
      m'.invocations = m.invocations + (y :: xs).length * m.setting.heard + k := by
  -- On the terms after the second: what the first two come to is the first of the others.
  induction terms generalizing mine m a b x y xs k with
  | nil =>
    obtain rfl : xs = [] :=
      List.length_eq_zero_iff.mp (Nat.succ.inj (Nat.succ.inj h.length_eq)).symm
    obtain ⟨mine', m₁, k₁, s, hsum, h₁, -, hspares, hcount, hback⟩ := h.step hop
    obtain rfl := h₁.eq_zero
    obtain ⟨v, hv⟩ := Option.isSome_iff_exists.mp (R.forced hsum).isEvaluated
    refine ⟨.at s, m₁, hback _ _ ?_, hsum, hspares, ?_⟩
    · rw [sequential, force_shallow_of_value hv]
      exact ⟨rfl, rfl⟩
    · rw [List.length_singleton, Nat.one_mul]
      exact hcount
  | cons b' terms ih =>
    match xs, h.length_eq with
    | y' :: xs, _ =>
      obtain ⟨mine', m₁, k₁, s, hsum, h₁, hmine, hspares, hcount, hback⟩ := h.step hop
      obtain ⟨c, m', hleads, hholds, hspares', hcount'⟩ := ih (h₁.cons hsum)
      refine ⟨c, m', hback c m' hleads, hholds, hspares.andThen (hspares'.mono hmine), ?_⟩
      rw [hcount', hspares.setting, List.length_cons (a := y), Nat.succ_mul]
      omega

/-! ### By neighbours -/

/-- The combinations of neighbours, in rooms from an index on. -/
def combinations (op : Opcode) (type : Ty) : List Address → Nat → List Invocation
  | l :: r :: rest, i => addition op type l r i :: combinations op type rest (i + 1)
  | _, _ => []

lemma exists_pairUp (op : Opcode) (type : Ty) (terms : List Address) (m : Machine) : ∃ m',
    pairUp (.opcode op none type) terms m =
      (.ok ((combinations op type terms m.store.memory.slots.size).map Invocation.action,
        leftOver terms), m') ∧
    Reducing op (fun _ => False) m m' ∧ m'.invocations = m.invocations ∧
    ∀ j < terms.length / 2, Vacant m' type (m.store.memory.slots.size + j) := by
  induction terms using leftOver.induct generalizing m with
  | case1 l r rest ih =>
    obtain ⟨m', hpair, hreducing, hcount, hvacant⟩ := ih (withRoom type m)
    have hsize : (withRoom type m).store.memory.slots.size = m.store.memory.slots.size + 1 :=
      Memory.size_allocate _ _ _
    rw [hsize] at hpair hvacant
    refine ⟨m', ?_, (Reducing.withRoom m type).trans hreducing fun _ => False.elim, hcount,
      fun j hj => ?_⟩
    · show (Machine.combine (.opcode op none type) l r >>= _ : RunM _) m = _
      rw [RunM.run_bind, combine_eq]
      show (pairUp (.opcode op none type) rest >>= _ : RunM _) (withRoom type m) = _
      rw [RunM.run_bind, hpair]
      rfl
    · cases j with
      | zero =>
        exact (hreducing.slots _ (by omega) id).trans (Memory.get?_allocate_self _ _ _)
      | succ j =>
        have := hvacant j (by simp only [List.length_cons] at hj; omega)
        rwa [Nat.add_assoc, Nat.add_comm 1 j] at this
  | case2 a => exact ⟨m, rfl, .refl m, rfl, fun j hj => absurd hj (by simp)⟩
  | case3 => exact ⟨m, rfl, .refl m, rfl, fun j hj => absurd hj (by simp)⟩

lemma vacant_after {i n : Nat} (hspares : Spares (fun j => mine j ∧ j ≠ i) m m')
    (hrooms : ∀ j < n + 1, mine (i + j) ∧ Vacant m type (i + j)) :
    ∀ j < n, mine (i + 1 + j) ∧ Vacant m' type (i + 1 + j) := by
  intro j hj
  obtain ⟨hmine, hvacant⟩ := hrooms (j + 1) (Nat.succ_lt_succ hj)
  rw [show i + (j + 1) = i + 1 + j by omega] at hmine hvacant
  have hlt := (Array.getElem?_eq_some_iff.mp hvacant).1
  exact ⟨hmine, (hspares.rooms _ hlt ⟨hmine, by omega⟩).trans hvacant⟩

/-- **A level**: all neighbours are combined, and stand in line with the term left over. -/
lemma InLine.level (hop : op.Combines R f type) (h : R.InLine op mine m terms xs k) {i : Nat}
    (hrooms : ∀ j < terms.length / 2, mine (i + j) ∧ Vacant m type (i + j)) : ∃ m' bs k',
      SucceedAll Ends ((combinations op type terms i).map Invocation.action) m bs m' ∧
      R.InLine op mine m' (bs ++ (leftOver terms).toList) (neighbours f xs) k' ∧
      Spares (fun j => mine j ∧ j < i) m m' ∧
      m'.invocations + k' = m.invocations + terms.length / 2 * m.setting.heard + k := by
  -- On pairs, as they are combined: what is done for one leaves the rooms of the others vacant.
  induction terms using leftOver.induct generalizing m xs k i with
  | case1 l r rest ih =>
    rcases xs with _ | ⟨x, _ | ⟨y, xs⟩⟩
    · cases h.length_eq
    · cases h.length_eq
    have hhalf : (l :: r :: rest).length / 2 = rest.length / 2 + 1 := by
      simp only [List.length_cons]
      omega
    rw [hhalf] at hrooms ⊢
    obtain ⟨hmine, hvacant⟩ := hrooms 0 (Nat.succ_pos _)
    have hticked : Reducing op mine m m.tick := .steps m _
    obtain ⟨m₁, k₁, hends, hsum, h₁, hspares₁, hcount₁⟩ :=
      (h.aside hticked).combine hop hvacant hmine
    have hrooms₁ : ∀ j < rest.length / 2, mine (i + 1 + j) ∧ Vacant m₁ type (i + 1 + j) :=
      vacant_after hspares₁ hrooms
    obtain ⟨m', bs, k', hall, h', hspares, hcount⟩ := ih h₁ hrooms₁
    have hspares₀ : Spares mine m m.tick := .steps m _
    refine ⟨m', .at i :: bs, k', ⟨.at i, m₁, bs, hends, hall, rfl⟩,
      h'.cons (R.retained hspares.memory hsum), ?_, ?_⟩
    · refine (hspares₀.trans hspares₁ fun j _ hj => ⟨hj.1, hj⟩).trans hspares fun j _ hj => ?_
      exact ⟨⟨hj.1, hj.2.ne⟩, hj.1, by omega⟩
    change m₁.invocations + k₁ = m.invocations + m.setting.heard + k at hcount₁
    rw [hcount, Nat.succ_mul, congrArg Setting.heard hspares₁.setting]
    change _ + rest.length / 2 * m.setting.heard + k₁ = _
    omega
  | case2 a =>
    obtain ⟨x, rfl⟩ := List.length_eq_one_iff.mp h.length_eq.symm
    refine ⟨m, [], k, ⟨rfl, rfl⟩, h, .refl m, ?_⟩
    rw [show [a].length / 2 = 0 by simp, Nat.zero_mul]
    rfl
  | case3 =>
    obtain rfl := List.length_eq_zero_iff.mp h.length_eq.symm
    refine ⟨m, [], k, ⟨rfl, rfl⟩, h, .refl m, ?_⟩
    rw [show ([] : List Address).length / 2 = 0 by simp, Nat.zero_mul]
    rfl

/-- One level of a reduction by neighbours. -/
lemma InLine.round (hop : op.Combines R f type)
    (h : R.InLine op mine m (a :: b :: terms) (x :: y :: xs) k) : ∃ mine' m' k' s rest,
      R.holds m'.store.memory (.at s) (f x y) ∧ R.InLine op mine' m' rest (neighbours f xs) k' ∧
      (∀ i, mine i → mine' i) ∧ Spares mine m m' ∧
      m'.invocations + k' = m.invocations + (xs.length / 2 + 1) * m.setting.heard + k ∧
      ∀ c m'', Leads Ends (pairwise (.opcode op none type) (.at s :: rest) m') c m'' →
        Leads Ends (pairwise (.opcode op none type) (a :: b :: terms) m) c m'' := by
  let s := m.store.memory.slots.size
  obtain ⟨m₁, hpair, hmade, hcount₁, hvacant⟩ := exists_pairUp op type (a :: b :: terms) m
  have hreducing : Reducing op mine m m₁ := hmade.mono fun _ => False.elim
  have hspares₁ : Spares mine m m₁.tick := (hmade.spares fun _ _ => id).andThen (.steps m₁ _)
  have hticked : Reducing op (roomsSince mine m m₁) m₁ m₁.tick := .steps m₁ _
  have hhalf : (a :: b :: terms).length / 2 = terms.length / 2 + 1 := by
    simp only [List.length_cons]
    omega
  rw [hhalf] at hvacant
  have hrooms : ∀ j < terms.length / 2 + 1,
      roomsSince mine m m₁ (s + j) ∧ Vacant m₁ type (s + j) := fun j hj =>
    ⟨.inr ⟨Nat.le_add_right s j, (Array.getElem?_eq_some_iff.mp (hvacant j hj)).1⟩, hvacant j hj⟩
  -- the first two terms, and then the others
  obtain ⟨hmine₀, hvacant₀⟩ := hrooms 0 (Nat.succ_pos _)
  obtain ⟨m₂, k₂, hends, hsum, h₂, hspares₂, hcount₂⟩ :=
    ((h.reducing hreducing).aside hticked).combine hop hvacant₀ hmine₀
  have hrooms₂ : ∀ j < terms.length / 2,
      roomsSince mine m m₁ (s + 1 + j) ∧ Vacant m₂ type (s + 1 + j) := vacant_after hspares₂ hrooms
  obtain ⟨m₃, bs, k₃, hall, h₃, hspares₃, hcount₃⟩ := h₂.level hop hrooms₂
  have hspares : Spares mine m m₃ := by
    refine (hspares₁.trans hspares₂ fun i hi hmine => ⟨hmine, .inl hmine, hi.ne⟩).trans hspares₃
      fun i hi hmine => ⟨hmine, .inl hmine, ?_⟩
    omega
  refine ⟨_, m₃.tick, k₃, s, bs ++ (leftOver terms).toList, R.retained hspares₃.memory hsum,
    h₃.aside (.steps m₃ _), fun i => .inl, hspares.andThen (.steps m₃ _), ?_, fun c m'' hleads => ?_⟩
  · have hlength : terms.length = xs.length := by simpa using h.length_eq
    have hheard₁ : m₁.tick.setting.heard = m.setting.heard := congrArg Setting.heard hmade.setting
    have hheard₂ : m₂.setting.heard = m.setting.heard :=
      congrArg Setting.heard (hspares₂.setting.trans hmade.setting)
    have hsame : m₃.tick.invocations = m₃.invocations ∧ m₁.tick.invocations = m₁.invocations :=
      ⟨rfl, rfl⟩
    rw [hheard₂, hlength] at hcount₃
    rw [Nat.succ_mul]
    omega
  · rw [pairwise_of_pairUp hpair]
    exact ends_of ⟨.at s, m₂, bs, hends, hall, rfl⟩ hleads

/-- **A reduction by neighbours** of two or more terms in line: what it comes to is their value, bracketed
in some way in their order. -/
lemma leads_pairwise (hop : op.Combines R f type) {t t₁ : Bracketing α} {ts : List (Bracketing α)}
    (h : R.InLine op mine m (a :: b :: terms) ((t :: t₁ :: ts).map (Bracketing.value f)) k) :
    ∃ c m', ∃ t' : Bracketing α,
      Leads Ends (pairwise (.opcode op none type) (a :: b :: terms) m) c m' ∧
      t'.leaves = (t :: t₁ :: ts).flatMap Bracketing.leaves ∧
      R.holds m'.store.memory c (t'.value f) ∧ Spares mine m m' ∧
      m'.invocations = m.invocations + (t₁ :: ts).length * m.setting.heard + k := by
  -- On the number of terms: a round of neighbours leaves half of them.
  induction hlen : ts.length using Nat.strong_induction_on generalizing mine m a b t t₁ ts terms k with
  | _ len ih =>
    obtain ⟨mine', m₁, k₁, s, rest, hsum, h₁, hmine, hspares, hcount, hback⟩ := h.round hop
    rw [← map_neighbours] at h₁
    rw [List.length_map] at hcount
    have hlevel := length_neighbours Bracketing.pair ts
    have hleaves := flatMap_neighbours ts
    generalize neighbours .pair ts = level at h₁ hlevel hleaves
    cases level with
    | nil =>
      obtain rfl : ts = [] := List.length_eq_zero_iff.mp (by rw [List.length_nil] at hlevel; omega)
      obtain rfl : rest = [] := List.length_eq_zero_iff.mp h₁.length_eq
      obtain rfl := h₁.eq_zero
      obtain ⟨v, hv⟩ := Option.isSome_iff_exists.mp (R.forced hsum).isEvaluated
      have hlast : pairwise (.opcode op none type) [.at s] m₁ = (.value (.at s), m₁) :=
        force_shallow_of_value hv
      refine ⟨.at s, m₁, .pair t t₁, hback _ _ ?_, ?_, hsum, hspares, ?_⟩
      · rw [hlast]
        exact ⟨rfl, rfl⟩
      · rw [List.flatMap_cons, List.flatMap_singleton]
        rfl
      · simpa using hcount
    | cons t₂ level =>
      cases rest with
      | nil => exact absurd h₁.length_eq (Nat.zero_ne_add_one _)
      | cons b' rest =>
        rw [List.length_cons] at hlevel
        obtain ⟨c, m', t', hleads, hleaves', hholds, hspares', hcount'⟩ :=
          ih level.length (by omega) (t := .pair t t₁) (h₁.cons hsum) rfl
        refine ⟨c, m', t', hback c m' hleads, ?_, hholds, hspares.andThen (hspares'.mono hmine), ?_⟩
        · rw [hleaves', List.flatMap_cons, hleaves, List.flatMap_cons, List.flatMap_cons]
          exact List.append_assoc _ _ _
        · have hall : (level.length + 1) * m.setting.heard + (ts.length / 2 + 1) * m.setting.heard =
              (ts.length + 1) * m.setting.heard := by
            rw [← Nat.add_mul]
            congr 1
            omega
          rw [hcount', hspares.setting, List.length_cons, List.length_cons]
          omega

end Representation

end CellMachine
