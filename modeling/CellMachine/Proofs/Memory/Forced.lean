import CellMachine.Proofs.Memory.Conversion

/-!
Slots that are evaluated with all their members, however deep these lie. Whatever keeps the values of
slots keeps them so, and they are written out without gaps, as no chain of members is longer than there
are slots.
-/

namespace CellMachine

/-- A tree without gaps: every member at any depth has a value. -/
inductive Tree.Whole : Tree → Prop
  | native (n : Native) : Whole (.native n)
  | key (k : String) : Whole (.key k)
  | callable (c : Callable) : Whole (.callable c)
  | list {items : List (Option Tree)} (hsome : none ∉ items) (h : ∀ t, some t ∈ items → Whole t) :
    Whole (.list items)
  | record {members : List (String × Option Tree)} (hsome : ∀ k, (k, none) ∉ members)
    (h : ∀ k t, (k, some t) ∈ members → Whole t) : Whole (.record members)

namespace Memory

/-- Every slot is still there, with its value if it had one. -/
def Keeps (m m' : Memory) : Prop :=
  ∀ a s, m.get? a = some s → ∃ s', m'.get? a = some s' ∧ ∀ v, s.value = some v → s'.value = some v

/-- A slot that is evaluated with all its members. -/
inductive Forced (m : Memory) : Address → Prop
  | mk {a : Address} {v : Value} (hv : m.value? a = some v) (hmembers : ∀ c ∈ v.members, Forced m c) :
    Forced m a

variable {m m' m'' : Memory} {a b : Address} {v : Value}

namespace Keeps

lemma refl (m : Memory) : m.Keeps m := fun _ s hs => ⟨s, hs, fun _ => id⟩

lemma trans (h : m.Keeps m') (h' : m'.Keeps m'') : m.Keeps m'' := fun a s hs => by
  obtain ⟨s', hs', hv⟩ := h a s hs
  obtain ⟨s'', hs'', hv'⟩ := h' a s' hs'
  exact ⟨s'', hs'', fun v => hv' v ∘ hv v⟩

lemma isSome (h : m.Keeps m') (ha : (m.get? a).isSome = true) : (m'.get? a).isSome = true := by
  obtain ⟨s, hs⟩ := Option.isSome_iff_exists.mp ha
  obtain ⟨s', hs', -⟩ := h a s hs
  exact Option.isSome_iff_exists.mpr ⟨s', hs'⟩

lemma value? (h : m.Keeps m') (hv : m.value? a = some v) : m'.value? a = some v := by
  obtain ⟨s, hs, hsv⟩ := Option.bind_eq_some_iff.mp hv
  obtain ⟨s', hs', hkept⟩ := h a s hs
  exact Option.bind_eq_some_iff.mpr ⟨s', hs', hkept v hsv⟩

lemma isEvaluated (h : m.Keeps m') (ha : m.isEvaluated a = true) : m'.isEvaluated a = true := by
  obtain ⟨v, hv⟩ := Option.isSome_iff_exists.mp ha
  exact Option.isSome_iff_exists.mpr ⟨v, h.value? hv⟩

lemma forced (h : m.Keeps m') (ha : m.Forced a) : m'.Forced a := by
  induction ha with
  | mk hv _ ih => exact .mk (h.value? hv) ih

/-- No slot is taken away. -/
lemma slots_le (h : m.Keeps m') : m.slots.size ≤ m'.slots.size := by
  by_contra hlt
  have hinside : m'.slots.size < m.slots.size := by omega
  obtain ⟨s', hs', -⟩ := h (.at m'.slots.size) _ (Array.getElem?_eq_getElem hinside)
  cases (Array.getElem?_eq_none le_rfl).symm.trans hs'

lemma loose_le (h : m.Keeps m') : m.loose.size ≤ m'.loose.size := by
  by_contra hlt
  have hinside : m'.loose.size < m.loose.size := by omega
  obtain ⟨s', hs', -⟩ := h (.loose m'.loose.size) _ (Array.getElem?_eq_getElem hinside)
  cases (Array.getElem?_eq_none le_rfl).symm.trans hs'

end Keeps

lemma Over.isKeeps (h : m.Over m') : m.Keeps m' := fun a s hs =>
  ⟨s, h.get?_of_some a s hs, fun _ => id⟩

lemma Slot.value_fill {s : Slot} (hv : s.value = some v) (w : Value) : (s.fill w).value = some v := by
  rw [Slot.fill, hv]
  rfl

lemma keeps_memoize (m : Memory) (a : Address) (w : Value) : m.Keeps (m.memoize a w) := by
  have hslot : ∀ (slots : Array Slot) (i j : Nat) (s : Slot), slots[j]? = some s →
      ∃ s', (slots.modify i (Slot.fill w))[j]? = some s' ∧
        ∀ v, s.value = some v → s'.value = some v := by
    intro slots i j s hs
    rw [Array.getElem?_modify, hs]
    split
    · exact ⟨s.fill w, rfl, fun v hv => Slot.value_fill hv w⟩
    · exact ⟨s, rfl, fun _ => id⟩
  intro b s hs
  match a, b with
  | .at i, .at j => exact hslot m.slots i j s hs
  | .at i, .loose k => exact ⟨s, hs, fun _ => id⟩
  | .loose i, .at j => exact ⟨s, hs, fun _ => id⟩
  | .loose i, .loose j => exact hslot m.loose i j s hs

lemma isEvaluated_memoize (ha : (m.get? a).isSome = true) (w : Value) :
    (m.memoize a w).isEvaluated a = true := by
  have hslot : ∀ (slots : Array Slot) (i : Nat), (slots[i]?).isSome = true →
      (((slots.modify i (Slot.fill w))[i]?).bind Slot.value).isSome = true := by
    intro slots i hi
    obtain ⟨s, hs⟩ := Option.isSome_iff_exists.mp hi
    rw [Array.getElem?_modify, if_pos rfl, hs, Option.map_some, Option.bind_some, Slot.fill]
    cases s.value <;> rfl
  cases a with
  | «at» i => exact hslot m.slots i ha
  | loose i => exact hslot m.loose i ha

lemma Forced.isEvaluated (h : m.Forced a) : m.isEvaluated a = true := by
  obtain ⟨hv, -⟩ := h
  exact Option.isSome_iff_exists.mpr ⟨_, hv⟩

/-! ### Chains of members -/

/-- A slot that is evaluated with all its members, where no chain of members is longer than a number. -/
def ForcedWithin (m : Memory) : Nat → Address → Prop
  | 0, _ => False
  | n + 1, a => ∃ v, m.value? a = some v ∧ ∀ c ∈ v.members, m.ForcedWithin n c

lemma ForcedWithin.succ {n : Nat} (h : m.ForcedWithin n a) : m.ForcedWithin (n + 1) a := by
  induction n generalizing a with
  | zero => exact h.elim
  | succ n ih =>
    obtain ⟨v, hv, hall⟩ := h
    exact ⟨v, hv, fun c hc => ih (hall c hc)⟩

lemma ForcedWithin.mono {n n' : Nat} (hle : n ≤ n') (h : m.ForcedWithin n a) :
    m.ForcedWithin n' a := by
  induction hle with
  | refl => exact h
  | step _ ih => exact ih.succ

lemma Forced.exists_within (h : m.Forced a) : ∃ n, m.ForcedWithin n a := by
  induction h with
  | @mk a v hv _ ih =>
    have hbound : ∃ n, ∀ c ∈ v.members, m.ForcedWithin n c := by
      generalize v.members = as at ih
      induction as with
      | nil => exact ⟨0, List.forall_mem_nil _⟩
      | cons c as ihs =>
        obtain ⟨n, hn⟩ := ih c List.mem_cons_self
        obtain ⟨n', hn'⟩ := ihs fun d hd => ih d (List.mem_cons_of_mem _ hd)
        exact ⟨max n n', List.forall_mem_cons.mpr ⟨hn.mono (le_max_left n n'),
          fun d hd => (hn' d hd).mono (le_max_right n n')⟩⟩
    obtain ⟨n, hn⟩ := hbound
    exact ⟨n + 1, v, hv, hn⟩

/-- The addresses of slots. -/
def addresses (m : Memory) : Finset Address :=
  (Finset.range m.slots.size).image .at ∪ (Finset.range m.loose.size).image .loose

lemma mem_addresses (hv : m.value? a = some v) : a ∈ m.addresses := by
  obtain ⟨s, hs, -⟩ := Option.bind_eq_some_iff.mp hv
  cases a with
  | «at» i =>
    refine Finset.mem_union_left _ (Finset.mem_image_of_mem _ (Finset.mem_range.mpr ?_))
    exact (Array.getElem?_eq_some_iff.mp hs).1
  | loose i =>
    refine Finset.mem_union_right _ (Finset.mem_image_of_mem _ (Finset.mem_range.mpr ?_))
    exact (Array.getElem?_eq_some_iff.mp hs).1

lemma card_addresses_le (m : Memory) : m.addresses.card ≤ m.slots.size + m.loose.size := by
  refine (Finset.card_union_le _ _).trans (Nat.add_le_add ?_ ?_)
  · exact Finset.card_image_le.trans (Finset.card_range _).le
  · exact Finset.card_image_le.trans (Finset.card_range _).le

open scoped Classical in
/-- The slots without longer chains of members than some number. -/
noncomputable def within (m : Memory) (n : Nat) : Finset Address :=
  m.addresses.filter fun a => m.ForcedWithin n a

lemma mem_within {n : Nat} : a ∈ m.within n ↔ m.ForcedWithin n a := by
  classical
  rw [within, Finset.mem_filter, and_iff_right_iff_imp]
  intro h
  cases n with
  | zero => exact h.elim
  | succ n =>
    obtain ⟨v, hv, -⟩ := h
    exact mem_addresses hv

/-- **No chain of members is longer than there are slots**: each length below the longest is that of
some slot's chain. -/
lemma Forced.within (h : m.Forced a) : m.ForcedWithin (m.slots.size + m.loose.size) a := by
  classical
  set size := m.slots.size + m.loose.size
  have hsub : ∀ n, m.within n ⊆ m.within (n + 1) := fun n b hb => mem_within.mpr (mem_within.mp hb).succ
  have hmono : Monotone fun n => (m.within n).card :=
    monotone_nat_of_le_succ fun n => Finset.card_le_card (hsub n)
  have hbound : ∀ n, (m.within n).card ≤ size := fun n =>
    (Finset.card_le_card (Finset.filter_subset _ _)).trans m.card_addresses_le
  -- Once a length is that of no slot's chain, no greater one is either.
  have hstable : ∀ n, m.within n = m.within (n + 1) → m.within (n + 1) = m.within (n + 2) := by
    intro n heq
    refine (hsub (n + 1)).antisymm fun b hb => ?_
    obtain ⟨v, hv, hall⟩ := mem_within.mp hb
    exact mem_within.mpr ⟨v, hv, fun c hc => mem_within.mp (heq ▸ mem_within.mpr (hall c hc))⟩
  have hcard : ∀ n, (m.within n).card = (m.within (n + 1)).card →
      (m.within (n + 1)).card = (m.within (n + 2)).card := by
    intro n hn
    rw [hstable n (Finset.eq_of_subset_of_card_le (hsub n) hn.ge)]
  obtain ⟨n, hn⟩ := h.exists_within
  have hmax := hn.mono (le_max_left n size)
  have hend : m.within size = m.within (max n size) :=
    Finset.eq_of_subset_of_card_le
      (fun b hb => mem_within.mpr ((mem_within.mp hb).mono (le_max_right n _)))
      (Nat.stabilises_of_monotone hmono hbound hcard (le_max_right n _)).le
  exact mem_within.mp (hend ▸ mem_within.mpr hmax)

/-! ### Writing out -/

lemma whole_expand {n : Nat} (h : ∀ c ∈ v.members, m.ForcedWithin n c) : (m.expand n v).Whole := by
  induction n generalizing v with
  | zero =>
    -- a value whose chains of members have no length has no members
    have hnil : v.members = [] := List.eq_nil_iff_forall_not_mem.mpr h
    cases v with
    | native n => exact .native n
    | key k => exact .key k
    | callable c => exact .callable c
    | iterable items =>
      have hitems : items.toList = [] := hnil
      rw [expand, hitems]
      exact .list List.not_mem_nil nofun
    | structured r =>
      have hentries : r.toList = [] := List.map_eq_nil_iff.mp hnil
      rw [expand, hentries]
      exact .record (fun _ => List.not_mem_nil) nofun
  | succ n ih =>
    have hwritten : ∀ c ∈ v.members, ∃ t, (m.value? c).map (m.expand n) = some t ∧ t.Whole := by
      intro c hc
      obtain ⟨w, hw, hall⟩ := h c hc
      exact ⟨m.expand n w, by rw [hw, Option.map_some], ih hall⟩
    cases v with
    | native n => exact .native n
    | key k => exact .key k
    | callable c => exact .callable c
    | iterable items =>
      refine .list (fun hnone => ?_) fun t ht => ?_
      · obtain ⟨c, hc, hnone⟩ := List.mem_map.mp hnone
        obtain ⟨t, ht, -⟩ := hwritten c hc
        cases hnone.symm.trans ht
      · obtain ⟨c, hc, ht⟩ := List.mem_map.mp ht
        obtain ⟨t', ht', hwhole⟩ := hwritten c hc
        cases ht.symm.trans ht'
        exact hwhole
    | structured r =>
      refine .record (fun k hnone => ?_) fun k t ht => ?_
      · obtain ⟨e, he, hnone⟩ := List.mem_map.mp hnone
        obtain ⟨t, ht, -⟩ := hwritten e.2 (List.mem_map_of_mem he)
        cases (congrArg Prod.snd hnone).symm.trans ht
      · obtain ⟨e, he, ht⟩ := List.mem_map.mp ht
        obtain ⟨t', ht', hwhole⟩ := hwritten e.2 (List.mem_map_of_mem he)
        cases (congrArg Prod.snd ht).symm.trans ht'
        exact hwhole

lemma expand_of_keeps (h : m.Keeps m') {n n' : Nat} (hle : n ≤ n') {v : Value}
    (hall : ∀ c ∈ v.members, m.ForcedWithin n c) : m'.expand n' v = m.expand n v := by
  induction n generalizing n' v with
  | zero =>
    -- a value whose chains of members have no length has no members
    have hnil : v.members = [] := List.eq_nil_iff_forall_not_mem.mpr hall
    cases v with
    | iterable items =>
      have hitems : items.toList = [] := hnil
      cases n' <;> simp only [expand, hitems, List.map_nil]
    | structured r =>
      have hentries : r.toList = [] := List.map_eq_nil_iff.mp hnil
      cases n' <;> simp only [expand, hentries, List.map_nil]
    | _ => cases n' <;> rfl
  | succ n ih =>
    obtain ⟨n', rfl⟩ := Nat.exists_eq_add_of_le' (Nat.le_trans (Nat.le_add_left 1 n) hle)
    have hmember : ∀ c ∈ v.members,
        (m'.value? c).map (m'.expand n') = (m.value? c).map (m.expand n) := by
      intro c hc
      obtain ⟨w, hw, hwithin⟩ := hall c hc
      rw [hw, h.value? hw, Option.map_some, Option.map_some, ih (Nat.le_of_succ_le_succ hle) hwithin]
    cases v with
    | iterable items => exact congrArg Tree.list (List.map_congr_left hmember)
    | structured r =>
      refine congrArg Tree.record (List.map_congr_left fun e he => ?_)
      exact congrArg (Prod.mk e.1) (hmember e.2 (List.mem_map_of_mem he))
    | _ => rfl

lemma Forced.treeAt_of_keeps (ha : m.Forced a) (h : m.Keeps m') : m'.treeAt a = m.treeAt a := by
  obtain ⟨v, hv, hall⟩ := ha.within.succ
  have hslots := h.slots_le
  have hloose := h.loose_le
  rw [treeAt, treeAt, hv, h.value? hv, Option.map_some, Option.map_some, tree, tree,
    expand_of_keeps h (by omega) fun c hc => (hall c hc).succ]

lemma Forced.expand_eq_treeAt (ha : m.Forced a) :
    (m.value? a).map (m.expand (m.slots.size + m.loose.size)) = m.treeAt a := by
  obtain ⟨v, hv, hall⟩ := ha.within.succ
  have hwithin : ∀ c ∈ v.members, m.ForcedWithin (m.slots.size + m.loose.size) c := hall
  rw [treeAt, hv, Option.map_some, Option.map_some, tree,
    expand_of_keeps (.refl m) (Nat.le_succ _) hwithin]

/-- **A slot that is evaluated with all its members** is written out without gaps. -/
lemma Forced.whole (h : m.Forced a) {t : Tree} (ht : m.treeAt a = some t) : t.Whole := by
  obtain ⟨v, hv, rfl⟩ := Option.map_eq_some_iff.mp ht
  obtain ⟨w, hw, hall⟩ := h.within.mono (Nat.le_succ _)
  cases hv.symm.trans hw
  exact whole_expand fun c hc => (hall c hc).mono (Nat.le_succ _)

end Memory

end CellMachine
