import Mathlib.Tactic
import CellMachine.KeyMap

/-!
Laws of looking up entries of maps, which hold for every association list, in whatever order its keys are,
and of the entries that a map is made of.
-/

namespace CellMachine

namespace KeyMap

universe u v w

variable {κ : Type u} {α : Type v} {β : Type w}

lemma mem_keys_of_mem {m : KeyMap κ α} {e : κ × α} (h : e ∈ m) : e.1 ∈ m.keys :=
  List.mem_map_of_mem h

section Lookup

variable [BEq κ] [LawfulBEq κ]

lemma get?_cons_self (k : κ) (a : α) (m : KeyMap κ α) : get? ((k, a) :: m) k = some a := by
  rw [get?, List.lookup_cons_self]

lemma get?_cons_of_ne {k k' : κ} (h : k ≠ k') (a : α) (m : KeyMap κ α) :
    get? ((k, a) :: m) k' = get? m k' := by
  rw [get?, List.lookup_cons, beq_false_of_ne (Ne.symm h), get?]

lemma mem_of_get? {m : KeyMap κ α} {k : κ} {a : α} (h : get? m k = some a) : (k, a) ∈ m := by
  induction m with
  | nil => cases h
  | cons e m ih =>
    obtain ⟨k₁, a₁⟩ := e
    by_cases hk : k₁ = k
    · subst hk
      rw [get?_cons_self] at h
      cases h
      exact List.mem_cons_self
    · rw [get?_cons_of_ne hk] at h
      exact List.mem_cons_of_mem _ (ih h)

lemma isSome_get?_iff {m : KeyMap κ α} {k : κ} : (get? m k).isSome ↔ k ∈ m.keys := by
  induction m with
  | nil => simp
  | cons e m ih =>
    obtain ⟨k₁, a₁⟩ := e
    by_cases hk : k₁ = k
    · subst hk
      simp [get?_cons_self]
    · rw [get?_cons_of_ne hk, ih, keys_cons, List.mem_cons]
      exact ⟨Or.inr, fun h => h.resolve_left fun h => hk h.symm⟩

lemma contains_iff {m : KeyMap κ α} {k : κ} : contains m k = true ↔ k ∈ m.keys := isSome_get?_iff

omit [LawfulBEq κ] in
lemma get?_append (l m : KeyMap κ α) (k : κ) : get? (l ++ m) k = (get? l k).or (get? m k) :=
  List.lookup_append

lemma rel_get? {R : κ → α → β → Prop} {l : List (κ × α)} {l' : List (κ × β)}
    (h : List.Forall₂ (fun e f => e.1 = f.1 ∧ R e.1 e.2 f.2) l l') (k : κ) :
    Option.Rel (R k) (get? l k) (get? l' k) := by
  induction h with
  | nil => exact .none
  | @cons e f l l' hef _ ih =>
    obtain ⟨k₁, a⟩ := e
    obtain ⟨k₂, b⟩ := f
    obtain ⟨hk, hR⟩ := hef
    obtain rfl : k₁ = k₂ := hk
    by_cases heq : k₁ = k
    · subst heq
      rw [get?_cons_self, get?_cons_self]
      exact .some hR
    · rw [get?_cons_of_ne heq, get?_cons_of_ne heq]
      exact ih

end Lookup

section Insertion

variable [BEq κ] [LawfulBEq κ] [Ord κ] [Std.LawfulEqOrd κ]

lemma get?_insert_self (k : κ) (a : α) (m : KeyMap κ α) : get? (insert k a m) k = some a := by
  induction m with
  | nil => exact get?_cons_self k a []
  | cons e m ih =>
    obtain ⟨k₁, a₁⟩ := e
    rw [insert]
    cases hc : compare k k₁ with
    | lt => exact get?_cons_self ..
    | eq => exact get?_cons_self ..
    | gt =>
      have hne : k₁ ≠ k := by
        rintro rfl
        rw [Std.compare_eq_iff_eq.mpr rfl] at hc
        cases hc
      exact (get?_cons_of_ne hne ..).trans ih

lemma get?_insert_of_ne {k k' : κ} (h : k ≠ k') (a : α) (m : KeyMap κ α) :
    get? (insert k a m) k' = get? m k' := by
  induction m with
  | nil => exact get?_cons_of_ne h a []
  | cons e m ih =>
    obtain ⟨k₁, a₁⟩ := e
    rw [insert]
    cases hc : compare k k₁ with
    | lt => exact get?_cons_of_ne h ..
    | eq =>
      obtain rfl := Std.compare_eq_iff_eq.mp hc
      exact (get?_cons_of_ne h ..).trans (get?_cons_of_ne h ..).symm
    | gt =>
      by_cases hk : k₁ = k'
      · subst hk
        exact (get?_cons_self ..).trans (get?_cons_self ..).symm
      · exact (get?_cons_of_ne hk ..).trans (ih.trans (get?_cons_of_ne hk ..).symm)

lemma get?_insert [DecidableEq κ] (k k' : κ) (a : α) (m : KeyMap κ α) :
    get? (insert k a m) k' = if k = k' then some a else get? m k' := by
  by_cases h : k = k'
  · subst h
    rw [get?_insert_self, if_pos rfl]
  · rw [get?_insert_of_ne h, if_neg h]

omit [BEq κ] [LawfulBEq κ] [Std.LawfulEqOrd κ] in
lemma mem_insert {k : κ} {a : α} {m : KeyMap κ α} {e : κ × α} (h : e ∈ insert k a m) :
    e = (k, a) ∨ e ∈ m := by
  induction m with
  | nil => exact Or.inl (List.mem_singleton.mp h)
  | cons e₁ m ih =>
    obtain ⟨k₁, a₁⟩ := e₁
    rw [insert] at h
    cases hc : compare k k₁ with
    | lt =>
      rw [hc] at h
      exact List.mem_cons.mp h
    | eq =>
      rw [hc] at h
      exact (List.mem_cons.mp h).imp_right (List.mem_cons_of_mem _)
    | gt =>
      rw [hc] at h
      rcases List.mem_cons.mp h with rfl | h
      · exact Or.inr List.mem_cons_self
      · exact (ih h).imp_right (List.mem_cons_of_mem _)

lemma mem_keys_insert {k k' : κ} {a : α} {m : KeyMap κ α} :
    k' ∈ (insert k a m).keys ↔ k' = k ∨ k' ∈ m.keys := by
  classical
  rw [← isSome_get?_iff, get?_insert, ← isSome_get?_iff]
  by_cases h : k = k'
  · simp [h]
  · simp [h, Ne.symm h]

lemma get?_union_cases {m n : KeyMap κ α} {k : κ} {a : α} (h : get? (union m n) k = some a) :
    get? m k = some a ∨ (k, a) ∈ n := by
  induction n generalizing m with
  | nil => exact Or.inl h
  | cons e n ih =>
    rcases ih (m := insert e.1 e.2 m) h with h | h
    · classical
      rw [get?_insert] at h
      split at h
      · next hk =>
        cases h
        subst hk
        exact Or.inr List.mem_cons_self
      · exact Or.inl h
    · exact Or.inr (List.mem_cons_of_mem _ h)

lemma get?_union_of_not_mem {m n : KeyMap κ α} {k : κ} (h : k ∉ n.keys) :
    get? (union m n) k = get? m k := by
  induction n generalizing m with
  | nil => rfl
  | cons e n ih =>
    obtain ⟨hne, hn⟩ := not_or.mp (mt List.mem_cons.mpr h)
    exact (ih hn).trans (get?_insert_of_ne (Ne.symm hne) _ _)

lemma mem_keys_union {m n : KeyMap κ α} {k : κ} :
    k ∈ (union m n).keys ↔ k ∈ m.keys ∨ k ∈ n.keys := by
  induction n generalizing m with
  | nil => simp [union]
  | cons e n ih =>
    have step : union m (e :: n) = union (insert e.1 e.2 m) n := rfl
    rw [step, ih, mem_keys_insert, keys_cons, List.mem_cons]
    tauto

lemma get?_insertNew [DecidableEq κ] (k k' : κ) (a : α) (m : KeyMap κ α) :
    get? (insertNew k a m) k' = if k = k' then some ((get? m k).getD a) else get? m k' := by
  rw [insertNew]
  by_cases hc : contains m k = true
  · rw [if_pos hc]
    obtain ⟨b, hb⟩ := Option.isSome_iff_exists.mp (show (get? m k).isSome = true from hc)
    split
    · next h => rw [← h, hb]; rfl
    · rfl
  · rw [if_neg hc, get?_insert]
    have hnone : get? m k = none := by
      rw [contains, Option.isSome_iff_ne_none, not_not] at hc
      exact hc
    rw [hnone, Option.getD_none]

lemma get?_ofList (l : List (κ × α)) (k : κ) : get? (ofList l) k = get? l.reverse k := by
  classical
  induction l using List.reverseRecOn with
  | nil => rfl
  | append_singleton l e ih =>
    have hstep : ofList (l ++ [e]) = insert e.1 e.2 (ofList l) := List.foldl_append
    rw [hstep, get?_insert, List.reverse_append, List.reverse_singleton, List.singleton_append]
    split
    · next h => rw [← h, get?_cons_self]
    · next h => rw [get?_cons_of_ne h, ih]

lemma mem_of_get?_ofList {l : List (κ × α)} {k : κ} {a : α} (h : get? (ofList l) k = some a) :
    (k, a) ∈ l := by
  rcases get?_union_cases (m := []) (n := l) h with h | h
  · cases h
  · exact h

lemma rel_get?_ofList {R : α → β → Prop} {l : List (κ × α)} {l' : List (κ × β)}
    (h : List.Forall₂ (fun e f => e.1 = f.1 ∧ R e.2 f.2) l l') (k : κ) :
    Option.Rel R (get? (ofList l) k) (get? (ofList l') k) := by
  classical
  suffices hfold : ∀ (m : KeyMap κ α) (m' : KeyMap κ β), Option.Rel R (get? m k) (get? m' k) →
      Option.Rel R (get? (l.foldl (fun m e => insert e.1 e.2 m) m) k)
        (get? (l'.foldl (fun m e => insert e.1 e.2 m) m') k) from hfold [] [] .none
  induction h with
  | nil => exact fun _ _ h => h
  | @cons e f l l' hef _ ih =>
    intro m m' hm
    obtain ⟨hkey, hvalue⟩ := hef
    refine ih _ _ ?_
    rw [get?_insert, get?_insert, hkey]
    split
    · exact .some hvalue
    · exact hm

/-- Entries in ascending order of their keys. -/
def Ascending (m : KeyMap κ α) : Prop := m.Pairwise fun e f => compare e.1 f.1 = .lt

omit [BEq κ] [LawfulBEq κ] in
lemma ascending_insert [Std.TransOrd κ] (k : κ) (a : α) {m : KeyMap κ α} (h : m.Ascending) :
    (insert k a m).Ascending := by
  induction m with
  | nil => exact List.pairwise_singleton _ _
  | cons e m ih =>
    obtain ⟨k₁, a₁⟩ := e
    obtain ⟨hhead, htail⟩ := List.pairwise_cons.mp h
    rw [insert]
    cases hc : compare k k₁ with
    | lt =>
      refine List.pairwise_cons.mpr ⟨fun f hf => ?_, h⟩
      rcases List.mem_cons.mp hf with rfl | hf
      · exact hc
      · exact Std.TransCmp.lt_trans hc (hhead f hf)
    | eq =>
      obtain rfl := Std.LawfulEqOrd.eq_of_compare hc
      exact List.pairwise_cons.mpr ⟨hhead, htail⟩
    | gt =>
      refine List.pairwise_cons.mpr ⟨fun f hf => ?_, ih htail⟩
      rcases mem_insert hf with rfl | hf
      · exact Std.OrientedCmp.gt_iff_lt.mp hc
      · exact hhead f hf

lemma Ascending.get?_of_mem {m : KeyMap κ α} (h : m.Ascending) {e : κ × α} (he : e ∈ m) :
    get? m e.1 = some e.2 := by
  induction m with
  | nil => cases he
  | cons f m ih =>
    obtain ⟨hhead, htail⟩ := List.pairwise_cons.mp h
    rcases List.mem_cons.mp he with rfl | he
    · exact get?_cons_self _ _ _
    · have hne : f.1 ≠ e.1 := by
        intro heq
        have hlt := hhead e he
        rw [heq, Std.ReflOrd.compare_self] at hlt
        cases hlt
      rw [get?_cons_of_ne hne]
      exact ih htail he

lemma get?_eq_none_of_lt {m : KeyMap κ α} {k : κ} (h : ∀ e ∈ m, compare k e.1 = .lt) :
    get? m k = none := by
  rw [← Option.not_isSome_iff_eq_none, isSome_get?_iff]
  intro hk
  obtain ⟨e, he, rfl⟩ := List.mem_map.mp hk
  have hlt := h e he
  rw [Std.ReflOrd.compare_self] at hlt
  cases hlt

lemma Ascending.get?_ofList {m : KeyMap κ α} (h : m.Ascending) (k : κ) :
    get? (ofList m) k = get? m k := by
  rw [KeyMap.get?_ofList]
  cases hlast : get? m.reverse k with
  | some a => exact (h.get?_of_mem (List.mem_reverse.mp (mem_of_get? hlast))).symm
  | none =>
    rw [eq_comm, ← Option.not_isSome_iff_eq_none, isSome_get?_iff]
    rw [← Option.not_isSome_iff_eq_none, isSome_get?_iff] at hlast
    exact fun hk => hlast (by rw [keys, List.map_reverse]; exact List.mem_reverse.mpr hk)

omit [BEq κ] [LawfulBEq κ] [Std.LawfulEqOrd κ] in
lemma Ascending.keys {m : KeyMap κ α} (h : m.Ascending) :
    m.keys.Pairwise fun k k' => compare k k' = .lt := List.pairwise_map.mpr h

omit [BEq κ] [LawfulBEq κ] in
lemma Ascending.keys_eq [Std.TransOrd κ] {m : KeyMap κ α} {n : KeyMap κ β} (hm : m.Ascending)
    (hn : n.Ascending) (h : ∀ k, k ∈ m.keys ↔ k ∈ n.keys) : m.keys = n.keys := by
  have nodup : ∀ {l : List κ}, (l.Pairwise fun k k' => compare k k' = .lt) → l.Nodup := by
    refine fun hl => hl.imp fun {k k'} hlt heq => ?_
    rw [heq, Std.ReflOrd.compare_self] at hlt
    cases hlt
  have hperm := (List.perm_ext_iff_of_nodup (nodup hm.keys) (nodup hn.keys)).mpr h
  refine hperm.eq_of_pairwise (fun k k' _ _ hlt hgt => ?_) hm.keys hn.keys
  rw [Std.OrientedCmp.gt_of_lt hgt] at hlt
  cases hlt

end Insertion

section Entries

variable [Ord κ] [Std.LawfulEqOrd κ]

lemma mem_keys_ofList {l : List (κ × α)} {k : κ} : k ∈ (ofList l).keys ↔ k ∈ keys l := by
  classical
  have hunion : ofList l = union [] l := rfl
  rw [hunion, mem_keys_union, keys_nil, or_iff_right List.not_mem_nil]

lemma perm_insert {k : κ} (a : α) {m : KeyMap κ α} (h : k ∉ m.keys) :
    (m.insert k a).Perm ((k, a) :: m) := by
  induction m with
  | nil => exact .refl _
  | cons e m ih =>
    obtain ⟨k', a'⟩ := e
    obtain ⟨hne, hnot⟩ := not_or.mp (mt List.mem_cons.mpr h)
    rw [insert]
    split
    · exact .refl _
    · next heq => exact absurd (Std.LawfulEqOrd.eq_of_compare heq) hne
    · exact ((ih hnot).cons _).trans (.swap ..)

lemma perm_union {m n : KeyMap κ α} (hn : n.keys.Nodup) (hdisjoint : ∀ k ∈ n.keys, k ∉ m.keys) :
    (m.union n).Perm (n ++ m) := by
  classical
  induction n generalizing m with
  | nil => exact .refl _
  | cons e n ih =>
    obtain ⟨hnot, hnodup⟩ := List.nodup_cons.mp hn
    obtain ⟨hhead, htail⟩ := List.forall_mem_cons.mp hdisjoint
    have hstep : ((m.insert e.1 e.2).union n).Perm (n ++ m.insert e.1 e.2) := by
      refine ih hnodup fun k hk hin => ?_
      rcases mem_keys_insert.mp hin with heq | hin
      · exact hnot (heq ▸ hk)
      · exact htail k hk hin
    exact hstep.trans (((perm_insert e.2 hhead).append_left n).trans List.perm_middle)

lemma perm_ofList {l : List (κ × α)} (h : (keys l).Nodup) : (ofList l).Perm l := by
  have hunion : (union [] l).Perm (l ++ []) := perm_union h fun _ _ => List.not_mem_nil
  rwa [List.append_nil] at hunion

lemma ascending_union [Std.TransOrd κ] {m : KeyMap κ α} (n : KeyMap κ α) (h : m.Ascending) :
    (m.union n).Ascending := by
  induction n generalizing m with
  | nil => exact h
  | cons e n ih => exact ih (ascending_insert e.1 e.2 h)

end Entries

end KeyMap

end CellMachine
