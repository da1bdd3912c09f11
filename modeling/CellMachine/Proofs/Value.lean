import CellMachine.Proofs.KeyMap
import CellMachine.Proofs.Rope.Contents
import CellMachine.Value

/-!
The members of sequences and records, as lists.
-/

namespace CellMachine

variable {α : Type}

namespace Sequence

/-- A rope that is well formed, or anything flat. -/
def WellFormed : Sequence α → Prop
  | flat _ => True
  | rope r => r.WellFormed

lemma toList_flat (items : Array α) : (flat items).toList = items.toList := by
  rw [toList, forEachIn]
  by_cases h : 0 < items.size
  · have hspan : Span.all.resolve items.size = some (0, items.size) := by
      simp [Span.resolve, Span.all, Span.stopIn, h]
    rw [hspan]
    dsimp only
    rw [visitFrom_collect]
    simp [Visitor.ended]
  · have hspan : Span.all.resolve items.size = none := by
      simp [Span.resolve, Span.all, Span.stopIn, h]
    have hempty : items = #[] := Array.size_eq_zero_iff.mp (by omega)
    rw [hspan, hempty]
    rfl

lemma toList_rope {r : Rope α} (h : r.WellFormed) : (rope r).toList = r.elems := Rope.toList_eq h

lemma toList_ofList (l : List α) : (rope (.ofList l)).toList = l := by
  rw [toList_rope (Rope.wellFormed_ofList l), Rope.elems_ofList]

lemma size_eq {q : Sequence α} (h : q.WellFormed) : q.size = q.toList.length := by
  cases q with
  | flat items => rw [toList_flat, size, Array.length_toList]
  | rope r => rw [toList_rope h, size, Rope.length_eq h]

lemma get?_eq {q : Sequence α} (h : q.WellFormed) (i : Nat) : q.get? i = q.toList[i]? := by
  cases q with
  | flat items => rw [toList_flat, get?, Array.getElem?_toList]
  | rope r => rw [toList_rope h, get?, Rope.get?_eq h]

lemma toRope_spec {q : Sequence α} (h : q.WellFormed) :
    q.toRope.WellFormed ∧ q.toRope.elems = q.toList := by
  cases q with
  | flat items =>
    have hlist : toRope (flat items) = .ofList items.toList := rfl
    rw [hlist, toList_flat]
    exact ⟨Rope.wellFormed_ofList _, Rope.elems_ofList _⟩
  | rope r => exact ⟨h, (toList_rope h).symm⟩

lemma sub_ok {q : Sequence α} (h : q.WellFormed) {low high : Nat} (hle : low ≤ high)
    (hhigh : high ≤ q.size) :
    ∃ r, q.toRope.sub low high = .ok r ∧ r.WellFormed ∧
      (rope r).toList = q.toList.extract low high := by
  obtain ⟨hrope, helems⟩ := toRope_spec h
  rw [size_eq h, ← helems] at hhigh
  obtain ⟨r, hr, hrwf, hpart⟩ := Rope.sub_ok hrope hle hhigh
  exact ⟨r, hr, hrwf, by rw [toList_rope hrwf, hpart, helems]⟩

end Sequence

namespace Record

lemma get?_ofLayer (entries : KeyMap String α) (type : Ty) (key : String) :
    (ofLayer entries type).get? key = entries.get? key := by
  rw [ofLayer, get?, List.findSome?_cons]
  cases entries.get? key <;> rfl

lemma visitKeys_collect (r : Record α) (keys : List String) (acc : List (String × α)) :
    r.visitKeys (fun key a entries => .ok ((key, a) :: entries)) keys acc =
      .ok ((keys.filterMap fun k => (r.get? k).map fun a => (k, a)).reverse ++ acc) := by
  induction keys generalizing acc with
  | nil => rfl
  | cons k keys ih =>
    rw [visitKeys]
    cases hk : r.get? k with
    | none => simp only [ih, List.filterMap_cons, hk, Option.map_none]
    | some a => simp [ih, hk]

lemma toList_eq (r : Record α) :
    r.toList = r.keys.filterMap fun k => (r.get? k).map fun a => (k, a) := by
  rw [toList, forEach, visitKeys_collect]
  simp

/-- Members that are related under every key are shown as related entries. -/
lemma forall₂_shown {β : Type} {R : α → β → Prop} {f : String → Option α} {g : String → Option β}
    (h : ∀ k, Option.Rel R (f k) (g k)) (keys : List String) :
    List.Forall₂ (fun e e' => e.1 = e'.1 ∧ R e.2 e'.2)
      (keys.filterMap fun k => (f k).map fun a => (k, a))
      (keys.filterMap fun k => (g k).map fun b => (k, b)) := by
  refine List.rel_filterMap (R := Eq) ?_ (List.forall₂_refl keys)
  rintro k _ rfl
  have hk := h k
  show Option.Rel _ ((f k).map _) ((g k).map _)
  generalize f k = o at hk ⊢
  generalize g k = o' at hk ⊢
  cases hk with
  | none => exact .none
  | some hab => exact .some ⟨rfl, hab⟩

lemma get?_toList {r : Record α} {k : String} (hk : k ∈ r.keys) :
    KeyMap.get? r.toList k = r.get? k := by
  rw [toList_eq]
  have hall : ∀ keys : List String, k ∈ keys →
      KeyMap.get? (keys.filterMap fun k => (r.get? k).map fun a => (k, a)) k = r.get? k := by
    intro keys hk
    induction keys with
    | nil => cases hk
    | cons k' keys ih =>
      by_cases heq : k' = k
      · subst heq
        cases hget : r.get? k' with
        | none =>
          rw [List.filterMap_cons, hget]
          cases hin : KeyMap.get? (keys.filterMap fun k => (r.get? k).map fun a => (k, a)) k' with
          | none => exact hin
          | some a =>
            obtain ⟨k'', -, hk''⟩ := List.mem_filterMap.mp (KeyMap.mem_of_get? hin)
            obtain ⟨b, hb, hpair⟩ := Option.map_eq_some_iff.mp hk''
            cases hpair
            rw [hget] at hb
            cases hb
        | some a =>
          rw [List.filterMap_cons, hget]
          exact KeyMap.get?_cons_self _ _ _
      · have hrest := ih ((List.mem_cons.mp hk).resolve_left fun h => heq h.symm)
        rw [List.filterMap_cons]
        cases hget : r.get? k' with
        | none => exact hrest
        | some a => exact (KeyMap.get?_cons_of_ne heq _ _).trans hrest
  exact hall _ hk

/-- Nothing is looked up but keys that are shown. -/
def Exposed (r : Record α) : Prop := ∀ k, (r.get? k).isSome = true → k ∈ r.keys

lemma exposed_flat (entries : KeyMap String α) : (flat entries).Exposed :=
  fun _ hk => KeyMap.isSome_get?_iff.mp hk

lemma Exposed.get?_toList {r : Record α} (h : r.Exposed) (k : String) :
    KeyMap.get? r.toList k = r.get? k := by
  by_cases hk : k ∈ r.keys
  · exact Record.get?_toList hk
  · have hnone : r.get? k = none := by
      rw [← Option.not_isSome_iff_eq_none]
      exact fun hsome => hk (h k hsome)
    rw [hnone, ← Option.not_isSome_iff_eq_none, KeyMap.isSome_get?_iff]
    intro hin
    obtain ⟨e, he, rfl⟩ := List.mem_map.mp hin
    rw [toList_eq] at he
    obtain ⟨k', hk', hpair⟩ := List.mem_filterMap.mp he
    obtain ⟨b, -, hpair⟩ := Option.map_eq_some_iff.mp hpair
    cases hpair
    exact hk hk'

end Record

/-- A value made of addresses with a property. -/
inductive Value.Within (R : Address → Prop) : Value → Prop
  | native (n : Native) : Within R (.native n)
  | key (k : String) : Within R (.key k)
  | callable (c : Callable) : Within R (.callable c)
  | iterable {items : Sequence Address} (hitems : items.WellFormed) (h : ∀ a ∈ items.toList, R a) :
    Within R (.iterable items)
  | structured {r : Record Address} (h : ∀ k a, r.get? k = some a → R a) : Within R (.structured r)

section Within

variable {R S : Address → Prop}

lemma Value.Within.mono (hRS : ∀ a, R a → S a) {v : Value} (h : v.Within R) : v.Within S := by
  cases h with
  | native n => exact .native n
  | key k => exact .key k
  | callable c => exact .callable c
  | iterable hitems h => exact .iterable hitems fun a ha => hRS a (h a ha)
  | structured h => exact .structured fun k a ha => hRS a (h k a ha)

lemma Value.Within.members {v : Value} (h : v.Within R) : ∀ a ∈ v.members, R a := by
  cases h with
  | iterable _ h => exact h
  | @structured r h =>
    intro a ha
    obtain ⟨e, he, rfl⟩ := List.mem_map.mp ha
    rw [Record.toList_eq] at he
    obtain ⟨k, -, hk⟩ := List.mem_filterMap.mp he
    obtain ⟨b, hb, rfl⟩ := Option.map_eq_some_iff.mp hk
    exact h k b hb
  | _ => exact nofun

lemma Value.Within.and {v : Value} (h : v.Within R) (h' : v.Within S) :
    v.Within fun a => R a ∧ S a := by
  cases h with
  | native n => exact .native n
  | key k => exact .key k
  | callable c => exact .callable c
  | iterable hitems h => exact .iterable hitems fun a ha => ⟨h a ha, h'.members a ha⟩
  | structured h =>
    cases h' with
    | structured h' => exact .structured fun k a ha => ⟨h k a ha, h' k a ha⟩

lemma Value.within_ofList {as : List Address} (h : ∀ a ∈ as, R a) :
    (Value.iterable (.rope (.ofList as))).Within R :=
  .iterable (Rope.wellFormed_ofList as) (by rwa [Sequence.toList_ofList])

end Within

end CellMachine
