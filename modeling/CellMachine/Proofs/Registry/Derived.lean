import CellMachine.Call.Binding
import CellMachine.Proofs.Registry.Matching

/-!
The types that are compared while a script is compiled and run: those that agree with its registry, and
those that the declaration of an opcode becomes when its generic is bound to one of them. The name of
a type of the second kind has a bracket in it, which no registered name has, so that both kinds
together are again a family in which names tell definitions.
-/

namespace CellMachine

namespace Registry

/-- The types that iterables and key-ofs of a generic become when it is bound. -/
inductive Derived (U : Ty → Prop) : Ty → Prop
  | iterable {t : Ty} (source : Option Position) (h : U t) :
    Derived U (.iterable ("iterable" ++ "[" ++ t.name ++ "]") source (.inline t) .irrelevant)
  | keyOf {t : Ty} (source : Option Position) (h : U t) :
    Derived U (.keyOf ("keyof" ++ "[" ++ t.name ++ "]") source (.inline t))

/-- The types that are compared. -/
def Met (reg : Registry) (t : Ty) : Prop := reg.Agrees t ∨ Derived reg.Agrees t

/-- A registry in which every name referred to is registered, every type written agrees with the
registered one, and no name has a mark or a bracket in it. -/
structure Tidy (reg : Registry) : Prop where
  resolved : Resolved reg
  coherent : Coherent reg
  unmarked : Unmarked reg
  unbracketed : ∀ name t, reg.get? name = some t → '[' ∉ t.name.toList

variable {reg : Registry}

lemma Tidy.closed_agrees (h : Tidy reg) : Closed reg reg.Agrees :=
  Registry.closed_agrees h.resolved h.unmarked h.coherent

lemma Tidy.not_bracket (h : Tidy reg) {t : Ty} (ht : reg.Agrees t) : '[' ∉ t.name.toList := by
  obtain ⟨v, hv, hsame⟩ := ht.exists_same
  exact hsame.name_eq ▸ h.unbracketed _ v hv

lemma Derived.bracket {U : Ty → Prop} {t : Ty} (h : Derived U t) : '[' ∈ t.name.toList := by
  cases h <;> simp [Ty.name]

/-- Derived types of one name are of one definition. -/
lemma Derived.same {U : Ty → Prop} {t u : Ty} (ht : Derived U t) (hu : Derived U u)
    (h : t.name = u.name) : t.Same u := by
  have inner : ∀ {pre a b : String}, pre ++ "[" ++ a ++ "]" = pre ++ "[" ++ b ++ "]" → a = b := by
    intro pre a b hab
    have := congrArg String.toList hab
    simpa [String.toList_inj] using this
  cases ht with
  | iterable source ht =>
    cases hu with
    | iterable source' hu =>
      have hname := inner h
      exact ⟨h, rfl, by simp [TyRef.sameTarget, TyRef.name, hname]⟩
    | keyOf source' hu =>
      have := congrArg String.toList h
      simp [Ty.name] at this
  | keyOf source ht =>
    cases hu with
    | iterable source' hu =>
      have := congrArg String.toList h
      simp [Ty.name] at this
    | keyOf source' hu =>
      have hname := inner h
      exact ⟨h, by simp [TyRef.sameTarget, TyRef.name, hname]⟩

lemma Derived.exists_inline {U : Ty → Prop} {t : Ty} (h : Derived U t) {r : TyRef}
    (hr : r ∈ t.refs) : ∃ u, r = .inline u ∧ U u := by
  cases h with
  | iterable source h => exact ⟨_, List.mem_singleton.mp hr, h⟩
  | keyOf source h => exact ⟨_, List.mem_singleton.mp hr, h⟩

lemma Tidy.met_unmarked (h : Tidy reg) {t : Ty} (ht : reg.Met t) : '!' ∉ t.name.toList := by
  rcases ht with ht | ht
  · exact ht.unmarked h.unmarked
  · cases ht with
    | iterable source ht =>
      have := ht.unmarked h.unmarked
      simpa [Ty.name] using this
    | keyOf source ht =>
      have := ht.unmarked h.unmarked
      simpa [Ty.name] using this

lemma Tidy.closed_met (h : Tidy reg) : Closed reg reg.Met where
  resolves := by
    rintro t (ht | ht) r hr hg
    · obtain ⟨u, hu, hagrees, hname, hkey⟩ := h.closed_agrees.resolves t ht r hr hg
      exact ⟨u, hu, .inl hagrees, hname, hkey⟩
    · obtain ⟨u, rfl, hu⟩ := ht.exists_inline hr
      exact ⟨u, rfl, .inl hu, rfl, hu.mem_keys⟩
  same := by
    rintro t u (ht | ht) (hu | hu) hname
    · exact h.closed_agrees.same t u ht hu hname
    · exact absurd (hname ▸ hu.bracket) (h.not_bracket ht)
    · exact absurd (hname ▸ ht.bracket) (h.not_bracket hu)
    · exact ht.same hu hname
  apart := fun a _ a' _ ha _ ha' _ => pairKey_inj (h.met_unmarked ha) (h.met_unmarked ha')

/-- A registry with the same types that remembers nothing but the truth about them. -/
structure Recalls (reg reg' : Registry) : Prop where
  types : reg'.types = reg.types
  truthful : Truthful reg.Met reg'.verdicts

lemma Recalls.fresh (reg : Registry) : Recalls reg reg.fresh := ⟨rfl, truthful_nil _⟩

lemma Recalls.resolve {reg' : Registry} (h : Recalls reg reg') (r : TyRef) :
    reg'.resolve r = reg.resolve r := by
  cases r <;> simp only [Registry.resolve, Registry.get?, h.types]

/-- **What is remembered does not matter**: whether a type matches another is a matter of similarity,
and what is remembered afterwards is true again. -/
lemma Recalls.matchTypes (tidy : Tidy reg) {reg' : Registry} (h : Recalls reg reg') {a e : Ty}
    (ha : reg.Met a) (he : reg.Met e) (source : Option Position) :
    ((reg'.matchTypes source a (some e)).1 = .ok () ↔ Similar reg.Met a.name e.name) ∧
      Recalls reg (reg'.matchTypes source a (some e)).2 := by
  obtain ⟨h₁, h₂, h₃⟩ := matchTypes_spec (tidy.closed_met.of_types h.types) h.truthful ha he source
  exact ⟨h₁, h₃.trans h.types, h₂⟩

lemma Tidy.agrees_resolve (tidy : Tidy reg) {t u : Ty} (ht : reg.Agrees t) {r : TyRef}
    (hr : r ∈ t.refs) (hu : reg.resolve r = .ok u) : reg.Agrees u := by
  have hg : r.isGeneric = false := by
    cases r with
    | generic id hint => cases hu
    | _ => rfl
  obtain ⟨u', hu', hagrees, -⟩ := tidy.closed_agrees.resolves t ht r hr hg
  rw [hu] at hu'
  cases hu'
  exact hagrees

end Registry

end CellMachine
