import Mathlib.Data.Set.Card
import CellMachine.Proofs.Registry.Parts

/-!
Pairs that lead to one another. To compare the types of a pair of names is to compare those of the pairs
that are met directly below it. A pair is untangled where no two different pairs below it lead to one
another, although a pair may lead to itself, as it does for lists and streams. Below an untangled pair
there are fewer pairs the further down one goes.
-/

namespace CellMachine

namespace Registry

open Relation (TransGen ReflTransGen)

/-- One pair of names, the actual one first, is met directly below another: the types of these names,
which are different ones, are followed in parallel. -/
def Below (reg : Registry) (P Q : String × String) : Prop :=
  P.1 ≠ P.2 ∧ ∃ e a r s, reg.get? P.2 = some e ∧ reg.get? P.1 = some a ∧ Parallel e a r s ∧
    r.isGeneric = false ∧ s.isGeneric = false ∧ Q = (s.name, r.name)

/-- No two different pairs that are met below a pair lead to one another. -/
def Untangled (reg : Registry) (P : String × String) : Prop :=
  ∀ Q R, ReflTransGen reg.Below P Q → TransGen reg.Below Q R → TransGen reg.Below R Q → Q = R

/-- A set of pairs of registered names that holds what is below its members, and in which no two
different pairs lead to one another. -/
structure Plain (reg : Registry) (K : String × String → Prop) : Prop where
  registered : ∀ P, K P → P.1 ∈ reg.types.keys ∧ P.2 ∈ reg.types.keys
  below : ∀ P Q, K P → reg.Below P Q → K Q
  untangled : ∀ P Q, K P → TransGen reg.Below P Q → TransGen reg.Below Q P → P = Q

variable {reg : Registry} {K : String × String → Prop} {P Q : String × String}

lemma Below.registered (hreg : Resolved reg) (h : reg.Below P Q) :
    Q.1 ∈ reg.types.keys ∧ Q.2 ∈ reg.types.keys := by
  obtain ⟨-, e, a, r, s, he, ha, hpar, hr, hs, rfl⟩ := h
  exact ⟨hreg.refs _ _ ha s hpar.mem_refs.2 hs, hreg.refs _ _ he r hpar.mem_refs.1 hr⟩

/-- A pair with all that is below it. -/
lemma Untangled.plain (h : reg.Untangled P) (hreg : Resolved reg)
    (hP : P.1 ∈ reg.types.keys ∧ P.2 ∈ reg.types.keys) : Plain reg (ReflTransGen reg.Below P) where
  registered Q hQ := by
    cases hQ with
    | refl => exact hP
    | tail _ hbelow => exact hbelow.registered hreg
  below _ _ hQ hbelow := hQ.tail hbelow
  untangled := h

lemma untangled_of_rank (rank : String × String → Nat)
    (hrank : ∀ Q R, reg.Below Q R → R = Q ∨ rank R < rank Q) (P : String × String) :
    reg.Untangled P := by
  have hle : ∀ {Q R}, TransGen reg.Below Q R → R = Q ∨ rank R < rank Q := by
    intro Q R h
    induction h with
    | single h => exact hrank _ _ h
    | tail _ h ih =>
      rcases hrank _ _ h with rfl | hlt
      · exact ih
      · rcases ih with rfl | hlt'
        · exact .inr hlt
        · exact .inr (hlt.trans hlt')
  intro Q R _ hQR hRQ
  rcases hle hQR with h | hlt
  · exact h.symm
  · exact (hle hRQ).resolve_right (Nat.lt_asymm hlt)

/-- The pairs of names that the references of a part lead to. -/
def ahead : Part → Option (String × String)
  | .refusal _ => none
  | .refs r s _ => if r.isGeneric || s.isGeneric then none else some (s.name, r.name)

lemma mem_ahead {e a : Ty} {r s : TyRef} (h : Parallel e a r s) (hr : r.isGeneric = false)
    (hs : s.isGeneric = false) : (s.name, r.name) ∈ (parts e a).filterMap ahead := by
  have of_mem : ∀ {f}, .refs r s f ∈ parts e a → (s.name, r.name) ∈ (parts e a).filterMap ahead :=
    fun hmem => List.mem_filterMap.mpr ⟨_, hmem, by simp [ahead, hr, hs]⟩
  cases h with
  | element => exact of_mem List.mem_cons_self
  | member hmem hget =>
    exact of_mem (f := fun p => p.add "key" _) (List.mem_map.mpr ⟨_, hmem, by rw [memberPart, hget]⟩)
  | argument => exact of_mem (List.mem_cons_of_mem _ List.mem_cons_self)
  | result => exact of_mem List.mem_cons_self
  | owner => exact of_mem List.mem_cons_self

lemma untangled_of_all (rank : String × String → Nat)
    (h : ∀ a ∈ reg.types, ∀ e ∈ reg.types, a.1 = e.1 ∨
      ∀ Q ∈ (parts e.2 a.2).filterMap ahead, Q = (a.1, e.1) ∨ rank Q < rank (a.1, e.1))
    (P : String × String) : reg.Untangled P := by
  refine untangled_of_rank rank ?_ P
  rintro Q R ⟨hne, e, a, r, s, he, ha, hpar, hr, hs, rfl⟩
  exact ((h _ (KeyMap.mem_of_get? ha) _ (KeyMap.mem_of_get? he)).resolve_left hne) _
    (mem_ahead hpar hr hs)

/-- The pairs below a pair, without itself. -/
def under (reg : Registry) (P : String × String) : Set (String × String) :=
  {Q | TransGen reg.Below P Q ∧ Q ≠ P}

lemma finite_under (hreg : Resolved reg) (P : String × String) : (reg.under P).Finite := by
  refine (List.finite_toSet (reg.types.keys ×ˢ reg.types.keys)).subset fun Q hQ => ?_
  obtain ⟨_, -, hbelow⟩ := TransGen.tail'_iff.mp hQ.1
  exact List.mem_product.mpr (hbelow.registered hreg)

lemma Plain.ncard_under_lt (plain : Plain reg K) (hreg : Resolved reg) (hP : K P)
    (h : reg.Below P Q) (hne : Q ≠ P) : (reg.under Q).ncard < (reg.under P).ncard := by
  refine Set.ncard_lt_ncard ⟨fun R hR => ⟨hR.1.head h, fun heq => ?_⟩, fun hsub => ?_⟩
    (finite_under hreg P)
  · exact hne (plain.untangled P Q hP (.single h) (heq ▸ hR.1)).symm
  · exact (hsub (show Q ∈ reg.under P from ⟨.single h, hne⟩)).2 rfl

lemma Plain.eq_of_pairKey (plain : Plain reg K) (hapart : Apart reg)
    (hP : P.1 ∈ reg.types.keys ∧ P.2 ∈ reg.types.keys) (hQ : K Q)
    (h : pairKey Q.1 Q.2 = pairKey P.1 P.2) : Q = P :=
  have hapart := hapart _ (plain.registered Q hQ).1 _ (plain.registered Q hQ).2 _ hP.1 _ hP.2 h
  Prod.ext hapart.1 hapart.2

lemma untangled_of_category_ne {e a : Ty} (he : reg.Holds e) (ha : reg.Holds a)
    (hcat : e.category ≠ a.category) : reg.Untangled (a.name, e.name) := by
  have hnone : ∀ Q, ¬ reg.Below (a.name, e.name) Q := by
    rintro Q ⟨-, e', a', r, s, he', ha', hpar, -⟩
    cases he.symm.trans he'
    cases ha.symm.trans ha'
    exact hcat hpar.category_eq
  intro Q R hQ hQR
  obtain rfl : Q = (a.name, e.name) := by
    rcases Relation.ReflTransGen.cases_head hQ with h | ⟨S, hS, -⟩
    · exact h.symm
    · exact absurd hS (hnone S)
  obtain ⟨S, hS, -⟩ := TransGen.head'_iff.mp hQR
  exact absurd hS (hnone S)

end Registry

end CellMachine
