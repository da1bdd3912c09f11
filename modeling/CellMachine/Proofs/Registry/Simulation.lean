import CellMachine.Proofs.KeyMap
import CellMachine.Registry.Matching

/-!
Structural simulations between types by name, and what it means that the types written in a registry
agree with those registered.

A simulation relates names. Two types it relates have one name, or are alike in what they are made
of, with the names of their parts related again. Types of one definition cannot be told apart in
this way.
-/

namespace CellMachine

/-! ### One definition -/

namespace TyRef

lemma sameTarget_refl (r : TyRef) : r.sameTarget r = true := by
  cases r <;> simp [sameTarget]

lemma sameTarget_symm {r s : TyRef} (h : r.sameTarget s = true) : s.sameTarget r = true := by
  cases r <;> cases s <;> simp_all [sameTarget]

lemma sameTarget_trans {r s t : TyRef} (h : r.sameTarget s = true) (h' : s.sameTarget t = true) :
    r.sameTarget t = true := by
  cases r <;> cases s <;> cases t <;> simp_all [sameTarget]

lemma isGeneric_eq_of_sameTarget {r s : TyRef} (h : r.sameTarget s = true) :
    r.isGeneric = s.isGeneric := by
  cases r <;> cases s <;> simp_all [sameTarget, isGeneric]

lemma name_eq_of_sameTarget {r s : TyRef} (h : r.sameTarget s = true) : r.name = s.name := by
  cases r <;> cases s <;> simp_all [sameTarget, name]

end TyRef

/-- Members of one key and one target, in one order. -/
abbrev SameStores (m n : List (String × TyRef)) : Prop :=
  List.Forall₂ (fun p q : String × TyRef => p.1 = q.1 ∧ p.2.sameTarget q.2 = true) m n

lemma sameStores_iff {m n : List (String × TyRef)} :
    (m.length == n.length &&
      (m.zip n).all fun p => p.1.1 == p.2.1 && p.1.2.sameTarget p.2.2) = true ↔
      SameStores m n := by
  induction m generalizing n with
  | nil => cases n <;> simp
  | cons p m ih =>
    cases n with
    | nil => simp
    | cons q n =>
      refine Iff.trans ?_ ((and_congr_right fun _ => ih).trans List.forall₂_cons.symm)
      simp only [List.length_cons, List.zip_cons_cons, List.all_cons, Bool.and_eq_true, beq_iff_eq,
        Nat.add_right_cancel_iff]
      tauto

lemma SameStores.exists_of_mem {m n : List (String × TyRef)} (h : SameStores m n)
    {e : String × TyRef} (he : e ∈ m) : ∃ f ∈ n, e.1 = f.1 ∧ e.2.sameTarget f.2 = true := by
  induction h with
  | nil => cases he
  | cons hd _ ih =>
    rcases List.mem_cons.mp he with rfl | he
    · exact ⟨_, List.mem_cons_self, hd⟩
    · obtain ⟨f, hf, hef⟩ := ih he
      exact ⟨f, List.mem_cons_of_mem _ hf, hef⟩

lemma SameStores.get? {m n : List (String × TyRef)} (h : SameStores m n) {k : String} {r : TyRef}
    (hr : KeyMap.get? m k = some r) :
    ∃ s, KeyMap.get? n k = some s ∧ r.sameTarget s = true := by
  induction h with
  | nil => cases hr
  | @cons p q m n hd _ ih =>
    obtain ⟨k₁, r₁⟩ := p
    obtain ⟨k₂, s₂⟩ := q
    obtain ⟨hk, hs⟩ := hd
    obtain rfl : k₁ = k₂ := hk
    by_cases hk : k₁ = k
    · subst hk
      rw [KeyMap.get?_cons_self] at hr
      cases hr
      exact ⟨s₂, KeyMap.get?_cons_self .., hs⟩
    · rw [KeyMap.get?_cons_of_ne hk] at hr ⊢
      exact ih hr

namespace Ty

/-- What two types of one definition have in common. -/
def Same : Ty → Ty → Prop
  | native n _ a _, native k _ b _ => n = k ∧ a = b
  | iterable n _ e s, iterable k _ f t => n = k ∧ s = t ∧ e.sameTarget f = true
  | structured n _ m, structured k _ l => n = k ∧ SameStores m l
  | callable n _ a r, callable k _ b s => n = k ∧ a.sameTarget b = true ∧ r.sameTarget s = true
  | keyOf n _ o, keyOf k _ p => n = k ∧ o.sameTarget p = true
  | _, _ => False

lemma sameDefinition_iff {t u : Ty} : t.sameDefinition u = true ↔ t.Same u := by
  cases t <;> cases u <;>
    simp only [sameDefinition, Same, Bool.and_eq_true, beq_iff_eq, name, Bool.and_false,
      Bool.false_eq_true]
  exact and_congr_right fun _ => by rw [← sameStores_iff]; simp

lemma Same.name_eq {t u : Ty} (h : t.Same u) : t.name = u.name := by
  cases t <;> cases u <;> simp only [Same] at h
  all_goals exact h.1

lemma Same.refl (t : Ty) : t.Same t := by
  cases t with
  | native => exact ⟨rfl, rfl⟩
  | iterable => exact ⟨rfl, rfl, TyRef.sameTarget_refl _⟩
  | structured n s m =>
    exact ⟨rfl, List.forall₂_same.mpr fun e _ => ⟨rfl, TyRef.sameTarget_refl _⟩⟩
  | callable => exact ⟨rfl, TyRef.sameTarget_refl _, TyRef.sameTarget_refl _⟩
  | keyOf => exact ⟨rfl, TyRef.sameTarget_refl _⟩

lemma Same.symm {t u : Ty} (h : t.Same u) : u.Same t := by
  cases t <;> cases u <;> simp only [Same] at h
  · exact ⟨h.1.symm, h.2.symm⟩
  · exact ⟨h.1.symm, h.2.1.symm, TyRef.sameTarget_symm h.2.2⟩
  · exact ⟨h.1.symm, h.2.flip.imp fun _ _ h => ⟨h.1.symm, TyRef.sameTarget_symm h.2⟩⟩
  · exact ⟨h.1.symm, TyRef.sameTarget_symm h.2.1, TyRef.sameTarget_symm h.2.2⟩
  · exact ⟨h.1.symm, TyRef.sameTarget_symm h.2⟩

lemma sameStores_trans {l m n : List (String × TyRef)} (h : SameStores l m) (h' : SameStores m n) :
    SameStores l n := by
  induction h generalizing n with
  | nil => exact h'
  | cons hd _ ih =>
    cases h' with
    | cons hd' tl' =>
      exact .cons ⟨hd.1.trans hd'.1, TyRef.sameTarget_trans hd.2 hd'.2⟩ (ih tl')

lemma Same.trans {t u v : Ty} (h : t.Same u) (h' : u.Same v) : t.Same v := by
  cases t <;> cases u <;> simp only [Same] at h <;> cases v <;> simp only [Same] at h'
  · exact ⟨h.1.trans h'.1, h.2.trans h'.2⟩
  · exact ⟨h.1.trans h'.1, h.2.1.trans h'.2.1, TyRef.sameTarget_trans h.2.2 h'.2.2⟩
  · exact ⟨h.1.trans h'.1, sameStores_trans h.2 h'.2⟩
  · exact ⟨h.1.trans h'.1, TyRef.sameTarget_trans h.2.1 h'.2.1,
      TyRef.sameTarget_trans h.2.2 h'.2.2⟩
  · exact ⟨h.1.trans h'.1, TyRef.sameTarget_trans h.2 h'.2⟩

lemma Same.exists_ref {t u : Ty} (h : t.Same u) {r : TyRef} (hr : r ∈ t.refs) :
    ∃ s ∈ u.refs, r.sameTarget s = true := by
  cases t <;> cases u <;> simp only [Same] at h <;> simp only [refs, List.mem_cons,
    List.not_mem_nil, or_false, List.mem_map] at hr ⊢
  · subst hr
    exact ⟨_, rfl, h.2.2⟩
  · obtain ⟨e, he, rfl⟩ := hr
    obtain ⟨f, hf, -, hef⟩ := h.2.exists_of_mem he
    exact ⟨f.2, ⟨f, hf, rfl⟩, hef⟩
  · rcases hr with rfl | rfl
    · exact ⟨_, Or.inl rfl, h.2.1⟩
    · exact ⟨_, Or.inr rfl, h.2.2⟩
  · subst hr
    exact ⟨_, rfl, h.2⟩

lemma one_le_size (t : Ty) : 1 ≤ t.size := by
  cases t <;> simp only [size] <;> omega

end Ty

/-! ### Types written in types -/

/-- A type is written in another: it is that type, or stands in place of a reference in it, at any
depth. -/
inductive Ty.Within (u : Ty) : Ty → Prop
  | refl : Ty.Within u u
  | inline {v t : Ty} (h : TyRef.inline v ∈ t.refs) (h' : Ty.Within u v) : Ty.Within u t

lemma Ty.Within.trans {t u v : Ty} (h : t.Within u) (h' : u.Within v) : t.Within v := by
  induction h' with
  | refl => exact h
  | inline hv _ ih => exact .inline hv ih

namespace Registry

/-- A type agrees with a registry: every type written in it has the definition that is registered
under its name. -/
def Agrees (reg : Registry) (t : Ty) : Prop :=
  ∀ u, u.Within t → ∃ v, reg.get? u.name = some v ∧ v.sameDefinition u = true

/-- Every registered type agrees with the registry. -/
def Coherent (reg : Registry) : Prop := ∀ name t, reg.get? name = some t → reg.Agrees t

/-- No registered type has the mark in its name that separates two names in a key. -/
def Unmarked (reg : Registry) : Prop := ∀ name t, reg.get? name = some t → '!' ∉ t.name.toList

/-! ### Simulations -/

/-- References are related: the same generic, or types whose names are related. -/
def RefsRelated (R : String → String → Prop) : TyRef → TyRef → Prop
  | .generic i h, .generic j k => i = j ∧ h = k
  | .generic .., _ => False
  | _, .generic .. => False
  | a, e => R a.name e.name

/-- What two types are made of is related. -/
def ContentsRelated (R : String → String → Prop) : Ty → Ty → Prop
  | .native _ _ a _, .native _ _ e _ => a = e
  | .iterable _ _ a _, .iterable _ _ e _ => RefsRelated R a e
  | .structured _ _ available, .structured _ _ asked =>
    ∀ member ∈ asked, ∃ a, KeyMap.get? available member.1 = some a ∧ RefsRelated R a member.2
  | .callable _ _ argument result, .callable _ _ argument' result' =>
    RefsRelated R result result' ∧ RefsRelated R argument argument'
  | .keyOf _ _ a, .keyOf _ _ e => RefsRelated R a e
  | _, _ => False

lemma RefsRelated.mono {R S : String → String → Prop} {a e : TyRef} (h : RefsRelated R a e)
    (hRS : a.isGeneric = false → e.isGeneric = false → R a.name e.name → S a.name e.name) :
    RefsRelated S a e := by
  cases a <;> cases e <;> simp only [RefsRelated] at h ⊢
  case generic.generic => exact h
  all_goals exact hRS rfl rfl h

lemma RefsRelated.congr {R : String → String → Prop} {a a' e e' : TyRef} (h : RefsRelated R a e)
    (ha : a.sameTarget a' = true) (he : e.sameTarget e' = true) : RefsRelated R a' e' := by
  cases a <;> cases a' <;> cases e <;> cases e' <;>
    simp_all [RefsRelated, TyRef.sameTarget, TyRef.name]

lemma ContentsRelated.mono {R S : String → String → Prop} {a e : Ty} (h : ContentsRelated R a e)
    (hRS : ∀ r ∈ a.refs, ∀ s ∈ e.refs, r.isGeneric = false → s.isGeneric = false →
      R r.name s.name → S r.name s.name) : ContentsRelated S a e := by
  cases a <;> cases e <;> simp only [ContentsRelated] at h ⊢
  case native.native => exact h
  case iterable.iterable => exact h.mono (hRS _ List.mem_cons_self _ List.mem_cons_self)
  case structured.structured =>
    intro member hmember
    obtain ⟨a, ha, hrel⟩ := h member hmember
    exact ⟨a, ha, hrel.mono (hRS _ (List.mem_map_of_mem (KeyMap.mem_of_get? ha)) _
      (List.mem_map_of_mem hmember))⟩
  case callable.callable =>
    exact ⟨h.1.mono (hRS _ (by simp [Ty.refs]) _ (by simp [Ty.refs])),
      h.2.mono (hRS _ (by simp [Ty.refs]) _ (by simp [Ty.refs]))⟩
  case keyOf.keyOf => exact h.mono (hRS _ List.mem_cons_self _ List.mem_cons_self)

lemma ContentsRelated.congr {R : String → String → Prop} {a a' e e' : Ty}
    (h : ContentsRelated R a e) (ha : a.Same a') (he : e.Same e') : ContentsRelated R a' e' := by
  cases a <;> cases a' <;> simp only [Ty.Same] at ha <;> cases e <;>
    simp only [ContentsRelated] at h <;> cases e' <;> simp only [Ty.Same] at he <;>
    simp only [ContentsRelated]
  · rw [← ha.2, h, he.2]
  · exact h.congr ha.2.2 he.2.2
  · intro member' hmember'
    obtain ⟨member, hmember, hkey, htarget⟩ :=
      SameStores.exists_of_mem (he.2.flip.imp fun _ _ h => ⟨h.1.symm, TyRef.sameTarget_symm h.2⟩)
        hmember'
    obtain ⟨r, hr, hrel⟩ := h member hmember
    obtain ⟨r', hr', hsame⟩ := ha.2.get? hr
    exact ⟨r', hkey ▸ hr', hrel.congr hsame (TyRef.sameTarget_symm htarget)⟩
  · exact ⟨h.1.congr ha.2.2 he.2.2, h.2.congr ha.2.1 he.2.1⟩
  · exact h.congr ha.2 he.2

lemma ContentsRelated.category_eq {R : String → String → Prop} {a e : Ty}
    (h : ContentsRelated R a e) : a.category = e.category := by
  cases a <;> cases e <;> simp only [ContentsRelated] at h <;> rfl

/-- A relation between names of types in a family, the actual one first, that relates only types of
one name and types of one category whose contents are related. -/
def IsSimulation (U : Ty → Prop) (R : String → String → Prop) : Prop :=
  ∀ a e, R a e → a = e ∨ ∃ actual expected, U actual ∧ U expected ∧ actual.name = a ∧
    expected.name = e ∧ actual.category = expected.category ∧ ContentsRelated R actual expected

/-- Some simulation relates two names. -/
def Similar (U : Ty → Prop) (a e : String) : Prop := ∃ R, IsSimulation U R ∧ R a e

lemma isSimulation_similar (U : Ty → Prop) : IsSimulation U (Similar U) := by
  rintro a e ⟨R, hR, hae⟩
  rcases hR a e hae with h | ⟨actual, expected, ha, he, hna, hne, hcat, hrel⟩
  · exact Or.inl h
  · exact Or.inr ⟨actual, expected, ha, he, hna, hne, hcat,
      hrel.mono fun _ _ _ _ _ _ h => ⟨R, hR, h⟩⟩

lemma similar_self (U : Ty → Prop) (a : String) : Similar U a a :=
  ⟨Eq, fun _ _ h => Or.inl h, rfl⟩

end Registry

end CellMachine
