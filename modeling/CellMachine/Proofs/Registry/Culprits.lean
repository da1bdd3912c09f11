import CellMachine.Proofs.Registry.Keys

/-!
What a report of a failed match says. It names the two types that were asked about, and a pair that
cannot match because of what it is itself: a pair that is met when both types are followed in parallel,
and whose categories, tags, members or generics do not go together.

Reports travel outwards through comparisons that write the names of their own types over those of inner
ones, and are remembered for pairs in the middle, to be given out inside other comparisons. What is
remembered of a pair therefore has to name that pair and a culprit below it. It has no place, so that
the place is that of the question.
-/

namespace CellMachine

namespace Problem

lemma param?_set (p : Problem) (k k' : String) (v : Param) :
    (p.set k v).param? k' = if k = k' then some v else p.param? k' :=
  KeyMap.get?_insert ..

lemma param?_add_of_ne {k k' : String} (h : k ≠ k') (p : Problem) (v : Param) :
    (p.add k v).param? k' = p.param? k' := by
  rw [param?, add, KeyMap.get?_insertNew, if_neg h]
  rfl

@[simp] lemma location_set (p : Problem) (k : String) (v : Param) :
    (p.set k v).location = p.location := rfl

@[simp] lemma location_add (p : Problem) (k : String) (v : Param) :
    (p.add k v).location = p.location := rfl

end Problem

lemma SameStores.keys_eq {m n : List (String × TyRef)} (h : SameStores m n) :
    KeyMap.keys m = KeyMap.keys n := by
  induction h with
  | nil => rfl
  | cons hd _ ih => rw [KeyMap.keys_cons, KeyMap.keys_cons, hd.1, ih]

lemma SameStores.get?_eq_none {m n : List (String × TyRef)} (h : SameStores m n) {k : String}
    (hk : KeyMap.get? m k = none) : KeyMap.get? n k = none := by
  rw [← Option.not_isSome_iff_eq_none, KeyMap.isSome_get?_iff] at hk ⊢
  exact h.keys_eq ▸ hk

lemma Ty.Same.category_eq {t u : Ty} (h : t.Same u) : t.category = u.category := by
  cases t <;> cases u <;> simp only [Ty.Same] at h <;> rfl

namespace Registry

/-! ### Culprits -/

/-- References that stand at the same place of two types. -/
inductive Parallel : Ty → Ty → TyRef → TyRef → Prop where
  | element {n n' : String} {s s' : Option Position} {ends ends' : Termination} {r r' : TyRef} :
    Parallel (.iterable n s r ends) (.iterable n' s' r' ends') r r'
  | member {n n' : String} {s s' : Option Position} {m m' : List (String × TyRef)} {key : String}
    {r r' : TyRef} (hr : (key, r) ∈ m) (hr' : KeyMap.get? m' key = some r') :
    Parallel (.structured n s m) (.structured n' s' m') r r'
  | argument {n n' : String} {s s' : Option Position} {a a' r r' : TyRef} :
    Parallel (.callable n s a r) (.callable n' s' a' r') a a'
  | result {n n' : String} {s s' : Option Position} {a a' r r' : TyRef} :
    Parallel (.callable n s a r) (.callable n' s' a' r') r r'
  | owner {n n' : String} {s s' : Option Position} {r r' : TyRef} :
    Parallel (.keyOf n s r) (.keyOf n' s' r') r r'

/-- Types that do not go together, whatever they refer to: the expected one first. -/
inductive Incompatible : Ty → Ty → Prop where
  | category {e a : Ty} (h : e.category ≠ a.category) : Incompatible e a
  | tag {n n' : String} {s s' : Option Position} {t t' : String} {test test' : NativeView → Bool}
    (h : t ≠ t') : Incompatible (.native n s t test) (.native n' s' t' test')
  | key {n n' : String} {s s' : Option Position} {m m' : List (String × TyRef)} {key : String}
    (h : key ∈ KeyMap.keys m) (h' : KeyMap.get? m' key = none) :
    Incompatible (.structured n s m) (.structured n' s' m')

/-- Two names are those of a pair that is met when an expected and an actual type are followed in
parallel, and that is incompatible itself: two types, or two references of which one is a generic that
the other is not. -/
inductive Culprit (reg : Registry) : Ty → Ty → String → String → Prop where
  | types {e a : Ty} (h : Incompatible e a) : Culprit reg e a e.name a.name
  | generic {e a : Ty} {r s : TyRef} (h : Parallel e a r s)
    (hgeneric : r.isGeneric = true ∨ s.isGeneric = true) (hother : r.sameTarget s = false) :
    Culprit reg e a r.text s.text
  | inside {e a e' a' : Ty} {r s : TyRef} {x y : String} (h : Parallel e a r s)
    (he : reg.resolve r = .ok e') (ha : reg.resolve s = .ok a') (hculprit : Culprit reg e' a' x y) :
    Culprit reg e a x y

variable {reg : Registry} {U : Ty → Prop}

lemma Parallel.mem_refs {e a : Ty} {r s : TyRef} (h : Parallel e a r s) :
    r ∈ e.refs ∧ s ∈ a.refs := by
  cases h with
  | element => exact ⟨List.mem_cons_self, List.mem_cons_self⟩
  | member hr hr' => exact ⟨List.mem_map_of_mem hr, List.mem_map_of_mem (KeyMap.mem_of_get? hr')⟩
  | argument => exact ⟨List.mem_cons_self, List.mem_cons_self⟩
  | result => exact ⟨by simp [Ty.refs], by simp [Ty.refs]⟩
  | owner => exact ⟨List.mem_cons_self, List.mem_cons_self⟩

lemma Parallel.category_eq {e a : Ty} {r s : TyRef} (h : Parallel e a r s) :
    e.category = a.category := by
  cases h <;> rfl

/-- Types of the same definitions have references of the same targets at the same places. -/
lemma Parallel.congr {e e' a a' : Ty} {r s : TyRef} (h : Parallel e a r s) (he : e.Same e')
    (ha : a.Same a') :
    ∃ r' s', Parallel e' a' r' s' ∧ r.sameTarget r' = true ∧ s.sameTarget s' = true := by
  cases h <;> cases e' <;> simp only [Ty.Same] at he <;> cases a' <;> simp only [Ty.Same] at ha
  case element => exact ⟨_, _, .element, he.2.2, ha.2.2⟩
  case member hr hr' _ _ _ _ _ _ =>
    obtain ⟨⟨key', f⟩, hf, hkey, hrf⟩ := he.2.exists_of_mem hr
    obtain ⟨g, hg, hsg⟩ := ha.2.get? hr'
    obtain rfl : _ = key' := hkey
    exact ⟨f, g, .member hf hg, hrf, hsg⟩
  case argument => exact ⟨_, _, .argument, he.2.1, ha.2.1⟩
  case result => exact ⟨_, _, .result, he.2.2, ha.2.2⟩
  case owner => exact ⟨_, _, .owner, he.2, ha.2⟩

lemma Incompatible.congr {e e' a a' : Ty} (h : Incompatible e a) (he : e.Same e')
    (ha : a.Same a') : Incompatible e' a' := by
  cases h with
  | category h => exact .category (he.category_eq ▸ ha.category_eq ▸ h)
  | tag h =>
    cases e' <;> simp only [Ty.Same] at he
    cases a' <;> simp only [Ty.Same] at ha
    exact .tag (he.2 ▸ ha.2 ▸ h)
  | key h h' =>
    cases e' <;> simp only [Ty.Same] at he
    cases a' <;> simp only [Ty.Same] at ha
    exact .key (he.2.keys_eq ▸ h) (ha.2.get?_eq_none h')

lemma text_eq_of_sameTarget {r s : TyRef} (h : r.sameTarget s = true) : r.text = s.text := by
  cases r <;> cases s <;> simp_all [TyRef.sameTarget, TyRef.text, TyRef.name]

/-- **Only definitions matter for who is a culprit.** -/
lemma Culprit.congr (closed : Closed reg U) {e e' a a' : Ty} {x y : String}
    (h : Culprit reg e a x y) (hue : U e) (hua : U a) (hue' : U e') (hua' : U a')
    (he : e.name = e'.name) (ha : a.name = a'.name) : Culprit reg e' a' x y := by
  induction h generalizing e' a' with
  | types h =>
    rw [he, ha]
    exact .types (h.congr (closed.same _ _ hue hue' he) (closed.same _ _ hua hua' ha))
  | generic h hgeneric hother =>
    obtain ⟨r', s', hpar, hr, hs⟩ := h.congr (closed.same _ _ hue hue' he) (closed.same _ _ hua hua' ha)
    rw [text_eq_of_sameTarget hr, text_eq_of_sameTarget hs]
    refine .generic hpar ?_ ?_
    · rw [← TyRef.isGeneric_eq_of_sameTarget hr, ← TyRef.isGeneric_eq_of_sameTarget hs]
      exact hgeneric
    · rw [← Bool.not_eq_true] at hother ⊢
      exact fun h => hother (TyRef.sameTarget_trans (TyRef.sameTarget_trans hr h)
        (TyRef.sameTarget_symm hs))
  | @inside e a e₁ a₁ r s x y h hr hs _ ih =>
    obtain ⟨r', s', hpar, hrr, hss⟩ :=
      h.congr (closed.same _ _ hue hue' he) (closed.same _ _ hua hua' ha)
    -- Both references lead to types of the family that have the names of the references.
    have leads : ∀ {t t' t₁ : Ty} {r r' : TyRef}, U t → U t' → r ∈ t.refs → r' ∈ t'.refs →
        r.sameTarget r' = true → reg.resolve r = .ok t₁ →
        ∃ u, reg.resolve r' = .ok u ∧ U t₁ ∧ U u ∧ t₁.name = u.name := by
      intro t t' t₁ r r' ht ht' hr hr' hsame hres
      have hg : r.isGeneric = false := by cases r <;> first | rfl | cases hres
      obtain ⟨u, hu, hUu, hname, -⟩ := closed.resolves t ht r hr hg
      obtain ⟨u', hu', hUu', hname', -⟩ := closed.resolves t' ht' r' hr'
        (TyRef.isGeneric_eq_of_sameTarget hsame ▸ hg)
      rw [hres] at hu
      cases hu
      exact ⟨u', hu', hUu, hUu', by rw [hname, hname', TyRef.name_eq_of_sameTarget hsame]⟩
    obtain ⟨e₂, hr', hue₁, hue₂, hename⟩ := leads hue hue' h.mem_refs.1 hpar.mem_refs.1 hrr hr
    obtain ⟨a₂, hs', hua₁, hua₂, haname⟩ := leads hua hua' h.mem_refs.2 hpar.mem_refs.2 hss hs
    exact .inside hpar hr' hs' (ih hue₁ hua₁ hue₂ hua₂ hename haname)

lemma Culprit.of_types {later : Registry} (htypes : later.types = reg.types) {e a : Ty}
    {x y : String} (h : Culprit reg e a x y) : Culprit later e a x y := by
  induction h with
  | types h => exact .types h
  | generic h hgeneric hother => exact .generic h hgeneric hother
  | inside h he ha _ ih =>
    exact .inside h ((resolve_of_types htypes _).trans he) ((resolve_of_types htypes _).trans ha) ih

/-! ### Reports -/

/-- A report of a mismatch that has no place yet and names a culprit of two types. -/
structure Blames (reg : Registry) (e a : Ty) (p : Problem) : Prop where
  cause : p.cause = .typeMismatch
  location : p.location = none
  names : ∃ x y, p.param? "expected" = some (.text x) ∧ p.param? "actual" = some (.text y) ∧
    Culprit reg e a x y

/-- A report that says which two types were checked. -/
structure Reports (reg : Registry) (e a : Ty) (p : Problem) : Prop extends Blames reg e a p where
  checkedExpected : p.param? "checked_expected" = some (.text e.name)
  checkedActual : p.param? "checked_actual" = some (.text a.name)

lemma Blames.congr {e a e' a' : Ty} {p p' : Problem} (h : Blames reg e a p)
    (hcause : p'.cause = p.cause) (hlocation : p'.location = p.location)
    (hexpected : p'.param? "expected" = p.param? "expected")
    (hactual : p'.param? "actual" = p.param? "actual")
    (hculprit : ∀ x y, Culprit reg e a x y → Culprit reg e' a' x y) : Blames reg e' a' p' := by
  obtain ⟨x, y, hx, hy, hxy⟩ := h.names
  exact ⟨hcause.trans h.cause, hlocation.trans h.location, x, y, hexpected.trans hx,
    hactual.trans hy, hculprit x y hxy⟩

lemma Blames.addKey {e a : Ty} {p : Problem} (h : Blames reg e a p) (v : Param) :
    Blames reg e a (p.add "key" v) :=
  h.congr rfl rfl (Problem.param?_add_of_ne (by decide) ..)
    (Problem.param?_add_of_ne (by decide) ..) fun _ _ => id

lemma Blames.names_of {e a : Ty} {x y : String} (h : Culprit reg e a x y) :
    Blames reg e a (mismatchNames x y) :=
  ⟨rfl, rfl, x, y, by simp [mismatchNames, Problem.param?_set],
    by simp [mismatchNames, Problem.param?_set], h⟩

lemma Blames.set {e a : Ty} {p : Problem} (h : Blames reg e a p) {k : String} (v : Param)
    (hexpected : k ≠ "expected") (hactual : k ≠ "actual") : Blames reg e a (p.set k v) :=
  h.congr rfl rfl (by rw [Problem.param?_set, if_neg hexpected])
    (by rw [Problem.param?_set, if_neg hactual]) fun _ _ => id

/-- The report that a culprit is given, with what is said about either type. -/
lemma Blames.detailed {e a : Ty} {x y : String} (h : Culprit reg e a x y) {k k' : String}
    (v v' : Param) (hk : k ≠ "expected" ∧ k ≠ "actual") (hk' : k' ≠ "expected" ∧ k' ≠ "actual") :
    Blames reg e a (((mismatchNames x y).set k v).set k' v') :=
  ((names_of h).set v hk.1 hk.2).set v' hk'.1 hk'.2

lemma Blames.reports {e a : Ty} {p : Problem} (h : Blames reg e a p) :
    Reports reg e a ((p.set "checked_expected" e.name).set "checked_actual" a.name) where
  toBlames := (h.set _ (by decide) (by decide)).set _ (by decide) (by decide)
  checkedExpected := by simp [Problem.param?_set]
  checkedActual := by simp [Problem.param?_set]

/-- What is remembered of pairs of a family reports these pairs. -/
def Blaming (reg : Registry) (U : Ty → Prop) (verdicts : KeyMap String (Option Problem)) : Prop :=
  ∀ a e, U a → U e → ∀ p, verdicts.get? (pairKey a.name e.name) = some (some p) →
    Reports reg e a p

lemma Blaming.insert (closed : Closed reg U) {verdicts : KeyMap String (Option Problem)}
    (h : Blaming reg U verdicts) {e a : Ty} (he : U e) (ha : U a) {p : Problem}
    (hp : Reports reg e a p) :
    Blaming reg U (verdicts.insert (pairKey a.name e.name) (some p)) := by
  intro a' e' ha' he' p' hp'
  rw [KeyMap.get?_insert] at hp'
  split at hp'
  · next hkey =>
    obtain ⟨hna, hne⟩ := closed.apart a e a' e' ha he ha' he' hkey
    cases hp'
    exact ⟨hp.toBlames.congr rfl rfl rfl rfl fun _ _ h => h.congr closed he ha he' ha' hne hna,
      hne ▸ hp.checkedExpected, hna ▸ hp.checkedActual⟩
  · exact h a' e' ha' he' p' hp'

/-! ### Comparisons -/

/-- A comparison whose failures are told in some way, if what is remembered is. -/
def Tells (reg : Registry) (U : Ty → Prop) (c : Compare) (told : Problem → Prop) : Prop :=
  ∀ q : Query, Blaming reg U q.verdicts →
    Blaming reg U (c q).2.verdicts ∧ ∀ p, (c q).1 = .error p → told p

variable {told : Problem → Prop}

lemma tells_ok : Tells reg U (fun q => (.ok (), q)) told := fun _ h => ⟨h, nofun⟩

lemma tells_error {p : Problem} (h : told p) : Tells reg U (fun q => (.error p, q)) told :=
  fun _ hq => ⟨hq, fun _ heq => Except.error.inj heq ▸ h⟩

lemma Tells.andThen {c d : Compare} (hc : Tells reg U c told) (hd : Tells reg U d told) :
    Tells reg U (c.andThen d) told := by
  intro q hq
  obtain ⟨h₁, h₂⟩ := hc q hq
  unfold Compare.andThen
  generalize c q = o at h₁ h₂
  obtain ⟨_ | _, q'⟩ := o
  · exact ⟨h₁, h₂⟩
  · exact hd q' h₁

lemma Tells.explain {c : Compare} {told' : Problem → Prop} (hc : Tells reg U c told)
    {f : Problem → Problem} (hf : ∀ p, told p → told' (f p)) : Tells reg U (c.explain f) told' := by
  intro q hq
  obtain ⟨h₁, h₂⟩ := hc q hq
  unfold Compare.explain
  generalize c q = o at h₁ h₂
  obtain ⟨p | _, q'⟩ := o
  · exact ⟨h₁, fun _ heq => Except.error.inj heq ▸ hf p (h₂ p rfl)⟩
  · exact ⟨h₁, nofun⟩

lemma tells_compareRefs (closed : Closed reg U) {ct : Ty → Ty → Compare}
    (hct : ∀ e a, U e → U a → Tells reg U (ct e a) (Blames reg e a)) {e a : Ty} (he : U e)
    (ha : U a) {r s : TyRef} (h : Parallel e a r s) :
    Tells reg U (reg.compareRefs ct r s) (Blames reg e a) := by
  intro q hq
  unfold compareRefs
  by_cases hg : (r.isGeneric || s.isGeneric) = true
  · rw [if_pos hg]
    split
    · exact tells_ok q hq
    · next hother =>
      exact tells_error (.names_of (.generic h (Bool.or_eq_true_iff.mp hg)
        (Bool.eq_false_iff.mpr hother))) q hq
  · rw [if_neg hg]
    simp only [Bool.or_eq_true, not_or, Bool.not_eq_true] at hg
    obtain ⟨e', hre, hue, -⟩ := closed.resolves e he r h.mem_refs.1 hg.1
    obtain ⟨a', hra, hua, -⟩ := closed.resolves a ha s h.mem_refs.2 hg.2
    simp only [hre, hra]
    obtain ⟨h₁, h₂⟩ := hct e' a' hue hua q hq
    exact ⟨h₁, fun p hp => (h₂ p hp).congr rfl rfl rfl rfl fun _ _ => .inside h hre hra⟩

lemma tells_compareStores {compare : TyRef → TyRef → Compare} {n n' : String}
    {s s' : Option Position} {m m' : List (String × TyRef)}
    (hcompare : ∀ r r', Parallel (.structured n s m) (.structured n' s' m') r r' →
      Tells reg U (compare r r') (Blames reg (.structured n s m) (.structured n' s' m')))
    {asked : List (String × TyRef)} (hasked : ∀ member ∈ asked, member ∈ m) :
    Tells reg U (compareStores compare (.structured n s m) (.structured n' s' m') m' asked)
      (Blames reg (.structured n s m) (.structured n' s' m')) := by
  induction asked with
  | nil => exact tells_ok
  | cons member asked ih =>
    obtain ⟨key, r⟩ := member
    have hmem := hasked (key, r) List.mem_cons_self
    intro q hq
    rw [compareStores]
    cases hget : KeyMap.get? m' key with
    | none =>
      have hculprit : Culprit reg (.structured n s m) (.structured n' s' m') n n' :=
        .types (.key (KeyMap.mem_keys_of_mem hmem) hget)
      exact tells_error (.detailed hculprit _ _ (by decide) (by decide)) q hq
    | some r' =>
      have first := (hcompare r r' (.member hmem hget)).explain (f := fun p => p.add "key" key)
        fun _ hp => hp.addKey _
      exact first.andThen (ih fun member hmember => hasked member (List.mem_cons_of_mem _ hmember))
        q hq

lemma tells_compareContents {compare : TyRef → TyRef → Compare} {e a : Ty}
    (hcompare : ∀ r s, Parallel e a r s → Tells reg U (compare r s) (Blames reg e a)) :
    Tells reg U (compareContents compare e a) (Blames reg e a) := by
  cases e <;> cases a <;> simp only [compareContents]
  case native.native =>
    intro q hq
    dsimp only
    split
    · exact tells_ok q hq
    · next htag =>
      exact tells_error (.detailed (.types (.tag htag)) _ _ (by decide) (by decide)) q hq
  case iterable.iterable => exact hcompare _ _ .element
  case structured.structured => exact tells_compareStores hcompare fun _ => id
  case callable.callable => exact (hcompare _ _ .result).andThen (hcompare _ _ .argument)
  case keyOf.keyOf => exact hcompare _ _ .owner
  -- the types are of different categories
  all_goals exact tells_error (.names_of (.types (.category (by intro h; cases h))))

/-- **A failed comparison names a culprit**, and of two types of one category also the types. -/
lemma tells_compareTypes (closed : Closed reg U) (fuel : Nat) {e a : Ty} (he : U e) (ha : U a) :
    Tells reg U (reg.compareTypes fuel e a) fun p =>
      Blames reg e a p ∧ (e.category = a.category → Reports reg e a p) := by
  -- On the fuel; failures that are remembered already tell of a culprit by assumption.
  induction fuel generalizing e a with
  | zero => exact tells_ok
  | succ fuel ih =>
    intro q hq
    rw [compareTypes]
    split
    · exact tells_ok q hq
    split
    · next hcat =>
      exact tells_error ⟨.detailed (.types (.category hcat)) _ _ (by decide) (by decide),
        fun h => absurd h hcat⟩ q hq
    dsimp only
    split
    · exact tells_ok q hq
    cases hget : q.verdicts.get? (pairKey a.name e.name) with
    | some v =>
      cases v with
      | none => exact tells_ok q hq
      | some p =>
        have hp := hq a e ha he p hget
        exact tells_error ⟨hp.toBlames, fun _ => hp⟩ q hq
    | none =>
      have contents : Tells reg U
          (compareContents (reg.compareRefs (reg.compareTypes fuel)) e a) (Blames reg e a) :=
        tells_compareContents fun r s h => tells_compareRefs closed (fun e a he ha q hq =>
          ⟨(ih he ha q hq).1, fun p hp => ((ih he ha q hq).2 p hp).1⟩) he ha h
      obtain ⟨h₁, h₂⟩ := contents { q with entered := pairKey a.name e.name :: q.entered } hq
      dsimp only
      generalize compareContents _ e a _ = o at h₁ h₂
      obtain ⟨p | _, q'⟩ := o
      · have hp := (h₂ p rfl).reports
        refine ⟨h₁.insert closed he ha hp, fun p' heq => ?_⟩
        cases heq
        exact ⟨hp.toBlames, fun _ => hp⟩
      · exact ⟨h₁, fun p heq => by cases heq⟩

/-! ### Questions -/

/-- **A question gives out reports, and leaves reports behind.** -/
lemma matchTypes_tells (closed : Closed reg U) (h : Blaming reg U reg.verdicts) {a e : Ty}
    (ha : U a) (he : U e) (source : Option Position) :
    Blaming reg U (reg.matchTypes source a (some e)).2.verdicts ∧
      ∀ p, (reg.matchTypes source a (some e)).1 = .error p → e.category = a.category →
        ∃ told, Reports reg e a told ∧ p = told.orAt source := by
  obtain ⟨h₁, h₂⟩ := tells_compareTypes closed (reg.fuelFor e a) he ha ⟨[], reg.verdicts⟩ h
  rw [matchTypes_some]
  generalize reg.compareTypes _ e a _ = o at h₁ h₂
  obtain ⟨p | _, q⟩ := o
  · exact ⟨h₁, fun _ heq hcat => ⟨p, (h₂ p rfl).2 hcat, (Except.error.inj heq).symm⟩⟩
  · -- Matches that are added are no reports.
    exact ⟨fun a e ha he p hp => h₁ a e ha he p
      ((of_get?_foldl_insertNew hp).resolve_right fun h => nomatch h.2), nofun⟩

lemma Reports.of_types {later : Registry} (htypes : later.types = reg.types) {e a : Ty}
    {p : Problem} (h : Reports reg e a p) : Reports later e a p := by
  obtain ⟨x, y, hx, hy, hxy⟩ := h.names
  exact ⟨⟨h.cause, h.location, x, y, hx, hy, hxy.of_types htypes⟩, h.checkedExpected,
    h.checkedActual⟩

lemma Blaming.of_types {later : Registry} (htypes : later.types = reg.types)
    {verdicts : KeyMap String (Option Problem)} (h : Blaming reg U verdicts) :
    Blaming later U verdicts :=
  fun a e ha he p hp => (h a e ha he p hp).of_types htypes

lemma blaming_asked (hreached : Reached reg) (hmark : Unmarked reg) (hcoh : Coherent reg)
    {asked : List Question} (hasked : ∀ q ∈ asked, q.About reg) :
    Blaming reg reg.Agrees (asked.foldl Question.ask reg).verdicts := by
  induction asked using List.reverseRecOn with
  | nil =>
    rw [List.foldl_nil, hreached.verdicts]
    exact fun _ _ _ _ _ h => nomatch h
  | append_singleton asked q ih =>
    have hrest : ∀ q ∈ asked, q.About reg := fun q hq => hasked q (List.mem_append_left _ hq)
    have htypes := (truthful_asked hreached hmark hcoh hrest).2
    have closed := (closed_agrees hreached.resolved hmark hcoh).of_types htypes
    have hq := hasked q (List.mem_append_right _ List.mem_cons_self)
    rw [List.foldl_append, List.foldl_cons, List.foldl_nil]
    rcases (hq.of_agrees hcoh).ask_cases hcoh htypes with h | ⟨source, a, e, ha, he, h⟩
    · rw [h]
      exact ih hrest
    · rw [h]
      exact (matchTypes_tells closed ((ih hrest).of_types htypes) ha he source).1.of_types
        htypes.symm

namespace Sample

end Sample

end Registry

end CellMachine
