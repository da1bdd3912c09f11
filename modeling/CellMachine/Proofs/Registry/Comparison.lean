import CellMachine.Proofs.Registry.Simulation

/-!
Comparisons decide similarity.

The argument goes over a family of types that is closed under references. A comparison of similar
types succeeds, whatever is assumed of pairs that were entered; so a failure that is remembered is
a true one. A comparison that succeeds leaves behind pairs whose contents are related up to one
another, which together are a simulation; so they may be remembered when the whole query has
succeeded. Fuel lasts because every entered pair is a new one.
-/

namespace CellMachine

namespace Registry

/-- A family of types in which references can be followed, in which a name tells the definition, and
the key of two names tells the names. -/
structure Closed (reg : Registry) (U : Ty → Prop) : Prop where
  resolves : ∀ t, U t → ∀ r ∈ t.refs, r.isGeneric = false →
    ∃ u, reg.resolve r = .ok u ∧ U u ∧ u.name = r.name ∧ u.name ∈ reg.types.keys
  same : ∀ t u, U t → U u → t.name = u.name → t.Same u
  apart : ∀ a e a' e', U a → U e → U a' → U e' →
    pairKey a.name e.name = pairKey a'.name e'.name → a.name = a'.name ∧ e.name = e'.name

/-- A family of types in which references can be followed, and the key of two names tells the names. -/
structure Followed (reg : Registry) (U : Ty → Prop) : Prop where
  resolves : ∀ t, U t → ∀ r ∈ t.refs, r.isGeneric = false →
    ∃ u, reg.resolve r = .ok u ∧ U u ∧ u.name = r.name ∧ u.name ∈ reg.types.keys
  apart : ∀ a e a' e', U a → U e → U a' → U e' →
    pairKey a.name e.name = pairKey a'.name e'.name → a.name = a'.name ∧ e.name = e'.name

lemma Closed.followed {reg : Registry} {U : Ty → Prop} (h : Closed reg U) : Followed reg U :=
  ⟨h.resolves, h.apart⟩

/-- What stands before the first mark, and what stands after it, can be read off. -/
lemma append_mark_inj {mark : Char} {l l' m m' : List Char} (hl : mark ∉ l) (hl' : mark ∉ l')
    (h : l ++ mark :: m = l' ++ mark :: m') : l = l' ∧ m = m' := by
  induction l generalizing l' with
  | nil =>
    cases l' with
    | nil => exact ⟨rfl, (List.cons.inj h).2⟩
    | cons c l' =>
      obtain ⟨rfl, -⟩ := List.cons.inj h
      exact absurd List.mem_cons_self hl'
  | cons c l ih =>
    cases l' with
    | nil =>
      obtain ⟨rfl, -⟩ := List.cons.inj h
      exact absurd List.mem_cons_self hl
    | cons c' l' =>
      obtain ⟨rfl, htail⟩ := List.cons.inj h
      obtain ⟨rfl, rfl⟩ := ih (fun hc => hl (List.mem_cons_of_mem _ hc))
        (fun hc => hl' (List.mem_cons_of_mem _ hc)) htail
      exact ⟨rfl, rfl⟩

lemma pairKey_inj {a e a' e' : String} (ha : '!' ∉ a.toList) (ha' : '!' ∉ a'.toList)
    (h : pairKey a e = pairKey a' e') : a = a' ∧ e = e' := by
  have hl : a.toList ++ '!' :: e.toList = a'.toList ++ '!' :: e'.toList := by
    have := congrArg String.toList h
    simpa [pairKey] using this
  obtain ⟨h₁, h₂⟩ := append_mark_inj ha ha' hl
  exact ⟨String.toList_inj.mp h₁, String.toList_inj.mp h₂⟩

variable {reg : Registry} {U : Ty → Prop}

/-! ### Failures are true -/

/-- What is remembered of pairs of a family is true. -/
def Truthful (U : Ty → Prop) (verdicts : KeyMap String (Option Problem)) : Prop :=
  ∀ a e, U a → U e → ∀ v, verdicts.get? (pairKey a.name e.name) = some v →
    (v = none ↔ Similar U a.name e.name)

/-- Matches that are remembered of pairs of a family are true. -/
def Sound (U : Ty → Prop) (verdicts : KeyMap String (Option Problem)) : Prop :=
  ∀ a e, U a → U e → verdicts.get? (pairKey a.name e.name) = some none → Similar U a.name e.name

lemma Truthful.sound {verdicts : KeyMap String (Option Problem)} (h : Truthful U verdicts) :
    Sound U verdicts :=
  fun a e ha he hv => (h a e ha he none hv).mp rfl

/-- A comparison that keeps what is remembered true, and succeeds if something holds. -/
def Faithful (U : Ty → Prop) (c : Compare) (holds : Prop) : Prop :=
  ∀ q, Truthful U q.verdicts → Truthful U (c q).2.verdicts ∧ (holds → (c q).1 = .ok ())

lemma faithful_ok (holds : Prop) : Faithful U (fun q => (.ok (), q)) holds :=
  fun _ h => ⟨h, fun _ => rfl⟩

lemma faithful_error (p : Problem) {holds : Prop} (h : ¬holds) :
    Faithful U (fun q => (.error p, q)) holds :=
  fun _ hq => ⟨hq, fun hh => absurd hh h⟩

lemma Faithful.andThen {c d : Compare} {P Q : Prop} (hc : Faithful U c P) (hd : Faithful U d Q) :
    Faithful U (c.andThen d) (P ∧ Q) := by
  intro q hq
  obtain ⟨h₁, h₂⟩ := hc q hq
  unfold Compare.andThen
  rcases hcq : c q with ⟨r, q'⟩
  rw [hcq] at h₁ h₂
  cases r with
  | ok _ => exact ⟨(hd q' h₁).1, fun h => (hd q' h₁).2 h.2⟩
  | error p => exact ⟨h₁, fun h => absurd (h₂ h.1) (by simp)⟩

lemma Faithful.explain {c : Compare} {P : Prop} (hc : Faithful U c P) (f : Problem → Problem) :
    Faithful U (c.explain f) P := by
  intro q hq
  obtain ⟨h₁, h₂⟩ := hc q hq
  unfold Compare.explain
  rcases hcq : c q with ⟨r, q'⟩
  rw [hcq] at h₁ h₂
  cases r with
  | ok _ => exact ⟨h₁, fun _ => rfl⟩
  | error p => exact ⟨h₁, fun h => absurd (h₂ h) (by simp)⟩

lemma faithful_compareRefs (closed : Closed reg U) {ct : Ty → Ty → Compare}
    (hct : ∀ e a, U e → U a → Faithful U (ct e a) (Similar U a.name e.name)) {t u : Ty}
    (ht : U t) (hu : U u) {e a : TyRef} (he : e ∈ t.refs) (ha : a ∈ u.refs) :
    Faithful U (reg.compareRefs ct e a) (RefsRelated (Similar U) a e) := by
  intro q hq
  unfold compareRefs
  by_cases hg : (e.isGeneric || a.isGeneric) = true
  · rw [if_pos hg]
    by_cases hs : e.sameTarget a = true
    · rw [if_pos hs]
      exact ⟨hq, fun _ => rfl⟩
    · rw [if_neg hs]
      refine ⟨hq, fun h => absurd ?_ hs⟩
      cases e <;> cases a <;> simp_all [RefsRelated, TyRef.sameTarget, TyRef.isGeneric]
  · rw [if_neg hg]
    simp only [Bool.or_eq_true, not_or, Bool.not_eq_true] at hg
    obtain ⟨e', hre, hue, hne, -⟩ := closed.resolves t ht e he hg.1
    obtain ⟨a', hra, hua, hna, -⟩ := closed.resolves u hu a ha hg.2
    simp only [hre, hra]
    obtain ⟨h₁, h₂⟩ := hct e' a' hue hua q hq
    refine ⟨h₁, fun h => h₂ ?_⟩
    rw [hna, hne]
    cases e <;> cases a <;> simp_all [RefsRelated, TyRef.isGeneric]

lemma faithful_compareStores {compare : TyRef → TyRef → Compare} (t u : Ty)
    {available asked : List (String × TyRef)}
    (hcompare : ∀ e a : String × TyRef, e ∈ asked → a ∈ available →
      Faithful U (compare e.2 a.2) (RefsRelated (Similar U) a.2 e.2)) :
    Faithful U (compareStores compare t u available asked)
      (∀ member ∈ asked, ∃ a, KeyMap.get? available member.1 = some a ∧
        RefsRelated (Similar U) a member.2) := by
  induction asked with
  | nil => exact faithful_ok _
  | cons e asked ih =>
    obtain ⟨key, r⟩ := e
    have rest := ih fun e a he => hcompare e a (List.mem_cons_of_mem _ he)
    intro q hq
    rw [compareStores]
    cases hget : KeyMap.get? available key with
    | none =>
      refine ⟨hq, fun h => ?_⟩
      obtain ⟨a, ha, -⟩ := h (key, r) List.mem_cons_self
      rw [hget] at ha
      cases ha
    | some a =>
      have head := hcompare (key, r) (key, a) List.mem_cons_self (KeyMap.mem_of_get? hget)
      obtain ⟨h₁, h₂⟩ := ((head.explain fun p => p.add "key" key).andThen rest) q hq
      refine ⟨h₁, fun h => h₂ ⟨?_, fun m hm => h m (List.mem_cons_of_mem _ hm)⟩⟩
      obtain ⟨a', ha', hrel⟩ := h (key, r) List.mem_cons_self
      rw [hget] at ha'
      cases ha'
      exact hrel

lemma faithful_compareContents {compare : TyRef → TyRef → Compare} {e a : Ty}
    (hcompare : ∀ r ∈ e.refs, ∀ s ∈ a.refs,
      Faithful U (compare r s) (RefsRelated (Similar U) s r)) :
    Faithful U (compareContents compare e a) (ContentsRelated (Similar U) a e) := by
  cases e <;> cases a <;> simp only [compareContents, ContentsRelated]
  case native.native n s tag test n' s' tag' test' =>
    intro q hq
    dsimp only
    by_cases h : tag = tag'
    · rw [if_pos h]
      exact ⟨hq, fun _ => rfl⟩
    · rw [if_neg h]
      exact ⟨hq, fun h' => absurd h'.symm h⟩
  case iterable.iterable =>
    exact hcompare _ List.mem_cons_self _ List.mem_cons_self
  case structured.structured =>
    exact faithful_compareStores _ _ fun r s hr hs =>
      hcompare _ (List.mem_map_of_mem hr) _ (List.mem_map_of_mem hs)
  case callable.callable =>
    exact (hcompare _ (by simp [Ty.refs]) _ (by simp [Ty.refs])).andThen
      (hcompare _ (by simp [Ty.refs]) _ (by simp [Ty.refs]))
  case keyOf.keyOf => exact hcompare _ List.mem_cons_self _ List.mem_cons_self
  all_goals exact faithful_error _ id

lemma Similar.contents (closed : Closed reg U) {a e : Ty} (ha : U a) (he : U e)
    (h : Similar U a.name e.name) (hne : a.name ≠ e.name) :
    ContentsRelated (Similar U) a e := by
  rcases isSimulation_similar U _ _ h with h | ⟨a', e', ha', he', hna, hne', -, hrel⟩
  · exact absurd h hne
  · exact hrel.congr (closed.same _ _ ha' ha hna) (closed.same _ _ he' he hne')

lemma Truthful.insert (closed : Closed reg U) {verdicts : KeyMap String (Option Problem)}
    (h : Truthful U verdicts) {a e : Ty} (ha : U a) (he : U e) {v : Option Problem}
    (hv : v = none ↔ Similar U a.name e.name) :
    Truthful U (verdicts.insert (pairKey a.name e.name) v) := by
  intro a' e' ha' he' v' hv'
  rw [KeyMap.get?_insert] at hv'
  split at hv'
  · next hkey =>
    obtain ⟨h₁, h₂⟩ := closed.apart a e a' e' ha he ha' he' hkey
    cases hv'
    rw [← h₁, ← h₂]
    exact hv
  · exact h a' e' ha' he' v' hv'

/-- **Failures are true**: types that are similar are found to match, with any fuel. -/
lemma faithful_compareTypes (closed : Closed reg U) (fuel : Nat) {e a : Ty} (he : U e) (ha : U a) :
    Faithful U (reg.compareTypes fuel e a) (Similar U a.name e.name) := by
  -- On the fuel; failures that are remembered already are true by assumption.
  induction fuel generalizing e a with
  | zero => exact faithful_ok _
  | succ fuel ih =>
    intro q hq
    rw [compareTypes]
    by_cases hname : e.name = a.name
    · rw [if_pos hname]
      exact ⟨hq, fun _ => rfl⟩
    rw [if_neg hname]
    have hcontents : Similar U a.name e.name → ContentsRelated (Similar U) a e :=
      fun h => h.contents closed ha he (Ne.symm hname)
    by_cases hcat : e.category ≠ a.category
    · rw [if_pos hcat]
      exact ⟨hq, fun h => absurd (hcontents h).category_eq.symm hcat⟩
    rw [if_neg hcat]
    dsimp only
    by_cases hent : q.entered.contains (pairKey a.name e.name) = true
    · rw [if_pos hent]
      exact ⟨hq, fun _ => rfl⟩
    rw [if_neg hent]
    cases hget : KeyMap.get? q.verdicts (pairKey a.name e.name) with
    | some v =>
      have hv := hq a e ha he v hget
      cases v with
      | none => exact ⟨hq, fun _ => rfl⟩
      | some p => exact ⟨hq, fun h => absurd (hv.mpr h) (by simp)⟩
    | none =>
      have key : Faithful U (compareContents (reg.compareRefs (reg.compareTypes fuel)) e a)
          (ContentsRelated (Similar U) a e) :=
        faithful_compareContents fun r hr s hs =>
          faithful_compareRefs closed (fun e a he ha => ih he ha) he ha hr hs
      obtain ⟨h₁, h₂⟩ := key { q with entered := pairKey a.name e.name :: q.entered } hq
      dsimp only
      rcases hres : compareContents (reg.compareRefs (reg.compareTypes fuel)) e a
        { q with entered := pairKey a.name e.name :: q.entered } with ⟨r, q'⟩
      rw [hres] at h₁ h₂
      cases r with
      | ok _ => exact ⟨h₁, fun _ => rfl⟩
      | error p =>
        have hnot : ¬Similar U a.name e.name := fun h => absurd (h₂ (hcontents h)) (by simp)
        exact ⟨h₁.insert closed ha he (by simp [hnot]), fun h => absurd h hnot⟩

/-! ### Successes are true -/

/-- The pairs that a query takes to match. -/
def Accepted (q : Query) (a e : String) : Prop :=
  a = e ∨ pairKey a e ∈ q.entered ∨ q.verdicts.get? (pairKey a e) = some none

/-- A key of types whose contents are related as far as a query accepts them. -/
def Justified (U : Ty → Prop) (q : Query) (key : String) : Prop :=
  ∃ a e, U a ∧ U e ∧ key = pairKey a.name e.name ∧ ContentsRelated (Accepted q) a e

/-- A later state of a query that has not failed. -/
structure Extends (q q' : Query) : Prop where
  verdicts : q'.verdicts = q.verdicts
  entered : q.entered ⊆ q'.entered

/-- The entered keys are different ones among `keys`, and the fuel is more than the keys left. -/
structure Room (keys : List String) (fuel : Nat) (q : Query) : Prop where
  nodup : q.entered.Nodup
  subset : q.entered ⊆ keys
  fuel : keys.length < fuel + q.entered.length

lemma Extends.refl (q : Query) : Extends q q := ⟨rfl, fun _ => id⟩

lemma Extends.trans {q q' q'' : Query} (h : Extends q q') (h' : Extends q' q'') : Extends q q'' :=
  ⟨h'.verdicts.trans h.verdicts, fun _ hk => h'.entered (h.entered hk)⟩

lemma Extends.accepted {q q' : Query} (h : Extends q q') {a e : String} (ha : Accepted q a e) :
    Accepted q' a e := by
  rcases ha with ha | ha | ha
  · exact Or.inl ha
  · exact Or.inr (Or.inl (h.entered ha))
  · exact Or.inr (Or.inr (h.verdicts ▸ ha))

lemma Extends.related {q q' : Query} (h : Extends q q') {a e : Ty}
    (ha : ContentsRelated (Accepted q) a e) : ContentsRelated (Accepted q') a e :=
  ha.mono fun _ _ _ _ _ _ => h.accepted

lemma Extends.justified {q q' : Query} (h : Extends q q') {key : String} (hk : Justified U q key) :
    Justified U q' key := by
  obtain ⟨a, e, ha, he, hkey, hrel⟩ := hk
  exact ⟨a, e, ha, he, hkey, h.related hrel⟩

/-- What a successful comparison leaves: room as before, every newly entered key justified, and a
goal reached. -/
structure Reaches (U : Ty → Prop) (keys : List String) (fuel : Nat) (q q' : Query)
    (goal : Query → Prop) : Prop where
  extend : Extends q q'
  room : Room keys fuel q'
  justified : ∀ key ∈ q'.entered, key ∈ q.entered ∨ Justified U q' key
  goal : goal q'

/-- A comparison that reaches a goal whenever it succeeds with room. -/
def Supports (U : Ty → Prop) (keys : List String) (fuel : Nat) (c : Compare)
    (goal : Query → Prop) : Prop :=
  ∀ q, Room keys fuel q → (c q).1 = .ok () → Reaches U keys fuel q (c q).2 goal

variable {keys : List String} {fuel : Nat}

lemma supports_ok {goal : Query → Prop} (h : ∀ q, goal q) :
    Supports U keys fuel (fun q => (.ok (), q)) goal :=
  fun q hq _ => ⟨.refl q, hq, fun _ => Or.inl, h q⟩

lemma supports_error (p : Problem) (goal : Query → Prop) :
    Supports U keys fuel (fun q => (.error p, q)) goal :=
  fun _ _ h => nomatch h

lemma Supports.andThen {c d : Compare} {P Q : Query → Prop} (hc : Supports U keys fuel c P)
    (hd : Supports U keys fuel d Q) (hP : ∀ q q', Extends q q' → P q → P q') :
    Supports U keys fuel (c.andThen d) fun q => P q ∧ Q q := by
  intro q hq
  have h₁ := hc q hq
  unfold Compare.andThen
  rcases hcq : c q with ⟨r, q'⟩
  rw [hcq] at h₁
  cases r with
  | error p => exact fun h => nomatch h
  | ok _ =>
    intro hok
    have first := h₁ rfl
    have second := hd q' first.room hok
    refine ⟨first.extend.trans second.extend, second.room, fun key hkey => ?_,
      hP _ _ second.extend first.goal, second.goal⟩
    rcases second.justified key hkey with h | h
    · exact (first.justified key h).imp_right second.extend.justified
    · exact Or.inr h

lemma Supports.explain {c : Compare} {P : Query → Prop} (hc : Supports U keys fuel c P)
    (f : Problem → Problem) : Supports U keys fuel (c.explain f) P := by
  intro q hq
  have h₁ := hc q hq
  unfold Compare.explain
  rcases hcq : c q with ⟨r, q'⟩
  rw [hcq] at h₁
  cases r with
  | error p => exact fun h => nomatch h
  | ok _ => exact fun _ => h₁ rfl

lemma supports_compareRefs (followed : Followed reg U) {ct : Ty → Ty → Compare}
    (hct : ∀ e a, U e → U a → e.name ∈ reg.types.keys → a.name ∈ reg.types.keys →
      Supports U keys fuel (ct e a) fun q => Accepted q a.name e.name) {t u : Ty}
    (ht : U t) (hu : U u) {e a : TyRef} (he : e ∈ t.refs) (ha : a ∈ u.refs) :
    Supports U keys fuel (reg.compareRefs ct e a) fun q => RefsRelated (Accepted q) a e := by
  intro q hq hok
  unfold compareRefs at hok ⊢
  by_cases hg : (e.isGeneric || a.isGeneric) = true
  · rw [if_pos hg] at hok ⊢
    by_cases hs : e.sameTarget a = true
    · rw [if_pos hs]
      refine ⟨.refl q, hq, fun _ => Or.inl, ?_⟩
      cases e <;> cases a <;> simp_all [RefsRelated, TyRef.sameTarget, TyRef.isGeneric]
    · rw [if_neg hs] at hok
      cases hok
  · rw [if_neg hg] at hok ⊢
    simp only [Bool.or_eq_true, not_or, Bool.not_eq_true] at hg
    obtain ⟨e', hre, hue, hne, hke⟩ := followed.resolves t ht e he hg.1
    obtain ⟨a', hra, hua, hna, hka⟩ := followed.resolves u hu a ha hg.2
    simp only [hre, hra] at hok ⊢
    have key := hct e' a' hue hua hke hka q hq hok
    refine ⟨key.extend, key.room, key.justified, ?_⟩
    have hgoal := key.goal
    rw [hna, hne] at hgoal
    cases e <;> cases a <;> simp_all [RefsRelated, TyRef.isGeneric]

lemma supports_compareStores {compare : TyRef → TyRef → Compare} (t u : Ty)
    {available asked : List (String × TyRef)}
    (hcompare : ∀ e a : String × TyRef, e ∈ asked → a ∈ available →
      Supports U keys fuel (compare e.2 a.2) fun q => RefsRelated (Accepted q) a.2 e.2) :
    Supports U keys fuel (compareStores compare t u available asked) fun q =>
      ∀ member ∈ asked, ∃ a, KeyMap.get? available member.1 = some a ∧
        RefsRelated (Accepted q) a member.2 := by
  induction asked with
  | nil => exact supports_ok fun _ _ h => nomatch h
  | cons e asked ih =>
    obtain ⟨key, r⟩ := e
    have rest := ih fun e a he => hcompare e a (List.mem_cons_of_mem _ he)
    intro q hq hok
    rw [compareStores] at hok ⊢
    cases hget : KeyMap.get? available key with
    | none =>
      rw [hget] at hok
      cases hok
    | some a =>
      rw [hget] at hok
      have head := hcompare (key, r) (key, a) List.mem_cons_self (KeyMap.mem_of_get? hget)
      have both := ((head.explain fun p => p.add "key" key).andThen rest
        fun q q' hqq' h => h.mono fun _ _ => hqq'.accepted) q hq hok
      refine ⟨both.extend, both.room, both.justified, fun m hm => ?_⟩
      rcases List.mem_cons.mp hm with rfl | hm
      · exact ⟨a, hget, both.goal.1⟩
      · exact both.goal.2 m hm

lemma supports_compareContents {compare : TyRef → TyRef → Compare} {e a : Ty}
    (hcompare : ∀ r ∈ e.refs, ∀ s ∈ a.refs,
      Supports U keys fuel (compare r s) fun q => RefsRelated (Accepted q) s r) :
    Supports U keys fuel (compareContents compare e a) fun q =>
      ContentsRelated (Accepted q) a e := by
  cases e <;> cases a <;> simp only [compareContents, ContentsRelated]
  case native.native n s tag test n' s' tag' test' =>
    intro q hq hok
    dsimp only at hok ⊢
    by_cases h : tag = tag'
    · rw [if_pos h]
      exact ⟨.refl q, hq, fun _ => Or.inl, h.symm⟩
    · rw [if_neg h] at hok
      cases hok
  case iterable.iterable =>
    exact hcompare _ List.mem_cons_self _ List.mem_cons_self
  case structured.structured =>
    exact supports_compareStores _ _ fun r s hr hs =>
      hcompare _ (List.mem_map_of_mem hr) _ (List.mem_map_of_mem hs)
  case callable.callable =>
    exact (hcompare _ (by simp [Ty.refs]) _ (by simp [Ty.refs])).andThen
      (hcompare _ (by simp [Ty.refs]) _ (by simp [Ty.refs]))
      fun q q' hqq' h => h.mono fun _ _ => hqq'.accepted
  case keyOf.keyOf => exact hcompare _ List.mem_cons_self _ List.mem_cons_self
  all_goals exact supports_error _ _

/-- The keys of all pairs of some names. -/
def pairKeys (names : List String) : List String := (names ×ˢ names).map fun p => pairKey p.1 p.2

lemma mem_pairKeys {names : List String} {a e : String} (ha : a ∈ names) (he : e ∈ names) :
    pairKey a e ∈ pairKeys names :=
  List.mem_map.mpr ⟨(a, e), List.mem_product.mpr ⟨ha, he⟩, rfl⟩

lemma length_pairKeys (names : List String) :
    (pairKeys names).length = names.length * names.length := by
  rw [pairKeys, List.length_map, List.length_product]

lemma Room.enter {q : Query} (h : Room keys (fuel + 1) q) {key : String} (hk : key ∈ keys)
    (hnew : key ∉ q.entered) : Room keys fuel { q with entered := key :: q.entered } := by
  refine ⟨List.nodup_cons.mpr ⟨hnew, h.nodup⟩, List.cons_subset.mpr ⟨hk, h.subset⟩, ?_⟩
  have := h.fuel
  simp only [List.length_cons]
  omega

lemma Room.succ {q : Query} (h : Room keys fuel q) : Room keys (fuel + 1) q :=
  ⟨h.nodup, h.subset, by have := h.fuel; omega⟩

lemma not_room_zero {q : Query} : ¬Room keys 0 q := by
  intro h
  have hle := (h.nodup.subperm h.subset).length_le
  have hlt := h.fuel
  omega

/-- **Successes are true**: a comparison that succeeds leaves a justified key for each pair that it
took to match. -/
lemma supports_compareTypes (followed : Followed reg U) {names : List String}
    (hnames : reg.types.keys ⊆ names) (fuel : Nat) {e a : Ty} (he : U e) (ha : U a)
    (hne : e.name ∈ names) (hna : a.name ∈ names) :
    Supports U (pairKeys names) fuel (reg.compareTypes fuel e a) fun q =>
      Accepted q a.name e.name := by
  induction fuel generalizing e a with
  | zero => exact fun q hq => absurd hq not_room_zero
  | succ fuel ih =>
    intro q hq hok
    rw [compareTypes] at hok ⊢
    by_cases hname : e.name = a.name
    · rw [if_pos hname]
      exact ⟨.refl q, hq, fun _ => Or.inl, Or.inl hname.symm⟩
    rw [if_neg hname] at hok ⊢
    by_cases hcat : e.category ≠ a.category
    · rw [if_pos hcat] at hok
      cases hok
    rw [if_neg hcat] at hok ⊢
    dsimp only at hok ⊢
    by_cases hent : q.entered.contains (pairKey a.name e.name) = true
    · rw [if_pos hent]
      exact ⟨.refl q, hq, fun _ => Or.inl, Or.inr (Or.inl (List.contains_iff_mem.mp hent))⟩
    rw [if_neg hent] at hok ⊢
    rw [List.contains_iff_mem] at hent
    cases hget : KeyMap.get? q.verdicts (pairKey a.name e.name) with
    | some v =>
      cases v with
      | none => exact ⟨.refl q, hq, fun _ => Or.inl, Or.inr (Or.inr hget)⟩
      | some p =>
        rw [hget] at hok
        cases hok
    | none =>
      rw [hget] at hok
      -- The pair is taken to match while its contents are compared.
      have key : Supports U (pairKeys names) fuel
          (compareContents (reg.compareRefs (reg.compareTypes fuel)) e a)
          fun q => ContentsRelated (Accepted q) a e :=
        supports_compareContents fun r hr s hs =>
          supports_compareRefs followed (fun e a he ha hke hka => ih he ha (hnames hke) (hnames hka))
            he ha hr hs
      have inner := key _ (hq.enter (mem_pairKeys hna hne) hent)
      dsimp only at hok ⊢
      rcases hres : compareContents (reg.compareRefs (reg.compareTypes fuel)) e a
        { q with entered := pairKey a.name e.name :: q.entered } with ⟨r, q'⟩
      rw [hres] at hok inner
      cases r with
      | error p => cases hok
      | ok _ =>
        have done := inner rfl
        have hin := done.extend.entered List.mem_cons_self
        refine ⟨⟨done.extend.verdicts, fun _ h => done.extend.entered (List.mem_cons_of_mem _ h)⟩,
          done.room.succ, fun k hk => ?_, Or.inr (Or.inl hin)⟩
        rcases done.justified k hk with h | h
        · rcases List.mem_cons.mp h with rfl | h
          · exact Or.inr ⟨a, e, ha, he, rfl, done.goal⟩
          · exact Or.inl h
        · exact Or.inr h

/-! ### Whole queries -/

/-- What a query accepted that began with nothing entered is a simulation, together with what is
similar anyhow. -/
lemma similar_of_accepted (followed : Followed reg U) {q : Query} (hq : Sound U q.verdicts)
    (hjust : ∀ key ∈ q.entered, Justified U q key) {a e : Ty} (ha : U a) (he : U e)
    (h : Accepted q a.name e.name) : Similar U a.name e.name := by
  refine ⟨fun x y => Similar U x y ∨ ∃ a e, U a ∧ U e ∧ a.name = x ∧ e.name = y ∧ Accepted q x y,
    ?_, Or.inr ⟨a, e, ha, he, rfl, rfl, h⟩⟩
  rintro x y (hsim | ⟨a, e, ha, he, rfl, rfl, hacc⟩)
  · rcases isSimulation_similar U x y hsim with h | ⟨a, e, ha, he, hna, hne, hcat, hrel⟩
    · exact Or.inl h
    · exact Or.inr ⟨a, e, ha, he, hna, hne, hcat, hrel.mono fun _ _ _ _ _ _ => Or.inl⟩
  rcases hacc with h | h | h
  · exact Or.inl h
  · obtain ⟨a', e', ha', he', hkey, hrel⟩ := hjust _ h
    obtain ⟨hna, hne⟩ := followed.apart a e a' e' ha he ha' he' hkey
    refine Or.inr ⟨a', e', ha', he', hna.symm, hne.symm, hrel.category_eq, hrel.mono ?_⟩
    intro r hr s hs hgr hgs hacc
    obtain ⟨u, -, hu, hur, -⟩ := followed.resolves a' ha' r hr hgr
    obtain ⟨v, -, hv, hvs, -⟩ := followed.resolves e' he' s hs hgs
    exact Or.inr ⟨u, v, hu, hv, hur, hvs, hacc⟩
  · rcases isSimulation_similar U _ _ (hq a e ha he h) with
      h | ⟨a, e, ha, he, hna, hne, hcat, hrel⟩
    · exact Or.inl h
    · exact Or.inr ⟨a, e, ha, he, hna, hne, hcat, hrel.mono fun _ _ _ _ _ _ => Or.inl⟩

lemma length_types_le_weight (reg : Registry) : reg.types.length ≤ reg.weight := by
  rw [weight]
  induction reg.types with
  | nil => exact Nat.zero_le _
  | cons e types ih =>
    have := Ty.one_le_size e.2
    rw [List.foldr_cons, List.length_cons]
    omega

lemma room_of_length_le {reg : Registry} {names : List String} {a e : Ty}
    (h : names.length ≤ reg.weight + e.size + a.size) (verdicts : KeyMap String (Option Problem)) :
    Room (pairKeys names) (reg.fuelFor e a) ⟨[], verdicts⟩ := by
  refine ⟨List.nodup_nil, List.nil_subset _, ?_⟩
  have hmul := Nat.mul_le_mul h h
  rw [length_pairKeys, fuelFor, List.length_nil]
  omega

/-- The names that a query can meet. -/
def metNames (reg : Registry) (a e : Ty) : List String := e.name :: a.name :: reg.types.keys

lemma room_fuelFor (reg : Registry) (a e : Ty) :
    Room (pairKeys (metNames reg a e)) (reg.fuelFor e a) ⟨[], reg.verdicts⟩ := by
  refine room_of_length_le ?_ _
  have h₁ := Ty.one_le_size e
  have h₂ := Ty.one_le_size a
  have h₃ := length_types_le_weight reg
  simp only [metNames, List.length_cons, KeyMap.keys, List.length_map]
  omega

lemma Truthful.insertNew (closed : Closed reg U) {verdicts : KeyMap String (Option Problem)}
    (h : Truthful U verdicts) {a e : Ty} (ha : U a) (he : U e) (hsim : Similar U a.name e.name) :
    Truthful U (verdicts.insertNew (pairKey a.name e.name) none) := by
  intro a' e' ha' he' v hv
  rw [KeyMap.get?_insertNew] at hv
  split at hv
  · next hkey =>
    obtain ⟨h₁, h₂⟩ := closed.apart a e a' e' ha he ha' he' hkey
    cases hget : KeyMap.get? verdicts (pairKey a.name e.name) with
    | none =>
      rw [hget] at hv
      cases hv
      rw [← h₁, ← h₂]
      exact ⟨fun _ => hsim, fun _ => rfl⟩
    | some w =>
      rw [hget] at hv
      cases hv
      exact h a' e' ha' he' w (hkey ▸ hget)
  · exact h a' e' ha' he' v hv

lemma truthful_commit (closed : Closed reg U) {entered : List String}
    {verdicts : KeyMap String (Option Problem)} (h : Truthful U verdicts)
    (hsim : ∀ key ∈ entered, ∃ a e : Ty,
      U a ∧ U e ∧ key = pairKey a.name e.name ∧ Similar U a.name e.name) :
    Truthful U (entered.foldl (fun m key => m.insertNew key none) verdicts) := by
  induction entered generalizing verdicts with
  | nil => exact h
  | cons key entered ih =>
    obtain ⟨a, e, ha, he, rfl, hae⟩ := hsim key List.mem_cons_self
    exact ih (h.insertNew closed ha he hae) fun k hk => hsim k (List.mem_cons_of_mem _ hk)

lemma matchTypes_some (reg : Registry) (source : Option Position) (a e : Ty) :
    reg.matchTypes source a (some e) =
      match reg.compareTypes (reg.fuelFor e a) e a ⟨[], reg.verdicts⟩ with
      | (.ok _, q) =>
        (.ok (),
          { reg with verdicts := q.entered.foldl (fun m key => m.insertNew key none) q.verdicts })
      | (.error p, q) => (.error (p.orAt source), { reg with verdicts := q.verdicts }) := rfl

/-- **A query decides similarity** and keeps what is remembered true. -/
lemma matchTypes_spec (closed : Closed reg U) (htrue : Truthful U reg.verdicts) {a e : Ty}
    (ha : U a) (he : U e) (source : Option Position) :
    ((reg.matchTypes source a (some e)).1 = .ok () ↔ Similar U a.name e.name) ∧
      Truthful U (reg.matchTypes source a (some e)).2.verdicts ∧
      (reg.matchTypes source a (some e)).2.types = reg.types := by
  have faithful := faithful_compareTypes closed (reg.fuelFor e a) he ha ⟨[], reg.verdicts⟩ htrue
  have hnames : reg.types.keys ⊆ metNames reg a e :=
    fun _ h => List.mem_cons_of_mem _ (List.mem_cons_of_mem _ h)
  have supports := supports_compareTypes closed.followed hnames (reg.fuelFor e a) he ha
    List.mem_cons_self (List.mem_cons_of_mem _ List.mem_cons_self) _ (room_fuelFor reg a e)
  rw [matchTypes_some]
  rcases hres : reg.compareTypes (reg.fuelFor e a) e a ⟨[], reg.verdicts⟩ with ⟨r, q⟩
  rw [hres] at faithful supports
  cases r with
  | ok _ =>
    have done := supports rfl
    have hq : Truthful U q.verdicts := faithful.1
    have hjust : ∀ key ∈ q.entered, Justified U q key := fun key hkey =>
      (done.justified key hkey).resolve_left (List.not_mem_nil)
    refine ⟨⟨fun _ => similar_of_accepted closed.followed hq.sound hjust ha he done.goal,
      fun _ => rfl⟩, ?_, rfl⟩
    refine truthful_commit closed hq fun key hkey => ?_
    obtain ⟨a', e', ha', he', rfl, -⟩ := hjust key hkey
    exact ⟨a', e', ha', he', rfl,
      similar_of_accepted closed.followed hq.sound hjust ha' he' (Or.inr (Or.inl hkey))⟩
  | error p =>
    exact ⟨⟨nofun, fun h => nomatch faithful.2 h⟩, faithful.1, rfl⟩

lemma types_matchTypes (reg : Registry) (source : Option Position) (a : Ty)
    (e : Option Ty) : (reg.matchTypes source a e).2.types = reg.types := by
  unfold matchTypes
  split
  · rfl
  · split <;> rfl

end Registry

end CellMachine
