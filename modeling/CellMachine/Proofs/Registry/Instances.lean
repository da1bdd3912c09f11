import CellMachine.Proofs.Registry.Derived
import CellMachine.Proofs.Registry.Verdicts

/-!
The types that declarations become when their generics are bound, and what it means that they match. An
iterable of a generic becomes an iterable of a type, with a name that is made up from two names. No such
type is registered, but it is compared with registered types by name, and remembered by name with them.

The family of these types and those that agree with a registry is no closed one: several declarations
may have one name, so that a name does not tell the definition. It is enough that references can be
followed and that keys tell names: what is found to match, or remembered as a match, is similar then. A
pair of which one type agrees with the registry is similar only if it matches part by part, because
made-up names have a bracket in them and registered names have none.
-/

namespace CellMachine

namespace Registry

variable {reg later : Registry} {U : Ty → Prop}

/-! ### Matches are true -/

lemma Sound.insertNew (followed : Followed reg U) {verdicts : KeyMap String (Option Problem)}
    (h : Sound U verdicts) {a e : Ty} (ha : U a) (he : U e) (hsim : Similar U a.name e.name) :
    Sound U (verdicts.insertNew (pairKey a.name e.name) none) := by
  intro a' e' ha' he' hv
  rw [KeyMap.get?_insertNew] at hv
  split at hv
  · next hkey =>
    obtain ⟨h₁, h₂⟩ := followed.apart a e a' e' ha he ha' he' hkey
    rw [← h₁, ← h₂]
    exact hsim
  · exact h a' e' ha' he' hv

lemma sound_commit (followed : Followed reg U) {entered : List String}
    {verdicts : KeyMap String (Option Problem)} (h : Sound U verdicts)
    (hsim : ∀ key ∈ entered, ∃ a e : Ty,
      U a ∧ U e ∧ key = pairKey a.name e.name ∧ Similar U a.name e.name) :
    Sound U (entered.foldl (fun m key => m.insertNew key none) verdicts) := by
  induction entered generalizing verdicts with
  | nil => exact h
  | cons key entered ih =>
    obtain ⟨a, e, ha, he, rfl, hae⟩ := hsim key List.mem_cons_self
    exact ih (h.insertNew followed ha he hae) fun k hk => hsim k (List.mem_cons_of_mem _ hk)

/-- **What is found to match is similar**, and what is remembered as a match stays so. -/
lemma matchTypes_sound (followed : Followed reg U) (hsound : Sound U reg.verdicts) {a e : Ty}
    (ha : U a) (he : U e) (source : Option Position) :
    ((reg.matchTypes source a (some e)).1 = .ok () → Similar U a.name e.name) ∧
      Sound U (reg.matchTypes source a (some e)).2.verdicts := by
  have keeps := keeps_compareTypes reg (reg.fuelFor e a) e a ⟨[], reg.verdicts⟩
  have hnames : reg.types.keys ⊆ metNames reg a e :=
    fun _ h => List.mem_cons_of_mem _ (List.mem_cons_of_mem _ h)
  have supports := supports_compareTypes followed hnames (reg.fuelFor e a) he ha
    List.mem_cons_self (List.mem_cons_of_mem _ List.mem_cons_self) _ (room_fuelFor reg a e)
  rw [matchTypes_some]
  generalize reg.compareTypes _ e a _ = r at keeps supports
  obtain ⟨p | _, q⟩ := r
  · exact ⟨nofun, fun a e ha he hv => hsound a e ha he (keeps.matched _ hv)⟩
  · have done := supports rfl
    have hq : Sound U q.verdicts := fun a e ha he hv => hsound a e ha he (keeps.matched _ hv)
    have hjust : ∀ key ∈ q.entered, Justified U q key := fun key hkey =>
      (done.justified key hkey).resolve_left List.not_mem_nil
    refine ⟨fun _ => similar_of_accepted followed hq hjust ha he done.goal, ?_⟩
    refine sound_commit followed hq fun key hkey => ?_
    obtain ⟨a', e', ha', he', rfl, -⟩ := hjust key hkey
    exact ⟨a', e', ha', he', rfl,
      similar_of_accepted followed hq hjust ha' he' (.inr (.inl hkey))⟩

/-! ### Instances -/

/-- The types that iterables and key-ofs of a generic become when it is bound. -/
inductive Instance (U : Ty → Prop) : Ty → Prop where
  | iterable {name : String} {t : Ty} (hname : '!' ∉ name.toList) (source : Option Position)
    (ends : Termination) (h : U t) :
    Instance U (.iterable (name ++ "[" ++ t.name ++ "]") source (.inline t) ends)
  | keyOf {name : String} {t : Ty} (hname : '!' ∉ name.toList) (source : Option Position) (h : U t) :
    Instance U (.keyOf (name ++ "[" ++ t.name ++ "]") source (.inline t))

/-- The types that are compared for an opcode: those that agree with a registry, and those that its
declared types become. -/
def Formed (reg : Registry) (t : Ty) : Prop := reg.Agrees t ∨ Instance reg.Agrees t

lemma Instance.bracket {t : Ty} (h : Instance U t) : '[' ∈ t.name.toList := by
  cases h <;> simp [Ty.name]

lemma Instance.exists_inline {t : Ty} (h : Instance U t) {r : TyRef} (hr : r ∈ t.refs) :
    ∃ u, r = .inline u ∧ U u := by
  cases h with
  | iterable hname source ends h => exact ⟨_, List.mem_singleton.mp hr, h⟩
  | keyOf hname source h => exact ⟨_, List.mem_singleton.mp hr, h⟩

lemma Tidy.agrees_of_formed (tidy : Tidy reg) {t u : Ty} (ht : reg.Formed t) (hu : reg.Agrees u)
    (hname : t.name = u.name) : reg.Agrees t :=
  ht.resolve_right fun h => tidy.not_bracket hu (hname ▸ h.bracket)

lemma Tidy.instance_of_formed (tidy : Tidy reg) {t u : Ty} (ht : reg.Formed t)
    (hu : Instance reg.Agrees u) (hname : t.name = u.name) : Instance reg.Agrees t :=
  ht.resolve_left fun h => tidy.not_bracket h (hname ▸ hu.bracket)

lemma Tidy.formed_unmarked (tidy : Tidy reg) {t : Ty} (ht : reg.Formed t) :
    '!' ∉ t.name.toList := by
  rcases ht with ht | ht
  · exact ht.unmarked tidy.unmarked
  · cases ht with
    | iterable hname source ends ht =>
      have := ht.unmarked tidy.unmarked
      simp_all [Ty.name]
    | keyOf hname source ht =>
      have := ht.unmarked tidy.unmarked
      simp_all [Ty.name]

lemma Tidy.followed_formed (tidy : Tidy reg) : Followed reg reg.Formed where
  resolves := by
    rintro t (ht | ht) r hr hg
    · obtain ⟨u, hu, hagrees, hname, hkey⟩ := tidy.closed_agrees.resolves t ht r hr hg
      exact ⟨u, hu, .inl hagrees, hname, hkey⟩
    · obtain ⟨u, rfl, hu⟩ := ht.exists_inline hr
      exact ⟨u, rfl, .inl hu, rfl, hu.mem_keys⟩
  apart := fun _ _ _ _ ha _ ha' _ =>
    pairKey_inj (tidy.formed_unmarked ha) (tidy.formed_unmarked ha')

lemma bracketed_inj {pre pre' a b : String} (ha : '[' ∉ a.toList) (hb : '[' ∉ b.toList)
    (h : pre ++ "[" ++ a ++ "]" = pre' ++ "[" ++ b ++ "]") : a = b := by
  have hlist : (pre.toList ++ '[' :: (a.toList ++ [']'])).reverse =
      (pre'.toList ++ '[' :: (b.toList ++ [']'])).reverse := by
    have := congrArg (fun s : String => s.toList.reverse) h
    simpa using this
  simp only [List.reverse_append, List.reverse_cons, List.append_assoc, List.reverse_nil,
    List.nil_append, List.cons_append, List.cons.injEq, true_and] at hlist
  -- Read from the end, the name stands before the first bracket.
  have hname := (append_mark_inj (by simpa using ha) (by simpa using hb) hlist).1
  exact String.toList_inj.mp (List.reverse_injective hname)

lemma Instance.congr (tidy : Tidy reg) {a a' : Ty} (ha : Instance reg.Agrees a)
    (ha' : Instance reg.Agrees a') (hname : a.name = a'.name) (hcat : a.category = a'.category)
    (R : String → String → Prop) (e : Ty) :
    (ContentsRelated R a e → ContentsRelated R a' e) ∧
      (ContentsRelated R e a → ContentsRelated R e a') := by
  have target : ∀ {t u : Ty} {pre pre' : String}, reg.Agrees t → reg.Agrees u →
      pre ++ "[" ++ t.name ++ "]" = pre' ++ "[" ++ u.name ++ "]" →
      (TyRef.inline t).sameTarget (.inline u) = true := by
    intro t u pre pre' ht hu h
    have := bracketed_inj (tidy.not_bracket ht) (tidy.not_bracket hu) h
    simp [TyRef.sameTarget, TyRef.name, this]
  cases ha <;> cases ha' <;> try cases hcat
  case iterable.iterable ht _ _ _ _ _ ht' =>
    have hsame := target ht ht' hname
    constructor <;> intro h <;> cases e <;> simp only [ContentsRelated] at h ⊢
    · exact h.congr hsame (TyRef.sameTarget_refl _)
    · exact h.congr (TyRef.sameTarget_refl _) hsame
  case keyOf.keyOf ht _ _ _ _ ht' =>
    have hsame := target ht ht' hname
    constructor <;> intro h <;> cases e <;> simp only [ContentsRelated] at h ⊢
    · exact h.congr hsame (TyRef.sameTarget_refl _)
    · exact h.congr (TyRef.sameTarget_refl _) hsame

/-! ### Matching part by part -/

/-- A type can stand for another because of what both are: they have one definition, or their parts are
similar. -/
def MatchesByParts (reg : Registry) (a e : Ty) : Prop :=
  a.Same e ∨ ContentsRelated (Similar reg.Holds) a e

/-- Names of types that agree are similar among all types that are compared only if they are among the
registered ones. -/
lemma Tidy.similar_holds (tidy : Tidy reg) {a e : Ty} (ha : reg.Agrees a) (he : reg.Agrees e)
    (h : Similar reg.Formed a.name e.name) : Similar reg.Holds a.name e.name := by
  rw [← similar_agrees_iff tidy.coherent]
  refine ⟨fun x y => Similar reg.Formed x y ∧ (∃ t, reg.Agrees t ∧ t.name = x) ∧
    ∃ t, reg.Agrees t ∧ t.name = y, ?_, h, ⟨a, ha, rfl⟩, e, he, rfl⟩
  rintro x y ⟨hsim, ⟨t, ht, rfl⟩, u, hu, rfl⟩
  rcases isSimulation_similar _ _ _ hsim with heq | ⟨t', u', ht', hu', hname, hname', hcat, hrel⟩
  · exact .inl heq
  · have ht' := tidy.agrees_of_formed ht' ht hname
    have hu' := tidy.agrees_of_formed hu' hu hname'
    refine .inr ⟨t', u', ht', hu', hname, hname', hcat, hrel.mono fun r hr s hs hgr hgs h => ?_⟩
    obtain ⟨v, -, hv, hvr, -⟩ := tidy.closed_agrees.resolves t' ht' r hr hgr
    obtain ⟨w, -, hw, hws, -⟩ := tidy.closed_agrees.resolves u' hu' s hs hgs
    exact ⟨h, ⟨v, hv, hvr⟩, w, hw, hws⟩

/-- **Similar types match part by part**, if one of them agrees with the registry. -/
lemma Tidy.matchesByParts (tidy : Tidy reg) {a e : Ty} (ha : reg.Formed a) (he : reg.Formed e)
    (hagrees : reg.Agrees a ∨ reg.Agrees e) (hcat : e.name = a.name ∨ e.category = a.category)
    (h : Similar reg.Formed a.name e.name) : reg.MatchesByParts a e := by
  by_cases hname : a.name = e.name
  · -- A made-up name is no registered one, so both types agree.
    refine .inl (tidy.closed_agrees.same a e ?_ ?_ hname)
    · exact hagrees.elim id fun he => tidy.agrees_of_formed ha he hname
    · exact hagrees.elim (fun ha => tidy.agrees_of_formed he ha hname.symm) id
  have hcat := hcat.resolve_left fun h => hname h.symm
  obtain ⟨a', e', ha', he', hna, hne, hcat', hrel⟩ :=
    (isSimulation_similar _ _ _ h).resolve_left hname
  have contents : ContentsRelated (Similar reg.Formed) a e := by
    have same : ∀ {t u : Ty}, reg.Formed t → reg.Agrees u → t.name = u.name → t.Same u :=
      fun ht hu hname => tidy.closed_agrees.same _ _ (tidy.agrees_of_formed ht hu hname) hu hname
    rcases ha with ha | ha <;> rcases he with he | he
    · exact hrel.congr (same ha' ha hna) (same he' he hne)
    · have hrel := hrel.congr (same ha' ha hna) (.refl e')
      exact ((tidy.instance_of_formed he' he hne).congr tidy he hne
        (hrel.category_eq.symm.trans hcat.symm) _ a).2 hrel
    · have hrel := hrel.congr (.refl a') (same he' he hne)
      exact ((tidy.instance_of_formed ha' ha hna).congr tidy ha hna
        (hrel.category_eq.trans hcat) _ e).1 hrel
    · exact absurd (hagrees.elim (tidy.not_bracket · ha.bracket) (tidy.not_bracket · he.bracket)) id
  refine .inr (contents.mono fun r hr s hs hgr hgs h => ?_)
  -- The parts of both types agree with the registry.
  have part : ∀ {t : Ty} {r : TyRef}, reg.Formed t → r ∈ t.refs → r.isGeneric = false →
      ∃ u, reg.Agrees u ∧ u.name = r.name := by
    rintro t r (ht | ht) hr hg
    · obtain ⟨u, -, hu, hname, -⟩ := tidy.closed_agrees.resolves t ht r hr hg
      exact ⟨u, hu, hname⟩
    · obtain ⟨u, rfl, hu⟩ := ht.exists_inline hr
      exact ⟨u, hu, rfl⟩
  obtain ⟨v, hv, hvr⟩ := part ha hr hgr
  obtain ⟨w, hw, hws⟩ := part he hs hgs
  rw [← hvr, ← hws] at h ⊢
  exact tidy.similar_holds hv hw h

/-! ### What is remembered -/

/-- A registry with the same types, whose remembered matches of types that are compared are true. -/
structure Vouches (reg later : Registry) : Prop where
  types : later.types = reg.types
  sound : Sound reg.Formed later.verdicts

namespace Vouches

lemma fresh (reg : Registry) : reg.Vouches reg.fresh := ⟨rfl, fun _ _ _ _ h => nomatch h⟩

lemma followed (h : reg.Vouches later) (tidy : Tidy reg) : Followed later reg.Formed where
  resolves t ht r hr hg := by
    rw [resolve_of_types h.types, h.types]
    exact tidy.followed_formed.resolves t ht r hr hg
  apart := tidy.followed_formed.apart

lemma matchTypes (tidy : Tidy reg) (h : reg.Vouches later) {a e : Ty} (ha : reg.Formed a)
    (he : reg.Formed e) (source : Option Position) :
    reg.Vouches (later.matchTypes source a (some e)).2 :=
  ⟨(types_matchTypes later source a (some e)).trans h.types,
    (matchTypes_sound (h.followed tidy) h.sound ha he source).2⟩

/-- **What is found to match, matches part by part**, if one of the types agrees with the registry. -/
lemma matchesByParts (tidy : Tidy reg) (h : reg.Vouches later) {a e : Ty} (ha : reg.Formed a)
    (he : reg.Formed e) (hagrees : reg.Agrees a ∨ reg.Agrees e) {source : Option Position}
    (hok : (later.matchTypes source a (some e)).1 = .ok ()) : reg.MatchesByParts a e := by
  have hcat := (matchTypes_settles later source a e).2 hok
  exact tidy.matchesByParts ha he hagrees (hcat.imp_right And.left)
    ((matchTypes_sound (h.followed tidy) h.sound ha he source).1 hok)

lemma ask (tidy : Tidy reg) (h : reg.Vouches later) {q : Question} (hq : q.Of reg.Formed) :
    reg.Vouches (q.ask later) := by
  have hget : ∀ n t, later.get? n = some t → reg.Formed t := by
    intro n t ht
    rw [Registry.get?, h.types] at ht
    exact .inl (tidy.coherent n t ht)
  rcases hq.ask_cases hget rfl with hsame | ⟨source, a, e, ha, he, hmatch⟩
  · rw [hsame]
    exact h
  · rw [hmatch]
    exact h.matchTypes tidy ha he source

lemma asked (tidy : Tidy reg) (h : reg.Vouches later) {asked : List Question}
    (hasked : ∀ q ∈ asked, q.Of reg.Formed) : reg.Vouches (asked.foldl Question.ask later) := by
  induction asked generalizing later with
  | nil => exact h
  | cons q asked ih =>
    exact ih (h.ask tidy (hasked q List.mem_cons_self)) fun q hq =>
      hasked q (List.mem_cons_of_mem _ hq)

end Vouches

end Registry

end CellMachine
