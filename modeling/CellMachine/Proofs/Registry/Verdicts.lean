import CellMachine.Proofs.Registry.Matching

/-!
Verdicts stand. A verdict that is remembered is never replaced, and a pair that was found to match is
remembered as one, so that it is found to match again, whatever is asked of the registry in between.
Nothing is assumed of the types that are compared, or of what is remembered at the start.
-/

namespace CellMachine

namespace Registry

/-! ### Queries -/

/-- What a comparison does to a query: verdicts and entered pairs are kept, an entered pair that has no
verdict gets none, and no other pair is remembered as a match. -/
structure Query.Onward (q q' : Query) : Prop where
  kept : ∀ key v, q.verdicts.get? key = some v → q'.verdicts.get? key = some v
  entered : ∀ key ∈ q.entered, key ∈ q'.entered
  unsettled : ∀ key ∈ q.entered, q.verdicts.get? key = none → q'.verdicts.get? key = none
  matched : ∀ key, q'.verdicts.get? key = some none → q.verdicts.get? key = some none

namespace Query.Onward

lemma refl (q : Query) : q.Onward q :=
  ⟨fun _ _ h => h, fun _ h => h, fun _ _ h => h, fun _ h => h⟩

lemma trans {q q' q'' : Query} (h : q.Onward q') (h' : q'.Onward q'') : q.Onward q'' where
  kept key v hv := h'.kept key v (h.kept key v hv)
  entered key hkey := h'.entered key (h.entered key hkey)
  unsettled key hkey hnone := h'.unsettled key (h.entered key hkey) (h.unsettled key hkey hnone)
  matched key hkey := h.matched key (h'.matched key hkey)

/-- A pair that was not entered and has no verdict may be refused. -/
lemma insert {q q' : Query} (h : q.Onward q') {key : String} (hkey : key ∉ q.entered)
    (hnone : q.verdicts.get? key = none) (p : Problem) :
    q.Onward { q' with verdicts := q'.verdicts.insert key (some p) } where
  kept key' v' hv := by
    rw [KeyMap.get?_insert, if_neg]
    · exact h.kept key' v' hv
    · rintro rfl
      rw [hnone] at hv
      cases hv
  entered := h.entered
  unsettled key' hkey' hnone' := by
    rw [KeyMap.get?_insert, if_neg]
    · exact h.unsettled key' hkey' hnone'
    · rintro rfl
      exact hkey hkey'
  matched key' hkey' := by
    rw [KeyMap.get?_insert] at hkey'
    split at hkey'
    · cases hkey'
    · exact h.matched key' hkey'

end Query.Onward

/-- A comparison that only goes on with a query. -/
def Compare.Keeps (c : Compare) : Prop := ∀ q : Query, q.Onward (c q).2

lemma keeps_answer (o : Outcome Unit) : Compare.Keeps fun q => (o, q) := fun q => .refl q

lemma Compare.Keeps.andThen {c d : Compare} (hc : c.Keeps) (hd : d.Keeps) : (c.andThen d).Keeps := by
  intro q
  have h := hc q
  unfold Compare.andThen
  generalize c q = r at h ⊢
  obtain ⟨_ | _, q'⟩ := r
  · exact h
  · exact h.trans (hd q')

lemma Compare.Keeps.explain {c : Compare} (hc : c.Keeps) (f : Problem → Problem) :
    (c.explain f).Keeps := by
  intro q
  have h := hc q
  unfold Compare.explain
  generalize c q = r at h ⊢
  obtain ⟨_ | _, q'⟩ := r <;> exact h

lemma keeps_compareRefs (reg : Registry) {ct : Ty → Ty → Compare}
    (hct : ∀ e a, (ct e a).Keeps) (e a : TyRef) : (reg.compareRefs ct e a).Keeps := by
  intro q
  unfold compareRefs
  split
  · split <;> exact .refl q
  · split
    · exact .refl q
    · split
      · exact .refl q
      · exact hct _ _ q

lemma keeps_compareStores {compare : TyRef → TyRef → Compare}
    (hcompare : ∀ e a, (compare e a).Keeps) (expected actual : Ty)
    (available : KeyMap String TyRef) (asked : List (String × TyRef)) :
    (compareStores compare expected actual available asked).Keeps := by
  induction asked with
  | nil => exact keeps_answer _
  | cons e asked ih =>
    intro q
    rw [compareStores]
    split
    · exact .refl q
    · exact (((hcompare _ _).explain _).andThen ih) q

lemma keeps_compareContents {compare : TyRef → TyRef → Compare}
    (hcompare : ∀ e a, (compare e a).Keeps) (expected actual : Ty) :
    (compareContents compare expected actual).Keeps := by
  unfold compareContents
  split
  · intro q
    dsimp only
    split <;> exact .refl q
  · exact hcompare _ _
  · exact keeps_compareStores hcompare _ _ _ _
  · exact (hcompare _ _).andThen (hcompare _ _)
  · exact hcompare _ _
  · exact keeps_answer _

lemma keeps_compareTypes (reg : Registry) (fuel : Nat) (expected actual : Ty) :
    (reg.compareTypes fuel expected actual).Keeps := by
  induction fuel generalizing expected actual with
  | zero => exact keeps_answer _
  | succ fuel ih =>
    intro q
    rw [compareTypes]
    split
    · exact .refl q
    split
    · exact .refl q
    dsimp only
    split
    · exact .refl q
    next hentered =>
    have hkey : pairKey actual.name expected.name ∉ q.entered :=
      fun h => hentered (List.contains_iff_mem.mpr h)
    cases hverdict : q.verdicts.get? (pairKey actual.name expected.name) with
    | some v => cases v <;> exact .refl q
    | none =>
      -- The contents are compared with the pair entered, so they leave it without a verdict.
      have enter : q.Onward { q with entered := pairKey actual.name expected.name :: q.entered } :=
        ⟨fun _ _ h => h, fun _ h => List.mem_cons_of_mem _ h, fun _ _ h => h, fun _ h => h⟩
      have inner := keeps_compareContents (keeps_compareRefs reg ih) expected actual
        { q with entered := pairKey actual.name expected.name :: q.entered }
      dsimp only
      generalize compareContents _ expected actual _ = r at inner ⊢
      obtain ⟨o, q'⟩ := r
      have onward := enter.trans inner
      cases o with
      | ok _ => exact onward
      | error p => exact onward.insert hkey hverdict _

/-! ### Verdicts -/

lemma get?_foldl_insertNew (verdicts : KeyMap String (Option Problem)) (entered : List String) :
    (∀ key v, verdicts.get? key = some v →
      (entered.foldl (fun m key => m.insertNew key none) verdicts).get? key = some v) ∧
    ∀ key ∈ entered, verdicts.get? key = none →
      (entered.foldl (fun m key => m.insertNew key none) verdicts).get? key = some none := by
  induction entered generalizing verdicts with
  | nil => exact ⟨fun _ _ h => h, nofun⟩
  | cons k entered ih =>
    obtain ⟨kept, added⟩ := ih (verdicts.insertNew k none)
    have new : ∀ key, k = key → verdicts.get? key = none →
        (verdicts.insertNew k none).get? key = some none := by
      rintro key rfl hnone
      rw [KeyMap.get?_insertNew, if_pos rfl, hnone, Option.getD_none]
    refine ⟨fun key v hv => kept key v ?_, fun key hkey hnone => ?_⟩
    · rw [KeyMap.get?_insertNew]
      split
      · next h => rw [h, hv, Option.getD_some]
      · exact hv
    · by_cases h : k = key
      · exact kept key none (new key h hnone)
      · refine added key ((List.mem_cons.mp hkey).resolve_left fun hk => h hk.symm) ?_
        rw [KeyMap.get?_insertNew, if_neg h, hnone]

lemma of_get?_foldl_insertNew {verdicts : KeyMap String (Option Problem)} {entered : List String}
    {key : String} {v : Option Problem}
    (h : (entered.foldl (fun m key => m.insertNew key none) verdicts).get? key = some v) :
    verdicts.get? key = some v ∨ key ∈ entered ∧ v = none := by
  induction entered generalizing verdicts with
  | nil => exact .inl h
  | cons k entered ih =>
    rcases ih h with hget | ⟨hkey, hv⟩
    · rw [KeyMap.get?_insertNew] at hget
      split at hget
      · next hk =>
        subst hk
        cases hold : verdicts.get? k with
        | none =>
          rw [hold] at hget
          exact .inr ⟨List.mem_cons_self, (Option.some.inj hget).symm⟩
        | some w =>
          rw [hold] at hget
          exact .inl hget
      · exact .inl hget
    · exact .inr ⟨List.mem_cons_of_mem _ hkey, hv⟩

/-- One registry comes from another by questions alone. -/
def Asked (reg later : Registry) : Prop := ∃ asked : List Question, later = asked.foldl Question.ask reg

/-- A type is found to match where another is expected, wherever that is asked. -/
def Accepts (reg : Registry) (actual expected : Ty) : Prop :=
  ∀ source, (reg.matchTypes source actual (some expected)).1 = .ok ()

/-- What is known of two types that match: they have one name, or they are of one category and the
pair is remembered as a match. -/
def Settled (reg : Registry) (actual expected : Ty) : Prop :=
  expected.name = actual.name ∨ expected.category = actual.category ∧
    reg.verdicts.get? (pairKey actual.name expected.name) = some none

variable {reg later : Registry} {actual expected : Ty}

lemma Settled.accepts (h : reg.Settled actual expected) : reg.Accepts actual expected := by
  intro source
  have hcompare : (reg.compareTypes (reg.fuelFor expected actual) expected actual
      ⟨[], reg.verdicts⟩).1 = .ok () := by
    rw [fuelFor, compareTypes]
    split
    · rfl
    next hname =>
    obtain ⟨hcat, hverdict⟩ := h.resolve_left hname
    rw [if_neg (not_not.mpr hcat)]
    simp only [hverdict, List.contains_nil, Bool.false_eq_true, if_false]
  rw [matchTypes_some]
  generalize reg.compareTypes _ expected actual _ = r at hcompare ⊢
  obtain ⟨o, q⟩ := r
  cases hcompare
  rfl

lemma matchTypes_settles (reg : Registry) (source : Option Position) (actual expected : Ty) :
    (∀ key v, reg.verdicts.get? key = some v →
      (reg.matchTypes source actual (some expected)).2.verdicts.get? key = some v) ∧
    ((reg.matchTypes source actual (some expected)).1 = .ok () →
      (reg.matchTypes source actual (some expected)).2.Settled actual expected) := by
  have keeps := keeps_compareTypes reg (reg.fuelFor expected actual) expected actual
    ⟨[], reg.verdicts⟩
  have settles : ∀ q, reg.compareTypes (reg.fuelFor expected actual) expected actual
      ⟨[], reg.verdicts⟩ = (.ok (), q) → expected.name = actual.name ∨
      expected.category = actual.category ∧
        (q.verdicts.get? (pairKey actual.name expected.name) = some none ∨
          pairKey actual.name expected.name ∈ q.entered ∧
            q.verdicts.get? (pairKey actual.name expected.name) = none) := by
    intro q hq
    rw [fuelFor, compareTypes] at hq
    split at hq
    · next hname => exact .inl hname
    split at hq
    · cases hq
    next hcat =>
    refine .inr ⟨not_not.mp hcat, ?_⟩
    simp only [List.contains_nil, Bool.false_eq_true, if_false] at hq
    cases hverdict : reg.verdicts.get? (pairKey actual.name expected.name) with
    | some v =>
      rw [hverdict] at hq
      cases v with
      | none =>
        cases hq
        exact .inl hverdict
      | some p => cases hq
    | none =>
      rw [hverdict] at hq
      dsimp only at hq
      -- Comparing the contents neither drops the pair nor gives it a verdict.
      have inner := keeps_compareContents (keeps_compareRefs reg
        (keeps_compareTypes reg ((reg.weight + expected.size + actual.size) *
          (reg.weight + expected.size + actual.size)))) expected actual
        ⟨[pairKey actual.name expected.name], reg.verdicts⟩
      generalize compareContents _ expected actual _ = r at inner hq
      obtain ⟨_ | _, q'⟩ := r
      · cases hq
      · cases hq
        exact .inr ⟨inner.entered _ List.mem_cons_self, inner.unsettled _ List.mem_cons_self hverdict⟩
  rw [matchTypes_some]
  generalize reg.compareTypes _ expected actual _ = r at keeps settles ⊢
  obtain ⟨_ | _, q⟩ := r
  · exact ⟨keeps.kept, fun h => by cases h⟩
  · obtain ⟨kept, added⟩ := get?_foldl_insertNew q.verdicts q.entered
    refine ⟨fun key v hv => kept key v (keeps.kept key v hv), fun _ => ?_⟩
    refine (settles q rfl).imp_right (And.imp_right fun hverdict => ?_)
    exact hverdict.elim (kept _ _) fun h => added _ h.1 h.2

lemma ask_cases (reg : Registry) (q : Question) :
    q.ask reg = reg ∨ ∃ source a e, q.ask reg = (reg.matchTypes source a (some e)).2 := by
  cases q with
  | types source a e =>
    cases e with
    | some e => exact .inr ⟨source, a, e, rfl⟩
    | none =>
      rw [Question.ask]
      cases hown : reg.get? a.name with
      | none => exact .inl (by simp [matchTypes, hown])
      | some e => exact .inr ⟨source, a, e, by simp only [matchTypes, hown]; rfl⟩
  | refs source a e =>
    rw [Question.ask, matchRefs]
    split
    · split <;> exact .inl rfl
    · split
      · exact .inl rfl
      · split
        · exact .inl rfl
        · exact .inr ⟨source, _, _, rfl⟩

lemma types_ask (reg : Registry) (q : Question) : (q.ask reg).types = reg.types := by
  rcases ask_cases reg q with h | ⟨source, a, e, h⟩
  · rw [h]
  · rw [h, types_matchTypes]

lemma Settled.ask (h : reg.Settled actual expected) (q : Question) :
    (q.ask reg).Settled actual expected := by
  refine h.imp_right fun ⟨hcat, hverdict⟩ => ⟨hcat, ?_⟩
  rcases ask_cases reg q with h | ⟨source, a, e, h⟩
  · rw [h]
    exact hverdict
  · rw [h]
    exact (matchTypes_settles reg source a e).1 _ _ hverdict

namespace Asked

lemma refl (reg : Registry) : reg.Asked reg := ⟨[], rfl⟩

lemma single (reg : Registry) (q : Question) : reg.Asked (q.ask reg) := ⟨[q], rfl⟩

lemma trans {latest : Registry} (h : reg.Asked later) (h' : later.Asked latest) :
    reg.Asked latest := by
  obtain ⟨asked, rfl⟩ := h
  obtain ⟨asked', rfl⟩ := h'
  exact ⟨asked ++ asked', by rw [List.foldl_append]⟩

lemma types (h : reg.Asked later) : later.types = reg.types := by
  obtain ⟨asked, rfl⟩ := h
  induction asked using List.reverseRecOn with
  | nil => rfl
  | append_singleton asked q ih =>
    rw [List.foldl_append, List.foldl_cons, List.foldl_nil, types_ask, ih]

lemma settled (h : reg.Asked later) (hsettled : reg.Settled actual expected) :
    later.Settled actual expected := by
  obtain ⟨asked, rfl⟩ := h
  induction asked using List.reverseRecOn with
  | nil => exact hsettled
  | append_singleton asked q ih =>
    rw [List.foldl_append, List.foldl_cons, List.foldl_nil]
    exact ih.ask q

/-- **A match stands**: types that were found to match are found to match ever after. -/
theorem accepts {source : Option Position}
    (hok : (reg.matchTypes source actual (some expected)).1 = .ok ())
    (h : (reg.matchTypes source actual (some expected)).2.Asked later) :
    later.Accepts actual expected :=
  (h.settled ((matchTypes_settles reg source actual expected).2 hok)).accepts

end Asked

end Registry

end CellMachine
