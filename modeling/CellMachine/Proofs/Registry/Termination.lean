import CellMachine.Proofs.Registry.Parts
import CellMachine.Proofs.Registry.Written

/-!
Comparisons end. The runs of a comparison are told here without a bound on how deep they go, together
with the pairs whose contents are entered, in order. A run is finite by what it is, so that one has to
be found for every question.

What ends a run is that every pair that is entered is a new one, and that its names are written in the
registry or in the two types of the question. Nothing is asked of these: names may lead nowhere or
around in circles, types of one name may be different, and keys may be those of several pairs.
-/

namespace CellMachine

namespace Registry

/-! ### Runs -/

/-- Something to compare. -/
inductive Task where
  | types (expected actual : Ty)
  | parts (parts : List Part)

/-- A run of a comparison from one state of a query: the pairs whose contents it enters, the actual name
first, and how it ends. -/
inductive Run (reg : Registry) :
    Task → Query → List (String × String) → Outcome Unit × Query → Prop where
  | answered {e a : Ty} {q : Query} {o : Outcome Unit} (h : answer? e a q = some o) :
    Run reg (.types e a) q [] (o, q)
  | entered {e a : Ty} {q : Query} {ds : List (String × String)} {r : Outcome Unit × Query}
    (h : answer? e a q = none) (hparts : Run reg (.parts (parts e a)) (q.enter e a) ds r) :
    Run reg (.types e a) q ((a.name, e.name) :: ds) (leave e a r)
  | done {q : Query} : Run reg (.parts []) q [] (.ok (), q)
  | refused {p : Problem} {rest : List Part} {q : Query} :
    Run reg (.parts (.refusal p :: rest)) q [] (.error p, q)
  | known {e a : TyRef} {f : Problem → Problem} {rest : List Part} {q : Query}
    {ds : List (String × String)} {r : Outcome Unit × Query} (h : reg.lead e a = .inl (.ok ()))
    (hrest : Run reg (.parts rest) q ds r) : Run reg (.parts (.refs e a f :: rest)) q ds r
  | unfit {e a : TyRef} {f : Problem → Problem} {rest : List Part} {q : Query} {p : Problem}
    (h : reg.lead e a = .inl (.error p)) :
    Run reg (.parts (.refs e a f :: rest)) q [] (.error (f p), q)
  | fits {e a : TyRef} {f : Problem → Problem} {rest : List Part} {q q' : Query} {e' a' : Ty}
    {ds ds' : List (String × String)} {r : Outcome Unit × Query} (h : reg.lead e a = .inr (e', a'))
    (hfirst : Run reg (.types e' a') q ds (.ok (), q')) (hrest : Run reg (.parts rest) q' ds' r) :
    Run reg (.parts (.refs e a f :: rest)) q (ds ++ ds') r
  | fails {e a : TyRef} {f : Problem → Problem} {rest : List Part} {q q' : Query} {e' a' : Ty}
    {ds : List (String × String)} {p : Problem} (h : reg.lead e a = .inr (e', a'))
    (hfirst : Run reg (.types e' a') q ds (.error p, q')) :
    Run reg (.parts (.refs e a f :: rest)) q ds (.error (f p), q')

variable {reg : Registry}

/-- There is at most one run. -/
lemma Run.unique {task : Task} {q : Query} {ds ds' : List (String × String)}
    {r r' : Outcome Unit × Query} (h : Run reg task q ds r) (h' : Run reg task q ds' r') :
    ds' = ds ∧ r' = r := by
  -- On the first run; the conditions of its last rule exclude every other rule.
  induction h generalizing ds' r' with
  | answered h =>
    cases h' with
    | answered h' =>
      cases h.symm.trans h'
      exact ⟨rfl, rfl⟩
    | entered h' => cases h.symm.trans h'
  | entered h _ ih =>
    cases h' with
    | answered h' => cases h.symm.trans h'
    | entered h' hparts =>
      obtain ⟨rfl, rfl⟩ := ih hparts
      exact ⟨rfl, rfl⟩
  | done =>
    cases h'
    exact ⟨rfl, rfl⟩
  | refused =>
    cases h'
    exact ⟨rfl, rfl⟩
  | known h _ ih =>
    cases h' with
    | known h' hrest => exact ih hrest
    | unfit h' => cases h.symm.trans h'
    | fits h' => cases h.symm.trans h'
    | fails h' => cases h.symm.trans h'
  | unfit h =>
    cases h' with
    | known h' => cases h.symm.trans h'
    | unfit h' =>
      cases h.symm.trans h'
      exact ⟨rfl, rfl⟩
    | fits h' => cases h.symm.trans h'
    | fails h' => cases h.symm.trans h'
  | fits h _ _ ih ih' =>
    cases h' with
    | known h' => cases h.symm.trans h'
    | unfit h' => cases h.symm.trans h'
    | fits h' hfirst hrest =>
      cases h.symm.trans h'
      obtain ⟨rfl, heq⟩ := ih hfirst
      cases heq
      obtain ⟨rfl, rfl⟩ := ih' hrest
      exact ⟨rfl, rfl⟩
    | fails h' hfirst =>
      cases h.symm.trans h'
      obtain ⟨-, heq⟩ := ih hfirst
      cases heq
  | fails h _ ih =>
    cases h' with
    | known h' => cases h.symm.trans h'
    | unfit h' => cases h.symm.trans h'
    | fits h' hfirst =>
      cases h.symm.trans h'
      obtain ⟨-, heq⟩ := ih hfirst
      cases heq
    | fails h' hfirst =>
      cases h.symm.trans h'
      obtain ⟨rfl, heq⟩ := ih hfirst
      cases heq
      exact ⟨rfl, rfl⟩

/-! ### Names that can be met -/

/-- The types that a question can lead to: those that are written in its two types or in a registered
one. -/
def Encountered (reg : Registry) (e a t : Ty) : Prop := ∃ u ∈ e :: a :: reg.types.values, t.Within u

/-- The names of the types that a question can lead to. -/
def writtenNames (reg : Registry) (e a : Ty) : List String :=
  ((e :: a :: reg.types.values).flatMap Ty.written).map Ty.name

variable {expected actual : Ty}

lemma Encountered.mem_writtenNames {t : Ty} (h : reg.Encountered expected actual t) :
    t.name ∈ reg.writtenNames expected actual := by
  obtain ⟨u, hu, ht⟩ := h
  exact List.mem_map_of_mem (List.mem_flatMap.mpr ⟨u, hu, Ty.mem_written.mpr ht⟩)

lemma Encountered.resolve {t u : Ty} (h : reg.Encountered expected actual t) {r : TyRef}
    (hr : r ∈ t.refs) (hu : reg.resolve r = .ok u) : reg.Encountered expected actual u := by
  cases r with
  | inline v =>
    cases hu
    obtain ⟨w, hw, ht⟩ := h
    exact ⟨w, hw, (Ty.Within.inline hr .refl).trans ht⟩
  | named n =>
    rw [Registry.resolve] at hu
    split at hu
    · next hv =>
      cases hu
      exact ⟨u, List.mem_cons_of_mem _ (List.mem_cons_of_mem _
        (List.mem_map_of_mem (KeyMap.mem_of_get? hv))), .refl⟩
    · cases hu
  | generic _ _ => cases hu

lemma Encountered.lead {t u : Ty} (ht : reg.Encountered expected actual t)
    (hu : reg.Encountered expected actual u) {r s : TyRef} (hr : r ∈ t.refs) (hs : s ∈ u.refs)
    {e a : Ty} (h : reg.lead r s = .inr (e, a)) :
    reg.Encountered expected actual e ∧ reg.Encountered expected actual a := by
  rw [Registry.lead] at h
  split at h
  · cases h
  split at h
  · cases h
  next hre =>
  split at h
  · cases h
  next hra =>
  cases h
  exact ⟨ht.resolve hr hre, hu.resolve hs hra⟩

mutual

lemma Ty.length_written : ∀ t : Ty, t.written.length ≤ t.size
  | .native .. => Nat.le_refl 1
  | .iterable _ _ e _ => by
    have := TyRef.length_written e
    simp only [Ty.written, Ty.size, List.length_cons]
    omega
  | .structured _ _ m => by
    have := length_writtenStores m
    simp only [Ty.written, Ty.size, List.length_cons]
    omega
  | .callable _ _ a r => by
    have := TyRef.length_written a
    have := TyRef.length_written r
    simp only [Ty.written, Ty.size, List.length_cons, List.length_append]
    omega
  | .keyOf _ _ o => by
    have := TyRef.length_written o
    simp only [Ty.written, Ty.size, List.length_cons]
    omega

lemma TyRef.length_written : ∀ r : TyRef, r.written.length ≤ r.size
  | .inline t => Ty.length_written t
  | .named _ => Nat.zero_le _
  | .generic .. => Nat.zero_le _

lemma length_writtenStores : ∀ m : List (String × TyRef), (writtenStores m).length ≤ sizeStores m
  | [] => Nat.le_refl 0
  | (_, r) :: m => by
    have := TyRef.length_written r
    have := length_writtenStores m
    simp only [writtenStores, sizeStores, List.length_append]
    omega

end

lemma length_writtenNames (reg : Registry) (e a : Ty) :
    (reg.writtenNames e a).length ≤ reg.weight + e.size + a.size := by
  have registered : ∀ types : KeyMap String Ty, (types.values.flatMap Ty.written).length ≤
      types.foldr (fun e n => e.2.size + n) 0 := by
    intro types
    induction types with
    | nil => exact Nat.le_refl 0
    | cons entry types ih =>
      have := Ty.length_written entry.2
      simp only [KeyMap.values, List.map_cons, List.flatMap_cons, List.length_append,
        List.foldr_cons] at ih ⊢
      omega
  have := registered reg.types
  have := Ty.length_written e
  have := Ty.length_written a
  simp only [writtenNames, weight, List.length_map, List.flatMap_cons, List.length_append]
  omega

/-! ### Every comparison has a run -/

/-- A run that enters pairs of some names, each for the first time, with room left. -/
structure Traced (reg : Registry) (names : List String) (fuel : Nat) (task : Task) (q : Query)
    (ds : List (String × String)) (r : Outcome Unit × Query) : Prop where
  run : Run reg task q ds r
  room : Room (pairKeys names) fuel r.2
  entered : r.2.entered = (ds.map fun d => pairKey d.1 d.2).reverse ++ q.entered
  named : ds ⊆ names ×ˢ names

variable {names : List String} {fuel : Nat}

lemma Traced.of_nil {task : Task} {q : Query} {o : Outcome Unit} (h : Run reg task q [] (o, q))
    (hq : Room (pairKeys names) fuel q) : Traced reg names fuel task q [] (o, q) :=
  ⟨h, hq, rfl, List.nil_subset _⟩

/-- Parts are compared in a run if the types are that they lead to. -/
lemma exists_run_parts {compareTypes : Ty → Ty → Compare} {ps : List Part}
    (htypes : ∀ r s f, .refs r s f ∈ ps → ∀ e a, reg.lead r s = .inr (e, a) → ∀ q,
      Room (pairKeys names) fuel q →
      ∃ ds, Traced reg names fuel (.types e a) q ds (compareTypes e a q))
    {q : Query} (hq : Room (pairKeys names) fuel q) :
    ∃ ds, Traced reg names fuel (.parts ps) q ds
      (compareParts (reg.compareRefs compareTypes) ps q) := by
  induction ps generalizing q with
  | nil => exact ⟨[], .of_nil .done hq⟩
  | cons part ps ih =>
    cases part with
    | refusal p => exact ⟨[], .of_nil .refused hq⟩
    | refs r s f =>
      have rest := fun {q} => @ih (fun r s f h => htypes r s f (List.mem_cons_of_mem _ h)) q
      rw [compareParts, Compare.andThen, Compare.explain, compareRefs_eq]
      cases hlead : reg.lead r s with
      | inl o =>
        cases o with
        | error p => exact ⟨[], .of_nil (.unfit hlead) hq⟩
        | ok _ =>
          obtain ⟨ds, hds⟩ := rest hq
          exact ⟨ds, .known hlead hds.run, hds.room, hds.entered, hds.named⟩
      | inr types =>
        obtain ⟨ds, hds⟩ := htypes r s f List.mem_cons_self types.1 types.2 hlead q hq
        dsimp only
        generalize compareTypes types.1 types.2 q = first at hds
        obtain ⟨o, q'⟩ := first
        cases o with
        | error p => exact ⟨ds, .fails hlead hds.run, hds.room, hds.entered, hds.named⟩
        | ok _ =>
          obtain ⟨ds', hds'⟩ := rest hds.room
          refine ⟨ds ++ ds', .fits hlead hds.run hds'.run, hds'.room, ?_,
            List.append_subset.mpr ⟨hds.named, hds'.named⟩⟩
          rw [hds'.entered, hds.entered, List.map_append, List.reverse_append, List.append_assoc]

lemma entered_leave (e a : Ty) (r : Outcome Unit × Query) : (leave e a r).2.entered = r.2.entered := by
  obtain ⟨_ | _, _⟩ := r <;> rfl

/-- **Comparisons end**: with more fuel than there are pairs left to enter, a comparison is a run. -/
lemma exists_run_types {e a : Ty} (he : reg.Encountered expected actual e)
    (ha : reg.Encountered expected actual a) {q : Query}
    (hq : Room (pairKeys (reg.writtenNames expected actual)) fuel q) :
    ∃ ds, Traced reg (reg.writtenNames expected actual) fuel (.types e a) q ds
      (reg.compareTypes fuel e a q) := by
  -- On the fuel, which stays above the number of pairs that are left to enter.
  induction fuel generalizing e a q with
  | zero => exact absurd hq not_room_zero
  | succ fuel ih =>
    rw [compareTypes_succ]
    cases hanswer : answer? e a q with
    | some o => exact ⟨[], .of_nil (.answered hanswer) hq⟩
    | none =>
      have hroom : Room (pairKeys (reg.writtenNames expected actual)) fuel (q.enter e a) :=
        hq.enter (mem_pairKeys ha.mem_writtenNames he.mem_writtenNames)
          (not_mem_entered_of_answer?_eq_none hanswer)
      have hbelow : ∀ r s f, .refs r s f ∈ parts e a → ∀ e' a', reg.lead r s = .inr (e', a') →
          ∀ q', Room (pairKeys (reg.writtenNames expected actual)) fuel q' →
          ∃ ds, Traced reg (reg.writtenNames expected actual) fuel (.types e' a') q' ds
            (reg.compareTypes fuel e' a' q') := by
        intro r s f hmem e' a' hlead q' hq'
        have hrefs := (parallel_of_mem_parts hmem).mem_refs
        obtain ⟨he', ha'⟩ := he.lead ha hrefs.1 hrefs.2 hlead
        exact ih he' ha' hq'
      obtain ⟨ds, hds⟩ := exists_run_parts hbelow hroom
      refine ⟨(a.name, e.name) :: ds, .entered hanswer hds.run, ?_, ?_, ?_⟩
      · have hsucc := hds.room.succ
        exact ⟨(entered_leave ..).symm ▸ hsucc.nodup, (entered_leave ..).symm ▸ hsucc.subset,
          (entered_leave ..).symm ▸ hsucc.fuel⟩
      · dsimp only
        rw [entered_leave, hds.entered, List.map_cons, List.reverse_cons, List.append_assoc]
        rfl
      · exact List.cons_subset.mpr
          ⟨List.mem_product.mpr ⟨ha.mem_writtenNames, he.mem_writtenNames⟩, hds.named⟩

/-- **Matching ends.** In every registry, and for any two types, there is exactly one run, and it gives
the answer. It enters the contents of no pair of names twice, and only of pairs of names that are
written in the registry or in the two types, so that it enters at most as many contents as there are
pairs of such names. -/
theorem matching_terminates (reg : Registry) (source : Option Position) (actual : Ty)
    (expected : Option Ty) :
    match expected <|> reg.get? actual.name with
    | none => reg.matchTypes source actual expected =
        (.error ((Problem.mk .unknownType source []).set "type" actual.name), reg)
    | some e => ∃ descents result,
        (∀ ds r, Run reg (.types e actual) ⟨[], reg.verdicts⟩ ds r ↔ ds = descents ∧ r = result) ∧
        reg.matchTypes source actual expected = reg.conclude source result ∧
        descents.Nodup ∧
        (∀ d ∈ descents, d.1 ∈ reg.writtenNames e actual ∧ d.2 ∈ reg.writtenNames e actual) ∧
        descents.length ≤
          (reg.writtenNames e actual).dedup.length * (reg.writtenNames e actual).dedup.length := by
  cases hexpected : expected <|> reg.get? actual.name with
  | none => rw [matchTypes, hexpected]
  | some e =>
    dsimp only
    have he : reg.Encountered e actual e := ⟨e, List.mem_cons_self, .refl⟩
    have ha : reg.Encountered e actual actual :=
      ⟨actual, List.mem_cons_of_mem _ List.mem_cons_self, .refl⟩
    obtain ⟨ds, hds⟩ := exists_run_types he ha
      (room_of_length_le (length_writtenNames reg e actual) reg.verdicts)
    have hnodup : ds.Nodup := by
      have := hds.room.nodup
      rw [hds.entered, List.append_nil, List.nodup_reverse] at this
      exact this.of_map _
    have hnamed : ∀ d ∈ ds, d.1 ∈ reg.writtenNames e actual ∧ d.2 ∈ reg.writtenNames e actual :=
      fun d hd => List.mem_product.mp (hds.named hd)
    refine ⟨ds, _, fun ds' r' => ⟨hds.run.unique, fun h => h.1 ▸ h.2 ▸ hds.run⟩, ?_, hnodup,
      hnamed, ?_⟩
    · rw [← matchTypes_eq, matchTypes, hexpected]
      rfl
    · rw [← List.length_product]
      exact (hnodup.subperm fun d hd => List.mem_product.mpr
        ⟨List.mem_dedup.mpr (hnamed d hd).1, List.mem_dedup.mpr (hnamed d hd).2⟩).length_le

end Registry

end CellMachine
