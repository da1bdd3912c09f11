import CellMachine.Proofs.Registry.Culprits

/-!
A comparison of two types as a list of things to do. What is known of a pair answers it at once. Else
its contents are compared part by part: a part is a refusal, or two references that stand at the same
place, and the first part that fails ends the list.
-/

namespace CellMachine

namespace Registry

/-- One thing that comparing the contents of two types comes to. -/
inductive Part where
  /-- The types do not go together. -/
  | refusal (p : Problem)
  /-- Two references have to match. A failure is told in the words of the types they stand in. -/
  | refs (expected actual : TyRef) (explain : Problem → Problem)

/-- What an expected member comes to. -/
def memberPart (expected actual : Ty) (available : KeyMap String TyRef) (member : String × TyRef) :
    Part :=
  match available.get? member.1 with
  | none => .refusal (((mismatch expected actual).set "missing_key" member.1).set "missing_key_type"
    member.2.text)
  | some a => .refs member.2 a fun p => p.add "key" member.1

/-- What the contents of two types come to, in the order of the comparison. -/
def parts (expected actual : Ty) : List Part :=
  match expected, actual with
  | .native _ _ e _, .native _ _ a _ =>
    if e = a then []
    else [.refusal
      (((mismatch expected actual).set "expected_internal" e).set "actual_internal" a)]
  | .iterable _ _ e _, .iterable _ _ a _ => [.refs e a id]
  | .structured _ _ m, .structured _ _ n => m.map (memberPart expected actual n)
  | .callable _ _ ea er, .callable _ _ aa ar => [.refs er ar id, .refs ea aa id]
  | .keyOf _ _ e, .keyOf _ _ a => [.refs e a id]
  | _, _ => [.refusal (mismatch expected actual)]

/-- Compares one part after the other. -/
def compareParts (compare : TyRef → TyRef → Compare) : List Part → Compare
  | [], q => (.ok (), q)
  | .refusal p :: _, q => (.error p, q)
  | .refs e a f :: rest, q => ((compare e a).explain f).andThen (compareParts compare rest) q

lemma compareParts_singleton (compare : TyRef → TyRef → Compare) (e a : TyRef) :
    compareParts compare [.refs e a id] = compare e a := by
  funext q
  rw [compareParts, Compare.andThen, Compare.explain]
  generalize compare e a q = r
  obtain ⟨_ | _, _⟩ := r <;> rfl

lemma compareStores_eq (compare : TyRef → TyRef → Compare) (expected actual : Ty)
    (available : KeyMap String TyRef) (asked : List (String × TyRef)) :
    compareStores compare expected actual available asked =
      compareParts compare (asked.map (memberPart expected actual available)) := by
  induction asked with
  | nil => rfl
  | cons member asked ih =>
    funext q
    rw [compareStores, List.map_cons, memberPart, ih]
    cases available.get? member.1 <;> rfl

/-- **Contents are compared part by part.** -/
lemma compareContents_eq (compare : TyRef → TyRef → Compare) (expected actual : Ty) :
    compareContents compare expected actual = compareParts compare (parts expected actual) := by
  cases expected <;> cases actual <;> simp only [compareContents, parts, compareParts_singleton]
  case native.native =>
    funext q
    split <;> rfl
  case structured.structured => exact compareStores_eq ..
  case callable.callable =>
    funext q
    simp only [compareParts, Compare.andThen, Compare.explain]
    generalize compare _ _ q = r
    obtain ⟨_ | _, q'⟩ := r
    · rfl
    · dsimp only
      generalize compare _ _ q' = r'
      obtain ⟨_ | _, _⟩ := r' <;> rfl
  all_goals rfl

lemma parallel_of_mem_parts {e a : Ty} {r s : TyRef} {f : Problem → Problem}
    (h : .refs r s f ∈ parts e a) : Parallel e a r s := by
  cases e <;> cases a <;> simp only [parts] at h
  case native.native => split at h <;> simp at h
  case iterable.iterable =>
    cases List.mem_singleton.mp h
    exact .element
  case structured.structured =>
    obtain ⟨member, hmember, heq⟩ := List.mem_map.mp h
    rw [memberPart] at heq
    split at heq
    · cases heq
    · next hget =>
      cases heq
      exact .member hmember hget
  case callable.callable =>
    rcases List.mem_cons.mp h with heq | h
    · cases heq
      exact .result
    · cases List.mem_singleton.mp h
      exact .argument
  case keyOf.keyOf =>
    cases List.mem_singleton.mp h
    exact .owner
  all_goals simp at h

/-! ### Types of one definition -/

/-- Parts that come to the same for types of the same definitions. -/
inductive SamePart (e a e' a' : Ty) : Part → Part → Prop where
  | refusal (p : Problem) : SamePart e a e' a' (.refusal p) (.refusal p)
  | refs {r s r' s' : TyRef} (f : Problem → Problem) (h : Parallel e a r s)
    (h' : Parallel e' a' r' s') (hr : r.sameTarget r' = true) (hs : s.sameTarget s' = true) :
    SamePart e a e' a' (.refs r s f) (.refs r' s' f)

lemma mismatch_eq {e a e' a' : Ty} (he : e.Same e') (ha : a.Same a') :
    mismatch e a = mismatch e' a' := by
  rw [mismatch, mismatch, he.name_eq, ha.name_eq]

/-- **The parts are those of the definitions.** -/
lemma forall₂_parts {e a e' a' : Ty} (he : e.Same e') (ha : a.Same a') :
    List.Forall₂ (SamePart e a e' a') (parts e a) (parts e' a') := by
  have hmismatch := mismatch_eq he ha
  cases e <;> cases e' <;> simp only [Ty.Same] at he <;> cases a <;> cases a' <;>
    simp only [Ty.Same] at ha
  case native.native.native.native =>
    simp only [parts, ← he.2, ← ha.2, hmismatch]
    split
    · exact .nil
    · exact .cons (.refusal _) .nil
  case iterable.iterable.iterable.iterable =>
    exact .cons (.refs id .element .element he.2.2 ha.2.2) .nil
  case structured.structured.structured.structured n s m n' s' m' k t l k' t' l' =>
    refine List.forall₂_map_left_iff.mpr (List.forall₂_map_right_iff.mpr ?_)
    refine List.forall₂_iff_get.mpr ⟨he.2.length_eq, fun i hi hi' => ?_⟩
    obtain ⟨hkey, htarget⟩ := (List.forall₂_iff_get.mp he.2).2 i hi hi'
    have hmem := List.get_mem m ⟨i, hi⟩
    have hmem' := List.get_mem m' ⟨i, hi'⟩
    generalize m.get ⟨i, hi⟩ = member at hkey htarget hmem
    generalize m'.get ⟨i, hi'⟩ = member' at hkey htarget hmem'
    obtain ⟨key, r⟩ := member
    obtain ⟨key', r'⟩ := member'
    obtain rfl : key = key' := hkey
    simp only [memberPart, hmismatch, text_eq_of_sameTarget htarget]
    cases hget : KeyMap.get? l key with
    | none =>
      rw [SameStores.get?_eq_none ha.2 hget]
      exact .refusal _
    | some f =>
      obtain ⟨f', hget', hsame⟩ := ha.2.get? hget
      rw [hget']
      exact .refs _ (.member hmem hget) (.member hmem' hget') htarget hsame
  case callable.callable.callable.callable =>
    exact .cons (.refs id .result .result he.2.2 ha.2.2)
      (.cons (.refs id .argument .argument he.2.1 ha.2.1) .nil)
  case keyOf.keyOf.keyOf.keyOf =>
    exact .cons (.refs id .owner .owner he.2 ha.2) .nil
  all_goals
    simp only [parts, hmismatch]
    exact .cons (.refusal _) .nil

/-! ### Answers and descents -/

/-- What is said of two types of different categories. -/
def categoryMismatch (expected actual : Ty) : Problem :=
  ((mismatch expected actual).set "expected_category" expected.category.name).set "actual_category"
    actual.category.name

/-- What is known of two types before their contents are compared. -/
def answer? (expected actual : Ty) (q : Query) : Option (Outcome Unit) :=
  if expected.name = actual.name then some (.ok ())
  else if expected.category ≠ actual.category then some (.error (categoryMismatch expected actual))
  else if q.entered.contains (pairKey actual.name expected.name) then some (.ok ())
  else
    match q.verdicts.get? (pairKey actual.name expected.name) with
    | some none => some (.ok ())
    | some (some p) => some (.error p)
    | none => none

lemma not_mem_entered_of_answer?_eq_none {e a : Ty} {q : Query} (h : answer? e a q = none) :
    pairKey a.name e.name ∉ q.entered := by
  intro hmem
  rw [answer?] at h
  split at h
  · cases h
  split at h
  · cases h
  rw [if_pos (List.contains_iff_mem.mpr hmem)] at h
  cases h

lemma ne_of_answer?_eq_none {e a : Ty} {q : Query} (h : answer? e a q = none) : a.name ≠ e.name := by
  intro hname
  rw [answer?, if_pos hname.symm] at h
  cases h

lemma answer?_nil_of_eq_none {e a : Ty} {q : Query} (h : answer? e a q = none) :
    answer? e a ⟨[], []⟩ = none := by
  rw [answer?] at h ⊢
  split at h
  · cases h
  next hname =>
  split at h
  · cases h
  next hcat =>
  rw [if_neg hname, if_neg hcat]
  rfl

/-- The contents of two types are entered. -/
def Query.enter (q : Query) (expected actual : Ty) : Query :=
  { q with entered := pairKey actual.name expected.name :: q.entered }

/-- The report about two types whose contents do not match. -/
def checked (expected actual : Ty) (p : Problem) : Problem :=
  (p.set "checked_expected" expected.name).set "checked_actual" actual.name

/-- How a comparison of contents ends: a failure is told of the two types and remembered. -/
def leave (expected actual : Ty) : Outcome Unit × Query → Outcome Unit × Query
  | (.ok _, q) => (.ok (), q)
  | (.error p, q) =>
    (.error (checked expected actual p), { q with
      verdicts := q.verdicts.insert (pairKey actual.name expected.name)
        (some (checked expected actual p)) })

lemma fst_leave (e a : Ty) (r : Outcome Unit × Query) :
    (leave e a r).1 = r.1.mapError (checked e a) := by
  obtain ⟨_ | _, _⟩ := r <;> rfl

/-- What two references come to: an answer, or the two types they lead to. -/
def lead (reg : Registry) (expected actual : TyRef) : Outcome Unit ⊕ Ty × Ty :=
  if expected.isGeneric || actual.isGeneric then
    .inl (if expected.sameTarget actual then .ok ()
      else .error (mismatchNames expected.text actual.text))
  else
    match reg.resolve expected with
    | .error p => .inl (.error p)
    | .ok e =>
      match reg.resolve actual with
      | .error p => .inl (.error p)
      | .ok a => .inr (e, a)

lemma compareRefs_eq (reg : Registry) (compareTypes : Ty → Ty → Compare) (e a : TyRef) (q : Query) :
    reg.compareRefs compareTypes e a q =
      match reg.lead e a with
      | .inl o => (o, q)
      | .inr (e, a) => compareTypes e a q := by
  rw [compareRefs, lead]
  split
  · split <;> rfl
  · cases reg.resolve e with
    | error p => rfl
    | ok e =>
      cases reg.resolve a with
      | error p => rfl
      | ok a => rfl

/-- **One level of a comparison**: what is known is the answer, else the parts are compared. -/
lemma compareTypes_succ (reg : Registry) (fuel : Nat) (e a : Ty) (q : Query) :
    reg.compareTypes (fuel + 1) e a q =
      match answer? e a q with
      | some o => (o, q)
      | none => leave e a
        (compareParts (reg.compareRefs (reg.compareTypes fuel)) (parts e a) (q.enter e a)) := by
  rw [compareTypes, answer?]
  split
  · rfl
  split
  · rfl
  dsimp only
  split
  · rfl
  cases q.verdicts.get? (pairKey a.name e.name) with
  | some v => cases v <;> rfl
  | none =>
    dsimp only
    rw [compareContents_eq, Query.enter]
    generalize compareParts _ _ _ = r
    obtain ⟨_ | _, _⟩ := r <;> rfl

/-- What a question answers, and what it leaves behind, when its comparison has ended. -/
def conclude (reg : Registry) (source : Option Position) :
    Outcome Unit × Query → Outcome Unit × Registry
  | (.ok _, q) =>
    (.ok (), { reg with verdicts := q.entered.foldl (fun m key => m.insertNew key none) q.verdicts })
  | (.error p, q) => (.error (p.orAt source), { reg with verdicts := q.verdicts })

lemma matchTypes_eq (reg : Registry) (source : Option Position) (a e : Ty) :
    reg.matchTypes source a (some e) =
      reg.conclude source (reg.compareTypes (reg.fuelFor e a) e a ⟨[], reg.verdicts⟩) := by
  rw [matchTypes_some]
  generalize reg.compareTypes _ e a _ = r
  obtain ⟨_ | _, _⟩ := r <;> rfl

end Registry

end CellMachine
