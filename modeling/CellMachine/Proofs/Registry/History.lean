import CellMachine.Proofs.Registry.Composition
import CellMachine.Proofs.Registry.Untangled

/-!
What the report of a failed match owes to earlier questions. Whether two types match does not depend on
them, and neither do the cause, the place and the checked names of a report. Which culprit is named
does: a pair that fails inside of the comparison of another pair is remembered with the first thing
that was found wrong while the outer pair was taken to match, and asked about by itself it might have
failed at the outer pair.

This takes two different pairs that lead to one another. Where there are none below a pair of types,
everything that is remembered about what is below is what would be answered with nothing remembered,
and so is the answer. A pair may lead to itself, as it does for lists and streams.
-/

namespace CellMachine

namespace Registry

open Relation (ReflTransGen TransGen)

/-! ### Answers with nothing remembered -/

/-- What is answered about the registered types of two names when nothing is remembered. -/
def reported (reg : Registry) (P : String × String) : Outcome Unit :=
  match reg.get? P.2, reg.get? P.1 with
  | some e, some a => (reg.compareTypes (reg.fuelFor e a) e a ⟨[], []⟩).1
  | _, _ => .ok ()

/-- A verdict as an answer. -/
def ofVerdict : Option Problem → Outcome Unit
  | none => .ok ()
  | some p => .error p

/-- What is remembered of the pairs of a set is what is answered with nothing remembered. -/
def Recorded (reg : Registry) (K : String × String → Prop)
    (verdicts : KeyMap String (Option Problem)) : Prop :=
  ∀ P, K P → ∀ v, verdicts.get? (pairKey P.1 P.2) = some v → ofVerdict v = reg.reported P

/-- The pairs of a set that were entered match. -/
def Passed (reg : Registry) (S : String × String → Prop) (entered : List String) : Prop :=
  ∀ P, S P → pairKey P.1 P.2 ∈ entered → reg.reported P = .ok ()

/-- A query that is about to compare a pair: pairs below it that were entered match. -/
structure Ready (reg : Registry) (K : String × String → Prop) (P : String × String) (fuel : Nat)
    (q : Query) : Prop where
  room : Room (pairKeys reg.types.keys) fuel q
  recorded : Recorded reg K q.verdicts
  passed : Passed reg (fun Q => K Q ∧ ReflTransGen reg.Below P Q) q.entered

/-- A query that compares the parts of a pair: but for the pair itself, pairs below it that were entered
match. -/
structure Amid (reg : Registry) (K : String × String → Prop) (P : String × String) (fuel : Nat)
    (q : Query) : Prop where
  room : Room (pairKeys reg.types.keys) fuel q
  recorded : Recorded reg K q.verdicts
  entered : pairKey P.1 P.2 ∈ q.entered
  passed : Passed reg (fun Q => (K Q ∧ ReflTransGen reg.Below P Q) ∧ Q ≠ P) q.entered

/-- What a comparison leaves: true records, and if it succeeds room as before, with every newly entered
pair a match. -/
structure Left (reg : Registry) (K : String × String → Prop) (fuel : Nat) (q : Query)
    (r : Outcome Unit × Query) : Prop where
  recorded : Recorded reg K r.2.verdicts
  room : r.1 = .ok () → Room (pairKeys reg.types.keys) fuel r.2
  grown : r.1 = .ok () → q.entered ⊆ r.2.entered
  passed : r.1 = .ok () → ∀ key ∈ r.2.entered,
    key ∈ q.entered ∨ Passed reg K [key]

variable {reg : Registry} {K : String × String → Prop} {P Q : String × String} {fuel : Nat}
  {q : Query}

lemma Passed.grow {S : String × String → Prop} (hS : ∀ Q, S Q → K Q) {entered entered' : List String}
    (h : Passed reg S entered)
    (hnew : ∀ key ∈ entered', key ∈ entered ∨ Passed reg K [key]) : Passed reg S entered' :=
  fun Q hQ hkey => (hnew _ hkey).elim (h Q hQ) fun hpassed =>
    hpassed Q (hS Q hQ) List.mem_cons_self

lemma left_self (hroom : Room (pairKeys reg.types.keys) fuel q)
    (hrecorded : Recorded reg K q.verdicts) (o : Outcome Unit) : Left reg K fuel q (o, q) :=
  ⟨hrecorded, fun _ => hroom, fun _ _ => id, fun _ _ => .inl⟩

lemma Left.trans {q' : Query} {o : Outcome Unit} {r : Outcome Unit × Query}
    (h : Left reg K fuel q (o, q')) (ho : o = .ok ()) (h' : Left reg K fuel q' r) :
    Left reg K fuel q r :=
  ⟨h'.recorded, h'.room, fun hr _ hkey => h'.grown hr (h.grown ho hkey), fun hr key hkey =>
    (h'.passed hr key hkey).elim (h.passed ho key) .inr⟩

lemma recorded_nil : Recorded reg K [] := fun _ _ _ h => nomatch h

/-- Any pair can be asked about. -/
lemma ready_start (reg : Registry) (e a : Ty) {verdicts : KeyMap String (Option Problem)}
    (h : Recorded reg K verdicts) : Ready reg K P (reg.fuelFor e a) ⟨[], verdicts⟩ := by
  refine ⟨room_of_length_le ?_ _, h, fun _ _ hentered => absurd hentered List.not_mem_nil⟩
  have := length_types_le_weight reg
  rw [KeyMap.keys, List.length_map]
  omega

lemma left_of_error (h : Recorded reg K q.verdicts) (p : Problem) {q' : Query} :
    Left reg K fuel q' (.error p, q) :=
  ⟨h, nofun, nofun, nofun⟩

lemma Amid.next {q' : Query} (h : Amid reg K P fuel q) (hleft : Left reg K fuel q (.ok (), q')) :
    Amid reg K P fuel q' :=
  ⟨hleft.room rfl, hleft.recorded, hleft.grown rfl h.entered,
    h.passed.grow (fun _ hQ => hQ.1.1) (hleft.passed rfl)⟩

/-- What is answered about two references that stand at the same place of the types of a pair. The pair
itself is taken to match. -/
def answerBelow (reg : Registry) (P : String × String) (r s : TyRef) : Outcome Unit :=
  if r.isGeneric || s.isGeneric then
    if r.sameTarget s then .ok () else .error (mismatchNames r.text s.text)
  else if (s.name, r.name) = P then .ok ()
  else reg.reported (s.name, r.name)

/-- What is answered about the parts of a pair: the first failure. -/
def answerParts (reg : Registry) (P : String × String) : List Part → Outcome Unit
  | [] => .ok ()
  | .refusal p :: _ => .error p
  | .refs r s f :: rest =>
    match reg.answerBelow P r s with
    | .ok _ => answerParts reg P rest
    | .error p => .error (f p)

lemma answerBelow_congr {r s r' s' : TyRef} (hr : r.sameTarget r' = true)
    (hs : s.sameTarget s' = true) : reg.answerBelow P r s = reg.answerBelow P r' s' := by
  have hsame : r.sameTarget s = r'.sameTarget s' := Bool.eq_iff_iff.mpr
    ⟨fun h => TyRef.sameTarget_trans (TyRef.sameTarget_trans (TyRef.sameTarget_symm hr) h) hs,
      fun h => TyRef.sameTarget_trans (TyRef.sameTarget_trans hr h) (TyRef.sameTarget_symm hs)⟩
  rw [answerBelow, answerBelow, hsame, TyRef.isGeneric_eq_of_sameTarget hr,
    TyRef.isGeneric_eq_of_sameTarget hs, text_eq_of_sameTarget hr, text_eq_of_sameTarget hs,
    TyRef.name_eq_of_sameTarget hr, TyRef.name_eq_of_sameTarget hs]

lemma answerParts_congr {e a e' a' : Ty} {ps ps' : List Part}
    (h : List.Forall₂ (SamePart e a e' a') ps ps') : reg.answerParts P ps = reg.answerParts P ps' := by
  induction h with
  | nil => rfl
  | cons hpart _ ih =>
    cases hpart with
    | refusal p => rfl
    | refs f _ _ hr hs => rw [answerParts, answerParts, answerBelow_congr hr hs, ih]

/-- A comparison between the parts of a pair that leaves true records, and whose answer is known for a
pair of the set. -/
def Settles (reg : Registry) (K : String × String → Prop) (P : String × String) (fuel : Nat)
    (c : Compare) (o : Outcome Unit) : Prop :=
  ∀ q, Amid reg K P fuel q → Left reg K fuel q (c q) ∧ (K P → (c q).1 = o)

lemma settles_parts {compare : TyRef → TyRef → Compare} {ps : List Part}
    (hrefs : ∀ r s f, .refs r s f ∈ ps →
      Settles reg K P fuel (compare r s) (reg.answerBelow P r s)) :
    Settles reg K P fuel (compareParts compare ps) (reg.answerParts P ps) := by
  induction ps with
  | nil => exact fun q hq => ⟨left_self hq.room hq.recorded _, fun _ => rfl⟩
  | cons part ps ih =>
    intro q hq
    cases part with
    | refusal p => exact ⟨left_self hq.room hq.recorded _, fun _ => rfl⟩
    | refs r s f =>
      obtain ⟨hleft, hanswer⟩ := hrefs r s f List.mem_cons_self q hq
      rw [compareParts, answerParts, Compare.andThen, Compare.explain]
      generalize compare r s q = first at hleft hanswer ⊢
      obtain ⟨p | _, q'⟩ := first
      · exact ⟨left_of_error hleft.recorded _, fun hP => by rw [← hanswer hP]⟩
      · obtain ⟨hleft', hanswer'⟩ :=
          ih (fun r s f h => hrefs r s f (List.mem_cons_of_mem _ h)) q' (hq.next hleft)
        exact ⟨hleft.trans rfl hleft', fun hP => by rw [← hanswer hP]; exact hanswer' hP⟩

/-! ### Comparisons -/

/-- Comparing the types of a pair leaves true records, and for a pair of the set the answer is that with
nothing remembered. -/
def Answered (reg : Registry) (K : String × String → Prop) (P : String × String) (fuel : Nat) : Prop :=
  ∀ e a, reg.Agrees e → reg.Agrees a → (a.name, e.name) = P → ∀ q, Ready reg K P fuel q →
    Left reg K fuel q (reg.compareTypes fuel e a q) ∧
      (K P → (reg.compareTypes fuel e a q).1 = reg.reported P)

lemma compareTypes_of_entered (hroom : Room (pairKeys reg.types.keys) fuel q) {e a : Ty}
    (hcat : e.category = a.category) (hentered : pairKey a.name e.name ∈ q.entered) :
    reg.compareTypes fuel e a q = (.ok (), q) := by
  cases fuel with
  | zero => exact absurd hroom not_room_zero
  | succ fuel =>
    rw [compareTypes]
    split
    · rfl
    rw [if_neg (not_not.mpr hcat)]
    dsimp only
    rw [if_pos (List.contains_iff_mem.mpr hentered)]

lemma settles_refs (closed : Closed reg reg.Agrees) (plain : Plain reg K)
    {e a : Ty} (he : reg.Agrees e) (ha : reg.Agrees a) (hne : a.name ≠ e.name)
    (hbelow : ∀ Q, reg.Below (a.name, e.name) Q → Q ≠ (a.name, e.name) → Answered reg K Q fuel)
    {r s : TyRef} (hpar : Parallel e a r s) :
    Settles reg K (a.name, e.name) fuel (reg.compareRefs (reg.compareTypes fuel) r s)
      (reg.answerBelow (a.name, e.name) r s) := by
  intro q hq
  rw [answerBelow, compareRefs]
  by_cases hg : (r.isGeneric || s.isGeneric) = true
  · simp only [if_pos hg]
    split <;> exact ⟨left_self hq.room hq.recorded _, fun _ => rfl⟩
  simp only [if_neg hg]
  simp only [Bool.or_eq_true, not_or, Bool.not_eq_true] at hg
  obtain ⟨e', hre, hue, hne', -⟩ := closed.resolves e he r hpar.mem_refs.1 hg.1
  obtain ⟨a', hra, hua, hna', -⟩ := closed.resolves a ha s hpar.mem_refs.2 hg.2
  simp only [hre, hra]
  have hstep : reg.Below (a.name, e.name) (s.name, r.name) := by
    obtain ⟨ê, hê, hsame⟩ := he.exists_same
    obtain ⟨â, hâ, hsame'⟩ := ha.exists_same
    obtain ⟨r', s', hpar', hr, hs⟩ := hpar.congr hsame.symm hsame'.symm
    refine ⟨hne, ê, â, r', s', hê, hâ, hpar', ?_, ?_, ?_⟩
    · rw [← TyRef.isGeneric_eq_of_sameTarget hr, hg.1]
    · rw [← TyRef.isGeneric_eq_of_sameTarget hs, hg.2]
    · rw [TyRef.name_eq_of_sameTarget hr, TyRef.name_eq_of_sameTarget hs]
  -- The pair itself is taken to match as long as it is compared.
  by_cases hself : (s.name, r.name) = (a.name, e.name)
  · rw [if_pos hself]
    obtain ⟨hs, hr⟩ := Prod.mk.inj hself
    have hcat : e'.category = a'.category := by
      rw [(closed.same e' e hue he (hne'.trans hr)).category_eq,
        (closed.same a' a hua ha (hna'.trans hs)).category_eq, hpar.category_eq]
    rw [compareTypes_of_entered hq.room hcat (by rw [hna', hne', hs, hr]; exact hq.entered)]
    exact ⟨left_self hq.room hq.recorded _, fun _ => rfl⟩
  · rw [if_neg hself]
    have hready : Ready reg K (s.name, r.name) fuel q := by
      refine ⟨hq.room, hq.recorded, fun Q hQ hkey => hq.passed Q ⟨⟨hQ.1, hQ.2.head hstep⟩, ?_⟩ hkey⟩
      -- Else the pair and the one below it would lead to one another.
      rintro rfl
      refine hself (plain.untangled _ _ hQ.1 (.single hstep) ?_).symm
      rcases Relation.reflTransGen_iff_eq_or_transGen.mp hQ.2 with heq | htrans
      · exact absurd heq.symm hself
      · exact htrans
    obtain ⟨hleft, hanswer⟩ := hbelow _ hstep hself e' a' hue hua (by rw [hna', hne']) q hready
    exact ⟨hleft, fun hP => hanswer (plain.below _ _ hP hstep)⟩

lemma settles_contents (closed : Closed reg reg.Agrees) (plain : Plain reg K)
    {e a : Ty} (he : reg.Agrees e) (ha : reg.Agrees a) (hne : a.name ≠ e.name)
    (hbelow : ∀ Q, reg.Below (a.name, e.name) Q → Q ≠ (a.name, e.name) → Answered reg K Q fuel) :
    Settles reg K (a.name, e.name) fuel
      (compareParts (reg.compareRefs (reg.compareTypes fuel)) (parts e a))
      (reg.answerParts (a.name, e.name) (parts e a)) :=
  settles_parts fun _ _ _ h =>
    settles_refs closed plain he ha hne hbelow (parallel_of_mem_parts h)

lemma Ready.enter (plain : Plain reg K) (hapart : Apart reg) {e a : Ty} (he : reg.Agrees e)
    (ha : reg.Agrees a) (hq : Ready reg K (a.name, e.name) (fuel + 1) q)
    (hanswer : answer? e a q = none) : Amid reg K (a.name, e.name) fuel (q.enter e a) where
  room := hq.room.enter (mem_pairKeys ha.mem_keys he.mem_keys)
    (not_mem_entered_of_answer?_eq_none hanswer)
  recorded := hq.recorded
  entered := List.mem_cons_self
  passed Q hQ hkey := (List.mem_cons.mp hkey).elim
    (fun h => absurd (plain.eq_of_pairKey hapart ⟨ha.mem_keys, he.mem_keys⟩ hQ.1.1 h) hQ.2)
    (hq.passed Q hQ.1)

/-- With nothing remembered, registered types are answered by their names and categories, or by their
parts. -/
lemma reported_of_holds (closed : Closed reg reg.Agrees) (hapart : Apart reg) (hcoh : Coherent reg)
    (plain : Plain reg K) {e a : Ty} (he : reg.Holds e) (ha : reg.Holds a)
    (hP : K (a.name, e.name)) (hbelow : ∀ fuel Q, reg.Below (a.name, e.name) Q →
      Q ≠ (a.name, e.name) → Answered reg K Q fuel) :
    reg.reported (a.name, e.name) =
      (answer? e a ⟨[], []⟩).getD
        ((reg.answerParts (a.name, e.name) (parts e a)).mapError (checked e a)) := by
  have hready : Ready reg K (a.name, e.name) (reg.fuelFor e a) ⟨[], []⟩ :=
    ready_start reg e a recorded_nil
  have heq : reg.reported (a.name, e.name) =
      (reg.compareTypes (reg.fuelFor e a) e a ⟨[], []⟩).1 := by
    simp only [reported, show reg.get? e.name = some e from he,
      show reg.get? a.name = some a from ha]
  rw [heq]
  rw [fuelFor] at hready ⊢
  rw [compareTypes_succ]
  cases hanswer : answer? e a ⟨[], []⟩ with
  | some o => rfl
  | none =>
    have hamid := hready.enter plain hapart (hcoh _ _ he) (hcoh _ _ ha) hanswer
    have hsettled := settles_contents closed plain (hcoh _ _ he) (hcoh _ _ ha)
      (ne_of_answer?_eq_none hanswer) (hbelow _) _ hamid
    rw [Option.getD_none, ← hsettled.2 hP]
    exact fst_leave ..

/-- The same of types of the definitions of registered ones. -/
lemma reported_eq (closed : Closed reg reg.Agrees) (hapart : Apart reg) (hcoh : Coherent reg)
    (plain : Plain reg K) {e a : Ty} (he : reg.Agrees e) (ha : reg.Agrees a)
    (hP : K (a.name, e.name)) (hbelow : ∀ fuel Q, reg.Below (a.name, e.name) Q →
      Q ≠ (a.name, e.name) → Answered reg K Q fuel) :
    reg.reported (a.name, e.name) =
      (answer? e a ⟨[], []⟩).getD
        ((reg.answerParts (a.name, e.name) (parts e a)).mapError (checked e a)) := by
  obtain ⟨ê, hê, hsame⟩ := he.exists_same
  obtain ⟨â, hâ, hsame'⟩ := ha.exists_same
  have hname := hsame.name_eq
  have hname' := hsame'.name_eq
  have hanswer : answer? e a ⟨[], []⟩ = answer? ê â ⟨[], []⟩ := by
    simp only [answer?, categoryMismatch, mismatch, hname, hname', hsame.category_eq,
      hsame'.category_eq]
  have hchecked : checked e a = checked ê â := by
    funext p
    rw [checked, checked, hname, hname']
  rw [hanswer, hchecked, ← answerParts_congr (forall₂_parts hsame hsame')]
  rw [← hname] at hê hbelow hP ⊢
  rw [← hname'] at hâ hbelow hP ⊢
  exact reported_of_holds closed hapart hcoh plain hê hâ hP hbelow

lemma Ready.answer {e a : Ty} (hq : Ready reg K (a.name, e.name) fuel q)
    (hP : K (a.name, e.name)) {o : Outcome Unit}
    (hanswer : answer? e a q = some o)
    (heq : ∀ o, answer? e a ⟨[], []⟩ = some o → reg.reported (a.name, e.name) = o) :
    o = reg.reported (a.name, e.name) := by
  rw [answer?] at hanswer heq
  split at hanswer
  · next hname => rw [← Option.some.inj hanswer, heq _ (if_pos hname)]
  next hname =>
  rw [if_neg hname] at heq
  split at hanswer
  · next hcat => rw [← Option.some.inj hanswer, heq _ (if_pos hcat)]
  split at hanswer
  · next hentered =>
    rw [← Option.some.inj hanswer]
    exact (hq.passed _ ⟨hP, .refl⟩ (List.contains_iff_mem.mp hentered)).symm
  · cases hget : q.verdicts.get? (pairKey a.name e.name) with
    | none =>
      rw [hget] at hanswer
      cases hanswer
    | some v =>
      rw [← hq.recorded _ hP v hget]
      rw [hget] at hanswer
      cases v <;> exact (Option.some.inj hanswer).symm

lemma left_leave (plain : Plain reg K) (hapart : Apart reg) {e a : Ty} (he : reg.Agrees e)
    (ha : reg.Agrees a) {r : Outcome Unit × Query} (h : Left reg K fuel (q.enter e a) r)
    (hanswer : K (a.name, e.name) →
      reg.reported (a.name, e.name) = r.1.mapError (checked e a)) :
    Left reg K (fuel + 1) q (leave e a r) := by
  have hkey : ∀ Q, K Q → pairKey Q.1 Q.2 = pairKey a.name e.name → Q = (a.name, e.name) :=
    fun _ hQ h => plain.eq_of_pairKey hapart ⟨ha.mem_keys, he.mem_keys⟩ hQ h
  obtain ⟨p | _, q'⟩ := r
  · refine left_of_error (fun Q hQ v hv => ?_) _
    rw [KeyMap.get?_insert] at hv
    split at hv
    · next heq =>
      cases hv
      obtain rfl := hkey Q hQ heq.symm
      exact (hanswer hQ).symm
    · exact h.recorded Q hQ v hv
  · refine ⟨h.recorded, fun _ => (h.room rfl).succ,
      fun _ _ hmem => h.grown rfl (List.mem_cons_of_mem _ hmem), fun _ key hmem => ?_⟩
    rcases h.passed rfl key hmem with hmem | hpassed
    · rcases List.mem_cons.mp hmem with rfl | hmem
      · refine .inr fun Q hQ hmem => ?_
        obtain rfl := hkey Q hQ (List.mem_singleton.mp hmem)
        exact hanswer hQ
      · exact .inl hmem
    · exact .inr hpassed

/-- **A pair is answered if the other pairs below it are.** -/
lemma answered_succ (closed : Closed reg reg.Agrees) (hapart : Apart reg) (hcoh : Coherent reg)
    (plain : Plain reg K) (hbelow : ∀ Q, reg.Below P Q → Q ≠ P → Answered reg K Q fuel)
    (hbelow' : K P → ∀ fuel Q, reg.Below P Q → Q ≠ P → Answered reg K Q fuel) :
    Answered reg K P (fuel + 1) := by
  rintro e a he ha rfl q hq
  have heq := fun hP => reported_eq closed hapart hcoh plain he ha hP (hbelow' hP)
  rw [compareTypes_succ]
  cases hanswer : answer? e a q with
  | some o =>
    refine ⟨left_self hq.room hq.recorded o, fun hP => hq.answer hP hanswer fun o ho => ?_⟩
    rw [heq hP, ho, Option.getD_some]
  | none =>
    obtain ⟨hleft, hcontents⟩ := settles_contents closed plain he ha
      (ne_of_answer?_eq_none hanswer) hbelow _ (hq.enter plain hapart he ha hanswer)
    have hreported : K (a.name, e.name) → reg.reported (a.name, e.name) =
        (compareParts (reg.compareRefs (reg.compareTypes fuel)) (parts e a) (q.enter e a)).1.mapError
          (checked e a) := by
      intro hP
      rw [heq hP, answer?_nil_of_eq_none hanswer, Option.getD_none, hcontents hP]
    exact ⟨left_leave plain hapart he ha hleft hreported, fun hP => by
      rw [hreported hP, fst_leave]⟩

/-- **Every pair is answered.** A pair of the set has fewer pairs below it the further down it is, and
other pairs are compared with less fuel. -/
lemma answered (closed : Closed reg reg.Agrees) (hreg : Resolved reg) (hapart : Apart reg)
    (hcoh : Coherent reg) (plain : Plain reg K) (P : String × String) (fuel : Nat) :
    Answered reg K P fuel := by
  have inside : ∀ n P, K P → (reg.under P).ncard = n → ∀ fuel, Answered reg K P fuel := by
    intro n
    induction n using Nat.strong_induction_on with
    | _ n ih =>
      rintro P hP rfl fuel
      have hbelow : ∀ fuel Q, reg.Below P Q → Q ≠ P → Answered reg K Q fuel :=
        fun fuel Q hQ hne =>
          ih _ (plain.ncard_under_lt hreg hP hQ hne) Q (plain.below P Q hP hQ) rfl fuel
      cases fuel with
      | zero => exact fun _ _ _ _ _ _ hq => absurd hq.room not_room_zero
      | succ fuel => exact answered_succ closed hapart hcoh plain (hbelow fuel) fun _ => hbelow
  induction fuel generalizing P with
  | zero => exact fun _ _ _ _ _ _ hq => absurd hq.room not_room_zero
  | succ fuel ih =>
    exact answered_succ closed hapart hcoh plain (fun Q _ _ => ih Q) fun hP fuel Q hQ _ =>
      inside _ Q (plain.below P Q hP hQ) rfl fuel

/-! ### Questions -/

lemma compareTypes_of_types {later : Registry} (h : later.types = reg.types) :
    later.compareTypes = reg.compareTypes := by
  funext fuel
  induction fuel with
  | zero => rfl
  | succ fuel ih =>
    funext e a q
    have hrefs : later.compareRefs (later.compareTypes fuel) =
        reg.compareRefs (reg.compareTypes fuel) := by
      funext r s q
      simp only [compareRefs, resolve_of_types h, ih]
    rw [compareTypes_succ, compareTypes_succ, hrefs]

lemma fuelFor_of_types {later : Registry} (h : later.types = reg.types) :
    later.fuelFor = reg.fuelFor := by
  funext e a
  rw [fuelFor, fuelFor, weight, weight, h]

/-- **A question is answered as with nothing remembered**, and what is remembered stays what would be
answered with nothing remembered. -/
lemma recorded_matchTypes (closed : Closed reg reg.Agrees) (hreg : Resolved reg)
    (hapart : Apart reg) (hcoh : Coherent reg) (plain : Plain reg K) {later : Registry}
    (htypes : later.types = reg.types) (h : Recorded reg K later.verdicts) {a e : Ty}
    (ha : reg.Agrees a) (he : reg.Agrees e) (source : Option Position) :
    Recorded reg K (later.matchTypes source a (some e)).2.verdicts ∧
      (K (a.name, e.name) → (later.matchTypes source a (some e)).1 =
        (reg.reported (a.name, e.name)).mapError fun p => p.orAt source) := by
  obtain ⟨hleft, hanswer⟩ :=
    answered closed hreg hapart hcoh plain _ _ e a he ha rfl _ (ready_start reg e a h)
  rw [matchTypes_eq, fuelFor_of_types htypes, compareTypes_of_types htypes]
  generalize reg.compareTypes _ e a _ = r at hleft hanswer
  obtain ⟨p | _, q⟩ := r
  · exact ⟨hleft.recorded, fun hP => by rw [← hanswer hP]; rfl⟩
  · refine ⟨fun Q hQ v hv => ?_, fun hP => by rw [← hanswer hP]; rfl⟩
    rcases of_get?_foldl_insertNew hv with hv | ⟨hkey, rfl⟩
    · exact hleft.recorded Q hQ v hv
    · have hpassed := (hleft.passed rfl _ hkey).resolve_left List.not_mem_nil
      exact (hpassed Q hQ List.mem_cons_self).symm

lemma recorded_asked (closed : Closed reg reg.Agrees) (hreached : Reached reg)
    (hapart : Apart reg) (hcoh : Coherent reg) (plain : Plain reg K) {asked : List Question}
    (hasked : ∀ q ∈ asked, q.About reg) :
    Recorded reg K (asked.foldl Question.ask reg).verdicts := by
  induction asked using List.reverseRecOn with
  | nil =>
    rw [List.foldl_nil, hreached.verdicts]
    exact recorded_nil
  | append_singleton asked q ih =>
    have hrest : ∀ q ∈ asked, q.About reg := fun q hq => hasked q (List.mem_append_left _ hq)
    have htypes := (closed.truthful_asked hreached hcoh hrest).2
    have hq := hasked q (List.mem_append_right _ List.mem_cons_self)
    rw [List.foldl_append, List.foldl_cons, List.foldl_nil]
    rcases (hq.of_agrees hcoh).ask_cases hcoh htypes with h | ⟨source, a, e, ha, he, h⟩
    · rw [h]
      exact ih hrest
    · rw [h]
      exact (recorded_matchTypes closed hreached.resolved hapart hcoh plain htypes (ih hrest) ha he
        source).1

/-- Two answers that agree but for the culprit: both are positive, or both are reports of one cause at
one place about the same two types. -/
def Alike : Outcome Unit → Outcome Unit → Prop
  | .ok _, .ok _ => True
  | .error p, .error p' => p.cause = p'.cause ∧ p.location = p'.location ∧
      p.param? "checked_expected" = p'.param? "checked_expected" ∧
      p.param? "checked_actual" = p'.param? "checked_actual"
  | _, _ => False

lemma Alike.refl (o : Outcome Unit) : Alike o o := by
  cases o with
  | error p => exact ⟨rfl, rfl, rfl, rfl⟩
  | ok _ => trivial

lemma Reports.alike {later later' : Registry} {e a : Ty} {p p' : Problem} (h : Reports later e a p)
    (h' : Reports later' e a p') (source : Option Position) :
    Alike (.error (p.orAt source)) (.error (p'.orAt source)) :=
  ⟨h.cause.trans h'.cause.symm, by simp only [Problem.orAt, h.location, h'.location],
    h.checkedExpected.trans h'.checkedExpected.symm, h.checkedActual.trans h'.checkedActual.symm⟩

lemma alike_of_reports {later later' : Registry} {e a : Ty} {o o' : Outcome Unit}
    {source : Option Position} (verdict : o = .ok () ↔ o' = .ok ())
    (h : ∀ p, o = .error p → ∃ told, Reports later e a told ∧ p = told.orAt source)
    (h' : ∀ p, o' = .error p → ∃ told, Reports later' e a told ∧ p = told.orAt source) :
    Alike o o' := by
  cases o with
  | ok _ =>
    rw [verdict.mp rfl]
    trivial
  | error p =>
    cases o' with
    | ok _ => cases verdict.mpr rfl
    | error p' =>
      obtain ⟨told, htold, rfl⟩ := h p rfl
      obtain ⟨told', htold', rfl⟩ := h' p' rfl
      exact htold.alike htold' source

/-- **Reports are those of a fresh registry up to the culprit.** After any questions about registered
types, two of them are answered as with nothing remembered: both times they match, or both times the
report has the same cause, the same place and the same checked types. The answers are equal, with
everything that they say, where no two different pairs that are met below the two types lead to one
another. -/
theorem report_of_fresh (hreached : Reached reg) (hmark : Unmarked reg) (hcoh : Coherent reg)
    {asked : List Question} (hasked : ∀ q ∈ asked, q.About reg) {actual expected : Ty}
    (ha : reg.Holds actual) (he : reg.Holds expected) (source : Option Position) :
    Alike ((asked.foldl Question.ask reg).matchTypes source actual (some expected)).1
        ((asked.foldl Question.ask reg).fresh.matchTypes source actual (some expected)).1 ∧
      (reg.Untangled (actual.name, expected.name) →
        ((asked.foldl Question.ask reg).matchTypes source actual (some expected)).1 =
          ((asked.foldl Question.ask reg).fresh.matchTypes source actual (some expected)).1) := by
  have closed := closed_agrees hreached.resolved hmark hcoh
  have hapart := hmark.apart hreached.resolved
  obtain ⟨htrue, htypes⟩ := truthful_asked hreached hmark hcoh hasked
  have hblaming := (blaming_asked hreached hmark hcoh hasked).of_types htypes
  have hrecorded := fun K (plain : Plain reg K) =>
    recorded_asked closed hreached hapart hcoh plain hasked
  generalize asked.foldl Question.ask reg = later at htrue htypes hblaming hrecorded ⊢
  have hfresh : later.fresh.types = reg.types := htypes
  have haa := hcoh _ _ ha
  have hea := hcoh _ _ he
  have huntangled : reg.Untangled (actual.name, expected.name) →
      (later.matchTypes source actual (some expected)).1 =
        (later.fresh.matchTypes source actual (some expected)).1 := by
    intro h
    have plain := h.plain hreached.resolved ⟨haa.mem_keys, hea.mem_keys⟩
    have now := recorded_matchTypes closed hreached.resolved hapart hcoh plain htypes
      (hrecorded _ plain) haa hea source
    have anew := recorded_matchTypes closed hreached.resolved hapart hcoh plain hfresh
      recorded_nil haa hea source
    rw [now.2 .refl, anew.2 .refl]
  refine ⟨?_, huntangled⟩
  by_cases hcat : expected.category = actual.category
  · have verdict := (matchTypes_spec (closed.of_types htypes) htrue haa hea source).1.trans
      (matchTypes_spec (closed.of_types hfresh) (truthful_nil _) haa hea source).1.symm
    have now := (matchTypes_tells (closed.of_types htypes) hblaming haa hea source).2
    have anew := (matchTypes_tells (closed.of_types hfresh) (fun _ _ _ _ _ h => nomatch h) haa hea
      source).2
    exact alike_of_reports verdict (fun p hp => now p hp hcat) fun p hp => anew p hp hcat
  · rw [huntangled (untangled_of_category_ne he ha hcat)]
    exact .refl _

namespace Sample

/-- A report that the middle list lacks what the longest one has is given out again as it was. -/
theorem chain_report_of_fresh : Reached chains ∧ Unmarked chains ∧ Coherent chains ∧
    chains.Untangled ("middle", "long") ∧
    (chains.fresh.matchTypes none middle (some long)).1.isOk = false ∧
    ((([.types none long (some short), .refs none (.named "middle") (.named "long")] :
      List Question).foldl Question.ask chains).matchTypes none middle (some long)).1 =
        ((([.types none long (some short), .refs none (.named "middle") (.named "long")] :
          List Question).foldl Question.ask chains).fresh.matchTypes none middle (some long)).1 := by
  have hmark : Unmarked chains := unmarked_of_all (by decide +kernel)
  have hcoh : Coherent chains := coherent_of_all (by decide +kernel)
  have hlong : chains.Holds long := rfl
  have hmiddle : chains.Holds middle := rfl
  have hshort : chains.Holds short := rfl
  -- A list leads to its rest and to the types of its members, which lead nowhere.
  have huntangled : chains.Untangled ("middle", "long") :=
    untangled_of_all (fun P => if P.1 = P.2 then 0 else 1) (by decide +kernel) _
  refine ⟨reached_chains, hmark, hcoh, huntangled, by decide +kernel, ?_⟩
  refine (report_of_fresh reached_chains hmark hcoh (fun q hq => ?_) hmiddle hlong none).2 huntangled
  simp only [List.mem_cons, List.not_mem_nil, or_false] at hq
  rcases hq with rfl | rfl
  · exact ⟨hlong, fun e he => Option.some.inj he ▸ hshort⟩
  · exact fun t ht => nomatch ht

/-- One of two structures that hold one another, with a member more. -/
def holding (name : String) (other : TyRef) (key content : String) : Ty :=
  .structured name none [("other", other), (key, .named content)]

def pong : Ty := holding "pong" (.named "ping") "tag" "int"

def pongText : Ty := holding "pong-text" (.named "ping-text") "tag" "str"

def ping : Ty := holding "ping" (.inline pong) "size" "int"

def pingText : Ty := holding "ping-text" (.inline pongText) "size" "str"

/-- Two structures of integers that hold one another, and two of strings. -/
def entangled : Registry :=
  ⟨[("int", native "int" "integer" .int), ("meta-type", .metaType), ("ping", ping),
    ("ping-text", pingText), ("pong", pong), ("pong-text", pongText),
    ("runtime-determined", .runtimeDetermined), ("str", native "str" "string" .string)], []⟩

lemma reached_entangled : Reached entangled :=
  .register (t := pingText) (.register (t := ping)
    (.register (t := native "str" "string" .string)
      (.register (t := native "int" "integer" .int) .initial rfl) rfl) rfl) rfl

/-- The key that a report names. -/
def reportedKey : Outcome Unit → Option String
  | .error p => (p.param? "key").bind Param.asText?
  | .ok _ => none

/-- **A report tells what was asked before.** The inner structures were found to differ in their tags
while the outer ones, which they hold in turn, were taken to match. Asked about with nothing remembered,
they differ in the sizes of the outer ones first. -/
theorem not_forall_report_of_fresh : ¬ ∀ reg : Registry, Reached reg → Unmarked reg → Coherent reg →
    ∀ asked : List Question, (∀ q ∈ asked, q.About reg) → ∀ actual expected : Ty,
      reg.Holds actual → reg.Holds expected → ∀ source : Option Position,
        ((asked.foldl Question.ask reg).matchTypes source actual (some expected)).1 =
          ((asked.foldl Question.ask reg).fresh.matchTypes source actual (some expected)).1 := by
  intro hall
  have hping : entangled.Holds ping := rfl
  have hpingText : entangled.Holds pingText := rfl
  have hequal := hall entangled reached_entangled (unmarked_of_all (by decide +kernel))
    (coherent_of_all (by decide +kernel)) [.types none ping (some pingText)] (fun q hq => ?_) pong
    pongText rfl rfl none
  · have hnow : reportedKey (([Question.types none ping (some pingText)].foldl Question.ask
        entangled).matchTypes none pong (some pongText)).1 = some "tag" := by decide +kernel
    have hanew : reportedKey (([Question.types none ping (some pingText)].foldl Question.ask
        entangled).fresh.matchTypes none pong (some pongText)).1 = some "size" := by decide +kernel
    rw [hequal, hanew] at hnow
    exact absurd hnow (by decide)
  · cases List.mem_singleton.mp hq
    exact ⟨hping, fun e he => Option.some.inj he ▸ hpingText⟩

end Sample

end Registry

end CellMachine
