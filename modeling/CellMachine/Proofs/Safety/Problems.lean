import Mathlib.Tactic
import CellMachine.Proofs.KeyMap
import CellMachine.Registry.Matching

/-!
Problems that only a defect of the machine itself explains, and causes that no such problem has.
Comparing types comes to causes of the second kind, and remembers no others.
-/

namespace CellMachine

/-- A cause that never speaks of a defect of the machine. Of a corrupt structure that depends on the
reason. -/
def Cause.isOrdinary : Cause → Bool
  | instructionOrderViolation | structureCorrupt => false
  | unknownPrimaryType | nonEvaluatedValue | badSpliceRange | unlisted _ => false
  | _ => true

lemma Cause.of_isOrdinary {c : Cause} (h : c.isOrdinary = true) :
    c ≠ .instructionOrderViolation ∧ c ≠ .structureCorrupt ∧ c.isVmBug = false := by
  cases c <;> first | exact absurd h Bool.false_ne_true | decide

namespace Problem

variable {p q : Problem}

/-- The reasons for which a slot of a compiled call is not found. -/
def lookupFailures : List String :=
  ["unknown compiled cell", "compiled call has no return cell", "call refers to missing memory"]

/-- A problem that only a defect of the machine explains: something came out of order, a cause is
reserved for such defects, or a slot of a compiled call was not found. -/
def Internal (p : Problem) : Prop :=
  p.cause = .instructionOrderViolation ∨ p.cause.isVmBug = true ∨
    p.cause = .structureCorrupt ∧
      ∃ reason ∈ lookupFailures, p.param? "reason" = some (.text reason)

lemma not_internal_of_ordinary (h : p.cause.isOrdinary = true) : ¬ p.Internal := by
  obtain ⟨horder, hcorrupt, hbug⟩ := Cause.of_isOrdinary h
  rintro (h | h | ⟨h, -⟩)
  · exact horder h
  · rw [hbug] at h
    cases h
  · exact hcorrupt h

lemma not_internal_of_reason (hcause : p.cause = .structureCorrupt) {reason : String}
    (hparam : p.param? "reason" = some (.text reason)) (hreason : reason ∉ lookupFailures) :
    ¬ p.Internal := by
  rintro (h | h | ⟨-, reason', hin, hparam'⟩)
  · rw [hcause] at h
    cases h
  · rw [hcause] at h
    revert h
    decide
  · cases hparam.symm.trans hparam'
    exact hreason hin

lemma internal_congr (hcause : p.cause = q.cause) (hreason : p.param? "reason" = q.param? "reason") :
    p.Internal ↔ q.Internal := by
  rw [Internal, Internal, hcause, hreason]

lemma internal_add {key : String} (hkey : key ≠ "reason") (value : Param) :
    (p.add key value).Internal ↔ p.Internal := by
  refine internal_congr rfl ?_
  show KeyMap.get? (p.params.insertNew key value) "reason" = p.params.get? "reason"
  rw [KeyMap.insertNew]
  split
  · rfl
  · exact KeyMap.get?_insert_of_ne hkey value p.params

lemma addAll_cause (p : Problem) (params : Params) : (p.addAll params).cause = p.cause := by
  unfold addAll
  induction params generalizing p with
  | nil => rfl
  | cons e params ih => exact ih _

lemma isOrdinary_of_firstOf {ps : List Problem} (hps : ∀ q ∈ ps, q.cause.isOrdinary = true)
    (h : firstOf ps = some q) : q.cause.isOrdinary = true := by
  match ps, h with
  | [_], h =>
    cases h
    exact hps q List.mem_cons_self
  | p :: p' :: rest, h =>
    cases h
    exact hps p List.mem_cons_self

lemma not_internal_of_firstOf {ps : List Problem} (hps : ∀ q ∈ ps, ¬ q.Internal)
    (h : firstOf ps = some q) : ¬ q.Internal := by
  match ps, h with
  | [_], h =>
    cases h
    exact hps q List.mem_cons_self
  | p :: p' :: rest, h =>
    cases h
    rw [internal_add (by decide)]
    exact hps p List.mem_cons_self

end Problem

namespace Registry

/-! ### Comparisons -/

/-- Whatever is remembered of comparisons that failed is ordinary. -/
def OrdinaryVerdicts (verdicts : KeyMap String (Option Problem)) : Prop :=
  ∀ key p, verdicts.get? key = some (some p) → p.cause.isOrdinary = true

/-- A failure, if it is one, is ordinary. -/
def OrdinaryOutcome {α : Type} (o : Outcome α) : Prop := ∀ p, o = .error p → p.cause.isOrdinary = true

/-- A comparison that fails with ordinary problems and remembers no others. -/
def Compare.Ordinary (c : Compare) : Prop :=
  ∀ q, OrdinaryVerdicts q.verdicts → OrdinaryOutcome (c q).1 ∧ OrdinaryVerdicts (c q).2.verdicts

lemma ordinary_ok {α : Type} (a : α) : OrdinaryOutcome (.ok a) := by
  rintro _ ⟨⟩

lemma ordinary_error {α : Type} {p : Problem} (h : p.cause.isOrdinary = true) :
    OrdinaryOutcome (.error p : Outcome α) := by
  rintro _ ⟨⟩
  exact h

lemma OrdinaryVerdicts.insert {verdicts : KeyMap String (Option Problem)}
    (h : OrdinaryVerdicts verdicts) (key : String) {p : Problem} (hp : p.cause.isOrdinary = true) :
    OrdinaryVerdicts (verdicts.insert key (some p)) := by
  intro key' p' hget
  rw [KeyMap.get?_insert] at hget
  split at hget
  · cases hget
    exact hp
  · exact h key' p' hget

lemma OrdinaryVerdicts.enter {verdicts : KeyMap String (Option Problem)}
    (h : OrdinaryVerdicts verdicts) (keys : List String) :
    OrdinaryVerdicts (keys.foldl (fun m key => m.insertNew key none) verdicts) := by
  induction keys generalizing verdicts with
  | nil => exact h
  | cons key keys ih =>
    refine ih fun key' p hget => ?_
    rw [KeyMap.get?_insertNew] at hget
    split at hget
    · next heq =>
      cases hkey : verdicts.get? key with
      | none =>
        rw [hkey] at hget
        cases hget
      | some verdict =>
        rw [hkey] at hget
        exact h key p (hkey.trans hget)
    · exact h key' p hget

variable {reg : Registry} {c c' : Compare}

lemma ordinary_resolve (reg : Registry) (r : TyRef) : OrdinaryOutcome (reg.resolve r) := by
  cases r with
  | inline t => exact ordinary_ok t
  | named n =>
    unfold resolve
    dsimp only
    cases reg.get? n with
    | none => exact ordinary_error rfl
    | some t => exact ordinary_ok t
  | generic id hint => exact ordinary_error rfl

lemma Compare.Ordinary.pure : Compare.Ordinary fun q => (.ok (), q) := fun _ h => ⟨ordinary_ok (), h⟩

lemma Compare.Ordinary.fail {p : Problem} (hp : p.cause.isOrdinary = true) :
    Compare.Ordinary fun q => (.error p, q) :=
  fun _ h => ⟨ordinary_error hp, h⟩

lemma Compare.Ordinary.andThen (h : c.Ordinary) (h' : c'.Ordinary) : (c.andThen c').Ordinary := by
  intro q hq
  have hc := h q hq
  unfold Compare.andThen
  generalize c q = r at hc
  obtain ⟨o, q₁⟩ := r
  cases o with
  | ok u => exact h' q₁ hc.2
  | error p => exact hc

lemma Compare.Ordinary.explain (h : c.Ordinary) {f : Problem → Problem}
    (hf : ∀ p, (f p).cause = p.cause) : (c.explain f).Ordinary := by
  intro q hq
  have hc := h q hq
  unfold Compare.explain
  generalize c q = r at hc
  obtain ⟨o, q₁⟩ := r
  cases o with
  | ok u => exact hc
  | error p => exact ⟨ordinary_error ((hf p).symm ▸ hc.1 p rfl), hc.2⟩

lemma ordinary_compareRefs {compare : Ty → Ty → Compare} (h : ∀ e a, (compare e a).Ordinary)
    (expected actual : TyRef) : (reg.compareRefs compare expected actual).Ordinary := by
  intro q hq
  unfold compareRefs
  split
  · split
    · exact ⟨ordinary_ok (), hq⟩
    · exact ⟨ordinary_error rfl, hq⟩
  · have hexpected := reg.ordinary_resolve expected
    have hactual := reg.ordinary_resolve actual
    cases he : reg.resolve expected with
    | error p => exact ⟨ordinary_error (hexpected p he), hq⟩
    | ok e =>
      cases ha : reg.resolve actual with
      | error p => exact ⟨ordinary_error (hactual p ha), hq⟩
      | ok a => exact h e a q hq

lemma ordinary_compareStores {compare : TyRef → TyRef → Compare} (h : ∀ e a, (compare e a).Ordinary)
    (expected actual : Ty) (available stores : List (String × TyRef)) :
    (compareStores compare expected actual available stores).Ordinary := by
  induction stores with
  | nil => exact .pure
  | cons e rest ih =>
    intro q hq
    unfold compareStores
    cases KeyMap.get? available e.1 with
    | none => exact ⟨ordinary_error rfl, hq⟩
    | some a =>
      have hmember := (h e.2 a).explain (f := fun p => p.add "key" e.1) fun _ => rfl
      exact hmember.andThen ih q hq

lemma ordinary_compareContents {compare : TyRef → TyRef → Compare}
    (h : ∀ e a, (compare e a).Ordinary) (expected actual : Ty) :
    (compareContents compare expected actual).Ordinary := by
  unfold compareContents
  split
  · intro q hq
    split
    · exact ⟨ordinary_ok (), hq⟩
    · exact ⟨ordinary_error rfl, hq⟩
  · exact h _ _
  · exact ordinary_compareStores h _ _ _ _
  · exact (h _ _).andThen (h _ _)
  · exact h _ _
  · exact .fail rfl

lemma ordinary_compareTypes (reg : Registry) (fuel : Nat) (expected actual : Ty) :
    Compare.Ordinary (reg.compareTypes fuel expected actual) := by
  -- On the fuel; remembered failures are ordinary by assumption.
  induction fuel generalizing expected actual with
  | zero => exact .pure
  | succ fuel ih =>
    intro q hq
    unfold compareTypes
    split
    · exact ⟨ordinary_ok (), hq⟩
    · split
      · exact ⟨ordinary_error rfl, hq⟩
      · dsimp only
        split
        · exact ⟨ordinary_ok (), hq⟩
        · split
          · exact ⟨ordinary_ok (), hq⟩
          · next p hp => exact ⟨ordinary_error (hq _ p hp), hq⟩
          · have hrefs : ∀ e a, (reg.compareRefs (reg.compareTypes fuel) e a).Ordinary :=
              ordinary_compareRefs ih
            have hcontents := ordinary_compareContents hrefs expected actual
              { q with entered := pairKey actual.name expected.name :: q.entered } hq
            generalize compareContents (reg.compareRefs (reg.compareTypes fuel)) expected actual
              { q with entered := pairKey actual.name expected.name :: q.entered } = r at hcontents
            obtain ⟨o, q₁⟩ := r
            cases o with
            | ok u => exact hcontents
            | error p =>
              have hp := hcontents.1 p rfl
              exact ⟨ordinary_error hp, hcontents.2.insert _ hp⟩

/-- **A comparison of types fails with an ordinary problem**, and remembers no others. -/
lemma ordinary_matchTypes (h : OrdinaryVerdicts reg.verdicts) (source : Option Position) (actual : Ty)
    (expected : Option Ty) : OrdinaryOutcome (reg.matchTypes source actual expected).1 ∧
      OrdinaryVerdicts (reg.matchTypes source actual expected).2.verdicts := by
  unfold matchTypes
  split
  · exact ⟨ordinary_error rfl, h⟩
  · next e _ =>
    have hcompare := reg.ordinary_compareTypes (reg.fuelFor e actual) e actual ⟨[], reg.verdicts⟩ h
    generalize reg.compareTypes (reg.fuelFor e actual) e actual ⟨[], reg.verdicts⟩ = r at hcompare
    obtain ⟨o, q⟩ := r
    cases o with
    | ok u => exact ⟨ordinary_ok (), hcompare.2.enter q.entered⟩
    | error p => exact ⟨ordinary_error (hcompare.1 p rfl), hcompare.2⟩

end Registry

end CellMachine
