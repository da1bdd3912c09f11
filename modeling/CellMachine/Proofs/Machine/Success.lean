import CellMachine.Proofs.Machine.Recursion

/-!
Evaluations of actions that succeed: all dependencies do, and then the own work comes to a slot, at
once or by further work that succeeds.
-/

namespace CellMachine

namespace Machine

/-- Evaluation with some fuel comes to a slot. -/
def Succeeds (fuel : Nat) (a : Action) (m : Machine) (b : Address) (m' : Machine) : Prop :=
  evaluate fuel a m = some (.ok b, m')

/-- Evaluation comes to a slot. -/
def Ends (a : Action) (m : Machine) (b : Address) (m' : Machine) : Prop :=
  ∃ fuel, Succeeds fuel a m b m'

/-- A step is a slot, or work that comes to one. -/
def Leads (R : Action → Machine → Address → Machine → Prop) (r : Step Action × Machine)
    (b : Address) (m' : Machine) : Prop :=
  match r with
  | (.value a, m) => a = b ∧ m = m'
  | (.error _, _) => False
  | (.action next, m) => R next m b m'

/-- Actions succeed one after the other. -/
def SucceedAll (R : Action → Machine → Address → Machine → Prop) :
    List Action → Machine → List Address → Machine → Prop
  | [], m, bs, m' => bs = [] ∧ m = m'
  | a :: as, m, bs, m' => ∃ b m₁ rest, R a m.tick b m₁ ∧ SucceedAll R as m₁ rest m' ∧ bs = b :: rest

lemma succeeds_mono {fuel fuel' : Nat} (hle : fuel ≤ fuel') {a : Action} {m m' : Machine}
    {b : Address} (h : Succeeds fuel a m b m') : Succeeds fuel' a m b m' := evaluate_mono hle h

section Mono

variable {R R' : Action → Machine → Address → Machine → Prop}

lemma Leads.mono (h : ∀ a m b m', R a m b m' → R' a m b m') {r : Step Action × Machine}
    {b : Address} {m' : Machine} (hr : Leads R r b m') : Leads R' r b m' := by
  obtain ⟨step, m⟩ := r
  cases step with
  | value a => exact hr
  | error q => exact hr
  | action next => exact h _ _ _ _ hr

lemma SucceedAll.mono (h : ∀ a m b m', R a m b m' → R' a m b m') {as : List Action}
    {m m' : Machine} {bs : List Address} (hr : SucceedAll R as m bs m') :
    SucceedAll R' as m bs m' := by
  induction as generalizing m bs with
  | nil => exact hr
  | cons a as ih =>
    obtain ⟨b, m₁, rest, hb, hrest, rfl⟩ := hr
    exact ⟨b, m₁, rest, h _ _ _ _ hb, ih hrest, rfl⟩

end Mono

lemma succeedAll_iff {fuel : Nat} {as : List Action} {m m' : Machine} {bs : List Address} :
    SucceedAll (Succeeds fuel) as m bs m' ↔ ∃ os, evaluateAll (evaluate fuel) as m = some (os, m') ∧
      failures os = [] ∧ successes os = bs := by
  induction as generalizing m bs with
  | nil =>
    constructor
    · rintro ⟨rfl, rfl⟩
      exact ⟨[], rfl, rfl, rfl⟩
    · rintro ⟨os, hos, -, rfl⟩
      cases hos
      exact ⟨rfl, rfl⟩
  | cons a as ih =>
    constructor
    · rintro ⟨b, m₁, rest, hb, hrest, rfl⟩
      obtain ⟨os, hos, hfailures, rfl⟩ := ih.mp hrest
      exact ⟨.ok b :: os, evaluateAll_cons_iff.mpr ⟨_, m₁, os, m', hb, hos, rfl⟩, hfailures, rfl⟩
    · rintro ⟨os, hos, hfailures, rfl⟩
      obtain ⟨o, m₁, os, m₂, ho, hrest, hr⟩ := evaluateAll_cons_iff.mp hos
      cases hr
      cases o with
      | ok b => exact ⟨b, m₁, successes os, ho, ih.mpr ⟨os, hrest, hfailures, rfl⟩, rfl⟩
      | error q => cases hfailures

lemma succeeds_succ_iff {fuel : Nat} {a : Action} {m m' : Machine} {b : Address} :
    Succeeds (fuel + 1) a m b m' ↔ ∃ bs m₁, SucceedAll (Succeeds fuel) a.dependencies m bs m₁ ∧
      Leads (Succeeds fuel) (perform a.work bs m₁.tick) b m' := by
  have finished : ∀ {os m₁}, finish (evaluate fuel) a.work os m₁ = some (.ok b, m') ↔
      failures os = [] ∧ Leads (Succeeds fuel) (perform a.work (successes os) m₁) b m' := by
    intro os m₁
    unfold finish
    cases hf : firstOf (failures os) with
    | some q =>
      refine ⟨nofun, fun ⟨hnil, _⟩ => ?_⟩
      rw [hnil] at hf
      cases hf
    | none =>
      rw [firstOf_eq_none hf]
      dsimp only
      rcases perform a.work (successes os) m₁ with ⟨step, m₂⟩
      cases step with
      | value c => simp [Leads]
      | error q => simp [Leads]
      | action next => simp [Leads, Succeeds]
  rw [Succeeds, evaluate_succ_iff]
  constructor
  · rintro ⟨os, m₁, hos, hfin⟩
    obtain ⟨hfailures, hleads⟩ := finished.mp hfin
    exact ⟨_, m₁, succeedAll_iff.mpr ⟨os, hos, hfailures, rfl⟩, hleads⟩
  · rintro ⟨bs, m₁, hall, hleads⟩
    obtain ⟨os, hos, hfailures, rfl⟩ := succeedAll_iff.mp hall
    exact ⟨os, m₁, hos, finished.mpr ⟨hfailures, hleads⟩⟩

/-! ### With enough fuel -/

lemma exists_succeedAll {as : List Action} {m m' : Machine} {bs : List Address}
    (h : SucceedAll Ends as m bs m') : ∃ fuel, SucceedAll (Succeeds fuel) as m bs m' := by
  induction as generalizing m bs with
  | nil => exact ⟨0, h⟩
  | cons a as ih =>
    obtain ⟨b, m₁, rest, ⟨n, hb⟩, hrest, rfl⟩ := h
    obtain ⟨n', hrest⟩ := ih hrest
    exact ⟨max n n', b, m₁, rest, succeeds_mono (le_max_left _ _) hb,
      hrest.mono fun _ _ _ _ => succeeds_mono (le_max_right _ _), rfl⟩

lemma Leads.exists_fuel {r : Step Action × Machine} {b : Address} {m' : Machine}
    (h : Leads Ends r b m') : ∃ fuel, Leads (Succeeds fuel) r b m' := by
  obtain ⟨step, m⟩ := r
  cases step with
  | value c => exact ⟨0, h⟩
  | error q => exact h.elim
  | action next => exact h

/-- **An action comes to a slot** when its dependencies do and its own work does. -/
lemma ends_of {a : Action} {m m₁ m' : Machine} {bs : List Address} {b : Address}
    (hall : SucceedAll Ends a.dependencies m bs m₁)
    (hleads : Leads Ends (perform a.work bs m₁.tick) b m') : Ends a m b m' := by
  obtain ⟨n, hall⟩ := exists_succeedAll hall
  obtain ⟨n', hleads⟩ := hleads.exists_fuel
  refine ⟨max n n' + 1, succeeds_succ_iff.mpr ⟨bs, m₁, ?_, ?_⟩⟩
  · exact hall.mono fun _ _ _ _ => succeeds_mono (le_max_left _ _)
  · exact hleads.mono fun _ _ _ _ => succeeds_mono (le_max_right _ _)

lemma ends_andThen {a : Action} {w : Work Action} {m m₁ m' : Machine} {b c : Address}
    (ha : Ends a m.tick b m₁) (hleads : Leads Ends (perform w [b] m₁.tick) c m') :
    Ends (a.andThen w) m c m' :=
  ends_of ⟨b, m₁, [], ha, ⟨rfl, rfl⟩, rfl⟩ hleads

lemma succeeds_andThen {fuel : Nat} {a : Action} {w : Work Action} {m m' : Machine} {c : Address}
    (h : Succeeds (fuel + 1) (a.andThen w) m c m') :
    ∃ b m₁, Succeeds fuel a m.tick b m₁ ∧
      Leads (Succeeds fuel) (perform w [b] m₁.tick) c m' := by
  obtain ⟨bs, m₁, ⟨b, m₂, rest, hb, ⟨rfl, rfl⟩, rfl⟩, hleads⟩ := succeeds_succ_iff.mp h
  exact ⟨b, m₂, hb, hleads⟩

end Machine

end CellMachine
