import CellMachine.Proofs.Machine.Order
import CellMachine.Proofs.Machine.Regime
import CellMachine.Proofs.Ranking.Steps

/-!
Stacks that go down. Each job leaves fewer ranks to what is above it, so that the slots whose values are
being produced get lower from job to job, and no turn gives a value to the slot of a job that it does
not finish.
-/

namespace CellMachine

open Machine

/-- A job that goes down among some ranks, and whose results did. -/
structure Job.Descends (m : Machine) (ρ : Nat → ℚ) (U : LowerSet ℚ) (j : Job) : Prop where
  ranked : j.work.Ranked m ρ U
  fresh : j.work.Fresh m
  waiting : ∀ d ∈ j.waiting, d.Descends m ρ (j.work.bound ρ U)
  idle : ∀ d ∈ j.waiting.tail, d.Idle m
  results : ∀ b ∈ j.results, m.Among ρ (j.work.bound ρ U) b

/-- Jobs that leave some ranks to what is above them, and wait for what is at work for no cell. -/
inductive Tiered (m : Machine) (ρ : Nat → ℚ) : LowerSet ℚ → List Job → Prop
  | nil (U : LowerSet ℚ) : Tiered m ρ U []
  | cons {U : LowerSet ℚ} {j : Job} {below : List Job} (hj : j.Descends m ρ U)
    (hidle : ∀ d ∈ j.waiting, d.Idle m) (h : Tiered m ρ U below) :
    Tiered m ρ (j.work.bound ρ U) (j :: below)

/-- **A stack that goes down**: the job on top among the ranks that are left to it. -/
def Machine.Descending (m : Machine) (ρ : Nat → ℚ) : List Job → Prop
  | [] => False
  | top :: below => ∃ U, top.Descends m ρ U ∧ Tiered m ρ U below

variable {base : Memory} {m m' : Machine} {ρ ρ' : Nat → ℚ} {U V : LowerSet ℚ} {j : Job}
  {stack stack' : List Job}

/-! ### Jobs -/

namespace Job

lemma descends_ofAction {a : Action} (h : a.Descends m ρ U) : (Job.ofAction a).Descends m ρ U := by
  obtain ⟨hranked, hfresh, hds, hidle⟩ := h
  exact ⟨hranked, hfresh, hds, hidle, List.forall_mem_nil _⟩

namespace Descends

lemma calm (h : j.Descends m ρ U) (hconfined : Confined ⊥ ρ m ρ' m') : j.Descends m' ρ' U := by
  have hbound := h.ranked.bound_eq hconfined
  refine ⟨h.ranked.later hconfined, h.fresh.later h.ranked hconfined fun _ _ => LowerSet.notMem_bot,
    fun d hd => ?_, fun d hd => (h.idle d hd).later hconfined, fun b hb => ?_⟩
  · rw [hbound]
    exact (h.waiting d hd).calm hconfined
  · rw [hbound]
    exact hconfined.among (h.results b hb)

lemma later (h : j.Descends m ρ U) (hidle : ∀ d ∈ j.waiting, d.Idle m)
    (hconfined : Confined V ρ m ρ' m') (hle : V ≤ j.work.bound ρ U) : j.Descends m' ρ' U := by
  have hbound := h.ranked.bound_eq hconfined
  refine ⟨h.ranked.later hconfined, h.fresh.later h.ranked hconfined fun a ha hV => ?_,
    fun d hd => ?_, fun d hd => (h.idle d hd).later hconfined, fun b hb => ?_⟩
  · have hlt := hle hV
    rw [Work.bound_of_produces ha] at hlt
    exact (LowerSet.mem_Iio_iff.mp hlt).false
  · rw [hbound]
    exact (h.waiting d hd).later (hidle d hd) hconfined
  · rw [hbound]
    exact hconfined.among (h.results b hb)

lemma told (h : j.Descends m ρ U) {b : Address} (hb : m.Among ρ (j.work.bound ρ U) b) :
    Descends m ρ U { j with results := b :: j.results } :=
  { h with results := List.forall_mem_cons.mpr ⟨hb, h.results⟩ }

end Descends

end Job

/-! ### Stacks -/

namespace Tiered

lemma later (h : Tiered m ρ U stack) (hconfined : Confined V ρ m ρ' m') (hle : V ≤ U) :
    Tiered m' ρ' U stack := by
  induction h with
  | nil U => exact .nil U
  | cons hj hidle _ ih =>
    rw [← hj.ranked.bound_eq hconfined]
    exact .cons (hj.later hidle hconfined hle) (fun d hd => (hidle d hd).later hconfined)
      (ih (hle.trans hj.ranked.bound_le))

lemma above (h : Tiered m ρ U stack) :
    ∀ j ∈ stack, ∀ a, j.work.produces? = some a → a.rank ρ ∉ U := by
  induction h with
  | nil => exact List.forall_mem_nil _
  | cons hj _ _ ih =>
    refine List.forall_mem_cons.mpr ⟨fun a ha hU => ?_, fun k hk a ha hU => ?_⟩
    · rw [Work.bound_of_produces ha] at hU
      exact (LowerSet.mem_Iio_iff.mp hU).false
    · exact ih k hk a ha (hj.ranked.bound_le hU)

lemma fresh (h : Tiered m ρ U stack) : ∀ j ∈ stack, j.work.Fresh m := by
  induction h with
  | nil => exact List.forall_mem_nil _
  | cons hj _ _ ih => exact List.forall_mem_cons.mpr ⟨hj.fresh, ih⟩

lemma ne_of_descends (h : Tiered m ρ U stack) (hj : j.Descends m ρ U) :
    ∀ k ∈ stack, ∀ a, j.work.produces? = some a → k.work.produces? ≠ some a :=
  fun k hk a ha hk' => h.above k hk a hk' (hj.ranked.produces ha).2

lemma pairwise (h : Tiered m ρ U stack) :
    stack.Pairwise fun j k => ∀ a, j.work.produces? = some a → k.work.produces? ≠ some a := by
  induction h with
  | nil => exact List.Pairwise.nil
  | cons hj _ h ih => exact List.pairwise_cons.mpr ⟨h.ne_of_descends hj, ih⟩

end Tiered

namespace Machine

namespace Descending

lemma fresh (h : m.Descending ρ stack) : ∀ j ∈ stack, j.work.Fresh m := by
  match stack, h with
  | top :: below, ⟨U, htop, hbelow⟩ => exact List.forall_mem_cons.mpr ⟨htop.fresh, hbelow.fresh⟩

lemma pairwise (h : m.Descending ρ stack) :
    stack.Pairwise fun j k => ∀ a, j.work.produces? = some a → k.work.produces? ≠ some a := by
  match stack, h with
  | top :: below, ⟨U, htop, hbelow⟩ =>
    exact List.pairwise_cons.mpr ⟨hbelow.ne_of_descends htop, hbelow.pairwise⟩

lemma calm (h : m.Descending ρ stack) (hconfined : Confined ⊥ ρ m ρ' m') :
    m'.Descending ρ' stack := by
  match stack, h with
  | top :: below, ⟨U, htop, hbelow⟩ => exact ⟨U, htop.calm hconfined, hbelow.later hconfined bot_le⟩

end Descending

/-! ### Turns -/

lemma paces_conclusion (h : m.Layered base ρ) {a : Action} (hj : j.Pursues m a [])
    (hwaiting : j.waiting = []) (hdescends : j.Descends m ρ U) :
    Paces base U ρ m (conclusion j) := by
  obtain ⟨ha, done, os, hdeps, hos, heq⟩ := hj
  rw [hwaiting, List.append_nil, List.append_nil] at hdeps
  subst hdeps
  rw [hwaiting] at heq
  subst heq
  have hend : conclusion (Job.told (Job.ofAction a) [] os) m = _ :=
    conclusion_told hos.length_eq.symm m
  cases hfirst : firstOf (failures os) with
  | some p =>
    rw [hfirst] at hend
    exact .after hend (.refl U ρ m) (.pure h trivial)
  | none =>
    rw [hfirst] at hend
    have hcame : List.Forall₂ m.Came a.dependencies (successes os) := by
      refine Regime.forall₂_successes (hos.imp fun d o ho b hb => ?_) (firstOf_eq_none hfirst)
      subst hb
      exact ho
    have hbelow : ∀ b ∈ successes os, m.Among ρ (a.work.bound ρ U) b := by
      intro b hb
      refine hdescends.results b (List.mem_append_left _ ?_)
      exact List.mem_reverse.mpr hb
    obtain ⟨ds, w⟩ := a
    exact .after hend (.refl U ρ m)
      (paces_perform h ha.here.2 hcame hdescends.ranked hdescends.fresh hbelow)

lemma descending_handOver {step : Step Action} (hstep : step.Descends m ρ U)
    (hbelow : Tiered m ρ U stack) (hrunning : handOver step stack = .running stack') :
    m.Descending ρ stack' := by
  cases step with
  | action next =>
    cases hrunning
    exact ⟨U, Job.descends_ofAction hstep, hbelow⟩
  | value b =>
    cases hbelow with
    | nil => cases hrunning
    | cons hj hidle h =>
      cases hrunning
      exact ⟨_, hj.told hstep, h⟩
  | error p =>
    cases hbelow with
    | nil => cases hrunning
    | cons hj hidle h =>
      cases hrunning
      exact ⟨_, ⟨hj.ranked, hj.fresh, hj.waiting, hj.idle, hj.results⟩, h⟩

lemma descending_advance (h : m.Layered base ρ) (hworking : m.Working stack)
    (hstack : m.Descending ρ stack) (hrunning : (advance stack m).1 = .running stack') :
    ∃ ρ', (advance stack m).2.Layered base ρ' ∧ (advance stack m).2.Descending ρ' stack' := by
  match stack, hworking, hstack with
  | top :: below, ⟨a, hpursues, _⟩, ⟨U, htop, hbelow⟩ =>
    cases hw : top.waiting with
    | cons next waiting =>
      have heq : advance (top :: below) m =
          (.running (Job.ofAction next :: { top with waiting } :: below), m) := by
        rw [advance, hw]
        rfl
      rw [heq] at hrunning ⊢
      cases hrunning
      have hdescends := htop.waiting
      have hidle := htop.idle
      rw [hw] at hdescends hidle
      obtain ⟨hnext, hwaiting⟩ := List.forall_mem_cons.mp hdescends
      -- What is left to wait for is at work for no cell.
      have hlacking : Job.Descends m ρ U { top with waiting } :=
        { htop with
          waiting := hwaiting
          idle := fun d hd => hidle d (List.mem_of_mem_tail hd) }
      exact ⟨ρ, h, _, Job.descends_ofAction hnext, .cons hlacking hidle hbelow⟩
    | nil =>
      have heq : advance (top :: below) m =
          (handOver (conclusion top m).1 below, (conclusion top m).2) := by
        rw [advance, hw]
        rfl
      obtain ⟨ρ', h', hconfined, hstep⟩ := paces_conclusion h hpursues hw htop
      rw [heq] at hrunning ⊢
      exact ⟨ρ', h', descending_handOver hstep (hbelow.later hconfined le_rfl) hrunning⟩

/-- A state in which cells are evaluated in their order, with a stack that works. -/
structure Graded (base : Memory) (stack : List Job) (m : Machine) : Prop where
  working : m.Working stack
  descending : ∃ ρ, m.Layered base ρ ∧ m.Descending ρ stack

variable {outside : Nat → List String}

lemma Graded.safe (h : m.Graded base stack) : m.Safe base := by
  obtain ⟨ρ, hlayered, -⟩ := h.descending
  exact hlayered.toSafe

/-- **A turn** keeps the order, whatever others cancel. -/
lemma Graded.turn (h : m.Graded base stack)
    (hturn : turn stack (m.disturbed outside) = (.running stack', m')) :
    m'.Graded base stack' ∧ m.Precedes m' := by
  obtain ⟨-, later, hworking⟩ := safe_of_turn h.safe h.working hturn
  refine ⟨⟨hworking, ?_⟩, later⟩
  obtain ⟨ρ, hlayered, hdescending⟩ := h.descending
  obtain ⟨hdisturbed, later₁⟩ := hlayered.toSafe.disturbed outside
  obtain ⟨hticked, later₂⟩ := hdisturbed.tick
  have later' := later₁.trans later₂
  -- Of all turns only those that advance leave a stack.
  have hadvance : advance stack (m.disturbed outside).tick = (.running stack', m') :=
    turn_running hturn
  have hrunning : (advance stack (m.disturbed outside).tick).1 = .running stack' :=
    congrArg Prod.fst hadvance
  have hafter := descending_advance (hlayered.of_same hticked later' rfl rfl)
    (h.working.mono later') (hdescending.calm (.of_same later' rfl rfl)) hrunning
  rw [hadvance] at hafter
  exact hafter

/-- **Every state that a run passes** keeps the order. -/
lemma Graded.runsAmid (h : m.Graded base stack) (hruns : RunsAmid outside stack m stack' m') :
    m'.Graded base stack' ∧ m.Precedes m' := by
  induction hruns with
  | refl => exact ⟨h, .refl _⟩
  | step hturn _ ih =>
    obtain ⟨h₁, later⟩ := h.turn hturn
    obtain ⟨h', later'⟩ := ih h₁
    exact ⟨h', later.trans later'⟩

end Machine

end CellMachine
