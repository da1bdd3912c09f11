import CellMachine.Proofs.Machine.Actions
import CellMachine.Proofs.Machine.Recursion

/-!
The order in which the stack is worked off. Every job on the stack accounts for all its dependencies:
each has its result or its failure noted, still waits, or is what the job above works on. So the machine
never finds the stack empty, results out of step or a result missing, and executing an action is
evaluating it by recursion.
-/

namespace CellMachine

/-- A job is an action on its way, with some of its dependencies noted and some still to be noted; the
jobs above it work on the `missing` ones. -/
def Job.Serves (P : List Action → Work Action → Prop) (missing : Nat) (j : Job) : Prop :=
  ∃ a : Action, a.Every P ∧ j.work = a.work ∧ j.expected = a.dependencies.length ∧
    j.waiting <:+ a.dependencies ∧
    j.results.length + j.errors.length + j.waiting.length + missing = j.expected

/-- The job on top of a stack lacks nothing but what waits, the others one dependency more. -/
def Orderly (P : List Action → Work Action → Prop) : List Job → Prop
  | [] => False
  | top :: below => top.Serves P 0 ∧ ∀ j ∈ below, j.Serves P 1

/-- There is a job to go on with; if it is about to do its own work, it has a result of every dependency,
and at least one where the work takes it. -/
def InOrder (stack : List Job) : Prop :=
  ∃ top below, stack = top :: below ∧
    (top.waiting = [] → firstOf top.errors.reverse = none →
      top.results.length = top.expected ∧
        (top.work.takesResult = true → ∃ a, top.results.reverse.getLast? = some a))

variable {P : List Action → Work Action → Prop}

lemma Job.serves_ofAction {a : Action} (h : a.Every P) : (Job.ofAction a).Serves P 0 :=
  ⟨a, h, rfl, rfl, List.suffix_rfl, by simp [Job.ofAction]⟩

lemma Job.Serves.pushed {j : Job} (h : j.Serves P 0) {next : Action} {waiting : List Action}
    (hj : j.waiting = next :: waiting) :
    next.Every P ∧ Job.Serves P 1 { j with waiting } := by
  obtain ⟨a, ha, hwork, hexp, hsuffix, hcount⟩ := h
  rw [hj] at hsuffix hcount
  refine ⟨ha.dependencies next (hsuffix.subset List.mem_cons_self), a, ha, hwork, hexp,
    (List.suffix_cons next waiting).trans hsuffix, ?_⟩
  rw [List.length_cons] at hcount
  dsimp only
  omega

lemma Job.Serves.told {j : Job} (h : j.Serves P 1) (o : Outcome Address) :
    Job.Serves P 0 (Job.told j j.waiting [o]) := by
  obtain ⟨a, ha, hwork, hexp, hsuffix, hcount⟩ := h
  refine ⟨a, ha, hwork, hexp, hsuffix, ?_⟩
  cases o <;> simp [Job.told, successes, failures] <;> omega

lemma Orderly.inOrder {stack : List Job}
    (h : Orderly (fun ds w => w.takesResult = true → ds ≠ []) stack) :
    InOrder stack := by
  match stack, h with
  | j :: below, ⟨⟨a, ha, hwork, hexp, _, hcount⟩, _⟩ =>
    refine ⟨j, below, rfl, fun hwaiting herrors => ?_⟩
    have hnone : j.errors.reverse = [] := Machine.firstOf_eq_none herrors
    rw [List.reverse_eq_nil_iff] at hnone
    simp only [hwaiting, hnone, List.length_nil, Nat.add_zero] at hcount
    refine ⟨hcount, fun htakes => ?_⟩
    have hfed : a.dependencies ≠ [] := ha.here (hwork ▸ htakes)
    have hne : j.results ≠ [] := by
      intro hnil
      rw [hnil, hexp, List.length_nil] at hcount
      exact hfed (List.eq_nil_of_length_eq_zero hcount.symm)
    obtain ⟨b, bs, hb⟩ := List.exists_cons_of_ne_nil hne
    exact ⟨b, by simp [hb]⟩

namespace Machine

variable {stack stack' : List Job} {m m' : Machine}

lemma conclusion_cases (j : Job) (m : Machine) :
    (∃ p, conclusion j m = (.error p, m)) ∨
      conclusion j m = perform j.work j.results.reverse m := by
  rw [conclusion]
  cases firstOf j.errors.reverse with
  | some p => exact .inl ⟨p, rfl⟩
  | none =>
    dsimp only
    split
    · exact .inl ⟨_, rfl⟩
    · exact .inr rfl

lemma every_conclusion (hP : ∀ a : Action, a.Plain → a.Every P) {j : Job} {missing : Nat}
    (h : j.Serves P missing) {next : Action} (hnext : (conclusion j m).1 = .action next) :
    next.Every P := by
  obtain ⟨a, ha, hwork, -⟩ := h
  obtain ⟨p, hend⟩ | hend := conclusion_cases j m
  · rw [hend] at hnext
    cases hnext
  · rw [hend, hwork] at hnext
    cases hcustom : a.work.isCustom with
    | false =>
      have hplain := (tame_perform hcustom j.results.reverse m).1
      rw [hnext] at hplain
      exact hP next hplain
    | true =>
      cases hw : a.work with
      | custom run =>
        rw [hw] at hnext
        exact ha.next hw hnext
      | _ =>
        rw [hw] at hcustom
        cases hcustom

lemma orderly_handOver {below : List Job} (hbelow : ∀ j ∈ below, j.Serves P 1) {step : Step Action}
    (hstep : ∀ next, step = .action next → next.Every P)
    (h : handOver step below = .running stack') : Orderly P stack' := by
  cases step with
  | action next =>
    cases h
    exact ⟨Job.serves_ofAction (hstep next rfl), hbelow⟩
  | value a =>
    cases below with
    | nil => cases h
    | cons j below =>
      cases h
      obtain ⟨hj, hbelow⟩ := List.forall_mem_cons.mp hbelow
      exact ⟨hj.told (.ok a), hbelow⟩
  | error p =>
    cases below with
    | nil => cases h
    | cons j below =>
      cases h
      obtain ⟨hj, hbelow⟩ := List.forall_mem_cons.mp hbelow
      exact ⟨hj.told (.error p), hbelow⟩

lemma turn_running (h : turn stack m = (.running stack', m')) :
    advance stack m.tick = (.running stack', m') := by
  unfold turn at h
  split at h
  · cases h
  · dsimp only at h
    split at h
    · cases h
    · exact h

/-- **A turn keeps the stack orderly.** -/
lemma orderly_turn (hP : ∀ a : Action, a.Plain → a.Every P) (h : Orderly P stack)
    (ht : turn stack m = (.running stack', m')) : Orderly P stack' := by
  have hadvance := turn_running ht
  match stack, h with
  | j :: below, ⟨hj, hbelow⟩ =>
    rw [advance] at hadvance
    cases hw : j.waiting with
    | cons next waiting =>
      rw [hw] at hadvance
      cases hadvance
      obtain ⟨hnext, hj'⟩ := hj.pushed hw
      exact ⟨Job.serves_ofAction hnext, List.forall_mem_cons.mpr ⟨hj', hbelow⟩⟩
    | nil =>
      rw [hw] at hadvance
      exact orderly_handOver hbelow (fun next hnext => every_conclusion hP hj hnext)
        (congrArg Prod.fst hadvance)

lemma orderly_runs (hP : ∀ a : Action, a.Plain → a.Every P) (h : Orderly P stack)
    (hr : Runs stack m stack' m') : Orderly P stack' := by
  induction hr with
  | refl => exact h
  | step ht _ ih => exact ih (orderly_turn hP h ht)

/-! ### Runs of the machine's own work -/

/-- No work on the stack is a host's. -/
def OrderlyPlain (stack : List Job) : Prop :=
  Orderly (fun ds w => w.isCustom = false ∧ (w.takesResult = true → ds ≠ [])) stack

lemma setting_turn (h : OrderlyPlain stack) (ht : turn stack m = (.running stack', m')) :
    m'.setting = m.setting := by
  have hadvance := turn_running ht
  match stack, h with
  | j :: below, ⟨⟨a, ha, hwork, _⟩, _⟩ =>
    rw [advance] at hadvance
    cases hw : j.waiting with
    | cons next waiting =>
      rw [hw] at hadvance
      cases hadvance
      rfl
    | nil =>
      rw [hw] at hadvance
      have hend : (conclusion j m.tick).2 = m' := congrArg Prod.snd hadvance
      rw [← hend]
      obtain ⟨p, hc⟩ | hc := conclusion_cases j m.tick
      · rw [hc]
        rfl
      · rw [hc, hwork]
        exact (tame_perform ha.here.1 _ m.tick).2

lemma setting_runs (h : OrderlyPlain stack) (hr : Runs stack m stack' m') :
    m'.setting = m.setting := by
  induction hr with
  | refl => rfl
  | step ht _ ih => exact (ih (orderly_turn (fun _ ha => ha) h ht)).trans (setting_turn h ht)

lemma undisturbed_of_plain {root : Action} (hroot : root.Plain)
    (hlimit : m.setting.config.maxSteps = none) (htoken : m.setting.token = none) :
    Undisturbed [Job.ofAction root] m := by
  intro stack' m' hr
  have hstack : OrderlyPlain [Job.ofAction root] :=
    ⟨Job.serves_ofAction hroot, List.forall_mem_nil _⟩
  have hsetting := setting_runs hstack hr
  refine ⟨hsetting ▸ hlimit, ?_⟩
  rw [hsetting, htoken]
  rfl

/-! ### Execution is evaluation -/

/-- **The stack evaluates by recursion.** As long as neither a budget nor a cancellation stops the
machine, executing an action ends in the way that evaluating it does, with the machine in the same
state; and on the way the stack is always in order. -/
theorem execution_is_recursive_evaluation {root : Action} (hroot : root.Fed)
    (hfree : Undisturbed [Job.ofAction root] m) :
    (∀ o m', (∃ n, ∀ fuel ≥ n, execute fuel root m = (some o, m')) ↔
      ∃ fuel, evaluate fuel root m = some (o, m')) ∧
    ∀ stack m', Runs [Job.ofAction root] m stack m' → InOrder stack := by
  refine ⟨fun o m' => execute_iff_evaluate hfree, fun stack m' hr => ?_⟩
  have hstack : Orderly _ [Job.ofAction root] := ⟨Job.serves_ofAction hroot, nofun⟩
  exact (orderly_runs (fun a ha => ha.fed) hstack hr).inOrder

/-- Slots without a value that are asked for at two levels: the first problem in order is the outcome,
and the sibling after it is still executed. -/
theorem missing_slots_execution :
    let missing := Action.evaluate (.at 0) .shallow
    let root := Action.mk [.mk [missing, .value (.at 1)] (.value (.at 2)),
      (Action.evaluate (.at 3) .deep).andThen .deepen] (.value (.at 4))
    root.Fed ∧ Undisturbed [Job.ofAction root] {} ∧
    (∃ n, ∀ fuel ≥ n, execute fuel root {} =
      (some (.error ((unevaluated {} (.at 0)).add "additional_errors" (1 : Nat))),
        { steps := 11 })) ∧
    ∀ stack m', Runs [Job.ofAction root] {} stack m' → InOrder stack := by
  intro missing root
  have hfirst : (Action.mk [missing, .value (.at 1)] (.value (.at 2))).Plain :=
    Action.plain_mk (List.forall_mem_cons.mpr ⟨Action.plain_evaluate _ _,
      List.forall_mem_cons.mpr ⟨Action.plain_value _, nofun⟩⟩) rfl nofun
  have hsecond : ((Action.evaluate (.at 3) .deep).andThen .deepen).Plain :=
    (Action.plain_evaluate _ _).andThen rfl
  have hroot : root.Plain :=
    Action.plain_mk (List.forall_mem_cons.mpr ⟨hfirst, List.forall_mem_cons.mpr ⟨hsecond, nofun⟩⟩)
      rfl nofun
  have hfree : Undisturbed [Job.ofAction root] {} := undisturbed_of_plain hroot rfl rfl
  obtain ⟨hexec, horder⟩ := execution_is_recursive_evaluation hroot.fed hfree
  exact ⟨hroot.fed, hfree, (hexec _ _).mpr ⟨3, rfl⟩, horder⟩

end Machine

end CellMachine
