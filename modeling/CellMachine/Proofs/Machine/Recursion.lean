import Mathlib.Tactic
import CellMachine.Machine.Execution

/-!
Evaluation of actions by recursion, and its agreement with the stack.

The recursive evaluation evaluates all dependencies of an action in order and then does the action's
own work. The machine does the same with a stack of jobs: evaluating an action by recursion is a run
that ends in handing its outcome to the job below it, and a run that comes to an end is made of such
pieces.
-/

namespace CellMachine

/-! ### Outcomes of dependencies -/

/-- The problems among outcomes. -/
def failures (os : List (Outcome Address)) : List Problem :=
  os.filterMap fun
    | .ok _ => none
    | .error p => some p

/-- The addresses among outcomes. -/
def successes (os : List (Outcome Address)) : List Address :=
  os.filterMap fun
    | .ok a => some a
    | .error _ => none

lemma length_outcomes (os : List (Outcome Address)) :
    (successes os).length + (failures os).length = os.length := by
  induction os with
  | nil => rfl
  | cons o os ih =>
    cases o <;> simp only [successes, failures, List.filterMap_cons, List.length_cons] at ih ⊢ <;>
      omega

/-- An outcome as a step. -/
def Step.ofOutcome : Outcome Address → Step Action
  | .ok a => .value a
  | .error p => .error p

/-- A job that was told how some of its dependencies came out. -/
def Job.told (j : Job) (waiting : List Action) (os : List (Outcome Address)) : Job :=
  { j with
    waiting
    results := (successes os).reverse ++ j.results
    errors := (failures os).reverse ++ j.errors }

lemma Job.told_append (j : Job) (ws ws' : List Action) (os os' : List (Outcome Address)) :
    Job.told (Job.told j ws os) ws' os' = Job.told j ws' (os ++ os') := by
  simp [Job.told, successes, failures]

namespace Machine

/-- A turn is counted. -/
def tick (m : Machine) : Machine := { m with steps := m.steps + 1 }

/-- Neither a budget nor a cancellation stops the machine. -/
def Free (m : Machine) : Prop :=
  m.setting.config.maxSteps = none ∧ m.store.isCancelled m.setting.token = false

/-! ### Recursive evaluation -/

/-- Evaluates actions in order, whatever the earlier ones come to. -/
def evaluateAll (eval : Action → Machine → Option (Outcome Address × Machine)) :
    List Action → Machine → Option (List (Outcome Address) × Machine)
  | [], m => some ([], m)
  | a :: rest, m =>
    (eval a m.tick).bind fun (o, m) =>
      (evaluateAll eval rest m).map fun (os, m) => (o :: os, m)

/-- The own work of an action whose dependencies came out in some way: the first failure of theirs, or
what the work comes to. -/
def finish (eval : Action → Machine → Option (Outcome Address × Machine)) (work : Work Action)
    (os : List (Outcome Address)) (m : Machine) : Option (Outcome Address × Machine) :=
  match firstOf (failures os) with
  | some p => some (.error p, m)
  | none =>
    match perform work (successes os) m with
    | (.value a, m) => some (.ok a, m)
    | (.error p, m) => some (.error p, m)
    | (.action next, m) => eval next m

/-- Evaluates an action: its dependencies first, then its own work; `none` when the fuel does not
last. -/
def evaluate : Nat → Action → Machine → Option (Outcome Address × Machine)
  | 0, _, _ => none
  | fuel + 1, a, m =>
    (evaluateAll (evaluate fuel) a.dependencies m).bind fun (os, m) =>
      finish (evaluate fuel) a.work os m.tick

lemma evaluateAll_cons_iff {e : Action → Machine → Option (Outcome Address × Machine)} {a : Action}
    {as : List Action} {m : Machine} {r : List (Outcome Address) × Machine} :
    evaluateAll e (a :: as) m = some r ↔ ∃ o m₁ os m₂, e a m.tick = some (o, m₁) ∧
      evaluateAll e as m₁ = some (os, m₂) ∧ r = (o :: os, m₂) := by
  rw [evaluateAll]
  constructor
  · intro h
    obtain ⟨⟨o, m₁⟩, ho, h⟩ := Option.bind_eq_some_iff.mp h
    obtain ⟨⟨os, m₂⟩, hos, rfl⟩ := Option.map_eq_some_iff.mp h
    exact ⟨o, m₁, os, m₂, ho, hos, rfl⟩
  · rintro ⟨o, m₁, os, m₂, ho, hos, rfl⟩
    rw [ho, Option.bind_some]
    dsimp only
    rw [hos]
    rfl

lemma evaluate_succ_iff {fuel : Nat} {a : Action} {m : Machine} {r : Outcome Address × Machine} :
    evaluate (fuel + 1) a m = some r ↔ ∃ os m₁, evaluateAll (evaluate fuel) a.dependencies m =
      some (os, m₁) ∧ finish (evaluate fuel) a.work os m₁.tick = some r := by
  rw [evaluate, Option.bind_eq_some_iff]
  exact ⟨fun ⟨⟨os, m₁⟩, h⟩ => ⟨os, m₁, h⟩, fun ⟨os, m₁, h⟩ => ⟨(os, m₁), h⟩⟩

section Mono

variable {e e' : Action → Machine → Option (Outcome Address × Machine)}

lemma evaluateAll_mono (h : ∀ a m r, e a m = some r → e' a m = some r) {as : List Action}
    {m : Machine} {r : List (Outcome Address) × Machine} (hr : evaluateAll e as m = some r) :
    evaluateAll e' as m = some r := by
  induction as generalizing m r with
  | nil => exact hr
  | cons a as ih =>
    obtain ⟨o, m₁, os, m₂, ho, hos, rfl⟩ := evaluateAll_cons_iff.mp hr
    exact evaluateAll_cons_iff.mpr ⟨o, m₁, os, m₂, h _ _ _ ho, ih hos, rfl⟩

lemma finish_mono (h : ∀ a m r, e a m = some r → e' a m = some r) {work : Work Action}
    {os : List (Outcome Address)} {m : Machine} {r : Outcome Address × Machine}
    (hr : finish e work os m = some r) : finish e' work os m = some r := by
  unfold finish at hr ⊢
  cases hf : firstOf (failures os) with
  | some p =>
    rw [hf] at hr
    exact hr
  | none =>
    rw [hf] at hr
    dsimp only at hr ⊢
    rcases hp : perform work (successes os) m with ⟨step, m₁⟩
    rw [hp] at hr
    cases step with
    | value b => exact hr
    | error p => exact hr
    | action next => exact h _ _ _ hr

end Mono

lemma evaluate_succ {fuel : Nat} {a : Action} {m : Machine} {r : Outcome Address × Machine}
    (h : evaluate fuel a m = some r) : evaluate (fuel + 1) a m = some r := by
  induction fuel generalizing a m r with
  | zero => cases h
  | succ fuel ih =>
    obtain ⟨os, m₁, hos, h⟩ := evaluate_succ_iff.mp h
    exact evaluate_succ_iff.mpr ⟨os, m₁, evaluateAll_mono (fun _ _ _ => ih) hos,
      finish_mono (fun _ _ _ => ih) h⟩

lemma evaluate_mono {fuel fuel' : Nat} (hle : fuel ≤ fuel') {a : Action} {m : Machine}
    {r : Outcome Address × Machine} (h : evaluate fuel a m = some r) :
    evaluate fuel' a m = some r := by
  induction hle with
  | refl => exact h
  | step _ ih => exact evaluate_succ ih

/-! ### Runs -/

/-- The machine gets from one stack and state to another by taking turns. -/
inductive Runs : List Job → Machine → List Job → Machine → Prop
  | refl (stack : List Job) (m : Machine) : Runs stack m stack m
  | step {stack stack' stack'' : List Job} {m m' m'' : Machine}
    (h : turn stack m = (.running stack', m')) (h' : Runs stack' m' stack'' m'') :
    Runs stack m stack'' m''

/-- In no state that a run passes is the machine stopped. -/
def Undisturbed (stack : List Job) (m : Machine) : Prop :=
  ∀ stack' m', Runs stack m stack' m' → m'.Free

variable {stack stack' stack'' : List Job} {m m' m'' : Machine}

lemma Runs.trans (h : Runs stack m stack' m') (h' : Runs stack' m' stack'' m'') :
    Runs stack m stack'' m'' := by
  induction h with
  | refl => exact h'
  | step h _ ih => exact .step h (ih h')

lemma Undisturbed.free (h : Undisturbed stack m) : m.Free := h _ _ (.refl _ _)

lemma Undisturbed.of_runs (h : Undisturbed stack m) (h' : Runs stack m stack' m') :
    Undisturbed stack' m' :=
  fun _ _ h'' => h _ _ (h'.trans h'')

lemma turn_of_free (h : m.Free) (stack : List Job) : turn stack m = advance stack m.tick := by
  obtain ⟨hlimit, htoken⟩ := h
  have hbudget : overBudget m.setting.config (m.steps + 1) = none := by rw [overBudget, hlimit]
  simp only [turn, htoken, hbudget]
  rfl

lemma runs_push (h : m.Free) {j : Job} {a : Action} {rest : List Action}
    (hj : j.waiting = a :: rest) (below : List Job) :
    Runs (j :: below) m (Job.ofAction a :: { j with waiting := rest } :: below) m.tick := by
  refine .step ?_ (.refl _ _)
  rw [turn_of_free h, advance, hj]
  rfl

lemma turn_conclude (h : m.Free) {j : Job} (hj : j.waiting = []) (below : List Job) :
    turn (j :: below) m =
      (handOver (conclusion j m.tick).1 below, (conclusion j m.tick).2) := by
  rw [turn_of_free h, advance, hj]
  rfl

lemma handOver_ofOutcome (o : Outcome Address) (j : Job) (below : List Job) :
    handOver (Step.ofOutcome o) (j :: below) = .running (Job.told j j.waiting [o] :: below) := by
  cases o <;> rfl

lemma firstOf_eq_none {ps : List Problem} (h : firstOf ps = none) : ps = [] := by
  match ps with
  | [] => rfl
  | [_] => cases h
  | _ :: _ :: _ => cases h

/-! ### Evaluation is a run -/

/-- A run of some jobs that ends by handing an outcome to the jobs below. -/
def Delivers (stack : List Job) (m : Machine) (o : Outcome Address) (below : List Job)
    (m' : Machine) : Prop :=
  ∃ stack₁ m₁, Runs stack m stack₁ m₁ ∧ turn stack₁ m₁ = (handOver (Step.ofOutcome o) below, m')

lemma Delivers.of_runs {o : Outcome Address} {below : List Job} (h : Runs stack m stack' m')
    (h' : Delivers stack' m' o below m'') : Delivers stack m o below m'' := by
  obtain ⟨stack₁, m₁, hrun, hturn⟩ := h'
  exact ⟨stack₁, m₁, h.trans hrun, hturn⟩

lemma Delivers.runs {o : Outcome Address} {j : Job} {below : List Job}
    (h : Delivers stack m o (j :: below) m') :
    Runs stack m (Job.told j j.waiting [o] :: below) m' := by
  obtain ⟨stack₁, m₁, hrun, hturn⟩ := h
  rw [handOver_ofOutcome] at hturn
  exact hrun.trans (.step hturn (.refl _ _))

/-- Dependencies that can be evaluated are executed, and the job is told of each. -/
lemma runs_evaluateAll {e : Action → Machine → Option (Outcome Address × Machine)}
    (he : ∀ a m o m', e a m = some (o, m') → ∀ below, Undisturbed (Job.ofAction a :: below) m →
      Delivers (Job.ofAction a :: below) m o below m')
    {as : List Action} {j : Job} (hj : j.waiting = as) {below : List Job}
    {os : List (Outcome Address)} (hfree : Undisturbed (j :: below) m)
    (h : evaluateAll e as m = some (os, m')) :
    Runs (j :: below) m (Job.told j [] os :: below) m' := by
  -- On the dependencies that are left; the job has been told of those before.
  induction as generalizing j m os with
  | nil =>
    cases h
    have hsame : Job.told j [] [] = j := by
      rw [← hj]
      rfl
    rw [hsame]
    exact .refl _ _
  | cons a as ih =>
    obtain ⟨o, m₁, os, m₂, ho, hos, hr⟩ := evaluateAll_cons_iff.mp h
    cases hr
    have hpush := runs_push hfree.free hj below
    have hchild := (he a _ o m₁ ho _ (hfree.of_runs hpush)).runs
    have hsofar := hpush.trans hchild
    have hrest := ih rfl (hfree.of_runs hsofar) hos
    have htold : Job.told (Job.told { j with waiting := as } as [o]) [] os = Job.told j [] (o :: os) :=
      Job.told_append j as [] [o] os
    exact hsofar.trans (htold ▸ hrest)

lemma conclusion_told {a : Action} {os : List (Outcome Address)}
    (hlen : os.length = a.dependencies.length) (m : Machine) :
    conclusion (Job.told (Job.ofAction a) [] os) m =
      match firstOf (failures os) with
      | some p => (.error p, m)
      | none => perform a.work (successes os) m := by
  have herrors : (Job.told (Job.ofAction a) [] os).errors.reverse = failures os := by
    simp [Job.told, Job.ofAction]
  have hresults : (Job.told (Job.ofAction a) [] os).results.reverse = successes os := by
    simp [Job.told, Job.ofAction]
  rw [conclusion, herrors, hresults]
  cases hf : firstOf (failures os) with
  | some p => rfl
  | none =>
    have hnone := firstOf_eq_none hf
    have hall := length_outcomes os
    rw [hnone, List.length_nil] at hall
    have hin : (Job.told (Job.ofAction a) [] os).results.length =
        (Job.told (Job.ofAction a) [] os).expected := by
      rw [← List.length_reverse, hresults]
      show _ = a.dependencies.length
      omega
    dsimp only
    rw [if_neg (not_not.mpr hin)]
    rfl

lemma length_evaluateAll {e : Action → Machine → Option (Outcome Address × Machine)}
    {as : List Action} {os : List (Outcome Address)} (h : evaluateAll e as m = some (os, m')) :
    os.length = as.length := by
  induction as generalizing m os with
  | nil =>
    cases h
    rfl
  | cons a as ih =>
    obtain ⟨o, m₁, os, m₂, -, hos, hr⟩ := evaluateAll_cons_iff.mp h
    cases hr
    rw [List.length_cons, List.length_cons, ih hos]

/-- **Evaluating by recursion is a run** that hands the outcome to whoever waits for it. -/
lemma delivers_evaluate {fuel : Nat} {a : Action} {o : Outcome Address} {below : List Job}
    (hfree : Undisturbed (Job.ofAction a :: below) m) (h : evaluate fuel a m = some (o, m')) :
    Delivers (Job.ofAction a :: below) m o below m' := by
  induction fuel generalizing a m o below m' with
  | zero => cases h
  | succ fuel ih =>
    obtain ⟨os, m₁, hos, hfin⟩ := evaluate_succ_iff.mp h
    have hdeps := runs_evaluateAll (fun a m o m' h below hfree => ih hfree h)
      (show (Job.ofAction a).waiting = a.dependencies from rfl) hfree hos
    have hfree₁ := hfree.of_runs hdeps
    have hturn := turn_conclude hfree₁.free (show (Job.told (Job.ofAction a) [] os).waiting = []
      from rfl) below
    rw [conclusion_told (length_evaluateAll hos)] at hturn
    refine .of_runs hdeps ?_
    unfold finish at hfin
    cases hf : firstOf (failures os) with
    | some p =>
      rw [hf] at hfin hturn
      cases hfin
      exact ⟨_, _, .refl _ _, hturn⟩
    | none =>
      rw [hf] at hfin hturn
      dsimp only at hfin hturn
      rcases hp : perform a.work (successes os) m₁.tick with ⟨step, m₂⟩
      rw [hp] at hfin hturn
      cases step with
      | value b =>
        cases hfin
        exact ⟨_, _, .refl _ _, hturn⟩
      | error p =>
        cases hfin
        exact ⟨_, _, .refl _ _, hturn⟩
      | action next =>
        have hnext : Runs _ _ (Job.ofAction next :: below) m₂ := .step hturn (.refl _ _)
        exact .of_runs hnext (ih (hfree₁.of_runs hnext) hfin)

/-! ### A run that ends is an evaluation -/

lemma takeTurns_running {n : Nat} (h : turn stack m = (.running stack', m')) :
    takeTurns (n + 1) stack m = takeTurns n stack' m' := by
  rw [takeTurns, h]

lemma takeTurns_finished {n : Nat} {o : Outcome Address} (h : turn stack m = (.finished o, m')) :
    takeTurns (n + 1) stack m = (some o, m') := by
  rw [takeTurns, h]

lemma takeTurns_of_runs (h : Runs stack m stack' m') {n : Nat} {o : Outcome Address}
    (hn : takeTurns n stack m = (some o, m'')) :
    ∃ n' ≤ n, takeTurns n' stack' m' = (some o, m'') := by
  induction h generalizing n with
  | refl => exact ⟨n, le_rfl, hn⟩
  | step h _ ih =>
    cases n with
    | zero => cases hn
    | succ n =>
      rw [takeTurns_running h] at hn
      obtain ⟨n', hle, hn'⟩ := ih hn
      exact ⟨n', by omega, hn'⟩

lemma takeTurns_runs (h : Runs stack m stack' m') {n : Nat} {o : Outcome Address}
    (hn : takeTurns n stack' m' = (some o, m'')) :
    ∃ n', takeTurns n' stack m = (some o, m'') := by
  induction h with
  | refl => exact ⟨n, hn⟩
  | step h _ ih =>
    obtain ⟨n', hn'⟩ := ih hn
    exact ⟨n' + 1, by rw [takeTurns_running h, hn']⟩

lemma takeTurns_mono {n k : Nat} (hle : n ≤ k) {o : Outcome Address}
    (h : takeTurns n stack m = (some o, m')) : takeTurns k stack m = (some o, m') := by
  induction n generalizing k stack m with
  | zero => cases h
  | succ n ih =>
    obtain ⟨k, rfl⟩ := Nat.exists_eq_add_of_le' (show 1 ≤ k by omega)
    rcases ht : turn stack m with ⟨t, m₁⟩
    cases t with
    | running stack₁ =>
      rw [takeTurns_running ht] at h ⊢
      exact ih (by omega) h
    | finished o₁ =>
      rw [takeTurns_finished ht] at h ⊢
      exact h

/-- Dependencies that are executed to an end can be evaluated. -/
lemma exists_evaluateAll {n : Nat}
    (ih : ∀ k < n, ∀ a below (m m' : Machine) o, Undisturbed (Job.ofAction a :: below) m →
      takeTurns k (Job.ofAction a :: below) m = (some o, m') → ∃ fuel r, evaluate fuel a m = some r)
    {as : List Action} {j : Job} (hj : j.waiting = as) {below : List Job} {o : Outcome Address}
    (hfree : Undisturbed (j :: below) m) {k : Nat} (hk : k ≤ n)
    (h : takeTurns k (j :: below) m = (some o, m')) :
    ∃ fuel r, evaluateAll (evaluate fuel) as m = some r := by
  -- Each dependency takes turns of its own, so that fewer are left for the others.
  induction as generalizing j m k with
  | nil => exact ⟨0, _, rfl⟩
  | cons a as ihas =>
    have hpush := runs_push hfree.free hj below
    cases k with
    | zero => cases h
    | succ k =>
      have hturn : turn (j :: below) m =
          (.running (Job.ofAction a :: { j with waiting := as } :: below), m.tick) := by
        rw [turn_of_free hfree.free, advance, hj]
        rfl
      rw [takeTurns_running hturn] at h
      have hfree₁ := hfree.of_runs hpush
      obtain ⟨fuel₁, ⟨o₁, m₁⟩, h₁⟩ := ih k (by omega) a _ _ _ _ hfree₁ h
      have htold := (delivers_evaluate hfree₁ h₁).runs
      obtain ⟨k', hk', h'⟩ := takeTurns_of_runs htold h
      obtain ⟨fuel₂, ⟨os, m₂⟩, h₂⟩ := ihas rfl (hfree₁.of_runs htold) (by omega) h'
      refine ⟨max fuel₁ fuel₂, (o₁ :: os, m₂), evaluateAll_cons_iff.mpr ⟨o₁, m₁, os, m₂,
        evaluate_mono (le_max_left _ _) h₁, ?_, rfl⟩⟩
      exact evaluateAll_mono (fun _ _ _ => evaluate_mono (le_max_right _ _)) h₂

/-- **A run that ends is an evaluation**: what is executed to an end can be evaluated. -/
lemma exists_evaluate (n : Nat) : ∀ a below (m m' : Machine) o,
    Undisturbed (Job.ofAction a :: below) m →
    takeTurns n (Job.ofAction a :: below) m = (some o, m') → ∃ fuel r, evaluate fuel a m = some r := by
  induction n using Nat.strong_induction_on with
  | _ n ih =>
    intro a below m m' o hfree h
    obtain ⟨fuel, ⟨os, m₁⟩, hos⟩ := exists_evaluateAll ih
      (show (Job.ofAction a).waiting = a.dependencies from rfl) hfree le_rfl h
    have hdeps := runs_evaluateAll (fun _ _ _ _ h _ hfree => delivers_evaluate hfree h)
      (show (Job.ofAction a).waiting = a.dependencies from rfl) hfree hos
    have hfree₁ := hfree.of_runs hdeps
    obtain ⟨n', hle, h'⟩ := takeTurns_of_runs hdeps h
    have hturn := turn_conclude hfree₁.free (show (Job.told (Job.ofAction a) [] os).waiting = []
      from rfl) below
    rw [conclusion_told (length_evaluateAll hos)] at hturn
    -- The own work either ends at once or goes on with a shorter run.
    have hfinish : ∃ fuel' r, finish (evaluate fuel') a.work os m₁.tick = some r := by
      unfold finish
      cases hf : firstOf (failures os) with
      | some p => exact ⟨0, _, rfl⟩
      | none =>
        rw [hf] at hturn
        dsimp only at hturn ⊢
        rcases hp : perform a.work (successes os) m₁.tick with ⟨step, m₂⟩
        rw [hp] at hturn
        cases step with
        | value b => exact ⟨0, _, rfl⟩
        | error p => exact ⟨0, _, rfl⟩
        | action next =>
          have hnext : Runs _ _ (Job.ofAction next :: below) m₂ := .step hturn (.refl _ _)
          cases n' with
          | zero => cases h'
          | succ n' =>
            rw [takeTurns_running hturn] at h'
            exact ih n' (by omega) next below _ _ _ (hfree₁.of_runs hnext) h'
    obtain ⟨fuel', r, hr⟩ := hfinish
    refine ⟨max fuel fuel' + 1, r, evaluate_succ_iff.mpr ⟨os, m₁, ?_, ?_⟩⟩
    · exact evaluateAll_mono (fun _ _ _ => evaluate_mono (le_max_left _ _)) hos
    · exact finish_mono (fun _ _ _ => evaluate_mono (le_max_right _ _)) hr

lemma execute_iff_evaluate {root : Action} (hfree : Undisturbed [Job.ofAction root] m)
    {o : Outcome Address} :
    (∃ n, ∀ fuel ≥ n, execute fuel root m = (some o, m')) ↔
      ∃ fuel, evaluate fuel root m = some (o, m') := by
  have forward : ∀ {fuel o m'}, evaluate fuel root m = some (o, m') →
      ∃ n, ∀ fuel ≥ n, execute fuel root m = (some o, m') := by
    intro fuel o m' h
    obtain ⟨stack₁, m₁, hrun, hturn⟩ := delivers_evaluate hfree h
    have hfinished : turn stack₁ m₁ = (.finished o, m') := by
      rw [hturn]
      cases o <;> rfl
    obtain ⟨n, hn⟩ := takeTurns_runs hrun (takeTurns_finished (n := 0) hfinished)
    exact ⟨n, fun fuel hle => takeTurns_mono hle hn⟩
  refine ⟨fun ⟨n, hn⟩ => ?_, fun ⟨fuel, h⟩ => forward h⟩
  obtain ⟨fuel, ⟨o₁, m₁⟩, h⟩ := exists_evaluate n root [] m m' o hfree (hn n le_rfl)
  obtain ⟨n₁, hn₁⟩ := forward h
  have heq := (hn _ (le_max_left n n₁)).symm.trans (hn₁ _ (le_max_right n n₁))
  cases heq
  exact ⟨fuel, h⟩

end Machine

end CellMachine
