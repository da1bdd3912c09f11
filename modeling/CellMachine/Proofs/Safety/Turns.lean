import CellMachine.Proofs.Machine.Recursion
import CellMachine.Proofs.Safety.Steps

/-!
Runs that others may cancel between any two turns. Each job on the stack pursues an action of which
some dependencies came out, and each but the last is what a job below waits for; no job was told of a
problem that blames the machine.
-/

namespace CellMachine

/-- A job for an action: some dependencies came out, some are missing, and the others wait. -/
def Job.Pursues (m : Machine) (a : Action) (missing : List Action) (j : Job) : Prop :=
  a.Safe m ∧ ∃ done os, a.dependencies = done ++ missing ++ j.waiting ∧
    List.Forall₂ (fun d o => Proper (m.Came d) o) done os ∧
    j = Job.told (Job.ofAction a) j.waiting os

/-- Jobs that wait for something above them that gives the promised slots: the first of them lacks one
action that gives no others, and what is below it waits for its own action. -/
inductive Awaiting (m : Machine) : (Address → Prop) → List Job → Prop
  | nil (promised : Address → Prop) : Awaiting m promised []
  | cons {promised : Address → Prop} {a d : Action} {j : Job} {below : List Job}
    (hj : j.Pursues m a [d]) (hd : ∀ b, d.Gives b → promised b) (h : Awaiting m a.Gives below) :
    Awaiting m promised (j :: below)

namespace Machine

/-- A stack with a job on top that pursues an action, and below it what waits for that. -/
def Working (m : Machine) : List Job → Prop
  | [] => False
  | top :: below => ∃ a, top.Pursues m a [] ∧ Awaiting m a.Gives below

/-- Every cell of an activation has its node, and the call's result and whatever the node refers to
have slots. -/
def Findable (m : Machine) : Prop :=
  ∀ i p, m.pending.get? i = some p → ∃ node, p.activation.call.nodes.get? p.node = some node ∧
    (p.activation.slots.get? Callable.resultCell).isSome = true ∧
    (p.activation.slots.get? p.node).isSome = true ∧
    ∀ r ∈ node.cell.kind.references, (p.activation.slots.get? r).isSome = true

/-! ### Runs with others -/

/-- The machine once others have cancelled tokens before a turn; which ones depends on the turn. -/
def disturbed (outside : Nat → List String) (m : Machine) : Machine :=
  { m with store := { m.store with cancelled := outside m.steps ++ m.store.cancelled } }

/-- Takes turns while others cancel tokens. -/
def takeTurnsAmid (outside : Nat → List String) :
    Nat → List Job → Machine → Option (Outcome Address) × Machine
  | 0, _, m => (none, m)
  | fuel + 1, stack, m =>
    match turn stack (m.disturbed outside) with
    | (.finished outcome, m) => (some outcome, m)
    | (.running stack, m) => takeTurnsAmid outside fuel stack m

/-- The machine gets from one stack and state to another by taking turns while others cancel tokens. -/
inductive RunsAmid (outside : Nat → List String) : List Job → Machine → List Job → Machine → Prop
  | refl (stack : List Job) (m : Machine) : RunsAmid outside stack m stack m
  | step {stack stack' stack'' : List Job} {m m' m'' : Machine}
    (h : turn stack (m.disturbed outside) = (.running stack', m'))
    (h' : RunsAmid outside stack' m' stack'' m'') : RunsAmid outside stack m stack'' m''

/-- Without others it is the machine's own run. -/
lemma takeTurnsAmid_nothing (fuel : Nat) (stack : List Job) (m : Machine) :
    takeTurnsAmid (fun _ => []) fuel stack m = takeTurns fuel stack m := by
  induction fuel generalizing stack m with
  | zero => rfl
  | succ fuel ih =>
    rw [takeTurnsAmid, takeTurns]
    show (match turn stack m with
      | (.finished outcome, m) => _
      | (.running stack, m) => _) = _
    generalize turn stack m = r
    obtain ⟨t, m₁⟩ := r
    cases t with
    | finished o => rfl
    | running stack₁ => exact ih stack₁ m₁

end Machine

variable {base : Memory} {m m' : Machine} {a d : Action} {j : Job}

/-! ### Jobs -/

lemma Proper.mono {α : Type} {P Q : α → Prop} (h : ∀ a, P a → Q a) {o : Outcome α}
    (ho : Proper P o) : Proper Q o := by
  cases o with
  | ok a => exact h a ho
  | error p => exact ho

namespace Job

lemma Pursues.mono (later : m.Precedes m') {missing : List Action} (h : j.Pursues m a missing) :
    j.Pursues m' a missing := by
  obtain ⟨ha, done, os, hdeps, hos, hj⟩ := h
  exact ⟨ha.mono later, done, os, hdeps, hos.imp fun _ _ ho =>
    ho.mono fun _ hb => ⟨later.valued hb.1, hb.2⟩, hj⟩

lemma pursues_ofAction (h : a.Safe m) : (Job.ofAction a).Pursues m a [] :=
  ⟨h, [], [], rfl, .nil, rfl⟩

lemma Pursues.pushed (h : j.Pursues m a []) {next : Action} {waiting : List Action}
    (hw : j.waiting = next :: waiting) :
    next.Safe m ∧ Pursues m a [next] { j with waiting } := by
  obtain ⟨ha, done, os, hdeps, hos, hj⟩ := h
  rw [hw] at hdeps
  refine ⟨ha.dependencies next ?_, ha, done, os, ?_, hos, ?_⟩
  · rw [hdeps]
    simp
  · rw [hdeps]
    simp
  · rw [hj]
    rfl

lemma Pursues.told (h : j.Pursues m a [d]) {o : Outcome Address} (ho : Proper (m.Came d) o) :
    (Job.told j j.waiting [o]).Pursues m a [] := by
  obtain ⟨ha, done, os, hdeps, hos, hj⟩ := h
  refine ⟨ha, done ++ [d], os ++ [o], ?_, List.rel_append hos (.cons ho .nil), ?_⟩
  · rw [hdeps, List.append_nil]
    rfl
  · rw [← Job.told_append, ← hj]
    rfl

lemma Pursues.errors {missing : List Action} (h : j.Pursues m a missing) :
    ∀ p ∈ j.errors, ¬ p.Internal := by
  obtain ⟨-, done, os, -, hos, hj⟩ := h
  have hnone : ∀ p ∈ failures os, ¬ p.Internal := by
    clear hj
    induction hos with
    | nil => exact List.forall_mem_nil _
    | @cons d o done os ho _ ih =>
      cases o with
      | ok b => exact ih
      | error q => exact List.forall_mem_cons.mpr ⟨ho, ih⟩
  intro p hp
  rw [hj] at hp
  refine hnone p ?_
  simpa [Job.told, Job.ofAction] using hp

end Job

namespace Awaiting

variable {promised promised' : Address → Prop} {stack : List Job}

lemma mono (later : m.Precedes m') (h : Awaiting m promised stack) : Awaiting m' promised stack := by
  induction h with
  | nil promised => exact .nil promised
  | cons hj hd _ ih => exact .cons (hj.mono later) hd ih

lemma strengthen (h : Awaiting m promised stack) (hle : ∀ b, promised b → promised' b) :
    Awaiting m promised' stack := by
  cases h with
  | nil => exact .nil promised'
  | cons hj hd h => exact .cons hj (fun b hb => hle b (hd b hb)) h

lemma errors (h : Awaiting m promised stack) : ∀ j ∈ stack, ∀ p ∈ j.errors, ¬ p.Internal := by
  induction h with
  | nil => exact List.forall_mem_nil _
  | cons hj _ _ ih => exact List.forall_mem_cons.mpr ⟨hj.errors, ih⟩

end Awaiting

namespace Machine

variable {stack stack' : List Job} {outside : Nat → List String}

lemma Working.errors (h : m.Working stack) : ∀ j ∈ stack, ∀ p ∈ j.errors, ¬ p.Internal := by
  match stack, h with
  | top :: below, ⟨a, htop, hbelow⟩ => exact List.forall_mem_cons.mpr ⟨htop.errors, hbelow.errors⟩

lemma Safe.findable (h : m.Safe base) : m.Findable := by
  intro i p hp
  obtain ⟨hown, -, ⟨node, hnode, -⟩, hfits, hslots⟩ := h.pending i p hp
  have found : ∀ {j}, (p.activation.call.nodes.get? j).isSome = true →
      (p.activation.slots.get? j).isSome = true := by
    intro j hj
    obtain ⟨n, hn⟩ := Option.isSome_iff_exists.mp hj
    obtain ⟨a, ha, -⟩ := hslots j n hn
    exact Option.isSome_iff_exists.mpr ⟨a, ha⟩
  exact ⟨node, hnode, found hfits.result, Option.isSome_iff_exists.mpr ⟨_, hown⟩,
    fun r hr => found (hfits.refs _ _ hnode r hr)⟩

/-! ### Turns -/

/-- A turn after which the stack works on, or the outcome is a slot with its value or a problem that
does not blame the machine. -/
def TurnSafe (m : Machine) : Turn → Prop
  | .running stack => m.Working stack
  | .finished outcome => Proper m.Valued outcome

/-- The own work of a job whose dependencies came out: it fails with one of their problems, or it is
done. -/
lemma steps_conclusion (h : m.Safe base) (hj : j.Pursues m a []) (hwaiting : j.waiting = []) :
    Steps base m (conclusion j) a.Gives := by
  have herrors := hj.errors
  obtain ⟨ha, done, os, hdeps, hos, heq⟩ := hj
  rw [hwaiting, List.append_nil, List.append_nil] at hdeps
  subst hdeps
  rw [hwaiting] at heq
  rw [heq] at herrors ⊢
  have hend : conclusion (Job.told (Job.ofAction a) [] os) m = _ :=
    conclusion_told hos.length_eq.symm m
  cases hfirst : firstOf (failures os) with
  | some p =>
    rw [hfirst] at hend
    refine .after hend (.refl m) (.pure h (Problem.not_internal_of_firstOf (fun q hq => ?_) hfirst))
    refine herrors q ?_
    simpa [Job.told, Job.ofAction] using hq
  | none =>
    rw [hfirst] at hend
    have hnone := firstOf_eq_none hfirst
    have hcame : List.Forall₂ m.Came a.dependencies (successes os) := by
      generalize a.dependencies = ds at hos
      clear hend hfirst heq herrors
      induction hos with
      | nil => exact .nil
      | @cons d o ds os ho _ ih =>
        cases o with
        | ok b => exact .cons ho (ih hnone)
        | error q => cases hnone
    obtain ⟨ds, w⟩ := a
    exact .after hend (.refl m) (steps_perform h ha.here.1 ha.here.2 hcame)

lemma safe_handOver {step : Step Action} (hstep : step.Safe m a.Gives)
    (hbelow : Awaiting m a.Gives stack) : m.TurnSafe (handOver step stack) := by
  cases step with
  | action next =>
    exact ⟨next, Job.pursues_ofAction hstep.1, hbelow.strengthen hstep.2⟩
  | value b =>
    cases hbelow with
    | nil => exact hstep.1
    | cons hj hd h =>
      exact ⟨_, hj.told (o := .ok b) ⟨hstep.1, fun c hc => hstep.2 c (hd c hc)⟩, h⟩
  | error p =>
    cases hbelow with
    | nil => exact hstep
    | cons hj hd h => exact ⟨_, hj.told (o := .error p) hstep, h⟩

lemma safely_advance (h : m.Safe base) (hstack : m.Working stack) :
    Safely base m (advance stack) fun t m' => m'.TurnSafe t := by
  match stack, hstack with
  | top :: below, ⟨a, htop, hbelow⟩ =>
    cases hw : top.waiting with
    | cons next waiting =>
      obtain ⟨hnext, htop'⟩ := htop.pushed hw
      have heq : advance (top :: below) m =
          (.running (Job.ofAction next :: { top with waiting } :: below), m) := by
        rw [advance, hw]
        rfl
      rw [Safely, heq]
      exact ⟨h, .refl m, next, Job.pursues_ofAction hnext, .cons htop' (fun _ => id) hbelow⟩
    | nil =>
      have heq : advance (top :: below) m =
          (handOver (conclusion top m).1 below, (conclusion top m).2) := by
        rw [advance, hw]
        rfl
      obtain ⟨hsafe, later, hstep⟩ := steps_conclusion h htop hw
      rw [Safely, heq]
      exact ⟨hsafe, later, safe_handOver hstep (hbelow.mono later)⟩

/-- **A turn** keeps the machine safe and the stack working, or ends the run as it may end. -/
lemma safely_turn (h : m.Safe base) (hstack : m.Working stack) :
    Safely base m (turn stack) fun t m' => m'.TurnSafe t := by
  obtain ⟨hticked, later⟩ := h.tick
  have hworking : m.tick.Working stack := by
    match stack, hstack with
    | top :: below, ⟨a, htop, hbelow⟩ => exact ⟨a, htop.mono later, hbelow.mono later⟩
  by_cases hcancelled : m.store.isCancelled m.setting.token = true
  · have heq : turn stack m = (.finished (.error ((Problem.mk .cancelled none []).set "steps"
        m.steps)), m) := if_pos hcancelled
    rw [Safely, heq]
    exact ⟨h, .refl m, Problem.not_internal_of_ordinary rfl⟩
  · cases hbudget : overBudget m.setting.config (m.steps + 1) with
    | some limit =>
      have heq : turn stack m = (.finished (.error ((Problem.mk .stepLimitExceeded none []).set
          "limit" limit)), m.tick) := by
        rw [turn, if_neg hcancelled]
        dsimp only
        rw [hbudget]
        rfl
      rw [Safely, heq]
      exact ⟨hticked, later, Problem.not_internal_of_ordinary rfl⟩
    | none =>
      have heq : turn stack m = advance stack m.tick := by
        rw [turn, if_neg hcancelled]
        dsimp only
        rw [hbudget]
        rfl
      exact .after heq later (safely_advance hticked hworking)

/-! ### Runs -/

lemma Safe.disturbed (h : m.Safe base) (outside : Nat → List String) :
    (m.disturbed outside).Safe base ∧ m.Precedes (m.disturbed outside) :=
  h.congr _ rfl rfl h.verdicts h.compiled rfl

lemma Working.mono (later : m.Precedes m') (h : m.Working stack) : m'.Working stack := by
  match stack, h with
  | top :: below, ⟨a, htop, hbelow⟩ => exact ⟨a, htop.mono later, hbelow.mono later⟩

lemma safe_of_turn (h : m.Safe base) (hstack : m.Working stack) {t : Turn}
    (hturn : turn stack (m.disturbed outside) = (t, m')) :
    m'.Safe base ∧ m.Precedes m' ∧ m'.TurnSafe t := by
  obtain ⟨hdisturbed, later⟩ := h.disturbed outside
  obtain ⟨hsafe, later', ht⟩ := safely_turn hdisturbed (hstack.mono later)
  rw [hturn] at hsafe later' ht
  exact ⟨hsafe, later.trans later', ht⟩

/-- **Every state that a run passes** is safe, whatever others cancel. -/
lemma safe_of_runsAmid (h : m.Safe base) (hstack : m.Working stack)
    (hruns : RunsAmid outside stack m stack' m') : m'.Safe base ∧ m'.Working stack' := by
  induction hruns with
  | refl => exact ⟨h, hstack⟩
  | step hturn _ ih =>
    obtain ⟨hsafe, -, hworking⟩ := safe_of_turn h hstack hturn
    exact ih hsafe hworking

/-- **However a run ends**, its outcome is a slot with its value or a problem that does not blame the
machine. -/
lemma safely_takeTurnsAmid (outside : Nat → List String) (fuel : Nat) (h : m.Safe base)
    (hstack : m.Working stack) :
    Safely base m (takeTurnsAmid outside fuel stack) fun r m' => ∀ o ∈ r, Proper m'.Valued o := by
  induction fuel generalizing stack m with
  | zero => exact .pure h fun _ ho => by cases ho
  | succ fuel ih =>
    rcases hr : turn stack (m.disturbed outside) with ⟨t, m₁⟩
    obtain ⟨hsafe, later, hturn⟩ := safe_of_turn h hstack hr
    cases t with
    | finished o =>
      have heq : takeTurnsAmid outside (fuel + 1) stack m = (some o, m₁) := by rw [takeTurnsAmid, hr]
      rw [Safely, heq]
      refine ⟨hsafe, later, fun o' ho => ?_⟩
      cases ho
      exact hturn
    | running stack₁ =>
      have heq : takeTurnsAmid outside (fuel + 1) stack m = takeTurnsAmid outside fuel stack₁ m₁ := by
        rw [takeTurnsAmid, hr]
      exact .after heq later (ih hsafe hturn)

end Machine

end CellMachine
