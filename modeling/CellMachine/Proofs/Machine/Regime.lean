import CellMachine.Proofs.Safety.Turns

/-!
What runs keep to as far as the own work of actions does. A regime says which actions may be done and
which slots they may come to; where work stays within it, whole runs do, whatever others cancel between
the turns.
-/

namespace CellMachine

open Machine

/-- What the work of a run keeps to. -/
structure Regime where
  /-- What holds in every state. -/
  holds : Machine → Prop
  /-- A state that another may lead to. -/
  later : Machine → Machine → Prop
  /-- An action that may be done. -/
  sound : Machine → Action → Prop
  /-- A slot that an action may come to. -/
  comes : Machine → Action → Address → Prop
  /-- An action that may take the place of another. -/
  serves : Action → Action → Prop

namespace Regime

/-- A step that an action may take. -/
def Allows (R : Regime) (m : Machine) (a : Action) : Step Action → Prop
  | .value b => R.comes m a b
  | .error _ => True
  | .action next => R.sound m next ∧ R.serves next a

/-- The own work of actions stays within the regime; steps, notices and cancellations play no part. -/
structure Lawful (R : Regime) : Prop where
  refl : ∀ m, R.later m m
  trans : ∀ {m m' m''}, R.later m m' → R.later m' m'' → R.later m m''
  holds : ∀ {m} (steps : Nat) (cancelled : List String), R.holds m →
    R.holds { m with steps, store := { m.store with cancelled } } ∧
      R.later m { m with steps, store := { m.store with cancelled } }
  sound : ∀ {m m' a}, R.later m m' → R.sound m a → R.sound m' a
  comes : ∀ {m m' a b}, R.later m m' → R.comes m a b → R.comes m' a b
  serves_refl : ∀ a, R.serves a a
  serves_trans : ∀ {a b c}, R.serves a b → R.serves b c → R.serves a c
  served : ∀ {m a b c}, R.serves a b → R.comes m a c → R.comes m b c
  dependencies : ∀ {m a}, R.sound m a → ∀ d ∈ a.dependencies, R.sound m d
  perform : ∀ {m a bs}, R.holds m → R.sound m a → List.Forall₂ (R.comes m) a.dependencies bs →
    R.holds (perform a.work bs m).2 ∧ R.later m (perform a.work bs m).2 ∧
      R.Allows (perform a.work bs m).2 a (perform a.work bs m).1

/-- A job for an action: some dependencies came out, some are missing, and the others wait. -/
def Pursues (R : Regime) (m : Machine) (a : Action) (missing : List Action) (j : Job) : Prop :=
  R.sound m a ∧ ∃ done os, a.dependencies = done ++ missing ++ j.waiting ∧
    List.Forall₂ (fun d o => ∀ b, o = .ok b → R.comes m d b) done os ∧
    j = Job.told (Job.ofAction a) j.waiting os

/-- Jobs that wait for an action above them, the last of them for the whole. -/
inductive Awaits (R : Regime) (m : Machine) (whole : Action) : Action → List Job → Prop
  | nil {a : Action} (h : R.serves a whole) : Awaits R m whole a []
  | cons {a c d : Action} {j : Job} {below : List Job} (hd : R.serves a d)
    (hj : R.Pursues m c [d] j) (h : Awaits R m whole c below) : Awaits R m whole a (j :: below)

/-- A stack that works on the whole. -/
def Working (R : Regime) (m : Machine) (whole : Action) : List Job → Prop
  | [] => False
  | top :: below => ∃ a, R.Pursues m a [] top ∧ R.Awaits m whole a below

variable {R : Regime} {m m' : Machine} {whole a d : Action} {j : Job} {stack stack' : List Job}
  {outside : Nat → List String}

/-! ### Jobs -/

lemma forall₂_successes {P : Action → Address → Prop} {ds : List Action}
    {os : List (Outcome Address)} (h : List.Forall₂ (fun d o => ∀ b, o = .ok b → P d b) ds os)
    (hnone : failures os = []) : List.Forall₂ P ds (successes os) := by
  induction h with
  | nil => exact .nil
  | @cons d o ds os ho _ ih =>
    cases o with
    | ok b => exact .cons (ho b rfl) (ih hnone)
    | error p => cases hnone

lemma pursues_ofAction (h : R.sound m a) : R.Pursues m a [] (Job.ofAction a) :=
  ⟨h, [], [], rfl, .nil, rfl⟩

lemma working_ofAction (hR : R.Lawful) (h : R.sound m a) : R.Working m a [Job.ofAction a] :=
  ⟨a, pursues_ofAction h, .nil (hR.serves_refl a)⟩

namespace Pursues

lemma mono (hR : R.Lawful) (later : R.later m m') {missing : List Action}
    (h : R.Pursues m a missing j) : R.Pursues m' a missing j := by
  obtain ⟨ha, done, os, hdeps, hos, hj⟩ := h
  exact ⟨hR.sound later ha, done, os, hdeps,
    hos.imp fun _ _ hcame b hb => hR.comes later (hcame b hb), hj⟩

lemma pushed (hR : R.Lawful) (h : R.Pursues m a [] j) {next : Action} {waiting : List Action}
    (hw : j.waiting = next :: waiting) :
    R.sound m next ∧ R.Pursues m a [next] { j with waiting } := by
  obtain ⟨ha, done, os, hdeps, hos, hj⟩ := h
  rw [hw] at hdeps
  refine ⟨hR.dependencies ha next ?_, ha, done, os, ?_, hos, ?_⟩
  · rw [hdeps]
    simp
  · rw [hdeps]
    simp
  · rw [hj]
    rfl

lemma told (h : R.Pursues m a [d] j) {o : Outcome Address} (ho : ∀ b, o = .ok b → R.comes m d b) :
    R.Pursues m a [] (Job.told j j.waiting [o]) := by
  obtain ⟨ha, done, os, hdeps, hos, hj⟩ := h
  refine ⟨ha, done ++ [d], os ++ [o], ?_, List.rel_append hos (.cons ho .nil), ?_⟩
  · rw [hdeps, List.append_nil]
    rfl
  · rw [← Job.told_append, ← hj]
    rfl

lemma work {missing : List Action} (h : R.Pursues m a missing j) : j.work = a.work := by
  obtain ⟨-, done, os, -, -, hj⟩ := h
  rw [hj]
  rfl

lemma waiting {missing : List Action} (h : R.Pursues m a missing j) :
    j.waiting <:+ a.dependencies := by
  obtain ⟨-, done, os, hdeps, -, -⟩ := h
  exact ⟨done ++ missing, hdeps.symm⟩

lemma exists_outcomes (h : R.Pursues m a [] j) (hw : j.waiting = []) : ∃ os,
    List.Forall₂ (fun d o => ∀ b, o = .ok b → R.comes m d b) a.dependencies os ∧
      j = Job.told (Job.ofAction a) [] os := by
  obtain ⟨-, done, os, hdeps, hos, hj⟩ := h
  rw [hw, List.append_nil, List.append_nil] at hdeps
  rw [hw] at hj
  exact ⟨os, hdeps ▸ hos, hj⟩

/-- The dependencies of a job that nothing waits for and nothing failed came to slots that they may
come to. -/
lemma came (h : R.Pursues m a [] j) (hw : j.waiting = []) (herrors : j.errors = []) :
    ∃ bs, List.Forall₂ (R.comes m) a.dependencies bs := by
  obtain ⟨os, hos, hj⟩ := h.exists_outcomes hw
  have hnone : failures os = [] := by
    rw [hj] at herrors
    simpa [Job.told, Job.ofAction] using herrors
  exact ⟨successes os, forall₂_successes hos hnone⟩

end Pursues

lemma Awaits.mono (hR : R.Lawful) (later : R.later m m') (h : R.Awaits m whole a stack) :
    R.Awaits m' whole a stack := by
  induction h with
  | nil h => exact .nil h
  | cons hd hj _ ih => exact .cons hd (hj.mono hR later) ih

lemma Awaits.of_serves (hR : R.Lawful) {next : Action} (h : R.Awaits m whole a stack)
    (hnext : R.serves next a) : R.Awaits m whole next stack := by
  cases h with
  | nil h => exact .nil (hR.serves_trans hnext h)
  | cons hd hj h => exact .cons (hR.serves_trans hnext hd) hj h

lemma Working.mono (hR : R.Lawful) (later : R.later m m') (h : R.Working m whole stack) :
    R.Working m' whole stack := by
  match stack, h with
  | top :: below, ⟨a, htop, hbelow⟩ => exact ⟨a, htop.mono hR later, hbelow.mono hR later⟩

lemma Working.pursues (h : R.Working m whole stack) :
    ∀ j ∈ stack, ∃ a missing, R.Pursues m a missing j := by
  have waiting : ∀ {a below}, R.Awaits m whole a below →
      ∀ j ∈ below, ∃ a missing, R.Pursues m a missing j := by
    intro a below h
    induction h with
    | nil => exact List.forall_mem_nil _
    | cons _ hj _ ih => exact List.forall_mem_cons.mpr ⟨⟨_, _, hj⟩, ih⟩
  match stack, h with
  | top :: below, ⟨a, htop, hbelow⟩ =>
    exact List.forall_mem_cons.mpr ⟨⟨a, [], htop⟩, waiting hbelow⟩

lemma Awaits.neighbours {top k j : Job} {missing : List Action} {above below : List Job}
    (h : R.Awaits m whole a stack) (htop : R.Pursues m a missing top)
    (heq : top :: stack = above ++ k :: j :: below) : ∃ a c d missing, R.Pursues m a missing k ∧
      R.Pursues m c [d] j ∧ R.serves a d := by
  induction h generalizing top missing above with
  | nil =>
    have hlen := congrArg List.length heq
    simp at hlen
    omega
  | @cons a c d j' below' hd hj h ih =>
    cases above with
    | nil =>
      cases heq
      exact ⟨a, c, d, missing, htop, hj, hd⟩
    | cons x above => exact ih hj (List.tail_eq_of_cons_eq heq)

/-- **A job right above another** is for what that one waits for. -/
lemma Working.neighbours {k j : Job} {above below : List Job}
    (h : R.Working m whole (above ++ k :: j :: below)) : ∃ a c d missing,
      R.Pursues m a missing k ∧ R.Pursues m c [d] j ∧ R.serves a d := by
  generalize hstack : above ++ k :: j :: below = stack at h
  match stack, h with
  | top :: rest, ⟨a, htop, hrest⟩ => exact hrest.neighbours htop hstack.symm

/-! ### Turns -/

/-- A turn after which the stack works on, or the outcome is no slot that the whole may not come to. -/
def Leaves (R : Regime) (m : Machine) (whole : Action) : Turn → Prop
  | .running stack => R.Working m whole stack
  | .finished outcome => ∀ b, outcome = .ok b → R.comes m whole b

namespace Lawful

lemma conclusion (hR : R.Lawful) (h : R.holds m) (hj : R.Pursues m a [] j) (hw : j.waiting = []) :
    R.holds (conclusion j m).2 ∧ R.later m (conclusion j m).2 ∧
      R.Allows (conclusion j m).2 a (conclusion j m).1 := by
  obtain ⟨os, hos, rfl⟩ := hj.exists_outcomes hw
  rw [conclusion_told hos.length_eq.symm m]
  cases hfirst : firstOf (failures os) with
  | some p => exact ⟨h, hR.refl m, trivial⟩
  | none => exact hR.perform h hj.1 (forall₂_successes hos (firstOf_eq_none hfirst))

lemma handOver (hR : R.Lawful) {step : Step Action} (hstep : R.Allows m a step)
    (hbelow : R.Awaits m whole a stack) :
    R.Leaves m whole (handOver step stack) := by
  cases step with
  | action next => exact ⟨next, pursues_ofAction hstep.1, hbelow.of_serves hR hstep.2⟩
  | value b =>
    cases hbelow with
    | nil h =>
      rintro _ ⟨⟩
      exact hR.served h hstep
    | cons hd hj h =>
      refine ⟨_, hj.told (o := .ok b) ?_, h⟩
      rintro _ ⟨⟩
      exact hR.served hd hstep
  | error p =>
    cases hbelow with
    | nil h => exact nofun
    | cons hd hj h => exact ⟨_, hj.told (o := .error p) nofun, h⟩

lemma advance (hR : R.Lawful) (h : R.holds m) (hstack : R.Working m whole stack) :
    R.holds (advance stack m).2 ∧ R.later m (advance stack m).2 ∧
      R.Leaves (advance stack m).2 whole (advance stack m).1 := by
  match stack, hstack with
  | top :: below, ⟨a, htop, hbelow⟩ =>
    cases hw : top.waiting with
    | cons next waiting =>
      obtain ⟨hnext, htop'⟩ := htop.pushed hR hw
      have heq : Machine.advance (top :: below) m =
          (.running (Job.ofAction next :: { top with waiting } :: below), m) := by
        rw [Machine.advance, hw]
        rfl
      rw [heq]
      exact ⟨h, hR.refl m, next, pursues_ofAction hnext, .cons (hR.serves_refl next) htop' hbelow⟩
    | nil =>
      have heq : Machine.advance (top :: below) m =
          (Machine.handOver (Machine.conclusion top m).1 below, (Machine.conclusion top m).2) := by
        rw [Machine.advance, hw]
        rfl
      obtain ⟨hholds, later, hstep⟩ := hR.conclusion h htop hw
      rw [heq]
      exact ⟨hholds, later, hR.handOver hstep (hbelow.mono hR later)⟩

/-- **A turn** after others cancelled tokens keeps to the regime. -/
lemma turn (hR : R.Lawful) (h : R.holds m) (hstack : R.Working m whole stack) {t : Turn}
    (hturn : turn stack (m.disturbed outside) = (t, m')) :
    R.holds m' ∧ R.later m m' ∧ R.Leaves m' whole t := by
  obtain ⟨hdisturbed, later⟩ := hR.holds m.steps (outside m.steps ++ m.store.cancelled) h
  obtain ⟨hticked, later'⟩ :=
    hR.holds (m.steps + 1) (outside m.steps ++ m.store.cancelled) h
  unfold Machine.turn at hturn
  split at hturn
  · cases hturn
    exact ⟨hdisturbed, later, nofun⟩
  · dsimp only at hturn
    split at hturn
    · cases hturn
      exact ⟨hticked, later', nofun⟩
    · obtain ⟨hholds, later'', hleaves⟩ := hR.advance hticked (hstack.mono hR later')
      change Machine.advance stack (m.disturbed outside).tick = _ at hturn
      change R.holds (Machine.advance stack (m.disturbed outside).tick).2 at hholds
      change R.later _ (Machine.advance stack (m.disturbed outside).tick).2 at later''
      change R.Leaves (Machine.advance stack (m.disturbed outside).tick).2 whole
        (Machine.advance stack (m.disturbed outside).tick).1 at hleaves
      rw [hturn] at hholds later'' hleaves
      exact ⟨hholds, hR.trans later' later'', hleaves⟩

/-! ### Runs -/

/-- **Every state that a run passes** keeps to the regime. -/
lemma runsAmid (hR : R.Lawful) (h : R.holds m) (hstack : R.Working m whole stack)
    (hruns : RunsAmid outside stack m stack' m') :
    R.holds m' ∧ R.later m m' ∧ R.Working m' whole stack' := by
  induction hruns with
  | refl => exact ⟨h, hR.refl _, hstack⟩
  | step hturn _ ih =>
    obtain ⟨hholds, later, hleaves⟩ := hR.turn h hstack hturn
    obtain ⟨hholds', later', hworking⟩ := ih hholds hleaves
    exact ⟨hholds', hR.trans later later', hworking⟩

/-- **However a run ends**, if it ends at a slot, that is one that the whole may come to. -/
lemma takeTurnsAmid (hR : R.Lawful) {fuel : Nat} (h : R.holds m) (hstack : R.Working m whole stack)
    {r : Option (Outcome Address)} (hr : takeTurnsAmid outside fuel stack m = (r, m')) :
    R.holds m' ∧ R.later m m' ∧ ∀ b, r = some (.ok b) → R.comes m' whole b := by
  -- On the turns, each of which keeps the stack at work on what the whole may come to.
  induction fuel generalizing stack m with
  | zero =>
    cases hr
    exact ⟨h, hR.refl _, nofun⟩
  | succ fuel ih =>
    rw [Machine.takeTurnsAmid] at hr
    rcases hturn : Machine.turn stack (m.disturbed outside) with ⟨t, m₁⟩
    obtain ⟨hholds, later, hleaves⟩ := hR.turn h hstack hturn
    rw [hturn] at hr
    cases t with
    | finished o =>
      cases hr
      refine ⟨hholds, later, ?_⟩
      rintro b ⟨⟩
      exact hleaves b rfl
    | running stack₁ =>
      obtain ⟨hholds', later', hend⟩ := ih hholds hleaves hr
      exact ⟨hholds', hR.trans later later', hend⟩

end Lawful

end Regime

end CellMachine
