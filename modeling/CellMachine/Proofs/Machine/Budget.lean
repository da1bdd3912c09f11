import CellMachine.Proofs.Machine.Order
import CellMachine.Proofs.Machine.Routine
import CellMachine.Proofs.Safety.Turns

/-!
Budgets and cancellations cut a run off and change nothing else. Turn by turn, a run with a budget is
the run without one, until the turn is due whose number is over the budget; a run whose token was
cancelled ends before its next turn. So what a run with a budget comes to can be read off the run without
one, and every run with a budget comes to an end.
-/

namespace CellMachine

/-- A computation that neither sees the budget nor changes the setting, and that counts no turns. -/
structure Blind {α : Type} (x : RunM α) : Prop where
  limited : ∀ limit m, x (m.limited limit) = ((x m).1, (x m).2.limited limit)
  setting : ∀ m, (x m).2.setting = m.setting
  steps : ∀ m, (x m).2.steps = m.steps

/-- Work that is blind if it is a host's. -/
def BlindHost (_ : List Action) (w : Work Action) : Prop :=
  ∀ run, w = .custom run → ∀ results, Blind (run results)

/-- Whatever host work there is in an action, and in what that goes on with, is one step of the run: it
neither sees the budget nor changes the setting, and takes no turns of its own. -/
def Action.Stepwise : Action → Prop := Every BlindHost

lemma Action.Plain.stepwise {a : Action} (h : a.Plain) : a.Stepwise :=
  h.mono fun _ w hw run hrun => by
    rw [hrun] at hw
    cases hw.1

namespace Blind

variable {α β : Type} {x : RunM α}

lemma of_routine (h : Routine x) : Blind x :=
  ⟨h.limited, fun m => (h.upholds m).setting, fun m => (h.upholds m).steps⟩

lemma pure (a : α) : Blind (Pure.pure a) := .of_routine (.pure a)

lemma map (h : Blind x) (f : α → β) : Blind (x >>= fun a => Pure.pure (f a)) where
  limited limit m := by
    show (Pure.pure (f (x (m.limited limit)).1) : RunM β) (x (m.limited limit)).2 = _
    rw [h.limited]
    rfl
  setting := h.setting
  steps := h.steps

end Blind

namespace Machine

/-- The problem of a run whose budget does not last. -/
def overrun (limit : Nat) : Problem := (Problem.mk .stepLimitExceeded none []).set "limit" limit

/-- The problem of a run that was cancelled after some turns. -/
def interrupted (steps : Nat) : Problem := (Problem.mk .cancelled none []).set "steps" steps

/-- Executes an action while others cancel tokens. -/
def executeAmid (outside : Nat → List String) (fuel : Nat) (root : Action) :
    RunM (Option (Outcome Address)) :=
  takeTurnsAmid outside fuel [Job.ofAction root]

variable {outside : Nat → List String} {stack stack' : List Job} {m m' : Machine} {t : Turn}
  {o : Outcome Address} {r : Option (Outcome Address)} {limit n k : Nat}

/-! ### Turns -/

lemma blind_conclusion {j : Job} {missing : Nat} (h : j.Serves BlindHost missing) :
    Blind (conclusion j) := by
  unfold conclusion
  split
  · exact .pure _
  · split
    · exact .pure _
    · obtain ⟨a, ha, hwork, -⟩ := h
      rw [hwork]
      cases hcustom : a.work.isCustom with
      | false => exact .of_routine (routine_perform hcustom _)
      | true =>
        cases hw : a.work with
        | custom run => exact ha.here run hw _
        | _ =>
          rw [hw] at hcustom
          cases hcustom

lemma blind_advance (h : Orderly BlindHost stack) : Blind (advance stack) := by
  match stack, h with
  | j :: below, ⟨hj, _⟩ =>
    rw [advance]
    cases j.waiting with
    | cons next waiting => exact .pure _
    | nil => exact (blind_conclusion hj).map fun step => handOver step below

lemma turn_of_cancelled (h : m.store.isCancelled m.setting.token = true) :
    turn stack m = (.finished (.error (interrupted m.steps)), m) :=
  if_pos h

lemma turn_of_due (h : m.store.isCancelled m.setting.token = false) :
    turn stack m = match overBudget m.setting.config (m.steps + 1) with
      | some limit => (.finished (.error (overrun limit)), m.tick)
      | none => advance stack m.tick :=
  if_neg (Bool.eq_false_iff.mp h)

/-- **A turn is counted**, unless the run ends before it. -/
lemma steps_turn (h : Orderly BlindHost stack) (ht : turn stack m = (t, m')) :
    m'.steps = m.steps + 1 ∨ m' = m ∧ ∃ o, t = .finished o := by
  cases hc : m.store.isCancelled m.setting.token with
  | true =>
    rw [turn_of_cancelled hc] at ht
    cases ht
    exact .inr ⟨rfl, _, rfl⟩
  | false =>
    rw [turn_of_due hc] at ht
    cases hb : overBudget m.setting.config (m.steps + 1) with
    | some limit =>
      rw [hb] at ht
      cases ht
      exact .inl rfl
    | none =>
      rw [hb] at ht
      have hsteps := (blind_advance h).steps m.tick
      rw [show advance stack m.tick = (t, m') from ht] at hsteps
      exact .inl hsteps

lemma setting_turn_of_stepwise (h : Orderly BlindHost stack) (ht : turn stack m = (t, m')) :
    m'.setting = m.setting := by
  cases hc : m.store.isCancelled m.setting.token with
  | true =>
    rw [turn_of_cancelled hc] at ht
    cases ht
    rfl
  | false =>
    rw [turn_of_due hc] at ht
    cases hb : overBudget m.setting.config (m.steps + 1) with
    | some limit =>
      rw [hb] at ht
      cases ht
      rfl
    | none =>
      rw [hb] at ht
      have hsetting := (blind_advance h).setting m.tick
      rw [show advance stack m.tick = (t, m') from ht] at hsetting
      exact hsetting

/-- **A turn with a budget** is the turn without one, or it is over the budget. -/
lemma turn_limited (h : Orderly BlindHost stack) (hnone : m.setting.config.maxSteps = none)
    (hle : m.steps ≤ limit) (ht : turn stack m = (t, m')) :
    (m'.steps ≤ limit → turn stack (m.limited (some limit)) = (t, m'.limited (some limit))) ∧
      (limit < m'.steps → (turn stack (m.limited (some limit))).1 =
        .finished (.error (overrun limit))) := by
  cases hc : m.store.isCancelled m.setting.token with
  | true =>
    rw [turn_of_cancelled hc] at ht
    cases ht
    have hc' : (m.limited (some limit)).store.isCancelled (m.limited (some limit)).setting.token =
        true := hc
    exact ⟨fun _ => turn_of_cancelled hc', fun hlt => by omega⟩
  | false =>
    have hc' : (m.limited (some limit)).store.isCancelled (m.limited (some limit)).setting.token =
        false := hc
    have hfree : overBudget m.setting.config (m.steps + 1) = none := by rw [overBudget, hnone]
    rw [turn_of_due hc, hfree] at ht
    have hblind := blind_advance h
    have hsteps : m'.steps = m.steps + 1 := by
      have := hblind.steps m.tick
      rw [show advance stack m.tick = (t, m') from ht] at this
      exact this
    have hdue : overBudget (m.limited (some limit)).setting.config (m.steps + 1) =
        if limit < m.steps + 1 then some limit else none := rfl
    rw [turn_of_due hc']
    constructor
    · intro hwithin
      rw [show (m.limited (some limit)).steps = m.steps from rfl, hdue, if_neg (by omega)]
      have := hblind.limited (some limit) m.tick
      rw [show advance stack m.tick = (t, m') from ht] at this
      exact this
    · intro hover
      rw [show (m.limited (some limit)).steps = m.steps from rfl, hdue, if_pos (by omega)]

/-! ### Runs -/

lemma orderly_start {root : Action} (h : root.Stepwise) : Orderly BlindHost [Job.ofAction root] :=
  ⟨Job.serves_ofAction h, List.forall_mem_nil _⟩

lemma orderly_turn_of_stepwise (h : Orderly BlindHost stack)
    (ht : turn stack m = (.running stack', m')) : Orderly BlindHost stack' :=
  orderly_turn (fun _ ha => ha.stepwise) h ht

lemma takeTurnsAmid_running (h : turn stack (m.disturbed outside) = (.running stack', m')) :
    takeTurnsAmid outside (n + 1) stack m = takeTurnsAmid outside n stack' m' := by
  rw [takeTurnsAmid, h]

lemma takeTurnsAmid_finished (h : turn stack (m.disturbed outside) = (.finished o, m')) :
    takeTurnsAmid outside (n + 1) stack m = (some o, m') := by
  rw [takeTurnsAmid, h]

/-- What ends stays as it is with more fuel; what does not end goes on from where it is, with one more
turn counted for each that was taken. -/
lemma takeTurnsAmid_add (h : Orderly BlindHost stack)
    (hn : takeTurnsAmid outside n stack m = (r, m')) :
    (∀ o, r = some o → m.steps ≤ m'.steps ∧ ∀ k, takeTurnsAmid outside (n + k) stack m = (r, m')) ∧
      (r = none → m'.steps = m.steps + n ∧ m'.setting = m.setting ∧
        ∃ stack', Orderly BlindHost stack' ∧
          ∀ k, takeTurnsAmid outside (n + k) stack m = takeTurnsAmid outside k stack' m') := by
  -- On the turns: the first one ends the run, or leaves a stack from which the others go on.
  induction n generalizing stack m with
  | zero =>
    cases hn
    exact ⟨nofun, fun _ => ⟨rfl, rfl, stack, h, fun k => by rw [Nat.zero_add]⟩⟩
  | succ n ih =>
    rcases ht : turn stack (m.disturbed outside) with ⟨t, m₁⟩
    have hsteps := steps_turn h ht
    cases t with
    | finished o =>
      rw [takeTurnsAmid_finished ht] at hn
      cases hn
      refine ⟨fun _ _ => ⟨?_, fun k => ?_⟩, nofun⟩
      · obtain hsteps | ⟨rfl, -⟩ := hsteps
        · exact hsteps ▸ Nat.le_succ _
        · exact le_rfl
      · rw [Nat.add_right_comm]
        exact takeTurnsAmid_finished ht
    | running stack₁ =>
      rw [takeTurnsAmid_running ht] at hn
      obtain ⟨hsome, hnone⟩ := ih (orderly_turn_of_stepwise h ht) hn
      have hcounted : m₁.steps = m.steps + 1 := hsteps.resolve_right fun ⟨_, _, hend⟩ => nomatch hend
      have hadd : ∀ k, takeTurnsAmid outside (n + 1 + k) stack m =
          takeTurnsAmid outside (n + k) stack₁ m₁ := fun k => by
        rw [Nat.add_right_comm]
        exact takeTurnsAmid_running ht
      refine ⟨fun o ho => ?_, fun hr => ?_⟩
      · obtain ⟨hle, hmore⟩ := hsome o ho
        exact ⟨by omega, fun k => (hadd k).trans (hmore k)⟩
      · obtain ⟨hlater, hsetting, stack', hstack', hmore⟩ := hnone hr
        refine ⟨by omega, hsetting.trans (setting_turn_of_stepwise (m := m.disturbed outside) h ht),
          stack', hstack',
          fun k => (hadd k).trans (hmore k)⟩

/-- **A run with a budget** is the run without one, as long as the budget lasts; then it ends. -/
lemma takeTurnsAmid_limited (h : Orderly BlindHost stack) (hnone : m.setting.config.maxSteps = none)
    (hle : m.steps ≤ limit) (hn : takeTurnsAmid outside n stack m = (r, m')) :
    (m'.steps ≤ limit → takeTurnsAmid outside n stack (m.limited (some limit)) =
        (r, m'.limited (some limit))) ∧
      (limit < m'.steps → (takeTurnsAmid outside n stack (m.limited (some limit))).1 =
        some (.error (overrun limit))) := by
  -- On the turns that are left; the steps taken so far are within the budget.
  induction n generalizing stack m with
  | zero =>
    cases hn
    exact ⟨fun _ => rfl, fun hlt => by omega⟩
  | succ n ih =>
    rcases ht : turn stack (m.disturbed outside) with ⟨t, m₁⟩
    obtain ⟨hwithin, hover⟩ := turn_limited (m := m.disturbed outside) h hnone hle ht
    cases t with
    | finished o =>
      rw [takeTurnsAmid_finished ht] at hn
      cases hn
      refine ⟨fun hlimit => takeTurnsAmid_finished (hwithin hlimit), fun hlt => ?_⟩
      rcases ht' : turn stack ((m.disturbed outside).limited (some limit)) with ⟨t', m₂⟩
      have hend := hover hlt
      rw [ht'] at hend
      cases hend
      exact congrArg Prod.fst (takeTurnsAmid_finished ht')
    | running stack₁ =>
      rw [takeTurnsAmid_running ht] at hn
      have hstack₁ := orderly_turn_of_stepwise h ht
      have hnone₁ : m₁.setting.config.maxSteps = none := by
        rw [setting_turn_of_stepwise (m := m.disturbed outside) h ht]
        exact hnone
      by_cases hlast : m₁.steps ≤ limit
      · have hfirst : takeTurnsAmid outside (n + 1) stack (m.limited (some limit)) =
            takeTurnsAmid outside n stack₁ (m₁.limited (some limit)) :=
          takeTurnsAmid_running (hwithin hlast)
        rw [hfirst]
        exact ih hstack₁ hnone₁ hlast hn
      · -- The budget ends before this turn, and the run without one counts on.
        have hlater : m₁.steps ≤ m'.steps := by
          cases r with
          | none => exact ((takeTurnsAmid_add hstack₁ hn).2 rfl).1 ▸ Nat.le_add_right _ _
          | some o => exact ((takeTurnsAmid_add hstack₁ hn).1 o rfl).1
        refine ⟨fun _ => by omega, fun _ => ?_⟩
        rcases ht' : turn stack ((m.disturbed outside).limited (some limit)) with ⟨t', m₂⟩
        have hend := hover (by omega)
        rw [ht'] at hend
        cases hend
        exact congrArg Prod.fst (takeTurnsAmid_finished ht')

lemma takeTurnsAmid_of_lt (h : Orderly BlindHost stack)
    (hn : takeTurnsAmid outside n stack m = (some o, m')) (hk : m'.steps < m.steps + k) :
    takeTurnsAmid outside k stack m = (some o, m') := by
  rcases hr : takeTurnsAmid outside k stack m with ⟨r, m₁⟩
  obtain ⟨hsome, hnone⟩ := takeTurnsAmid_add h hr
  obtain ⟨-, hmore⟩ := (takeTurnsAmid_add h hn).1 o rfl
  cases r with
  | some o₁ =>
    have heq := hmore k
    rw [Nat.add_comm, (hsome o₁ rfl).2 n] at heq
    exact heq
  | none =>
    obtain ⟨hsteps, -, stack₁, hstack₁, hgo⟩ := hnone rfl
    have hrest : takeTurnsAmid outside n stack₁ m₁ = (some o, m') := by
      rw [← hgo n, Nat.add_comm]
      exact hmore k
    have := ((takeTurnsAmid_add hstack₁ hrest).1 o rfl).1
    omega

/-! ### Executions -/

section Executions

variable {root : Action} {fuel : Nat} (hroot : root.Stepwise)

include hroot

/-- **An execution with a budget** is the execution without one, as long as the budget lasts. -/
lemma executeAmid_limited (hfresh : m.steps = 0) (hunlimited : m.setting.config.maxSteps = none)
    (limit : Nat) (hn : executeAmid outside n root m = (r, m')) :
    (m'.steps ≤ limit →
      executeAmid outside n root (m.limited (some limit)) = (r, m'.limited (some limit))) ∧
      (limit < m'.steps → (executeAmid outside n root (m.limited (some limit))).1 =
        some (.error (overrun limit))) :=
  takeTurnsAmid_limited (orderly_start hroot) hunlimited (hfresh ▸ Nat.zero_le limit) hn

lemma executeAmid_of_endless (hfresh : m.steps = 0) (hunlimited : m.setting.config.maxSteps = none)
    (hn : (executeAmid outside n root m).1 = none) (hlt : limit < n) :
    (executeAmid outside n root (m.limited (some limit))).1 = some (.error (overrun limit)) := by
  rcases hr : executeAmid outside n root m with ⟨r, m'⟩
  rw [hr] at hn
  cases hn
  have hsteps : m'.steps = m.steps + n := ((takeTurnsAmid_add (orderly_start hroot) hr).2 rfl).1
  exact (executeAmid_limited hroot hfresh hunlimited limit hr).2 (by omega)

lemma executeAmid_of_lasting (hfresh : m.steps = 0) (hunlimited : m.setting.config.maxSteps = none)
    (hn : executeAmid outside n root m = (some o, m')) (hlt : limit < fuel)
    (hle : m'.steps ≤ limit) :
    executeAmid outside fuel root (m.limited (some limit)) = (some o, m'.limited (some limit)) := by
  have hends : executeAmid outside fuel root m = (some o, m') :=
    takeTurnsAmid_of_lt (orderly_start hroot) hn (by omega)
  exact (executeAmid_limited hroot hfresh hunlimited limit hends).1 hle

lemma executeAmid_of_exhausted (hfresh : m.steps = 0) (hunlimited : m.setting.config.maxSteps = none)
    (hn : executeAmid outside n root m = (some o, m')) (hfuel : limit < fuel)
    (hlt : limit < m'.steps) :
    (executeAmid outside fuel root (m.limited (some limit))).1 = some (.error (overrun limit)) := by
  have hstack := orderly_start hroot
  rcases hr : executeAmid outside fuel root m with ⟨_ | o₁, m₁⟩
  · exact executeAmid_of_endless hroot hfresh hunlimited (congrArg Prod.fst hr) hfuel
  · -- Both amounts of fuel suffice, so the execution ends in the same state.
    have hsame := ((takeTurnsAmid_add hstack hn).1 o rfl).2 fuel
    rw [Nat.add_comm, ((takeTurnsAmid_add hstack hr).1 o₁ rfl).2 n] at hsame
    cases hsame
    exact (executeAmid_limited hroot hfresh hunlimited limit hr).2 hlt

lemma isSome_executeAmid_limited (hfresh : m.steps = 0)
    (hunlimited : m.setting.config.maxSteps = none) (hlt : limit < fuel) :
    (executeAmid outside fuel root (m.limited (some limit))).1.isSome = true := by
  rcases hr : executeAmid outside fuel root m with ⟨_ | o, m'⟩
  · rw [executeAmid_of_endless hroot hfresh hunlimited (congrArg Prod.fst hr) hlt]
    rfl
  · rcases le_or_gt m'.steps limit with hle | hover
    · rw [executeAmid_of_lasting hroot hfresh hunlimited hr hlt hle]
      rfl
    · rw [executeAmid_of_exhausted hroot hfresh hunlimited hr hlt hover]
      rfl

/-- What has not ended after some turns has counted them, and ends before the next one if its token is
cancelled by then. -/
lemma executeAmid_of_cancelled (hfresh : m.steps = 0)
    (hn : executeAmid outside n root m = (none, m')) :
    m'.steps = n ∧ ((m'.disturbed outside).store.isCancelled m'.setting.token = true →
      ∀ fuel, n < fuel →
        executeAmid outside fuel root m = (some (.error (interrupted n)), m'.disturbed outside)) := by
  obtain ⟨hsteps, -, stack₁, -, hgo⟩ := (takeTurnsAmid_add (orderly_start hroot) hn).2 rfl
  have hcount : m'.steps = n := by rw [hsteps, hfresh, Nat.zero_add]
  refine ⟨hcount, fun hcancelled fuel hlt => ?_⟩
  obtain ⟨extra, rfl⟩ := Nat.exists_eq_add_of_lt hlt
  have hturn : turn stack₁ (m'.disturbed outside) = _ := turn_of_cancelled hcancelled
  rw [show (m'.disturbed outside).steps = m'.steps from rfl, hcount] at hturn
  show takeTurnsAmid outside (n + extra + 1) _ _ = _
  rw [Nat.add_assoc, hgo (extra + 1)]
  exact takeTurnsAmid_finished hturn

end Executions

/-- **Budgets and cancellations are cut-offs.** Take an action whose host work, if it has any, is blind,
and a machine that has not counted any turns, while others cancel tokens as they like. With a budget the
execution comes to what it comes to without one if no more turns are counted then, and otherwise, in
particular if it does not end without one, it fails with the step limit; in any case it ends within one
turn more than the budget. With or without a budget, once the token is cancelled after the `k`-th turn the
execution ends as cancelled after `k` steps, and nothing more is done; but the outcome that a turn gave
stands. -/
theorem budget_and_cancellation_cut_off {root : Action} (hroot : root.Stepwise)
    (hfresh : m.steps = 0) (hunlimited : m.setting.config.maxSteps = none)
    (outside : Nat → List String) :
    (∀ n o m', executeAmid outside n root m = (some o, m') → ∀ limit fuel, limit < fuel →
      (m'.steps ≤ limit →
        executeAmid outside fuel root (m.limited (some limit)) = (some o, m'.limited (some limit))) ∧
      (limit < m'.steps →
        (executeAmid outside fuel root (m.limited (some limit))).1 =
          some (.error (overrun limit)))) ∧
    ((∀ n, (executeAmid outside n root m).1 = none) → ∀ limit fuel, limit < fuel →
      (executeAmid outside fuel root (m.limited (some limit))).1 = some (.error (overrun limit))) ∧
    (∀ limit fuel, limit < fuel →
      (executeAmid outside fuel root (m.limited (some limit))).1.isSome = true) ∧
    ∀ limit k r m', executeAmid outside k root (m.limited limit) = (r, m') →
      match r with
      | none => m'.steps = k ∧
          ((m'.disturbed outside).store.isCancelled m'.setting.token = true → ∀ fuel, k < fuel →
            executeAmid outside fuel root (m.limited limit) =
              (some (.error (interrupted k)), m'.disturbed outside))
      | some _ => ∀ fuel ≥ k, executeAmid outside fuel root (m.limited limit) = (r, m') := by
  refine ⟨fun n o m' hn limit fuel hfuel => ⟨?_, ?_⟩, fun hnone limit fuel hfuel => ?_,
    fun limit fuel hfuel => ?_, fun limit k r m' hk => ?_⟩
  · exact executeAmid_of_lasting hroot hfresh hunlimited hn hfuel
  · exact executeAmid_of_exhausted hroot hfresh hunlimited hn hfuel
  · exact executeAmid_of_endless hroot hfresh hunlimited (hnone fuel) hfuel
  · exact isSome_executeAmid_limited hroot hfresh hunlimited hfuel
  · cases r with
    | some o =>
      intro fuel hle
      obtain ⟨extra, rfl⟩ := Nat.exists_eq_add_of_le hle
      exact ((takeTurnsAmid_add (orderly_start hroot) hk).1 o rfl).2 extra
    | none => exact executeAmid_of_cancelled hroot hfresh hk

/-- A host cancels its own run between two values. The run ends after the host's turn, or before it if the
budget says so. -/
theorem host_that_cancels_cut_off :
    let host := Action.mk [] (.custom fun _ m =>
      (.value (.at 1), { m with store := m.store.cancel "halt" }))
    let root := Action.mk [.value (.at 0), host, .value (.at 2)] (.value (.at 3))
    let m : Machine := { setting := { token := some "halt" } }
    root.Stepwise ∧ m.steps = 0 ∧ m.setting.config.maxSteps = none ∧
    (∀ fuel, 3 < fuel → (executeAmid (fun _ => []) fuel root (m.limited (some 3))).1 =
      some (.error (overrun 3))) ∧
    (∀ fuel, 4 < fuel → (executeAmid (fun _ => []) fuel root (m.limited (some 9))).1 =
      some (.error (interrupted 4))) := by
  intro host root m
  have hhost : host.Stepwise := by
    refine .mk (fun run hrun results => ?_) nofun fun run hrun results m' a ha => ?_
    · cases hrun
      exact ⟨fun _ _ => rfl, fun _ => rfl, fun _ => rfl⟩
    · cases hrun
      cases ha
  have hroot : root.Stepwise := by
    refine .mk nofun (fun d hd => ?_) nofun
    simp only [List.mem_cons, List.not_mem_nil, or_false] at hd
    obtain rfl | rfl | rfl := hd
    · exact (Action.plain_value _).stepwise
    · exact hhost
    · exact (Action.plain_value _).stepwise
  obtain ⟨hends, -, -, hcancelled⟩ :=
    budget_and_cancellation_cut_off (m := m) hroot rfl rfl fun _ => []
  refine ⟨hroot, rfl, rfl, fun fuel hfuel => ?_, fun fuel hfuel => ?_⟩
  · exact (hends 5 (.error (interrupted 4)) _ rfl 3 fuel hfuel).2 (by decide)
  · exact congrArg Prod.fst ((hcancelled (some 9) 4 none _ rfl).2 rfl fuel hfuel)

/-- **A host that executes an action itself need not be cut off**: it counts turns of its own, and if the
budget ends among them it can still go on. -/
theorem nested_execution_outlasts_budget :
    ¬ ∀ (root : Action) (m : Machine), m.steps = 0 → m.setting.config.maxSteps = none →
      ∀ n o m', executeAmid (fun _ => []) n root m = (some o, m') →
        ∀ limit fuel, limit < fuel → limit < m'.steps →
          (executeAmid (fun _ => []) fuel root (m.limited (some limit))).1 =
            some (.error (overrun limit)) := by
  intro hall
  let host := Action.mk [] (.custom fun _ m => (.value (.at 0), (execute 1 (.value (.at 1)) m).2))
  have hends : executeAmid (fun _ => []) 1 host {} = (some (.ok (.at 0)), { steps := 2 }) := rfl
  cases hall host {} rfl rfl 1 _ _ hends 1 2 (by decide) (by decide)

end Machine

end CellMachine
