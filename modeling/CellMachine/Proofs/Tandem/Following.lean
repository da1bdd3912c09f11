import CellMachine.Proofs.Tandem.Levels

/-!
A follower does what its leader does: every action that succeeds on the leader's side succeeds on the
follower's, and the machines end side by side.
-/

namespace CellMachine

namespace Tandem

open Machine

variable {T : Tandem} {D : Nat → Nat → Prop} {m m' n : Machine}

lemma SameInvocation.dependencies {i i' : Invocation} (hi : T.SameInvocation D i i') :
    List.Forall₂ (T.SameAction D) i.action.dependencies i'.action.dependencies := by
  have hargs := hi.args
  unfold Invocation.action Action.dependencies
  dsimp only
  rw [hi.opcode]
  generalize i.args = as at hargs
  generalize i'.args = bs at hargs
  generalize i.opcode.signature.arguments = declared
  induction hargs generalizing declared with
  | nil =>
    rw [List.zip_nil_right]
    exact .nil
  | cons hab _ ih =>
    cases declared with
    | nil => exact .nil
    | cons d declared =>
      rw [List.zip_cons_cons, List.zip_cons_cons, List.filterMap_cons, List.filterMap_cons]
      dsimp only
      cases d.evaluation with
      | evaluated => exact .cons (.evaluate hab .deep) (ih declared)
      | shallow => exact .cons (.evaluate hab .shallow) (ih declared)
      | «lazy» => exact ih declared

namespace Leading

variable {fuel : Nat} {b : Address}

lemma perform (hT : T.Sound) (hl : T.Leading fuel) (h : T.Abreast D m n) {w w' : Work Action}
    (hw : T.SameWork D w w') {a a' : Address} (ha : Paired D a a')
    (hleads : Leads (Succeeds fuel) (Machine.perform w [a] m) b m') :
    T.Reaches D m n (Leads Ends (Machine.perform w' [a'] n)) b m' := by
  by_cases hpairwise : T.following.reduceStrategy = .pairwise
  · cases hw with
    | reduce hc hinitial =>
      -- The leader folds from the left, the follower neighbours first.
      change Leads _ (reduceElements _ _ a m) b m' at hleads
      change T.Reaches D m n (Leads Ends (reduceElements _ _ a' n)) b m'
      rcases reduceElements_cases _ _ a m with ⟨q, hq⟩ | ⟨items, hv⟩
      · rw [hq] at hleads
        exact hleads.elim
      · obtain ⟨v, hv', halike⟩ := h.exists_value ha hv
        cases halike with
        | iterable _ _ hall =>
          rw [reduceElements_eq hv, h.leader.config, hT.sequential] at hleads
          rw [reduceElements_eq hv', h.follower.config, hpairwise]
          exact pairwise_follows hT hl hpairwise h hc hinitial hall hleads
    | settle ht => exact hl.leads (perform_lockstep hT h (.settle ht) ha nofun) hleads
    | deepen => exact hl.leads (perform_lockstep hT h .deepen ha nofun) hleads
    | call hx ht => exact hl.leads (perform_lockstep hT h (.call hx ht) ha nofun) hleads
    | leave f ht => exact hl.leads (perform_lockstep hT h (.leave f ht) ha nofun) hleads
    | conclude hi => exact hl.leads (perform_lockstep hT h (.conclude hi) ha nofun) hleads
    | combine hc hrest => exact hl.leads (perform_lockstep hT h (.combine hc hrest) ha nofun) hleads
  · have hsequential : T.following.reduceStrategy = .sequential := by
      cases hstrategy : T.following.reduceStrategy with
      | sequential => rfl
      | pairwise => exact absurd hstrategy hpairwise
    exact hl.leads (perform_lockstep hT h hw ha fun _ _ _ => hsequential) hleads

end Leading

/-- **The follower succeeds where the leader does.** -/
lemma follows (hT : T.Sound) (fuel : Nat) : T.Leading fuel := by
  -- On the fuel, by what the two actions have in common.
  induction fuel with
  | zero =>
    intro D m n x y b m' _ _ hs
    cases hs
  | succ fuel hl =>
    intro D m n x y b m' h hxy hs
    cases hxy with
    | value hab =>
      obtain ⟨bs, m₁, ⟨rfl, rfl⟩, rfl, rfl⟩ := succeeds_succ_iff.mp hs
      obtain ⟨h', onward⟩ := h.tick
      have hall : SucceedAll Ends [] n [] n := ⟨rfl, rfl⟩
      exact ⟨D, _, n.tick, ends_of hall ⟨rfl, rfl⟩, h', onward, hab⟩
    | evaluate hab depth =>
      obtain ⟨bs, m₁, ⟨rfl, rfl⟩, hleads⟩ := succeeds_succ_iff.mp hs
      obtain ⟨h', onward⟩ := h.tick
      obtain ⟨D', c, n', hR, h'', onward', hbc⟩ := hl.leads (force_lockstep hT h' hab depth) hleads
      have hall : SucceedAll Ends [] n [] n := ⟨rfl, rfl⟩
      exact ⟨D', c, n', ends_of hall hR, h'', onward.trans onward', hbc⟩
    | members hall hab =>
      obtain ⟨bs, m₁, hsteps, rfl, rfl⟩ := succeeds_succ_iff.mp hs
      have hactions := hall.imp fun _ _ h => SameAction.evaluate (T := T) h .deep
      obtain ⟨D', cs, n', hcs, h', onward, -⟩ :=
        hl.all h (List.forall₂_map_left_iff.mpr (List.forall₂_map_right_iff.mpr hactions)) hsteps
      obtain ⟨h'', onward'⟩ := h'.tick
      have onward := onward.trans onward'
      exact ⟨D', _, n'.tick, ends_of hcs ⟨rfl, rfl⟩, h'', onward, onward.paired hab⟩
    | invoke hi =>
      obtain ⟨bs, m₁, hs, hleads⟩ := succeeds_succ_iff.mp hs
      obtain ⟨D₁, cs, n₁, hcs, h₁, onward₁, -⟩ := hl.all h hi.dependencies hs
      obtain ⟨h₂, onward₂⟩ := h₁.tick
      have onward := onward₁.trans onward₂
      obtain ⟨D', c, n', hR, h', onward', hbc⟩ :=
        hl.leads (invoke_lockstep hT h₂ (hi.mono onward.pairs)) hleads
      exact ⟨D', c, n', ends_of hcs hR, h', onward.trans onward', hbc⟩
    | andThen hxy hw =>
      obtain ⟨a, m₁, hfirst, hleads⟩ := succeeds_andThen hs
      obtain ⟨D₁, a', n₁, hends, h₁, onward₁, ha⟩ := hl.awaited h hxy hfirst
      obtain ⟨D', c, n', hR, h', onward', hbc⟩ :=
        hl.perform hT h₁ (hw.mono onward₁.pairs) ha hleads
      exact ⟨D', c, n', ends_andThen hends hR, h', onward₁.trans onward', hbc⟩

end Tandem

end CellMachine
