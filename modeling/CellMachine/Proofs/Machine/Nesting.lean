import CellMachine.Proofs.Machine.Brackets
import CellMachine.Watch.Watcher

/-!
How deep calls are nested. Whatever fails, no more functions return than were started; and those that a
job on the stack is there to end were started and have not returned.
-/

namespace CellMachine

/-! ### Starts and returns -/

namespace Notice

def isStart : Notice → Bool
  | started _ => true
  | _ => false

def isReturn : Notice → Bool
  | returned .. => true
  | _ => false

end Notice

def startCount (w : List Notice) : Nat := w.countP Notice.isStart

def returnCount (w : List Notice) : Nat := w.countP Notice.isReturn

variable {k k' k'' : Nat} {n : Notice} {u v w : List Notice}

lemma startCount_append (v w : List Notice) : startCount (v ++ w) = startCount v + startCount w :=
  List.countP_append

lemma returnCount_append (v w : List Notice) : returnCount (v ++ w) = returnCount v + returnCount w :=
  List.countP_append

/-- Notices that, with some functions running before them, tell of no return without a function that
runs, and leave at least so many running. -/
structure Nests (running left : Nat) (w : List Notice) : Prop where
  returns : ∀ u v, w = u ++ v → returnCount u ≤ running + startCount u
  left : returnCount w + left ≤ running + startCount w

namespace Nests

lemma nil (h : k' ≤ k) : Nests k k' [] where
  returns u v huv := by
    obtain ⟨rfl, -⟩ := List.append_eq_nil_iff.mp huv.symm
    exact Nat.zero_le _
  left := by
    rw [Nat.add_comm]
    exact Nat.add_le_add_right h _

lemma single (h : returnCount [n] + k' ≤ k + startCount [n]) : Nests k k' [n] where
  returns u v huv := by
    rcases List.cons_eq_append_iff.mp huv with ⟨rfl, -⟩ | ⟨t, rfl, ht⟩
    · exact Nat.zero_le _
    · obtain ⟨rfl, -⟩ := List.append_eq_nil_iff.mp ht.symm
      exact (Nat.le_add_right _ _).trans h
  left := h

lemma trans (hv : Nests k k' v) (hw : Nests k' k'' w) : Nests k k'' (v ++ w) where
  returns u t hut := by
    rcases List.append_eq_append_iff.mp hut with ⟨s, rfl, hs⟩ | ⟨s, hs, rfl⟩
    · have hbefore := hv.left
      have hwithin := hw.returns s t hs
      rw [returnCount_append, startCount_append]
      omega
    · exact hv.returns u s hs
  left := by
    have hbefore := hv.left
    have hafter := hw.left
    rw [returnCount_append, startCount_append]
    omega

/-- Further functions may run all the time. -/
lemma raise (h : Nests k k' w) (d : Nat) : Nests (k + d) (k' + d) w where
  returns u v huv := by
    have := h.returns u v huv
    omega
  left := by
    have := h.left
    omega

lemma weaken (h : Nests k k' w) (hle : k'' ≤ k') : Nests k k'' w :=
  ⟨h.returns, by have := h.left; omega⟩

end Nests

lemma Balanced.returnCount_eq (h : Balanced w) : returnCount w = startCount w := by
  induction h with
  | nil => rfl
  | @wrap b first last inner rest hfirst _ hlast _ hinner hrest =>
    have hpair : returnCount [first] + returnCount [last] = startCount [first] + startCount [last] := by
      cases b <;> cases first <;> cases hfirst <;> cases last <;> cases hlast <;> rfl
    have hsplit : first :: (inner ++ last :: rest) = [first] ++ inner ++ [last] ++ rest := by simp
    rw [hsplit]
    simp only [returnCount_append, startCount_append]
    omega

/-! ### Steps -/

/-- How many functions return when the work is done. -/
def Work.exits {α : Type} : Work α → Nat
  | leave .. => 1
  | _ => 0

/-- How many functions return by what a step goes on with. -/
def Step.exits : Step Action → Nat
  | .action next => next.work.exits
  | _ => 0

lemma Action.Neutral.exits {a : Action} (h : a.Neutral) : a.work.exits = 0 := by
  have hw := Every.here h
  cases hwork : a.work <;> rw [hwork] at hw <;> first | rfl | cases hw

lemma Step.Quiet.exits {step : Step Action} (h : step.Quiet) : step.exits = 0 := by
  cases step with
  | action next => exact (Action.Quiet.neutral h).exits
  | value a => rfl
  | error p => rfl

/-- Opcodes are told of only to those who want to hear of them. -/
def Discreet (attention : Attention) (w : List Notice) : Prop :=
  ∀ n ∈ w, n.isOpcode = true → attention = .opcodes

lemma discreet_nil (attention : Attention) : Discreet attention [] := List.forall_mem_nil _

/-- Work for which some functions run: what it tells nests, and leaves running those that return by what
it goes on with. -/
def Nested (attention : Attention) (k : Nat) (x : Machine.Stepped) : Prop :=
  ∀ m, m.setting.attention = attention → ∃ w, (x m).2.notices.reverse = m.notices.reverse ++ w ∧
    (x m).2.setting = m.setting ∧ Discreet attention w ∧ Nests k (x m).1.exits w

namespace Nested

variable {attention : Attention} {α : Type} {x : Machine.Stepped}

lemma of_silent (h : Silent x Step.Quiet) : Nested attention k x := by
  intro m _
  obtain ⟨hstep, hnotices, hsetting⟩ := h m
  refine ⟨[], by rw [hnotices, List.append_nil], hsetting, discreet_nil _, .nil ?_⟩
  rw [hstep.exits]
  exact Nat.zero_le k

lemma pure {step : Step Action} (h : step.Quiet) : Nested attention k (Pure.pure step) :=
  of_silent (.pure h)

lemma after {y : RunM α} {P : α → Prop} {f : α → Machine.Stepped} (hy : Silent y P)
    (hf : ∀ a, P a → Nested attention k (f a)) : Nested attention k (y >>= f) := by
  intro m hm
  obtain ⟨hP, hnotices, hsetting⟩ := hy m
  obtain ⟨w, hw, hkeeps, hnests⟩ := hf _ hP (y m).2 (hsetting ▸ hm)
  exact ⟨w, hnotices ▸ hw, hkeeps.trans hsetting, hnests⟩

lemma told (k' : Nat) {y : RunM PUnit} {f : PUnit → Machine.Stepped}
    (hy : ∀ m, m.setting.attention = attention → ∃ w,
      (y m).2.notices.reverse = m.notices.reverse ++ w ∧ (y m).2.setting = m.setting ∧
        Discreet attention w ∧ Nests k k' w)
    (hf : Nested attention k' (f ⟨⟩)) : Nested attention k (y >>= f) := by
  intro m hm
  obtain ⟨v, hv, hsetting, hdiscreet, hnests⟩ := hy m hm
  obtain ⟨w, hw, hsetting', hdiscreet', hnests'⟩ := hf (y m).2 (hsetting ▸ hm)
  refine ⟨v ++ w, ?_, hsetting'.trans hsetting, fun n hn => ?_, hnests.trans hnests'⟩
  · rw [← List.append_assoc, ← hv]
    exact hw
  · exact (List.mem_append.mp hn).elim (hdiscreet n) (hdiscreet' n)

lemma tellOpcode {told : Memory → Notice} (h : ∀ m, returnCount [told m] = startCount [told m])
    {f : PUnit → Machine.Stepped} (hf : Nested attention k (f ⟨⟩)) :
    Nested attention k (RunM.tellOpcode told >>= f) := by
  refine Nested.told k (fun m hm => ?_) hf
  unfold RunM.tellOpcode
  split
  · next hopcodes =>
    exact ⟨[told m.store.memory], List.reverse_cons, rfl, fun _ _ _ => hm.symm.trans hopcodes,
      .single (by rw [h, Nat.add_comm])⟩
  · exact ⟨[], (List.append_nil _).symm, rfl, discreet_nil _, .nil le_rfl⟩

lemma tell (k' : Nat) (hwatched : attention ≠ .nothing) {told : Memory → Notice}
    (h : ∀ m, returnCount [told m] + k' ≤ k + startCount [told m])
    (hcall : ∀ m, (told m).isOpcode = false) {f : PUnit → Machine.Stepped}
    (hf : Nested attention k' (f ⟨⟩)) : Nested attention k (RunM.tell told >>= f) := by
  refine Nested.told k' (fun m hm => ?_) hf
  unfold RunM.tell
  rw [if_neg (hm ▸ hwatched)]
  refine ⟨[told m.store.memory], List.reverse_cons, rfl, fun n hn hopcode => ?_, .single (h _)⟩
  rw [List.mem_singleton.mp hn, hcall] at hopcode
  cases hopcode

end Nested

namespace Machine

variable {attention : Attention}

lemma nested_callCompiled (hwatched : attention ≠ .nothing) (compiled : CompiledCall)
    (argument target : Address) : Nested attention k (callCompiled compiled argument target) := by
  refine .after (silent_construct compiled argument) fun o _ => ?_
  cases o with
  | error p => exact .pure trivial
  | ok action =>
    refine .tell (k + 1) hwatched (fun _ => le_of_eq (Nat.zero_add _)) (fun _ => rfl) ?_
    exact fun m _ => ⟨[], (List.append_nil _).symm, rfl, discreet_nil _, .nil (Nat.le_add_left 1 k)⟩

lemma nested_call (hwatched : attention ≠ .nothing) (function argument target : Address) :
    Nested attention k (call function argument target) := by
  rw [call_eq]
  refine .after Silent.memory fun memory _ => .after (silent_compilation function) fun c _ => ?_
  cases c with
  | error problems => exact .pure trivial
  | ok compiled => exact nested_callCompiled hwatched compiled argument target

lemma nested_leave (hwatched : attention ≠ .nothing) (target : Address) (function : Callable)
    (produced : Address) : Nested attention 1 (leave target function produced) := by
  refine .after (silent_settle target produced) fun step hstep => ?_
  cases step with
  | value a => exact .tell 0 hwatched (fun _ => le_rfl) (fun _ => rfl) (.pure trivial)
  | error p => exact .pure trivial
  | action next => exact absurd rfl (hstep next)

lemma nested_conclude (i : Invocation) (produced : Address) :
    Nested attention k (conclude i produced) := by
  refine .after (silent_settle i.target produced) fun step hstep => ?_
  cases step with
  | value a => exact .tellOpcode (fun _ => rfl) (.pure trivial)
  | error p => exact .pure trivial
  | action next => exact absurd rfl (hstep next)

lemma nested_concluding (a : Action) (i : Invocation) :
    Nested attention k (Pure.pure (.action (a.andThen (.conclude i)))) :=
  fun _ _ => ⟨[], (List.append_nil _).symm, rfl, discreet_nil _, .nil (Nat.zero_le k)⟩

lemma nested_confer (i : Invocation) (frame : Frame) (v : Value) :
    Nested attention k (confer i frame v) := by
  refine .after (Silent.checking _ _) fun found _ => ?_
  cases firstOf found with
  | some p => exact .pure trivial
  | none => exact .after (Silent.store _) fun _ _ => .tellOpcode (fun _ => rfl) (.pure trivial)

lemma nested_proceed (i : Invocation) (frame : Frame) (r : Result) :
    Nested attention k (proceed i frame r) := by
  cases r with
  | value v => exact proceed_value_eq i frame v ▸ nested_confer i frame v
  | error p => exact .pure trivial
  | lazy a => exact nested_concluding (.evaluate a .shallow) i
  | reduce r =>
    refine .after Silent.get fun m _ => ?_
    dsimp only
    split
    · exact .pure trivial
    · exact nested_concluding _ i

lemma nested_apply (i : Invocation) (frame : Frame) : Nested attention k (apply i frame) := by
  refine .after (Silent.checking _ _) fun found _ => ?_
  cases firstOf found with
  | some p => exact .pure trivial
  | none => exact .after (Silent.store _) fun r _ => nested_proceed i frame r

lemma nested_invoke (i : Invocation) : Nested attention k (invoke i) := by
  rw [invoke_eq]
  refine .after Silent.get fun m _ => ?_
  cases i.unready m.store.memory with
  | some position => exact .pure trivial
  | none => exact .tellOpcode (fun _ => rfl) (nested_apply i _)

lemma nested_withResult (results : List Address) {f : Address → Stepped}
    (hf : ∀ a, Nested attention k (f a)) : Nested attention k (withResult results f) := by
  unfold withResult
  split
  · exact hf _
  · exact .pure trivial

/-- **The machine's own work** tells of a return only at the end of a call, and of a start only if it
goes on with the call. -/
lemma nested_perform (hwatched : attention ≠ .nothing) {work : Work Action}
    (hw : work.isCustom = false) (results : List Address) :
    Nested attention work.exits (perform work results) := by
  cases work with
  | value a => exact .pure trivial
  | evaluate a depth => exact .of_silent (silent_force a depth)
  | settle target =>
    exact nested_withResult results fun a => .of_silent (silent_settled target a)
  | deepen => exact nested_withResult results fun a => .of_silent (silent_force a .deep)
  | call argument target =>
    exact nested_withResult results fun f => nested_call hwatched f argument target
  | leave target function =>
    exact nested_withResult results fun a => nested_leave hwatched target function a
  | invoke i => exact nested_invoke i
  | conclude i => exact nested_withResult results fun a => nested_conclude i a
  | reduce c initial =>
    exact nested_withResult results fun a => .of_silent (silent_reduceElements c initial a)
  | combine c rest => exact nested_withResult results fun a => .of_silent (silent_sequential c a rest)
  | combineLevel c carry => exact .of_silent (silent_pairwise c _)
  | custom run => cases hw

lemma nested_conclusion (hwatched : attention ≠ .nothing) {j : Job} (hj : j.work.isCustom = false) :
    Nested attention j.work.exits (conclusion j) := by
  unfold conclusion
  split
  · exact .pure trivial
  · split
    · exact .pure trivial
    · exact nested_perform hwatched hj _

/-! ### Turns -/

/-- How many functions return by the jobs of a stack. -/
def exits (stack : List Job) : Nat := (stack.map fun j => j.work.exits).sum

/-- What was told while some functions run for which no job is on the stack. -/
structure Counts (attention : Attention) (k : Nat) (stack : List Job) (m : Machine) : Prop where
  discreet : Discreet attention m.notices.reverse
  nests : Nests 0 (exits stack + k) m.notices.reverse

/-- What was told by the end of a turn. -/
def TurnCounts (attention : Attention) (k : Nat) (m : Machine) : Turn → Prop
  | .running stack => Counts attention k stack m
  | .finished _ => Counts attention k [] m

variable {stack below : List Job} {j : Job} {m m' : Machine} {t : Turn}

lemma Counts.finish (h : Counts attention k stack m) : Counts attention k [] m :=
  ⟨h.discreet, h.nests.weaken (Nat.add_le_add_right (Nat.zero_le _) k)⟩

lemma Counts.congr (h : Counts attention k stack m) (hnotices : m'.notices = m.notices) :
    Counts attention k stack m' := ⟨hnotices ▸ h.discreet, hnotices ▸ h.nests⟩

lemma exits_handOver {step : Step Action} {stack stack' : List Job}
    (h : handOver step stack = .running stack') : exits stack' = step.exits + exits stack := by
  cases step with
  | action next =>
    cases h
    rfl
  | value a =>
    cases stack with
    | nil => cases h
    | cons parent rest =>
      cases h
      exact (Nat.zero_add _).symm
  | error p =>
    cases stack with
    | nil => cases h
    | cons parent rest =>
      cases h
      exact (Nat.zero_add _).symm

lemma Counts.pushed (h : Counts attention k (j :: below) m) {next : Action} {waiting : List Action}
    (hnext : next.Neutral) :
    Counts attention k (Job.ofAction next :: { j with waiting } :: below) m := by
  have hsame : exits (Job.ofAction next :: { j with waiting } :: below) = exits (j :: below) := by
    show next.work.exits + _ = _
    rw [hnext.exits]
    exact Nat.zero_add _
  exact ⟨h.discreet, hsame ▸ h.nests⟩

lemma Counts.concluded (hwatched : attention ≠ .nothing) (h : Counts attention k (j :: below) m)
    (hj : Shut j) (hattends : m.setting.attention = attention) :
    TurnCounts attention k (conclusion j m).2 (handOver (conclusion j m).1 below) := by
  obtain ⟨w, hnotices, -, hdiscreet, hnests⟩ := nested_conclusion hwatched hj.own m hattends
  have hall : Discreet attention (conclusion j m).2.notices.reverse := fun n hn => by
    rw [hnotices] at hn
    exact (List.mem_append.mp hn).elim (h.discreet n) (hdiscreet n)
  -- the functions of the jobs below, and those that have no job, run all the time
  have hcount : Nests 0 ((conclusion j m).1.exits + (exits below + k))
      (conclusion j m).2.notices.reverse := by
    have hbefore : Nests 0 (j.work.exits + (exits below + k)) m.notices.reverse := by
      rw [← Nat.add_assoc]
      exact h.nests
    rw [hnotices]
    exact hbefore.trans (hnests.raise _)
  cases hr : handOver (conclusion j m).1 below with
  | running stack' =>
    refine ⟨hall, ?_⟩
    rw [exits_handOver hr, Nat.add_assoc]
    exact hcount
  | finished o =>
    refine ⟨hall, hcount.weaken ?_⟩
    show 0 + k ≤ _
    omega

lemma Counts.advance (hwatched : attention ≠ .nothing) (h : Counts attention k stack m)
    (hjobs : ∀ j ∈ stack, Shut j) (hattends : m.setting.attention = attention) :
    TurnCounts attention k (advance stack m).2 (advance stack m).1 := by
  match stack, h, hjobs with
  | [], h, _ => exact h
  | j :: below, h, hjobs =>
    have hj := hjobs j List.mem_cons_self
    cases hw : j.waiting with
    | cons next waiting =>
      have heq : Machine.advance (j :: below) m =
          (.running (Job.ofAction next :: { j with waiting } :: below), m) := by
        rw [Machine.advance, hw]
        rfl
      rw [heq]
      exact h.pushed (hj.waiting next (hw ▸ List.mem_cons_self))
    | nil =>
      have heq : Machine.advance (j :: below) m =
          (handOver (conclusion j m).1 below, (conclusion j m).2) := by
        rw [Machine.advance, hw]
        rfl
      rw [heq]
      exact h.concluded hwatched hj hattends

/-- **A turn** keeps as many functions running as jobs on the stack are there to end. -/
lemma Counts.turn (hwatched : attention ≠ .nothing) (h : Counts attention k stack m)
    (hjobs : ∀ j ∈ stack, Shut j) (hattends : m.setting.attention = attention)
    (ht : turn stack m = (t, m')) : TurnCounts attention k m' t := by
  unfold Machine.turn at ht
  split at ht
  · cases ht
    exact h.finish
  · dsimp only at ht
    split at ht
    · cases ht
      exact h.finish.congr rfl
    · have hticked : Counts attention k stack { m with steps := m.steps + 1 } := h.congr rfl
      have hadvanced := hticked.advance hwatched hjobs hattends
      rw [ht] at hadvanced
      exact hadvanced

/-- **However long an execution goes on** and however it ends, no more functions have returned than were
started. -/
lemma Counts.takeTurnsAmid {outside : Nat → List String} {fuel : Nat} {r : Option (Outcome Address)}
    {u : List Notice} (hwatched : attention ≠ .nothing) (h : Counts attention k stack m)
    (hheard : Heard attention u stack m) (ht : takeTurnsAmid outside fuel stack m = (r, m')) :
    Counts attention k [] m' ∧ m'.setting.attention = attention := by
  induction fuel generalizing stack m with
  | zero =>
    cases ht
    exact ⟨h.finish, hheard.attends⟩
  | succ fuel ih =>
    rw [Machine.takeTurnsAmid] at ht
    have hdisturbed : Heard attention u stack (m.disturbed outside) := hheard.congr rfl rfl
    rcases hturn : Machine.turn stack (m.disturbed outside) with ⟨t, m₁⟩
    have hnext := hdisturbed.turn hturn
    have hsame : Counts attention k stack (m.disturbed outside) := h.congr rfl
    have hcounts := hsame.turn hwatched hdisturbed.jobs hdisturbed.attends hturn
    rw [hturn] at ht
    cases t with
    | finished o' =>
      cases ht
      exact ⟨hcounts, hnext.attends⟩
    | running stack₁ => exact ih hcounts hnext ht

end Machine

end CellMachine
