import CellMachine.Proofs.Machine.Order
import CellMachine.Proofs.Safety.Turns

/-!
What a watcher hears is well bracketed. A start opens a bracket, the return or the resolution of the
same thing closes it. As long as nothing fails, the brackets that are open are those that the jobs on the
stack are there to close, the topmost first; and only the work that a step goes on with closes any, never
the work that it waits for.
-/

namespace CellMachine

/-! ### Brackets -/

/-- What a start opens. -/
inductive Bracket where
  | function (f : Callable)
  | opcode (function : Option Callable) (index : Nat) (cell : Cell)

namespace Notice

def opens? : Notice → Option Bracket
  | started f => some (.function f)
  | opcodeStarted f index cell => some (.opcode f index cell)
  | _ => none

def closes? : Notice → Option Bracket
  | returned f _ => some (.function f)
  | opcodeResolved f index cell _ => some (.opcode f index cell)
  | _ => none

end Notice

/-- Notices in which everything that is opened is closed, the latest first, and nothing else. -/
inductive Balanced : List Notice → Prop
  | nil : Balanced []
  | wrap {b : Bracket} {first last : Notice} {inner rest : List Notice} (hfirst : first.opens? = some b)
    (hinner : Balanced inner) (hlast : last.closes? = some b) (hrest : Balanced rest) :
    Balanced (first :: (inner ++ last :: rest))

/-- Notices that leave some brackets open, the latest first. -/
def LeftOpen : List Bracket → List Notice → Prop
  | [], w => Balanced w
  | b :: bs, w => ∃ u first v, w = u ++ first :: v ∧ LeftOpen bs u ∧ first.opens? = some b ∧ Balanced v

/-- Notices that take the brackets open before them to others. -/
def Takes (old new : List Bracket) (w : List Notice) : Prop :=
  ∀ bs u, LeftOpen (old ++ bs) u → LeftOpen (new ++ bs) (u ++ w)

variable {b : Bracket} {bs old new : List Bracket} {n : Notice} {u v w : List Notice}

lemma Balanced.append (hv : Balanced v) (hw : Balanced w) : Balanced (v ++ w) := by
  induction hv with
  | nil => exact hw
  | @wrap b first last inner rest hfirst hinner hlast _ _ ih =>
    have heq : first :: (inner ++ last :: rest) ++ w = first :: (inner ++ last :: (rest ++ w)) := by
      simp
    rw [heq]
    exact .wrap hfirst hinner hlast ih

lemma LeftOpen.append (hu : LeftOpen bs u) (hv : Balanced v) : LeftOpen bs (u ++ v) := by
  cases bs with
  | nil => exact Balanced.append hu hv
  | cons b bs =>
    obtain ⟨u', first, v', rfl, hu', hfirst, hv'⟩ := hu
    exact ⟨u', first, v' ++ v, by simp, hu', hfirst, hv'.append hv⟩

lemma takes_nil (old : List Bracket) : Takes old old [] := fun _ _ h => by rwa [List.append_nil]

lemma takes_start (h : n.opens? = some b) : Takes [] [b] [n] :=
  fun _ u hu => ⟨u, n, [], rfl, hu, h, .nil⟩

lemma takes_stop (h : n.closes? = some b) : Takes [b] [] [n] := by
  rintro bs _ ⟨u, first, v, rfl, hu, hfirst, hv⟩
  have heq : u ++ first :: v ++ [n] = u ++ first :: (v ++ n :: []) := by simp
  rw [heq]
  exact hu.append (.wrap hfirst hv h .nil)

lemma Takes.trans {mid : List Bracket} (h : Takes old mid v) (h' : Takes mid new w) :
    Takes old new (v ++ w) := fun bs u hu => by
  rw [← List.append_assoc]
  exact h' bs (u ++ v) (h bs u hu)

/-! ### Who closes what -/

/-- The brackets that a watcher hears of. -/
def Bracket.heard (attention : Attention) : Bracket → List Bracket
  | function f => if attention = .nothing then [] else [function f]
  | opcode f index cell => if attention = .opcodes then [opcode f index cell] else []

def Invocation.bracket (i : Invocation) : Bracket := .opcode i.function i.index i.cell

/-- The brackets that work closes when it is done. -/
def Work.brackets {α : Type} (attention : Attention) : Work α → List Bracket
  | leave _ f => (Bracket.function f).heard attention
  | conclude i => i.bracket.heard attention
  | _ => []

namespace Action

/-- At most the last work of an action closes anything. -/
structure Shut (a : Action) : Prop where
  own : a.work.isCustom = false
  dependencies : ∀ d ∈ a.dependencies, d.Neutral

lemma Neutral.shut {a : Action} (h : a.Neutral) : a.Shut where
  own := Work.isCustom_of_isNeutral (Every.here h)
  dependencies := Every.dependencies h

lemma Neutral.shut_andThen {a : Action} (h : a.Neutral) {w : Work Action} (hw : w.isCustom = false) :
    (a.andThen w).Shut :=
  ⟨hw, fun _ hd => List.mem_singleton.mp hd ▸ h⟩

lemma Neutral.brackets {a : Action} (h : a.Neutral) (attention : Attention) :
    a.work.brackets attention = [] := by
  have hw := Every.here h
  cases hwork : a.work <;> rw [hwork] at hw <;> first | rfl | cases hw

end Action

/-! ### Work that tells something -/

/-- After a step that did not fail, the brackets open are those that what it goes on with closes. -/
def Step.Leaves (attention : Attention) (old : List Bracket) (w : List Notice) : Step Action → Prop
  | .error _ => True
  | .value _ => Takes old [] w
  | .action next => Takes old (next.work.brackets attention) w ∧ next.Shut

/-- Work that closes some brackets, or goes on with work that does. -/
def Speaks (attention : Attention) (old : List Bracket) (x : Machine.Stepped) : Prop :=
  ∀ m, m.setting.attention = attention →
    ∃ w, (x m).2.notices.reverse = m.notices.reverse ++ w ∧ (∀ p, .failed p ∉ w) ∧
      (x m).2.setting = m.setting ∧ (x m).1.Leaves attention old w

namespace Speaks

variable {attention : Attention} {α : Type} {x : Machine.Stepped}

lemma error (old : List Bracket) (p : Problem) : Speaks attention old (pure (.error p)) :=
  fun _ _ => ⟨[], (List.append_nil _).symm, fun _ => List.not_mem_nil, rfl, trivial⟩

lemma action {next : Action} (h : next.Shut) :
    Speaks attention (next.work.brackets attention) (pure (.action next)) :=
  fun _ _ => ⟨[], (List.append_nil _).symm, fun _ => List.not_mem_nil, rfl, takes_nil _, h⟩

lemma of_silent (h : Silent x Step.Quiet) : Speaks attention [] x := by
  intro m _
  obtain ⟨hstep, hnotices, hsetting⟩ := h m
  refine ⟨[], by rw [hnotices, List.append_nil], fun _ => List.not_mem_nil, hsetting, ?_⟩
  cases hr : (x m).1 with
  | error p => trivial
  | value a => exact takes_nil []
  | action next =>
    rw [hr] at hstep
    have hneutral : next.Neutral := Action.Quiet.neutral hstep
    exact ⟨hneutral.brackets attention ▸ takes_nil [], hneutral.shut⟩

lemma after {y : RunM α} {P : α → Prop} {f : α → Machine.Stepped} (hy : Silent y P)
    (hf : ∀ a, P a → Speaks attention old (f a)) : Speaks attention old (y >>= f) := by
  intro m hm
  obtain ⟨hP, hnotices, hsetting⟩ := hy m
  obtain ⟨w, hw, hfailed, hkeeps, hstep⟩ := hf _ hP (y m).2 (hsetting ▸ hm)
  exact ⟨w, hnotices ▸ hw, hfailed, hkeeps.trans hsetting, hstep⟩

end Speaks

/-- A computation that tells of a bracket if anybody hears of it. -/
def TellsOf (attention : Attention) (b : Bracket) (P : Notice → Prop) (x : RunM PUnit) : Prop :=
  ∀ m, m.setting.attention = attention → (x m).2.setting = m.setting ∧
    (b.heard attention = [] ∧ (x m).2.notices = m.notices ∨
      b.heard attention = [b] ∧ ∃ n, P n ∧ (x m).2.notices = n :: m.notices)

lemma tellsOf_function (attention : Attention) (callable : Callable) {f : Memory → Notice}
    {P : Notice → Prop} (hf : ∀ m, P (f m)) :
    TellsOf attention (.function callable) P (RunM.tell f) := by
  rintro m rfl
  by_cases h : m.setting.attention = .nothing
  · have hx : RunM.tell f m = ((), m) := if_pos h
    exact ⟨by rw [hx], .inl ⟨if_pos h, by rw [hx]⟩⟩
  · have hx : RunM.tell f m = ((), { m with notices := f m.store.memory :: m.notices }) := if_neg h
    exact ⟨by rw [hx], .inr ⟨if_neg h, _, hf _, by rw [hx]⟩⟩

lemma tellsOf_opcode (attention : Attention) (i : Invocation) {f : Memory → Notice}
    {P : Notice → Prop} (hf : ∀ m, P (f m)) :
    TellsOf attention i.bracket P (RunM.tellOpcode f) := by
  rintro m rfl
  by_cases h : m.setting.attention = .opcodes
  · have hx : RunM.tellOpcode f m = ((), { m with notices := f m.store.memory :: m.notices }) :=
      if_pos h
    exact ⟨by rw [hx], .inr ⟨if_pos h, _, hf _, by rw [hx]⟩⟩
  · have hx : RunM.tellOpcode f m = ((), m) := if_neg h
    exact ⟨by rw [hx], .inl ⟨if_neg h, by rw [hx]⟩⟩

lemma tellsOf_started (attention : Attention) (f : Callable) :
    TellsOf attention (.function f) (fun n => n.opens? = some (.function f))
      (RunM.tell fun _ => .started f) :=
  tellsOf_function attention f fun _ => rfl

lemma tellsOf_returned (attention : Attention) (f : Callable) (kind : Memory → Option String) :
    TellsOf attention (.function f) (fun n => n.closes? = some (.function f))
      (RunM.tell fun m => .returned f (kind m)) :=
  tellsOf_function attention f fun _ => rfl

lemma tellsOf_opcodeStarted (attention : Attention) (i : Invocation) :
    TellsOf attention i.bracket (fun n => n.opens? = some i.bracket)
      (RunM.tellOpcode fun _ => .opcodeStarted i.function i.index i.cell) :=
  tellsOf_opcode attention i fun _ => rfl

lemma tellsOf_resolved (attention : Attention) (i : Invocation) :
    TellsOf attention i.bracket (fun n => n.closes? = some i.bracket) i.resolved :=
  tellsOf_opcode attention i fun _ => rfl

lemma not_failed_of_opens {p : Problem} (h : n.opens? = some b) : .failed p ∉ [n] := by
  rw [List.mem_singleton]
  rintro rfl
  cases h

lemma not_failed_of_closes {p : Problem} (h : n.closes? = some b) : .failed p ∉ [n] := by
  rw [List.mem_singleton]
  rintro rfl
  cases h

namespace TellsOf

variable {attention : Attention} {x : RunM PUnit}

lemma starts (h : TellsOf attention b (fun n => n.opens? = some b) x) {m : Machine}
    (hm : m.setting.attention = attention) : ∃ w, (x m).2.notices.reverse = m.notices.reverse ++ w ∧
      (∀ p, .failed p ∉ w) ∧ Takes [] (b.heard attention) w := by
  obtain ⟨-, ⟨hb, hx⟩ | ⟨hb, n, hn, hx⟩⟩ := h m hm
  · exact ⟨[], by rw [hx, List.append_nil], fun _ => List.not_mem_nil, hb ▸ takes_nil []⟩
  · exact ⟨[n], by rw [hx, List.reverse_cons], fun _ => not_failed_of_opens hn, hb ▸ takes_start hn⟩

lemma stops (h : TellsOf attention b (fun n => n.closes? = some b) x) {m : Machine}
    (hm : m.setting.attention = attention) : ∃ w, (x m).2.notices.reverse = m.notices.reverse ++ w ∧
      (∀ p, .failed p ∉ w) ∧ Takes (b.heard attention) [] w := by
  obtain ⟨-, ⟨hb, hx⟩ | ⟨hb, n, hn, hx⟩⟩ := h m hm
  · exact ⟨[], by rw [hx, List.append_nil], fun _ => List.not_mem_nil, hb ▸ takes_nil []⟩
  · exact ⟨[n], by rw [hx, List.reverse_cons], fun _ => not_failed_of_closes hn, hb ▸ takes_stop hn⟩

lemma speaks (h : TellsOf attention b (fun n => n.opens? = some b) x) {y : PUnit → Machine.Stepped}
    (hy : Speaks attention (b.heard attention) (y ⟨⟩)) : Speaks attention [] (x >>= y) := by
  intro m hm
  obtain ⟨w, hw, hfailed, htakes⟩ := h.starts hm
  have hsetting := (h m hm).1
  obtain ⟨w', hw', hfailed', hsetting', hstep⟩ := hy (x m).2 (hsetting ▸ hm)
  refine ⟨w ++ w', ?_, fun p hp => ?_, hsetting'.trans hsetting, ?_⟩
  · rw [← List.append_assoc, ← hw]
    exact hw'
  · exact (List.mem_append.mp hp).elim (hfailed p) (hfailed' p)
  · show Step.Leaves attention [] (w ++ w') (y ⟨⟩ (x m).2).1
    cases hr : (y ⟨⟩ (x m).2).1 with
    | error p => trivial
    | value a =>
      rw [hr] at hstep
      exact htakes.trans hstep
    | action next =>
      rw [hr] at hstep
      exact ⟨htakes.trans hstep.1, hstep.2⟩

lemma value (h : TellsOf attention b (fun n => n.closes? = some b) x) (a : Address) :
    Speaks attention (b.heard attention) (x >>= fun _ => pure (.value a)) := by
  intro m hm
  obtain ⟨w, hw, hfailed, htakes⟩ := h.stops hm
  exact ⟨w, hw, hfailed, (h m hm).1, htakes⟩

end TellsOf

namespace Machine

variable {attention : Attention}

lemma speaks_callCompiled (compiled : CompiledCall) (argument target : Address) :
    Speaks attention [] (callCompiled compiled argument target) := by
  refine .after (silent_construct compiled argument) fun o ho => ?_
  cases o with
  | error p => exact .error _ _
  | ok action =>
    have hquiet : action.Quiet := ho
    exact (tellsOf_started attention compiled.callable).speaks
      (.action (hquiet.neutral.shut_andThen (w := .leave target compiled.callable) rfl))

lemma speaks_call (function argument target : Address) :
    Speaks attention [] (call function argument target) := by
  rw [call_eq]
  refine .after Silent.memory fun memory _ => .after (silent_compilation function) fun c _ => ?_
  cases c with
  | error problems => exact .error _ _
  | ok compiled => exact speaks_callCompiled compiled argument target

lemma speaks_leave (target : Address) (function : Callable) (produced : Address) :
    Speaks attention ((Bracket.function function).heard attention)
      (leave target function produced) := by
  refine .after (silent_settle target produced) fun step hstep => ?_
  cases step with
  | value a => exact (tellsOf_returned attention function _).value a
  | error p => exact .error _ p
  | action next => exact absurd rfl (hstep next)

lemma speaks_conclude (i : Invocation) (produced : Address) :
    Speaks attention (i.bracket.heard attention) (conclude i produced) := by
  refine .after (silent_settle i.target produced) fun step hstep => ?_
  cases step with
  | value a => exact (tellsOf_resolved attention i).value a
  | error p => exact .error _ p
  | action next => exact absurd rfl (hstep next)

lemma speaks_confer (i : Invocation) (frame : Frame) (v : Value) :
    Speaks attention (i.bracket.heard attention) (confer i frame v) := by
  refine .after (Silent.checking _ _) fun found _ => ?_
  cases firstOf found with
  | some p => exact .error _ _
  | none => exact .after (Silent.store _) fun _ _ => (tellsOf_resolved attention i).value _

lemma speaks_proceed (i : Invocation) (frame : Frame) (r : Result) :
    Speaks attention (i.bracket.heard attention) (proceed i frame r) := by
  cases r with
  | value v => exact proceed_value_eq i frame v ▸ speaks_confer i frame v
  | error p => exact .error _ _
  | lazy a => exact .action ((Action.quiet_evaluate a .shallow).neutral.shut_andThen rfl)
  | reduce r =>
    refine .after Silent.get fun m _ => ?_
    dsimp only
    split
    · exact .error _ _
    · exact .action (((Action.quiet_evaluate _ .shallow).andThen rfl).neutral.shut_andThen rfl)

lemma speaks_apply (i : Invocation) (frame : Frame) :
    Speaks attention (i.bracket.heard attention) (apply i frame) := by
  refine .after (Silent.checking _ _) fun found _ => ?_
  cases firstOf found with
  | some p => exact .error _ _
  | none => exact .after (Silent.store _) fun r _ => speaks_proceed i frame r

lemma speaks_invoke (i : Invocation) : Speaks attention [] (invoke i) := by
  rw [invoke_eq]
  refine .after Silent.get fun m _ => ?_
  cases i.unready m.store.memory with
  | some position => exact .error _ _
  | none => exact (tellsOf_opcodeStarted attention i).speaks (speaks_apply i _)

lemma speaks_withResult (results : List Address) {f : Address → Stepped}
    (hf : ∀ a, Speaks attention old (f a)) : Speaks attention old (withResult results f) := by
  unfold withResult
  split
  · exact hf _
  · exact .error _ _

/-- **The machine's own work** closes its brackets, or goes on with work that closes as many. -/
lemma speaks_perform {work : Work Action} (hw : work.isCustom = false) (results : List Address) :
    Speaks attention (work.brackets attention) (perform work results) := by
  cases work with
  | value a => exact .of_silent (.pure trivial)
  | evaluate a depth => exact .of_silent (silent_force a depth)
  | settle target =>
    exact speaks_withResult results fun a => .of_silent (silent_settled target a)
  | deepen => exact speaks_withResult results fun a => .of_silent (silent_force a .deep)
  | call argument target => exact speaks_withResult results fun f => speaks_call f argument target
  | leave target function =>
    exact speaks_withResult results fun a => speaks_leave target function a
  | invoke i => exact speaks_invoke i
  | conclude i => exact speaks_withResult results fun a => speaks_conclude i a
  | reduce c initial =>
    exact speaks_withResult results fun a => .of_silent (silent_reduceElements c initial a)
  | combine c rest => exact speaks_withResult results fun a => .of_silent (silent_sequential c a rest)
  | combineLevel c carry => exact .of_silent (silent_pairwise c _)
  | custom run => cases hw

lemma speaks_conclusion {j : Job} (hj : j.work.isCustom = false) :
    Speaks attention (j.work.brackets attention) (conclusion j) := by
  unfold conclusion
  split
  · exact .error _ _
  · split
    · exact .error _ _
    · exact speaks_perform hj _

lemma conclusion_of_errors {j : Job} (h : j.errors ≠ []) (m : Machine) :
    ∃ p, (conclusion j m).1 = .error p := by
  unfold conclusion
  cases hfirst : firstOf j.errors.reverse with
  | some p => exact ⟨p, rfl⟩
  | none => exact absurd (List.reverse_eq_nil_iff.mp (firstOf_eq_none hfirst)) h

/-! ### Turns -/

/-- The brackets that the jobs of a stack close, the topmost first. -/
def openBrackets (attention : Attention) (stack : List Job) : List Bracket :=
  stack.flatMap fun j => j.work.brackets attention

/-- A job of the machine's own work that waits for nothing that closes brackets. -/
structure Shut (j : Job) : Prop where
  own : j.work.isCustom = false
  waiting : ∀ d ∈ j.waiting, d.Neutral

/-- What was told after `u`: no failure, and if none of the jobs on the stack was told of one, what
leaves open the brackets that they close. -/
structure Heard (attention : Attention) (u : List Notice) (stack : List Job) (m : Machine) : Prop where
  attends : m.setting.attention = attention
  jobs : ∀ j ∈ stack, Shut j
  notices : ∃ w, m.notices.reverse = u ++ w ∧ (∀ p, .failed p ∉ w) ∧
    ((∀ j ∈ stack, j.errors = []) → LeftOpen (openBrackets attention stack) w)

/-- What was told after `u` by the end of a run: no failure, and if the run succeeded, a balanced word. -/
structure HeardOut (attention : Attention) (u : List Notice) (o : Outcome Address) (m : Machine) :
    Prop where
  attends : m.setting.attention = attention
  notices : ∃ w, m.notices.reverse = u ++ w ∧ (∀ p, .failed p ∉ w) ∧ ∀ a, o = .ok a → Balanced w

/-- What was told by the end of a turn. -/
def TurnHeard (attention : Attention) (u : List Notice) (m : Machine) : Turn → Prop
  | .running stack => Heard attention u stack m
  | .finished o => HeardOut attention u o m

variable {u : List Notice} {stack below : List Job} {j : Job} {m m' : Machine} {t : Turn}

lemma shut_ofAction {a : Action} (h : a.Shut) : Shut (Job.ofAction a) := ⟨h.own, h.dependencies⟩

lemma Heard.congr (h : Heard attention u stack m) (hnotices : m'.notices = m.notices)
    (hsetting : m'.setting = m.setting) : Heard attention u stack m' :=
  ⟨hsetting ▸ h.attends, h.jobs, hnotices ▸ h.notices⟩

lemma Heard.pushed (h : Heard attention u (j :: below) m) {next : Action} {waiting : List Action}
    (hw : j.waiting = next :: waiting) :
    Heard attention u (Job.ofAction next :: { j with waiting } :: below) m := by
  obtain ⟨hj, hbelow⟩ := List.forall_mem_cons.mp h.jobs
  have hneutral := hj.waiting next (hw ▸ List.mem_cons_self)
  obtain ⟨w, hnotices, hfailed, hopen⟩ := h.notices
  refine ⟨h.attends, List.forall_mem_cons.mpr ⟨shut_ofAction hneutral.shut,
    List.forall_mem_cons.mpr ⟨⟨hj.own, fun d hd => hj.waiting d ?_⟩, hbelow⟩⟩,
    w, hnotices, hfailed, fun herrors => ?_⟩
  · rw [hw]
    exact List.mem_cons_of_mem _ hd
  · -- the action that was put on the stack closes nothing, so the open brackets are the same
    have hsame : openBrackets attention (Job.ofAction next :: { j with waiting } :: below) =
        openBrackets attention (j :: below) := by
      show next.work.brackets attention ++ _ = _
      rw [hneutral.brackets attention]
      rfl
    rw [hsame]
    obtain ⟨-, herrors⟩ := List.forall_mem_cons.mp herrors
    obtain ⟨hj, hbelow⟩ := List.forall_mem_cons.mp herrors
    exact hopen (List.forall_mem_cons.mpr ⟨hj, hbelow⟩)

lemma Heard.concluded (h : Heard attention u (j :: below) m) :
    TurnHeard attention u (conclusion j m).2 (handOver (conclusion j m).1 below) := by
  obtain ⟨hj, hbelow⟩ := List.forall_mem_cons.mp h.jobs
  obtain ⟨w, hnotices, hfailed, hopen⟩ := h.notices
  have hspeaks : Speaks attention (j.work.brackets attention) (conclusion j) :=
    speaks_conclusion hj.own
  obtain ⟨w', hnotices', hfailed', hsetting, hstep⟩ := hspeaks m h.attends
  have hwhole : (conclusion j m).2.notices.reverse = u ++ (w ++ w') := by
    rw [hnotices', hnotices, List.append_assoc]
  have hnone : ∀ p, .failed p ∉ w ++ w' := fun p hp =>
    (List.mem_append.mp hp).elim (hfailed p) (hfailed' p)
  have hattention : (conclusion j m).2.setting.attention = attention := hsetting ▸ h.attends
  -- unless the job fails, it was told of no failure, and takes its brackets to others
  have htaken : ∀ {new : List Bracket}, (∀ p, (conclusion j m).1 ≠ .error p) →
      Takes (j.work.brackets attention) new w' → (∀ i ∈ below, i.errors = []) →
        LeftOpen (new ++ openBrackets attention below) (w ++ w') := by
    intro new hne htakes herrors
    have hclean : j.errors = [] := by
      by_contra hsome
      obtain ⟨p, hp⟩ := conclusion_of_errors hsome m
      exact hne p hp
    exact htakes _ w (hopen (List.forall_mem_cons.mpr ⟨hclean, herrors⟩))
  cases hr : (conclusion j m).1 with
  | error p =>
    cases below with
    | nil => exact ⟨hattention, _, hwhole, hnone, fun _ ho => by cases ho⟩
    | cons parent below =>
      obtain ⟨hparent, hbelow⟩ := List.forall_mem_cons.mp hbelow
      refine ⟨hattention, List.forall_mem_cons.mpr ⟨⟨hparent.own, hparent.waiting⟩, hbelow⟩,
        _, hwhole, hnone, fun herrors => ?_⟩
      cases (List.forall_mem_cons.mp herrors).1
  | value a =>
    rw [hr] at hstep
    have hvalue := @htaken [] (fun p hp => by cases hr.symm.trans hp) hstep
    cases below with
    | nil => exact ⟨hattention, _, hwhole, hnone, fun _ _ => hvalue (List.forall_mem_nil _)⟩
    | cons parent below =>
      obtain ⟨hparent, hbelow⟩ := List.forall_mem_cons.mp hbelow
      refine ⟨hattention, List.forall_mem_cons.mpr ⟨⟨hparent.own, hparent.waiting⟩, hbelow⟩,
        _, hwhole, hnone, fun herrors => ?_⟩
      obtain ⟨hclean, herrors⟩ := List.forall_mem_cons.mp herrors
      exact hvalue (List.forall_mem_cons.mpr ⟨hclean, herrors⟩)
  | action next =>
    rw [hr] at hstep
    obtain ⟨htakes, hshut⟩ := hstep
    refine ⟨hattention, List.forall_mem_cons.mpr ⟨shut_ofAction hshut, hbelow⟩, _, hwhole, hnone,
      fun herrors => ?_⟩
    exact htaken (fun p hp => by cases hr.symm.trans hp) htakes (List.forall_mem_cons.mp herrors).2

lemma Heard.advance (h : Heard attention u stack m) :
    TurnHeard attention u (advance stack m).2 (advance stack m).1 := by
  match stack, h with
  | [], h =>
    obtain ⟨w, hnotices, hfailed, -⟩ := h.notices
    exact ⟨h.attends, w, hnotices, hfailed, nofun⟩
  | j :: below, h =>
    cases hw : j.waiting with
    | cons next waiting =>
      have heq : Machine.advance (j :: below) m =
          (.running (Job.ofAction next :: { j with waiting } :: below), m) := by
        rw [Machine.advance, hw]
        rfl
      rw [heq]
      exact h.pushed hw
    | nil =>
      have heq : Machine.advance (j :: below) m =
          (handOver (conclusion j m).1 below, (conclusion j m).2) := by
        rw [Machine.advance, hw]
        rfl
      rw [heq]
      exact h.concluded

/-- **A turn** keeps the open brackets those that the jobs on the stack close. -/
lemma Heard.turn (h : Heard attention u stack m) (ht : turn stack m = (t, m')) :
    TurnHeard attention u m' t := by
  obtain ⟨w, hnotices, hfailed, -⟩ := h.notices
  unfold Machine.turn at ht
  split at ht
  · cases ht
    exact ⟨h.attends, w, hnotices, hfailed, nofun⟩
  · dsimp only at ht
    split at ht
    · cases ht
      exact ⟨h.attends, w, hnotices, hfailed, nofun⟩
    · have hticked : Heard attention u stack { m with steps := m.steps + 1 } := h.congr rfl rfl
      have hadvanced := hticked.advance
      rw [ht] at hadvanced
      exact hadvanced

/-- **By the end of an execution** no failure was told, and if it succeeded, every bracket was closed by
what it was opened for, the latest first. -/
lemma Heard.takeTurnsAmid {outside : Nat → List String} {fuel : Nat} {o : Outcome Address}
    (h : Heard attention u stack m)
    (ht : takeTurnsAmid outside fuel stack m = (some o, m')) : HeardOut attention u o m' := by
  induction fuel generalizing stack m with
  | zero => cases ht
  | succ fuel ih =>
    rw [Machine.takeTurnsAmid] at ht
    have hdisturbed : Heard attention u stack (m.disturbed outside) := h.congr rfl rfl
    rcases hturn : Machine.turn stack (m.disturbed outside) with ⟨t, m₁⟩
    have hheard := hdisturbed.turn hturn
    rw [hturn] at ht
    cases t with
    | finished o' =>
      cases ht
      exact hheard
    | running stack₁ => exact ih hheard ht

end Machine

end CellMachine
