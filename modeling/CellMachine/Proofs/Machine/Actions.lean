import CellMachine.Proofs.Machine.Parts

/-!
Which actions there are. Work that takes the result of a dependency stands in an action that has one,
and whatever the machine goes on with is again of this kind; only host work can change the setting. Most
work tells nothing either, and goes on with actions that end no call and no invocation.
-/

namespace CellMachine

/-! ### Trees of actions -/

/-- Work that takes the result of a dependency. -/
def Work.takesResult {α : Type} : Work α → Bool
  | settle _ | deepen | call .. | leave .. | conclude _ | reduce .. | combine .. => true
  | value _ | evaluate .. | invoke _ | combineLevel .. | custom _ => false

/-- Work that a host wants done. -/
def Work.isCustom {α : Type} : Work α → Bool
  | custom _ => true
  | _ => false

/-- The machine's own work that closes nothing. -/
def Work.isNeutral {α : Type} : Work α → Bool
  | leave .. | conclude _ | custom _ => false
  | _ => true

lemma Work.isCustom_of_isNeutral {α : Type} {w : Work α} (h : w.isNeutral = true) :
    w.isCustom = false := by
  cases w <;> first | rfl | cases h

namespace Action

/-- A property of dependencies and work that holds at every action of a tree, and of the trees that
its host work goes on with. -/
inductive Every (P : List Action → Work Action → Prop) : Action → Prop
  | mk {ds : List Action} {w : Work Action} (h : P ds w) (hds : ∀ d ∈ ds, Every P d)
    (hnext : ∀ run, w = .custom run → ∀ results m a, (run results m).1 = .action a → Every P a) :
    Every P (.mk ds w)

/-- Work that takes a result has a dependency to take it from. -/
def Fed : Action → Prop := Every fun ds w => w.takesResult = true → ds ≠ []

/-- Work that takes a result has a dependency to take it from, and no work is a host's. -/
def Plain : Action → Prop :=
  Every fun ds w => w.isCustom = false ∧ (w.takesResult = true → ds ≠ [])

/-- No work in an action closes anything. -/
def Neutral : Action → Prop := Every fun _ w => w.isNeutral = true

/-- What the machine goes on with unless it ends something afterwards. -/
structure Quiet (a : Action) : Prop where
  plain : a.Plain
  neutral : a.Neutral

lemma Every.mono {P Q : List Action → Work Action → Prop} (hPQ : ∀ ds w, P ds w → Q ds w)
    {a : Action} (h : a.Every P) : a.Every Q := by
  induction h with
  | mk h _ _ ihds ihnext => exact .mk (hPQ _ _ h) ihds ihnext

lemma Plain.fed {a : Action} (h : a.Plain) : a.Fed := h.mono fun _ _ h => h.2

lemma Every.dependencies {P : List Action → Work Action → Prop} {a : Action} (h : a.Every P) :
    ∀ d ∈ a.dependencies, d.Every P := by
  cases h with
  | mk _ hds _ => exact hds

lemma Every.here {P : List Action → Work Action → Prop} {a : Action} (h : a.Every P) :
    P a.dependencies a.work := by
  cases h with
  | mk h _ _ => exact h

lemma Every.next {P : List Action → Work Action → Prop} {a : Action} (h : a.Every P)
    {run : List Address → Machine → Step Action × Machine} (hrun : a.work = .custom run)
    {results : List Address} {m : Machine} {b : Action} (hb : (run results m).1 = .action b) :
    b.Every P := by
  cases h with
  | mk _ _ hnext => exact hnext run hrun results m b hb

/-- An action of the machine's own work is plain when its dependencies are. -/
lemma plain_mk {ds : List Action} {w : Work Action} (hds : ∀ d ∈ ds, Plain d)
    (hw : w.isCustom = false) (hfed : w.takesResult = true → ds ≠ []) : Plain (.mk ds w) := by
  refine .mk ⟨hw, hfed⟩ hds ?_
  rintro run rfl
  cases hw

lemma neutral_mk {ds : List Action} {w : Work Action} (hds : ∀ d ∈ ds, Neutral d)
    (hw : w.isNeutral = true) : Neutral (.mk ds w) := by
  refine .mk hw hds ?_
  rintro run rfl
  cases hw

lemma quiet_mk {ds : List Action} {w : Work Action} (hds : ∀ d ∈ ds, Quiet d)
    (hw : w.isNeutral = true) (hfed : w.takesResult = true → ds ≠ []) : Quiet (.mk ds w) where
  plain := plain_mk (fun d hd => (hds d hd).plain) (Work.isCustom_of_isNeutral hw) hfed
  neutral := neutral_mk (fun d hd => (hds d hd).neutral) hw

lemma quiet_value (a : Address) : Quiet (value a) := quiet_mk nofun rfl nofun

lemma quiet_evaluate (a : Address) (depth : Depth) : Quiet (evaluate a depth) :=
  quiet_mk nofun rfl nofun

lemma plain_value (a : Address) : Plain (value a) := (quiet_value a).plain

lemma plain_evaluate (a : Address) (depth : Depth) : Plain (evaluate a depth) :=
  (quiet_evaluate a depth).plain

lemma Plain.andThen {a : Action} (h : a.Plain) {w : Work Action} (hw : w.isCustom = false) :
    Plain (a.andThen w) :=
  plain_mk (fun _ hd => List.mem_singleton.mp hd ▸ h) hw fun _ => List.cons_ne_nil _ _

lemma Quiet.andThen {a : Action} (h : a.Quiet) {w : Work Action} (hw : w.isNeutral = true) :
    Quiet (a.andThen w) where
  plain := h.plain.andThen (Work.isCustom_of_isNeutral hw)
  neutral := neutral_mk (fun _ hd => List.mem_singleton.mp hd ▸ h.neutral) hw

lemma quiet_invocation (i : Invocation) : i.action.Quiet := by
  refine quiet_mk (fun d hd => ?_) rfl nofun
  obtain ⟨e, -, he⟩ := List.mem_filterMap.mp hd
  split at he <;> cases he <;> exact quiet_evaluate ..

end Action

/-- What a step goes on with, if it goes on, is plain. -/
def Step.Plain : Step Action → Prop
  | .action a => a.Plain
  | _ => True

/-- What a step goes on with, if it goes on, is quiet. -/
def Step.Quiet : Step Action → Prop
  | .action a => a.Quiet
  | _ => True

/-- An action that was made, if it was made, is quiet. -/
def quietOutcome : Outcome Action → Prop
  | .ok a => a.Quiet
  | .error _ => True

lemma Step.Quiet.plain {step : Step Action} (h : step.Quiet) : step.Plain := by
  cases step with
  | action a => exact Action.Quiet.plain h
  | _ => trivial

/-! ### Computations that may fail -/

lemma Attempt.run_bind {α β : Type} (x : Attempt α) (f : α → Attempt β) (s : Store) :
    (x >>= f).run s = match x.run s with
      | (.ok a, s) => (f a).run s
      | (.error p, s) => (.error p, s) := by
  rw [ExceptT.run_bind]
  show StateT.run (x.run >>= _) s = _
  rw [StateT.run_bind]
  show StateT.run _ (StateT.run x.run s).2 = match StateT.run x.run s with
    | (.ok a, s) => (f a).run s
    | (.error p, s) => (.error p, s)
  rcases StateT.run x.run s with ⟨_ | _, _⟩ <;> rfl

/-- What a computation that may fail comes to, if it comes to something, has a property. -/
def Returns {α : Type} (x : Attempt α) (P : α → Prop) : Prop :=
  ∀ s a, (x.run s).1 = .ok a → P a

namespace Returns

variable {α β : Type} {P : α → Prop}

lemma pure {a : α} (h : P a) : Returns (Pure.pure a : Attempt α) P := by
  rintro s b hb
  cases hb
  exact h

lemma bind {x : Attempt β} {f : β → Attempt α} (hf : ∀ b, Returns (f b) P) :
    Returns (x >>= f) P := by
  intro s a ha
  rw [Attempt.run_bind] at ha
  rcases hx : x.run s with ⟨_ | b, s₁⟩
  · rw [hx] at ha
    cases ha
  · rw [hx] at ha
    exact hf b s₁ a ha

end Returns

/-! ### Computations that tell nothing -/

/-- A computation that tells nothing and keeps the setting, and whose result has a property. -/
def Silent {α : Type} (x : RunM α) (P : α → Prop) : Prop :=
  ∀ m, P (x m).1 ∧ (x m).2.notices = m.notices ∧ (x m).2.setting = m.setting

namespace Silent

variable {α β : Type} {x : RunM α} {P : α → Prop}

lemma pure {a : α} (h : P a) : Silent (Pure.pure a : RunM α) P := fun _ => ⟨h, rfl, rfl⟩

lemma bind {f : α → RunM β} {R : β → Prop} (hx : Silent x P) (hf : ∀ a, P a → Silent (f a) R) :
    Silent (x >>= f) R := by
  intro m
  obtain ⟨h₁, h₂, h₃⟩ := hx m
  obtain ⟨h₄, h₅, h₆⟩ := hf _ h₁ (x m).2
  exact ⟨h₄, h₅.trans h₂, h₆.trans h₃⟩

lemma any (h : ∀ m, (x m).2.notices = m.notices ∧ (x m).2.setting = m.setting) :
    Silent x fun _ => True := fun m => ⟨trivial, h m⟩

lemma store (x : StoreM α) : Silent (RunM.store x) fun _ => True := any fun _ => ⟨rfl, rfl⟩

lemma memory : Silent RunM.memory fun _ => True := any fun _ => ⟨rfl, rfl⟩

lemma setting : Silent RunM.setting fun _ => True := any fun _ => ⟨rfl, rfl⟩

lemma value? (a : Address) : Silent (RunM.value? a) fun _ => True := any fun _ => ⟨rfl, rfl⟩

lemma get : Silent (MonadState.get : RunM Machine) fun _ => True := any fun _ => ⟨rfl, rfl⟩

lemma checking (asked : Config → Bool) (x : StoreM (List Problem)) :
    Silent (RunM.checking asked x) fun _ => True := by
  refine any fun m => ?_
  unfold RunM.checking
  split <;> exact ⟨rfl, rfl⟩

lemma attempt {x : Attempt Action} (h : Returns x Action.Quiet) :
    Silent (RunM.attempt x) quietOutcome := by
  refine fun m => ⟨?_, rfl, rfl⟩
  have hx := h m.store
  show quietOutcome (x.run m.store).1
  cases hr : (x.run m.store).1 with
  | error p => trivial
  | ok a => exact hx a hr

end Silent

namespace Machine

lemma silent_compile (a : Address) : Silent (compile a) fun _ => True := Silent.any fun _ => ⟨rfl, rfl⟩

lemma silent_compileAt (index : Nat) : Silent (compileAt index) fun _ => True := by
  refine Silent.any fun m => ?_
  unfold compileAt
  split
  · exact ⟨rfl, rfl⟩
  · cases m.store.memory.address? index <;> exact ⟨rfl, rfl⟩

lemma silent_compilation (a : Address) : Silent (compilation a) fun _ => True := by
  cases a with
  | loose k => exact silent_compile _
  | «at» i =>
    intro m
    dsimp only [compilation, compileFunction]
    split
    · exact silent_compileAt i m
    · exact silent_compile (.at i) m

lemma silent_settle (target produced : Address) :
    Silent (settle target produced) fun step => ∀ next, step ≠ .action next := by
  refine (Silent.value? produced).bind fun v _ => ?_
  cases v with
  | some v => exact (Silent.store _).bind fun _ _ => .pure nofun
  | none => exact Silent.memory.bind fun _ _ => .pure nofun

lemma silent_settled (target produced : Address) : Silent (settle target produced) Step.Quiet := by
  intro m
  obtain ⟨hstep, hkeeps⟩ := silent_settle target produced m
  refine ⟨?_, hkeeps⟩
  cases hr : (settle target produced m).1 with
  | action next => exact absurd hr (hstep next)
  | _ => trivial

lemma silent_deepen (a : Address) (v : Value) : Silent (deepen a v) Step.Quiet := by
  refine Silent.memory.bind fun m _ => ?_
  split
  · exact .pure trivial
  · refine .pure (Action.quiet_mk (fun d hd => ?_) rfl nofun)
    obtain ⟨b, -, rfl⟩ := List.mem_map.mp hd
    exact Action.quiet_evaluate b .deep

lemma quiet_call (f x target : Address) :
    ((Action.evaluate f .shallow).andThen (.call x target)).Quiet :=
  (Action.quiet_evaluate f .shallow).andThen rfl

lemma silent_nodeAction (p : Pending) : Silent (nodeAction p) quietOutcome := by
  have hwork := cellWork_nodeAction p
  generalize nodeAction p = work at hwork
  cases hwork with
  | given => exact .pure (Action.quiet_value _)
  | structured | iterable => exact (Silent.store _).bind fun _ _ => .pure (Action.quiet_value _)
  | opcode => exact .pure (Action.quiet_invocation _)
  | call => exact .pure (quiet_call ..)
  | corrupt => exact .pure trivial

lemma silent_resolve (a : Address) : Silent (resolve a) quietOutcome := by
  intro m
  have hwork := slotWork_resolve m a
  generalize resolve a m = r at hwork
  cases hwork with
  | pending => exact silent_nodeAction _ m
  | deferred => exact ⟨quiet_call .., rfl, rfl⟩
  | unresolved q => exact ⟨trivial, rfl, rfl⟩

lemma silent_force (a : Address) (depth : Depth) : Silent (force a depth) Step.Quiet := by
  refine (Silent.value? a).bind fun v _ => ?_
  cases v with
  | some v =>
    cases depth with
    | shallow => exact .pure trivial
    | deep => exact silent_deepen a v
  | none =>
    refine (silent_resolve a).bind fun o ho => ?_
    cases o with
    | error p => exact .pure trivial
    | ok action =>
      have hsettled : (action.andThen (.settle a)).Quiet := Action.Quiet.andThen ho rfl
      cases depth with
      | shallow => exact .pure hsettled
      | deep => exact .pure (hsettled.andThen rfl)

lemma silent_accept (call : CompiledCall) (argument : Address) :
    Silent (accept call argument) fun _ => True := by
  refine Silent.any fun m => ?_
  unfold accept
  dsimp only
  split <;> exact ⟨rfl, rfl⟩

lemma silent_setUp (call : CompiledCall) (argument : Address) :
    Silent (setUp call argument) quietOutcome := by
  refine (Silent.store _).bind fun slots _ => ?_
  cases KeyMap.get? slots Callable.resultCell with
  | none => exact .pure trivial
  | some result =>
    have entered : Silent (modify fun m => { m with
        pending := enterSlots ⟨call, slots⟩ call.nodes m.pending } : RunM PUnit)
        fun _ => True := Silent.any fun _ => ⟨rfl, rfl⟩
    exact entered.bind fun _ _ => .pure (Action.quiet_evaluate ..)

lemma silent_construct (call : CompiledCall) (argument : Address) :
    Silent (construct call argument) quietOutcome := by
  rw [construct_eq]
  refine (silent_accept call argument).bind fun o _ => ?_
  cases o with
  | error p => exact .pure trivial
  | ok _ => exact silent_setUp call argument

lemma silent_combine (c : Combiner) (left right : Address) :
    Silent (combine c left right) quietOutcome := by
  cases c with
  | opcode op context type =>
    exact (Silent.store _).bind fun target _ => .pure (Action.quiet_invocation _)
  | function f first second context argumentType =>
    refine Silent.attempt ?_
    refine Returns.bind fun record => Returns.bind fun argument => Returns.bind fun deferred => ?_
    exact .pure (Action.quiet_evaluate deferred .shallow)

lemma silent_sequential (c : Combiner) (term : Address) (rest : List Address) :
    Silent (sequential c term rest) Step.Quiet := by
  cases rest with
  | nil => exact silent_force term .shallow
  | cons next rest =>
    refine (silent_combine c term next).bind fun o ho => ?_
    cases o with
    | error p => exact .pure trivial
    | ok action => exact .pure (Action.Quiet.andThen ho rfl)

/-- The actions that were made for pairs of terms are quiet. -/
def quietPairs : Outcome (List Action × Option Address) → Prop
  | .ok (actions, _) => ∀ a ∈ actions, a.Quiet
  | .error _ => True

lemma silent_pairUp (c : Combiner) : ∀ terms, Silent (pairUp c terms) quietPairs
  | [] => .pure nofun
  | [_] => .pure nofun
  | left :: right :: rest => by
    refine (silent_combine c left right).bind fun o ho => ?_
    cases o with
    | error p => exact .pure trivial
    | ok action =>
      refine (silent_pairUp c rest).bind fun o' ho' => ?_
      cases o' with
      | error p => exact .pure trivial
      | ok r => exact .pure (List.forall_mem_cons.mpr ⟨ho, ho'⟩)

lemma silent_pairwise (c : Combiner) (terms : List Address) :
    Silent (pairwise c terms) Step.Quiet := by
  unfold pairwise
  split
  · exact .pure trivial
  · exact silent_force _ .shallow
  · refine (silent_pairUp c terms).bind fun o ho => ?_
    cases o with
    | error p => exact .pure trivial
    | ok r => exact .pure (Action.quiet_mk ho rfl nofun)

lemma silent_reduceElements (c : Combiner) (initial iterable : Address) :
    Silent (reduceElements c initial iterable) Step.Quiet := by
  unfold reduceElements
  refine Silent.memory.bind fun m _ => ?_
  split
  · refine Silent.setting.bind fun s _ => ?_
    split
    · exact silent_sequential _ _ _
    · exact silent_pairwise _ _
  · exact .pure trivial

end Machine

/-! ### Computations that keep the setting -/

/-- A computation whose result has a property, and which leaves the setting as it is. -/
def Tame {α : Type} (x : RunM α) (P : α → Prop) : Prop :=
  ∀ m, P (x m).1 ∧ (x m).2.setting = m.setting

namespace Tame

variable {α β : Type} {x : RunM α} {P : α → Prop}

lemma pure {a : α} (h : P a) : Tame (Pure.pure a : RunM α) P := fun _ => ⟨h, rfl⟩

lemma bind {f : α → RunM β} {R : β → Prop} (hx : Tame x P) (hf : ∀ a, P a → Tame (f a) R) :
    Tame (x >>= f) R := by
  intro m
  obtain ⟨h₁, h₂⟩ := hx m
  obtain ⟨h₃, h₄⟩ := hf _ h₁ (x m).2
  exact ⟨h₃, h₄.trans h₂⟩

lemma after {f : α → RunM β} {R : β → Prop} (hx : Silent x P) (hf : ∀ a, P a → Tame (f a) R) :
    Tame (x >>= f) R :=
  bind (fun m => ⟨(hx m).1, (hx m).2.2⟩) hf

lemma of_silent {x : Machine.Stepped} (h : Silent x Step.Quiet) : Tame x Step.Plain :=
  fun m => ⟨(h m).1.plain, (h m).2.2⟩

lemma tell (f : Memory → Notice) : Tame (RunM.tell f) fun _ => True := by
  refine fun m => ⟨trivial, ?_⟩
  unfold RunM.tell
  split <;> rfl

lemma tellOpcode (f : Memory → Notice) : Tame (RunM.tellOpcode f) fun _ => True := by
  refine fun m => ⟨trivial, ?_⟩
  unfold RunM.tellOpcode
  split <;> rfl

end Tame

namespace Machine

lemma tame_callCompiled (compiled : CompiledCall) (argument target : Address) :
    Tame (callCompiled compiled argument target) Step.Plain := by
  refine .after (silent_construct compiled argument) fun o ho => ?_
  cases o with
  | error p => exact .pure trivial
  | ok action =>
    have hquiet : action.Quiet := ho
    exact (Tame.tell _).bind fun _ _ => .pure (hquiet.plain.andThen rfl)

lemma tame_call (function argument target : Address) :
    Tame (call function argument target) Step.Plain := by
  rw [call_eq]
  refine .after Silent.memory fun memory _ => .after (silent_compilation function) fun c _ => ?_
  cases c with
  | error problems => exact .pure trivial
  | ok compiled => exact tame_callCompiled compiled argument target

lemma tame_leave (target : Address) (function : Callable) (produced : Address) :
    Tame (leave target function produced) Step.Plain := by
  refine .after (silent_settle target produced) fun step hstep => ?_
  cases step with
  | value a => exact (Tame.tell _).bind fun _ _ => .pure trivial
  | error p => exact .pure trivial
  | action a => exact absurd rfl (hstep a)

lemma tame_conclude (i : Invocation) (produced : Address) :
    Tame (conclude i produced) Step.Plain := by
  refine .after (silent_settle i.target produced) fun step hstep => ?_
  cases step with
  | value a => exact (Tame.tellOpcode _).bind fun _ _ => .pure trivial
  | error p => exact .pure trivial
  | action a => exact absurd rfl (hstep a)

lemma tame_confer (i : Invocation) (frame : Frame) (v : Value) :
    Tame (confer i frame v) Step.Plain := by
  refine .after (Silent.checking _ _) fun found _ => ?_
  cases firstOf found with
  | some p => exact .pure trivial
  | none => exact .after (Silent.store _) fun _ _ => (Tame.tellOpcode _).bind fun _ _ => .pure trivial

lemma tame_proceed (i : Invocation) (frame : Frame) (r : Result) :
    Tame (proceed i frame r) Step.Plain := by
  cases r with
  | value v => exact proceed_value_eq i frame v ▸ tame_confer i frame v
  | error p => exact .pure trivial
  | lazy a => exact .pure ((Action.plain_evaluate a .shallow).andThen rfl)
  | reduce r =>
    refine .after Silent.get fun m _ => ?_
    dsimp only
    split
    · exact .pure trivial
    · exact .pure (((Action.plain_evaluate _ .shallow).andThen rfl).andThen rfl)

lemma tame_apply (i : Invocation) (frame : Frame) : Tame (apply i frame) Step.Plain := by
  refine .after (Silent.checking _ _) fun found _ => ?_
  cases firstOf found with
  | some p => exact .pure trivial
  | none => exact .after (Silent.store _) fun r _ => tame_proceed i frame r

lemma tame_invoke (i : Invocation) : Tame (invoke i) Step.Plain := by
  rw [invoke_eq]
  refine .after Silent.get fun m _ => ?_
  cases i.unready m.store.memory with
  | some position => exact .pure trivial
  | none => exact (Tame.tellOpcode _).bind fun _ _ => tame_apply i _

lemma tame_withResult (results : List Address) {f : Address → Stepped}
    (hf : ∀ a, Tame (f a) Step.Plain) : Tame (withResult results f) Step.Plain := by
  unfold withResult
  split
  · exact hf _
  · exact .pure trivial

/-- **What the machine's own work goes on with is plain**, and it leaves the setting as it is. -/
lemma tame_perform {work : Work Action} (hw : work.isCustom = false) (results : List Address) :
    Tame (perform work results) Step.Plain := by
  cases work with
  | value a => exact .pure trivial
  | evaluate a depth => exact .of_silent (silent_force a depth)
  | settle target => exact tame_withResult results fun a => .of_silent (silent_settled target a)
  | deepen => exact tame_withResult results fun a => .of_silent (silent_force a .deep)
  | call argument target => exact tame_withResult results fun f => tame_call f argument target
  | leave target function =>
    exact tame_withResult results fun a => tame_leave target function a
  | invoke i => exact tame_invoke i
  | conclude i => exact tame_withResult results fun a => tame_conclude i a
  | reduce c initial =>
    exact tame_withResult results fun a => .of_silent (silent_reduceElements c initial a)
  | combine c rest => exact tame_withResult results fun a => .of_silent (silent_sequential c a rest)
  | combineLevel c carry => exact .of_silent (silent_pairwise c _)
  | custom run => cases hw

end Machine

end CellMachine
