import CellMachine.Proofs.Machine.Budget
import CellMachine.Proofs.Safety.Runs
import CellMachine.Proofs.Tandem.Start
import CellMachine.Proofs.Twins.Steps

/-!
Turns and runs of twins. Their stacks hold the same work, with failures at the same jobs; so both come
to an end in the same turn, with the same value or with a failure on both sides.
-/

namespace CellMachine

namespace Tandem

open Machine

variable {T : Tandem} {config : Config} {m n : Machine}

/-! ### Jobs -/

/-- Jobs that are to do the same. Their failures may differ, if both have some. -/
structure EqualJob (T : Tandem) (j k : Job) : Prop where
  waiting : k.waiting = j.waiting
  expected : k.expected = j.expected
  results : k.results = j.results
  work : k.work = j.work
  errors : j.errors = [] ↔ k.errors = []
  dependencies : ∀ x ∈ j.waiting, T.ProperAction x
  proper : T.ProperWork j.work

lemma EqualJob.ofAction {x : Action} (hx : T.ProperAction x) :
    T.EqualJob (Job.ofAction x) (Job.ofAction x) :=
  ⟨rfl, rfl, rfl, rfl, Iff.rfl, hx.dependencies, hx.here⟩

/-- Two turns that leave the same stack, but for failures, or end alike. -/
inductive EqualTurn (T : Tandem) : Turn → Turn → Prop
  | running {stack stack' : List Job} (h : List.Forall₂ T.EqualJob stack stack') :
    EqualTurn T (.running stack) (.running stack')
  | finished {o o' : Outcome Address} (h : Accord (fun _ => True) o o') :
    EqualTurn T (.finished o) (.finished o')

section Jobs

variable (hT : T.Sound) (h : T.Twin config m n) {j k : Job} {stack stack' : List Job}

include hT h in
lemma along_conclusion (hj : T.EqualJob j k) :
    T.Alongside config m n (conclusion j) (conclusion k) T.EqualStep := by
  unfold conclusion
  have hreverse : j.errors.reverse = [] ↔ k.errors.reverse = [] := by
    rw [List.reverse_eq_nil_iff, List.reverse_eq_nil_iff]
    exact hj.errors
  cases hfirst : firstOf j.errors.reverse with
  | some p =>
    cases hfirst' : firstOf k.errors.reverse with
    | some q => exact .pure h (.error p q)
    | none =>
      rw [hreverse.mpr (firstOf_eq_none hfirst')] at hfirst
      cases hfirst
  | none =>
    rw [hreverse.mp (firstOf_eq_none hfirst), hj.results, hj.expected, hj.work]
    dsimp only [firstOf]
    split
    · exact .pure h (.error _ _)
    · exact along_perform hT h hj.proper _

lemma equalTurn_handOver {step step' : Step Action} (hstep : T.EqualStep step step')
    (hrest : List.Forall₂ T.EqualJob stack stack') :
    T.EqualTurn (handOver step stack) (handOver step' stack') := by
  cases hstep with
  | action hx => exact .running (.cons (.ofAction hx) hrest)
  | value a =>
    cases hrest with
    | nil => exact .finished (.ok trivial)
    | cons hj hrest =>
      exact .running (.cons { hj with results := congrArg (a :: ·) hj.results } hrest)
  | error p q =>
    cases hrest with
    | nil => exact .finished (.error p q)
    | cons hj hrest =>
      exact .running (.cons { hj with errors := iff_of_false nofun nofun } hrest)

include hT h in
lemma along_advance (hstack : List.Forall₂ T.EqualJob stack stack') :
    T.Alongside config m n (advance stack) (advance stack') T.EqualTurn := by
  cases hstack with
  | nil => exact .pure h (.finished (.error _ _))
  | @cons j k rest rest' hj hrest =>
    unfold advance
    dsimp only
    rw [hj.waiting]
    cases hnext : j.waiting with
    | nil =>
      exact (along_conclusion hT h hj).bind fun step step' _ _ h₁ hstep =>
        .pure h₁ (equalTurn_handOver hstep hrest)
    | cons next waiting =>
      obtain ⟨hnext, hothers⟩ := List.forall_mem_cons.mp (hnext ▸ hj.dependencies)
      exact .pure h (.running (.cons (.ofAction hnext)
        (.cons { hj with waiting := rfl, dependencies := hothers } hrest)))

include hT h in
/-- **One turn**: the same token was cancelled and the same budget is used up, or both work. -/
lemma along_turn (hstack : List.Forall₂ T.EqualJob stack stack') :
    T.Alongside config m n (turn stack) (turn stack') T.EqualTurn := by
  have hcancelled : n.store.isCancelled n.setting.token = m.store.isCancelled m.setting.token :=
    h.token ▸ h.cancelled
  cases hc : m.store.isCancelled m.setting.token with
  | true =>
    rw [Alongside, turn_of_cancelled hc, turn_of_cancelled (hcancelled.trans hc)]
    exact ⟨h, .finished (.error _ _)⟩
  | false =>
    have htick := h.tick
    rw [Alongside, turn_of_due hc, turn_of_due (hcancelled.trans hc), h.left.config, h.right.config,
      h.steps]
    cases overBudget config (m.steps + 1) with
    | some limit => exact ⟨htick, .finished (.error _ _)⟩
    | none => exact along_advance hT htick hstack

lemma Twin.disturbed (h : T.Twin config m n) (outside : Nat → List String) :
    T.Twin config (m.disturbed outside) (n.disturbed outside) := by
  refine { h with
    left := ⟨h.left.opcodes, h.left.modules, h.left.config, h.left.remembered⟩
    right := ⟨h.right.opcodes, h.right.modules, h.right.config, h.right.remembered⟩
    cancelled := ?_ }
  have hcancelled := h.cancelled
  unfold Machine.disturbed
  rw [h.steps]
  simp only [Store.isCancelled] at hcancelled ⊢
  cases htoken : m.setting.token with
  | none => rfl
  | some t =>
    rw [htoken] at hcancelled
    simp only [Option.any_some] at hcancelled ⊢
    rw [List.contains_append, List.contains_append, hcancelled]

include hT h in
/-- **Twins end in the same turn**, with the same slot or both with a failure. -/
lemma along_takeTurnsAmid (outside : Nat → List String) (fuel : Nat)
    (hstack : List.Forall₂ T.EqualJob stack stack') :
    T.Alongside config m n (takeTurnsAmid outside fuel stack) (takeTurnsAmid outside fuel stack')
      (Option.Rel (Accord fun _ => True)) := by
  induction fuel generalizing m n stack stack' with
  | zero => exact ⟨h, .none⟩
  | succ fuel ih =>
    obtain ⟨h₁, hturn⟩ := along_turn hT (h.disturbed outside) hstack
    unfold Alongside takeTurnsAmid
    generalize turn stack (m.disturbed outside) = r at h₁ hturn
    generalize turn stack' (n.disturbed outside) = r' at h₁ hturn
    obtain ⟨t, m₁⟩ := r
    obtain ⟨t', n₁⟩ := r'
    cases hturn with
    | running hstack₁ => exact ih h₁ hstack₁
    | finished ho => exact ⟨h₁, .some ho⟩

end Jobs

/-! ### Runs -/

lemma regular_of_filled {memory : Memory} (h : memory.Filled T.types T.admits) (a : Address) (s : Slot)
    (hs : memory.get? a = some s) : T.RegularSlot s := by
  cases a with
  | loose k =>
    rw [Memory.get?, h.loose] at hs
    cases hs
  | «at» i =>
    have hi : i < memory.slots.size := (Array.getElem?_eq_some_iff.mp hs).1
    refine ⟨?_, fun c hc => h.callables i c ?_⟩
    · have hagrees := h.agree i hi
      rwa [Memory.typeOf, hs] at hagrees
    · rw [Memory.value?, hs]
      exact hc

section Runs

variable {moduleName name : String} {argument : KeyMap String Stored} (hT : T.Sound)
  (hfilled : T.constants.Filled T.types T.admits) (h : T.Twin config m n)
  (hmemory : m.store.memory = T.constants)
  (hargument : ∀ f, (Stored.record argument).Holds f → T.admits f)

include hT hfilled h hmemory hargument

lemma along_convert {type : Ty} (hagrees : T.types.Agrees type) :
    T.Alongside config m n
      (RunM.store (StoreM.convert (Script.argumentsCell type) (.record argument)))
      (RunM.store (StoreM.convert (Script.argumentsCell type) (.record argument))) Eq := by
  have hconverts := Conversion.converts hT.around.tidy (Script.argumentsCell type)
    (.record argument) T.constants hfilled hagrees hargument
  generalize hr : Conversion.convert T.types (Script.argumentsCell type) (.record argument)
    T.constants = r at hconverts
  have run : ∀ k : Machine, T.types.Recalls k.store.types → k.store.memory = m.store.memory →
      RunM.store (StoreM.convert (Script.argumentsCell type) (.record argument)) k =
        (r.1, { k with store := { k.store with memory := r.2 } }) := by
    intro k hk hsame
    rw [← hr, ← hmemory, ← hsame, ← Conversion.convert_congr hk.resolve]
    rfl
  rw [Alongside, run m h.recalls.1 rfl, run n h.recalls.2 h.memory]
  exact ⟨h.withMemory hconverts.isOver hconverts.filled.loose (regular_of_filled hconverts.filled),
    rfl⟩

/-- **A function is prepared** on both sides or on neither. -/
lemma along_prepare : T.Alongside config m n (Script.prepare moduleName name argument)
    (Script.prepare moduleName name argument)
    (Accord fun e => T.ProperAction e.2) := by
  refine .memory h ?_
  cases hindex : m.store.memory.lookup moduleName name with
  | none => exact .pure h (.error _ _)
  | some index =>
    have hlt : index < T.constants.slots.size := hT.around.rooted _ _ (hmemory ▸ hindex)
    have hkept : (compileAt index m).2.store.memory = T.constants := by
      refine (recompiled_compileAt (fun mnemonic op hop => ?_) index).memory.trans hmemory
      rw [h.left.opcodes] at hop
      exact Standard.keepsTypes (Standard.mem_opcodes hop)
    refine (along_compileAt hT h hlt).bind_of_eq fun c c' m₁ n₁ h₁ hc heq => ?_
    rw [← heq] at hkept
    cases hc with
    | error p q => exact .pure h₁ (.error _ _)
    | @ok call hcall =>
      refine (along_convert hT hfilled h₁ hkept hargument hcall.agrees).bind
        fun o o' m₂ n₂ h₂ ho => ?_
      subst ho
      cases o with
      | error found => exact .pure h₂ (.error _ _)
      | ok a =>
        refine (along_construct hT h₂ hcall a).bind fun o o' m₃ n₃ h₃ ho => ?_
        cases ho with
        | error p q => exact .pure h₃ (.error _ _)
        | ok hx => exact .pure h₃ (.ok hx)

/-- **A run** comes to the same value on both sides, or fails on both. -/
lemma along_runOnAmid (outside : Nat → List String) (fuel : Nat) :
    T.Alongside config m n (Script.runOnAmid outside fuel moduleName name argument)
      (Script.runOnAmid outside fuel moduleName name argument)
      (Option.Rel (Accord fun _ => True)) := by
  refine (along_prepare hT hfilled h hmemory hargument).bind fun o o' m₁ n₁ h₁ ho => ?_
  cases ho with
  | error p q => exact .pure h₁ (.some (.error p q))
  | @ok e he =>
    obtain ⟨call, action⟩ := e
    refine (Alongside.tell h₁ _ _).bind fun _ _ m₂ n₂ h₂ _ => ?_
    have hstack : List.Forall₂ T.EqualJob [Job.ofAction (action.andThen .deepen)]
        [Job.ofAction (action.andThen .deepen)] := .cons (.ofAction (he.andThen trivial)) .nil
    refine (along_takeTurnsAmid hT h₂ outside fuel hstack).bind fun r r' m₃ n₃ h₃ hr => ?_
    cases hr with
    | none => exact .pure h₃ .none
    | some ho =>
      cases ho with
      | error p q => exact .pure h₃ (.some (.error p q))
      | @ok a _ =>
        refine (Alongside.tell h₃ _ _).bind fun _ _ m₄ n₄ h₄ _ => .memory h₄ ?_
        cases m₄.store.memory.treeAt a with
        | none => exact .pure h₄ (.some (.error _ _))
        | some t => exact .pure h₄ (.some (.ok trivial))

end Runs

end Tandem

end CellMachine
