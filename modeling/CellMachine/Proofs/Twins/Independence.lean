import CellMachine.Proofs.Script.Eager
import CellMachine.Proofs.Tandem.Presets
import CellMachine.Proofs.Twins.Runs

/-!
Runs do not influence each other. What a run leaves in its script is remembered verdicts and
compilations; where the types that arguments bring along agree with the registered ones, these are
nothing but the truth, and a later run comes to what it would have come to on the script as it was
loaded. An argument that brings a type of its own leaves a verdict on the type's name, which need not be
true of the type that a later argument brings under the same name.
-/

namespace CellMachine

open Machine

namespace Script

variable {s₀ s s' : Script} {moduleName name : String} {argument : KeyMap String Stored}
  {outside : Nat → List String} {fuel : Nat} {token : Option String}

/-- What is asked of the types of a script: no name has a mark or a bracket in it, and every type that
is written in the registry, in a constant's type or in a callable is defined as the registered type of
its name. -/
structure Typed (s : Script) (modules : List Module) : Prop where
  unmarked : s.types.Unmarked
  unbracketed : ∀ name t, s.types.get? name = some t → '[' ∉ t.name.toList
  coherent : s.types.Coherent
  constants : ∀ md ∈ modules, ∀ e ∈ md.constants, s.types.Agrees e.2.type
  callables : ∀ md ∈ modules, ∀ e ∈ md.constants, ∀ f, e.2.value.Holds f → f.Typed s.types

lemma Consistent.typed {modules : List Module} (h : s.Consistent modules) : s.Typed modules where
  unmarked := h.unmarked
  unbracketed := h.unbracketed
  coherent := h.coherent
  constants := h.constants
  callables := fun md hmd e he f hf => (h.callables md hmd e he f hf).typed

/-- A script after it was used in some way, with no callables in the arguments of runs but those that
are admitted. -/
inductive UsedWith (admits : Callable → Prop) (s : Script) : Script → Prop
  | start : UsedWith admits s s
  | run {s' : Script} (h : UsedWith admits s s') (outside : Nat → List String) (fuel : Nat)
    (moduleName name : String) (argument : KeyMap String Stored) (token : Option String)
    (hargument : ∀ f, (Stored.record argument).Holds f → admits f) :
    UsedWith admits s (s'.runAmid outside fuel moduleName name argument token).2.1
  | compile {s' : Script} (h : UsedWith admits s s') (index : Nat) :
    UsedWith admits s (s'.compileAt index).2
  | cancel {s' : Script} (h : UsedWith admits s s') (token : String) :
    UsedWith admits s (s'.cancel token)
  | watch {s' s'' : Script} (h : UsedWith admits s s') {attention : Attention}
    (h' : s'.watch attention = .ok s'') : UsedWith admits s s''

/-- The script beside itself. -/
def itself (s : Script) : Tandem where
  types := s.types
  modules := s.modules
  constants := s.memory
  admits f := f.Typed s.types
  leading := {}
  following := {}

/-- A script that is another one but for what it remembers, which is nothing but the truth. -/
structure Akin (s₀ s : Script) : Prop where
  modules : s.modules = s₀.modules
  opcodes : s.opcodes = s₀.opcodes
  config : s.config = s₀.config
  memory : s.memory = s₀.memory
  remembered : s₀.itself.Remembered s.types s.compiled

/-- A run as a computation of the machine: a failure is told last. -/
def whole (outside : Nat → List String) (fuel : Nat) (moduleName name : String)
    (argument : KeyMap String Stored) : RunM (Option (Outcome Tree)) := do
  let result ← runOnAmid outside fuel moduleName name argument
  match result with
  | some (.error p) => RunM.tell fun _ => .failed p
  | _ => pure ()
  pure result

section Loaded

variable (h₀ : s₀.Loaded fun f => f.Typed s₀.types)

include h₀

lemma Loaded.sound_itself : s₀.itself.Sound := h₀.sound (fun _ => id) nofun

lemma Akin.twin (h : s₀.Akin s) (h' : s₀.Akin s')
    (htoken : ∀ t, token = some t → (t ∈ s.cancelled ↔ t ∈ s'.cancelled)) :
    s₀.itself.Twin s₀.config (s.machine token) (s'.machine token) where
  left := ⟨h.opcodes.trans h₀.standard, h.modules, h.config, h.remembered⟩
  right := ⟨h'.opcodes.trans h₀.standard, h'.modules, h'.config, h'.remembered⟩
  memory := h'.memory.trans h.memory.symm
  pending := rfl
  steps := rfl
  token := rfl
  cancelled := by
    cases token with
    | none => rfl
    | some t =>
      show s'.cancelled.contains t = s.cancelled.contains t
      rw [Bool.eq_iff_iff, List.contains_iff_mem, List.contains_iff_mem]
      exact (htoken t rfl).symm
  isOver := by
    show s₀.memory.Over s.memory
    rw [h.memory]
    exact .refl _
  loose := (congrArg Memory.loose h.memory).trans h₀.constants.filled.loose
  slots := by
    show ∀ a slot, s.memory.get? a = some slot → _
    rw [h.memory]
    exact Tandem.regular_of_filled h₀.constants.filled
  cells := by
    intro i q hq
    rw [show (s.machine token).pending.get? i = none from Std.TreeMap.getElem?_emptyc] at hq
    cases hq

omit h₀ in
lemma Akin.after (h : s₀.Akin s) {m : Machine} (hm : s₀.itself.Knows s₀.config m) :
    s₀.Akin (s.after m) :=
  { h with remembered := hm.remembered }

/-- **Two runs** of a function on one argument, on scripts that are the same but for what they
remember: they come to the same, and leave scripts that still are. -/
lemma Akin.runAmid (h : s₀.Akin s) (h' : s₀.Akin s')
    (htoken : ∀ t, token = some t → (t ∈ s.cancelled ↔ t ∈ s'.cancelled))
    (hargument : ∀ f, (Stored.record argument).Holds f → f.Typed s₀.types) :
    Option.Rel (Accord fun _ => True) (s.runAmid outside fuel moduleName name argument token).1
        (s'.runAmid outside fuel moduleName name argument token).1 ∧
      s₀.Akin (s.runAmid outside fuel moduleName name argument token).2.1 := by
  have hwhole : s₀.itself.Alongside s₀.config (s.machine token) (s'.machine token)
      (whole outside fuel moduleName name argument) (whole outside fuel moduleName name argument)
      (Option.Rel (Accord fun _ => True)) := by
    refine (Tandem.along_runOnAmid h₀.sound_itself h₀.constants.filled (h.twin h₀ h' htoken) h.memory
      hargument outside fuel).bind fun r r' m n h₁ hr => ?_
    cases hr with
    | none => exact .pure h₁ .none
    | some ho =>
      cases ho with
      | ok _ => exact .pure h₁ (.some (.ok trivial))
      | error p q =>
        exact (Tandem.Alongside.tell h₁ _ _).bind fun _ _ _ _ h₂ _ =>
          .pure h₂ (.some (.error p q))
  exact ⟨hwhole.2, h.after hwhole.1.left⟩

/-- Compiling at any index keeps what is remembered true; where there is no constant, that is what is
remembered. -/
lemma Akin.compileAt (h : s₀.Akin s) (index : Nat) : s₀.Akin (s.compileAt index).2 := by
  have htwin : s₀.itself.Twin s₀.config (s.machine none) (s.machine none) := h.twin h₀ h nofun
  by_cases hindex : index < s₀.memory.slots.size
  · exact h.after (Tandem.along_compileAt h₀.sound_itself htwin hindex).1.left
  · refine h.after (m := (Machine.compileAt index (s.machine none)).2) ?_
    have hnone : s₀.memory.get? (.at index) = none := Array.getElem?_eq_none (by omega)
    have haddress : (s.machine none).store.memory.address? index = none := by
      show s.memory.address? index = none
      rw [h.memory, Memory.address?, if_neg hindex]
    have hvalue : s₀.memory.value? (.at index) = none := by rw [Memory.value?, hnone]; rfl
    have hrefused : ∃ found, s₀.itself.compilation index = .error found := by
      rw [Tandem.compilation, compileSlot_refused (.inl fun f hf => by
        change s₀.memory.value? (.at index) = _ at hf
        rw [hvalue] at hf
        cases hf)]
      exact ⟨_, rfl⟩
    obtain ⟨found, hfound⟩ := hrefused
    unfold Machine.compileAt
    cases hc : (s.machine none).compiled.get? index with
    | some c => exact htwin.left
    | none =>
      rw [haddress]
      refine ⟨htwin.left.opcodes, htwin.left.modules, htwin.left.config, h.remembered.recalls,
        fun i c hi => ?_⟩
      change (KeyMap.insert index _ s.compiled).get? i = some c at hi
      rw [KeyMap.get?_insert] at hi
      split at hi
      · next heq =>
        cases hi
        subst heq
        rw [hfound]
        exact .error _ _
      · exact h.remembered.compiled i c hi

/-- **Whatever a script was used for**, it remembers nothing but the truth. -/
lemma Akin.used (h : s₀.Akin s₀) (hused : s₀.UsedWith (fun f => f.Typed s₀.types) s) : s₀.Akin s := by
  induction hused with
  | start => exact h
  | run _ outside fuel moduleName name argument token hargument ih =>
    exact (ih.runAmid h₀ ih (fun _ _ => Iff.rfl) hargument).2
  | compile _ index ih => exact ih.compileAt h₀ index
  | cancel _ token ih => exact { ih with remembered := ih.remembered }
  | watch _ h' ih =>
    unfold watch at h'
    split at h'
    · cases h'
    · cases h'
      exact { ih with remembered := ih.remembered }

end Loaded

/-! ### Loading -/

lemma akin_of_load {natives : List Ty} {l : Loader} {config : Config} {modules : List Module}
    (hl : Loader.make Standard.opcodes natives = .ok l)
    (hs : load { l with config } modules = .ok s) (ht : s.Typed modules) :
    s.Loaded (fun f => f.Typed s.types) ∧ s.Akin s := by
  obtain ⟨-, -, hreached, -⟩ := Loader.make_spec hl
  obtain ⟨types, memory, hlarger, hmemory, hload⟩ := load_induction hs
  rw [hreached.fresh] at hlarger
  have hsame : Recompiled { uncompiled l.opcodes modules memory types with config } s :=
    hload ⟨rfl, rfl, rfl, rfl, rfl, rfl⟩ fun s' index hs' =>
      hs'.compileAt (keepTypes_of_make hl) index
  have hloaded := loaded_of_recompiled hl hlarger hmemory hsame ht.unmarked ht.unbracketed ht.coherent
    ht.constants ht.callables
  refine ⟨hloaded, hload ⟨hsame.modules.symm, hsame.opcodes.symm, hsame.config.symm,
    hsame.memory.symm, ⟨hsame.types.symm, ?_⟩, fun i c hc => by cases hc⟩
    fun s' index hs' => hs'.compileAt hloaded index⟩
  show Registry.Truthful _ types.verdicts
  rw [(hlarger.reached hreached).verdicts]
  exact Registry.truthful_nil _

/-- **Runs do not influence each other**, if arguments bring no types along but the registered ones.
However a script with the standard opcodes is configured, and whatever it was used for since it was
loaded, a run of a function on an argument comes to the value that it comes to on the script as it was
loaded, or fails as it does there, in the same time. -/
theorem runs_are_independent {natives : List Ty} {l : Loader} {config : Config}
    {modules : List Module} (hl : Loader.make Standard.opcodes natives = .ok l)
    (hs : load { l with config } modules = .ok s₀) (ht : s₀.Typed modules)
    (hused : s₀.UsedWith (fun f => f.Typed s₀.types) s)
    (hargument : ∀ f, (Stored.record argument).Holds f → f.Typed s₀.types)
    (htoken : ∀ t, token = some t → (t ∈ s.cancelled ↔ t ∈ s₀.cancelled))
    (outside : Nat → List String) (fuel : Nat) (moduleName name : String) :
    (∀ v, (s.runAmid outside fuel moduleName name argument token).1 = some (.ok v) ↔
      (s₀.runAmid outside fuel moduleName name argument token).1 = some (.ok v)) ∧
    ((s.runAmid outside fuel moduleName name argument token).1 = none ↔
      (s₀.runAmid outside fuel moduleName name argument token).1 = none) := by
  obtain ⟨hloaded, hakin⟩ := akin_of_load hl hs ht
  have hrel : Option.Rel (Accord fun _ => True)
      (s.runAmid outside fuel moduleName name argument token).1
      (s₀.runAmid outside fuel moduleName name argument token).1 :=
    ((hakin.used hloaded hused).runAmid hloaded hakin htoken hargument).1
  generalize (s.runAmid outside fuel moduleName name argument token).1 = r at hrel
  generalize (s₀.runAmid outside fuel moduleName name argument token).1 = r' at hrel
  cases hrel with
  | none => exact ⟨fun v => Iff.rfl, Iff.rfl⟩
  | some ho =>
    cases ho with
    | ok _ => exact ⟨fun v => Iff.rfl, Iff.rfl⟩
    | error p q => exact ⟨fun v => iff_of_false nofun nofun, iff_of_false nofun nofun⟩

/-- The sum with a call among its terms comes to the same integer again, after it was run and a run of
it was cancelled. -/
theorem sum_of_call_runs_again : ∃ l s₀ s fuel,
    Loader.make Standard.opcodes Standard.natives = .ok l ∧
    load { l with config := {} } [Sample.sums] = .ok s₀ ∧ s₀.Typed [Sample.sums] ∧
    s₀.UsedWith (fun f => f.Typed s₀.types) s ∧
    (∀ f, (Stored.record Sample.given).Holds f → f.Typed s₀.types) ∧
    (s.runAmid (fun _ => []) fuel "m" "main" Sample.given none).1 =
      some (.ok (.native (.int 97))) := by
  obtain ⟨l, hl, hloaded⟩ := Sample.exists_loader
  have hrun := Sample.sums_run
  have hconfig : { l with config := {} } = l := by rw [← (Loader.make_spec hl).2.1]
  rw [← hconfig] at hloaded
  have ht := Sample.consistent.typed
  have hgiven : ∀ f, (Stored.record Sample.given).Holds f → f.Typed Sample.script.types :=
    fun f hf => (Callable.conforms_of_check (Sample.given_checked f hf).1).typed
  have hused : Sample.script.UsedWith (fun f => f.Typed Sample.script.types) _ :=
    .run (.cancel (.run .start (fun _ => []) 100 "m" "main" Sample.given none hgiven) "halt")
      (fun _ => []) 100 "m" "main" Sample.given (some "halt") hgiven
  refine ⟨l, _, _, 80, hl, hloaded, ht, hused, hgiven, ?_⟩
  rw [← runAmid_nothing] at hrun
  exact ((runs_are_independent hl hloaded ht hused hgiven (fun _ h => by cases h) (fun _ => []) 80
    "m" "main").1 _).mpr hrun

/-! ### Runs with callables of one's own -/

namespace Visiting

def bearer : Ty := .structured "arg" none [("f", .inline thunk)]

def bearerKey : Ty := .keyOf "arg-key" none (.inline bearer)

/-- Calls the member of its argument. -/
def applying : Callable := asking "f" bearer bearerKey thunk entry

def applies : Module where
  name := "m"
  constants := [("a", ⟨entry, .record [("k", .native (.int 7))], none⟩),
    ("apply", ⟨.callable "application" none (.inline bearer) (.inline entry),
      .callable applying, none⟩),
    ("f", ⟨bearerKey, .key "f", none⟩)]

def given (type : Ty) : KeyMap String Stored := [("f", .callable (giving type))]

-- Kept closed, so that nothing but the kernel runs the loader.
@[irreducible] def fresh : Script :=
  ((Loader.make Standard.opcodes Standard.natives).bind fun l => load l [applies]).toOption.getD
    ⟨[], [], {}, {}, .initial, [], .nothing, []⟩

def isSeven : Option Tree → Bool
  | some (.record [(k, some (.native (.int i)))]) => k == "k" && i == 7
  | _ => false

lemma eq_of_isSeven {t : Option Tree} (h : isSeven t = true) :
    t = some (.record [("k", some (.native (.int 7)))]) := by
  unfold isSeven at h
  split at h
  · simp only [Bool.and_eq_true, beq_iff_eq] at h
    rw [h.1, h.2]
  · cases h

def apply (s : Script) (type : Ty) : Option (Outcome Tree) × Script × List Notice :=
  s.run 40 "m" "apply" (given type) none

lemma runs_checked : (apply fresh narrow).1.any (!·.isOk) = true ∧
    isSeven (Sample.value? (apply fresh wide).1) = true ∧
    (apply (apply fresh narrow).2.1 wide).1.any (!·.isOk) = true := by
  decide +kernel

lemma typed_checked : (∀ e ∈ fresh.types.types, '!' ∉ e.2.name.toList ∧ '[' ∉ e.2.name.toList ∧
      fresh.types.holdsAll e.2 = true) ∧
    (∀ e ∈ applies.constants, fresh.types.holdsAll e.2.type = true) ∧
    applying.conforms fresh.types = true := by
  decide +kernel

lemma typed : fresh.Typed [applies] := by
  obtain ⟨htypes, hconstants, hcallable⟩ := typed_checked
  refine (consistent_of_check htypes (List.forall_mem_singleton.mpr hconstants)
    (List.forall_mem_singleton.mpr fun e he f hf => ?_)).typed
  simp only [applies, List.mem_cons, List.not_mem_nil, or_false] at he
  rcases he with rfl | rfl | rfl
  · obtain _ | _ | ⟨he, hf⟩ := hf
    simp only [List.mem_cons, List.not_mem_nil, or_false] at he
    subst he
    cases hf
  · cases hf
    exact hcallable
  · cases hf

lemma exists_loader : ∃ l, Loader.make Standard.opcodes Standard.natives = .ok l ∧
    load l [applies] = .ok fresh := by
  unfold fresh
  exact Sample.exists_load (by decide +kernel)

end Visiting

/-- **An argument may spoil later runs** by a type of its own that is not registered. A run that is
given a callable with a narrow type fails. A callable with a wide type of the same name, which a run on
the script as it was loaded accepts, is refused ever after. -/
theorem visiting_type_spoils_run : ∃ l s fuel,
    Loader.make Standard.opcodes Standard.natives = .ok l ∧ load l [Visiting.applies] = .ok s ∧
    s.Typed [Visiting.applies] ∧
    (∃ p, (s.run fuel "m" "apply" (Visiting.given Visiting.narrow) none).1 = some (.error p)) ∧
    (∃ fuel', (s.run fuel' "m" "apply" (Visiting.given Visiting.wide) none).1 =
      some (.ok (.record [("k", some (.native (.int 7)))]))) ∧
    ∀ fuel' v, ((s.run fuel "m" "apply" (Visiting.given Visiting.narrow) none).2.1.run fuel' "m"
      "apply" (Visiting.given Visiting.wide) none).1 ≠ some (.ok v) := by
  obtain ⟨l, hl, hloaded⟩ := Visiting.exists_loader
  obtain ⟨hnarrow, hwide, hspoiled⟩ := Visiting.runs_checked
  obtain ⟨p, hp⟩ := exists_error_of_any hnarrow
  obtain ⟨q, hq⟩ := exists_error_of_any hspoiled
  exact ⟨l, Visiting.fresh, 40, hl, hloaded, Visiting.typed, ⟨p, hp⟩,
    ⟨40, Sample.eq_of_value? (Visiting.eq_of_isSeven hwide)⟩, run_ne_ok_of_error hq⟩

end Script

end CellMachine
