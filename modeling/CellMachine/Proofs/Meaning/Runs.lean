import CellMachine.Proofs.Machine.Order
import CellMachine.Proofs.Meaning.Completeness
import CellMachine.Proofs.Meaning.Start
import CellMachine.Proofs.Meaning.Trees
import CellMachine.Proofs.Registry.Written

/-!
A run of a function gives what the function means: the machine with its memory of shared slots, and
the evaluation by name from scratch, have the same values.
-/

namespace CellMachine

open Machine

variable {s : Script} {moduleName name : String} {argument : KeyMap String Stored}

/-! ### Executions -/

lemma execute_iff_unfolds {p : Program} (hp : p.Sound) {terms : List Term} {m : Machine}
    (h : Models p terms m) (htoken : m.setting.token = none) {result : Address} {t : Term}
    (ht : Stands terms m result t) {v : Tree} :
    (∃ fuel a m', execute fuel ((Action.evaluate result .shallow).andThen .deepen) m =
        (some (.ok a), m') ∧ m'.store.memory.treeAt a = some v) ↔ p.Unfolds t v := by
  have hfree : Undisturbed [Job.ofAction ((Action.evaluate result .shallow).andThen .deepen)] m := by
    refine undisturbed_of_plain ((Action.plain_evaluate _ _).andThen rfl) ?_ htoken
    rw [h.config]
  constructor
  · rintro ⟨fuel, a, m', hexecute, htree⟩
    obtain ⟨k, hk⟩ := (execute_iff_evaluate hfree).mp
      ⟨fuel, fun fuel' hle => takeTurns_mono hle hexecute⟩
    cases k with
    | zero => cases hk
    | succ k =>
      obtain ⟨b, m₁, hfirst, hlast⟩ := succeeds_andThen hk
      obtain ⟨rfl, terms₁, hm₁, grows₁, -⟩ := ((right hp (k + 1)).slots k (by omega)).awaited h ht hfirst
      change Leads _ (force b .deep m₁.tick) a m' at hlast
      obtain ⟨rfl, terms₂, hm₂, grows₂, hfull⟩ :=
        arrives_force hp (right hp _) hm₁ (grows₁.stands ht) hlast
      have ht₂ := (grows₁.trans grows₂).stands ht
      obtain ⟨r, hr⟩ := hm₂.exists_unfolds hfull ht₂
      cases (treeAt_of_full hm₂ ht₂ hfull hr).symm.trans htree
      exact hr
  · rintro ⟨n, hn⟩
    have hhead : Found p n t .shallow := by
      cases n with
      | zero =>
        rw [Program.tree] at hn
        cases hn
      | succ n =>
        rw [Program.tree_succ] at hn
        obtain ⟨head, hhead, -⟩ := Option.bind_eq_some_iff.mp hn
        exact ⟨head, Program.head_mono (Nat.le_succ n) hhead⟩
    have hslots := (complete hp n).1
    obtain ⟨m₁, hfirst, -, terms₁, hm₁, grows₁, -⟩ := hslots.awaited hp h ht .shallow hhead
    have ht₁ := grows₁.stands ht
    obtain ⟨a, m', hleads⟩ := hslots hm₁ ht₁ (show Found p n t .deep from ⟨v, hn⟩)
    obtain ⟨rfl, terms₂, hm₂, grows₂, hfull⟩ := arrives_of_leads hp hm₁ ht₁ hleads
    obtain ⟨k, hk⟩ := (execute_iff_evaluate hfree).mpr (ends_andThen hfirst hleads)
    exact ⟨k, a, m', hk k le_rfl, treeAt_of_full hm₂ (grows₂.stands ht₁) hfull ⟨n, hn⟩⟩

/-! ### Preparation -/

lemma Script.prepare_of_none {m : Machine} (h : m.store.memory.lookup moduleName name = none) :
    ∃ q, prepare moduleName name argument m = (.error q, m) := by
  simp only [prepare, RunM.run_bind, RunM.run_memory, h]
  exact ⟨_, rfl⟩

/-- Preparing a function that is there: compilation, conversion of the argument, and the call. -/
lemma Script.prepare_of_index {m : Machine} {index : Nat}
    (h : m.store.memory.lookup moduleName name = some index) :
    prepare moduleName name argument m =
      match Machine.compileAt index m with
      | (.error found, m₁) => (.error (inFunction moduleName name found), m₁)
      | (.ok call, m₁) =>
        match Conversion.convert m₁.store.types (argumentsCell call.argumentType) (.record argument)
          m₁.store.memory with
        | (.error found, memory) =>
          (.error (inFunction moduleName name found), { m₁ with store := { m₁.store with memory } })
        | (.ok a, memory) =>
          match Machine.construct call a { m₁ with store := { m₁.store with memory } } with
          | (.error q, m₂) => (.error (inFunction moduleName name [q]), m₂)
          | (.ok action, m₂) => (.ok (call, action), m₂) := by
  simp only [prepare, RunM.run_bind, RunM.run_memory, h]
  generalize Machine.compileAt index m = r
  obtain ⟨c, m₁⟩ := r
  cases c with
  | error found => rfl
  | ok call =>
    dsimp only
    rw [RunM.run_bind, RunM.run_store, StoreM.convert]
    dsimp only
    generalize Conversion.convert m₁.store.types (argumentsCell call.argumentType) (.record argument)
      m₁.store.memory = r
    obtain ⟨o, memory⟩ := r
    cases o with
    | error found => rfl
    | ok a =>
      dsimp only
      rw [RunM.run_bind]
      generalize Machine.construct call a { m₁ with store := { m₁.store with memory } } = r
      obtain ⟨o, m₂⟩ := r
      cases o <;> rfl

/-- A function means something when it compiles, its argument is converted and accepted, and the
result's cell has a value. -/
lemma Script.meaning_eq_some_iff {fuel : Nat} {v : Tree} :
    s.meaning fuel moduleName name argument = some v ↔ ∃ index f expected result a memory,
      s.memory.lookup moduleName name = some index ∧
      s.memory.value? (.at index) = some (.callable f) ∧
      (s.program memory).signature? (s.memory.typeOf (.at index)) = some (expected, result) ∧
      Conversion.convert s.types (argumentsCell expected) (.record argument) s.memory =
        (.ok a, memory) ∧
      (s.program memory).accepts f (s.memory.typeOf (.at index)) expected = true ∧
      (s.program memory).tree fuel
        ((s.program memory).reference f (.slot a) Callable.resultCell) = some v := by
  unfold meaning
  constructor
  · intro h
    obtain ⟨index, hindex, h⟩ := Option.bind_eq_some_iff.mp h
    split at h
    · next n source expected result f htype hvalue =>
      split at h
      · next type hexpected =>
        split at h
        · next a memory hconvert =>
          dsimp only at h
          split at h
          · next hacc =>
            -- The callable compiles, so its signature can be read.
            obtain ⟨expected', result', hsig, -⟩ := Program.accepts_iff.mp hacc
            obtain rfl : expected' = type := by
              rw [htype] at hsig
              simp only [Program.signature?, hexpected] at hsig
              split at hsig
              · next h _ =>
                cases hsig
                exact (Except.ok.inj h).symm
              · cases hsig
            exact ⟨index, f, _, _, a, memory, hindex, hvalue, hsig, hconvert, hacc, h⟩
          · cases h
        · cases h
      · cases h
    · cases h
  · rintro ⟨index, f, expected, result, a, memory, hindex, hvalue, hsig, hconvert, hacc, h⟩
    rw [hindex, Option.bind_some, hvalue]
    cases htype : s.memory.typeOf (.at index) with
    | callable n source x y =>
      rw [htype] at hsig
      simp only [Program.signature?] at hsig
      split at hsig
      · next hx _ =>
        cases hsig
        change s.types.resolve x = .ok expected at hx
        dsimp only
        rw [hx]
        dsimp only
        rw [hconvert]
        rw [htype] at hacc
        exact (if_pos hacc).trans h
      · cases hsig
    | _ =>
      rw [htype] at hsig
      cases hsig

/-- What a function means whose signature is known. -/
lemma Script.meaning_iff_of_index {index : Nat} {f : Callable} {expected result : Ty}
    (hindex : s.memory.lookup moduleName name = some index)
    (hvalue : s.memory.value? (.at index) = some (.callable f))
    (hsig : (s.program s.memory).signature? (s.memory.typeOf (.at index)) = some (expected, result))
    {fuel : Nat} {v : Tree} :
    s.meaning fuel moduleName name argument = some v ↔ ∃ a memory,
      Conversion.convert s.types (argumentsCell expected) (.record argument) s.memory =
        (.ok a, memory) ∧
      (s.program memory).accepts f (s.memory.typeOf (.at index)) expected = true ∧
      (s.program memory).tree fuel
        ((s.program memory).reference f (.slot a) Callable.resultCell) = some v := by
  rw [meaning_eq_some_iff]
  constructor
  · rintro ⟨index', f', expected', result', a, memory, hindex', hvalue', hsig', h⟩
    cases hindex.symm.trans hindex'
    cases hvalue.symm.trans hvalue'
    cases hsig.symm.trans hsig'
    exact ⟨a, memory, h⟩
  · rintro ⟨a, memory, h⟩
    exact ⟨index, f, expected, result, a, memory, hindex, hvalue, hsig, h⟩

/-- What preparation comes to: a call whose result stands for what the function means, or a failure
where the function means nothing. -/
def Script.Prepared (s : Script) (moduleName name : String) (argument : KeyMap String Stored) :
    Outcome (CompiledCall × Action) × Machine → Prop
  | (.ok (_, action), m) => m.setting = (s.machine none).setting ∧
      ∃ p terms result t, action = .evaluate result .shallow ∧ Program.Sound p ∧ Models p terms m ∧
        Stands terms m result t ∧
        ∀ fuel v, s.meaning fuel moduleName name argument = some v ↔ p.tree fuel t = some v
  | (.error _, _) => ∀ fuel v, s.meaning fuel moduleName name argument ≠ some v

lemma Script.sound_program (hg : (s.program s.memory).Grounded) {memory : Memory}
    (hfilled : memory.Filled s.types fun f => f.Conforms s.types) (hover : s.memory.Over memory) :
    (s.program memory).Sound :=
  Program.Grounded.sound
    ⟨hg.tidy, hg.standard, hg.declared, hg.modules, hg.loaded, hg.size⟩ hfilled hover

/-- The call of a function that was compiled, on its argument once that is converted. -/
lemma Script.prepared_construct {p : Program} (hp : p.Sound) {terms : List Term} {m : Machine}
    (h : Models p terms m) (hsetting : m.setting = (s.machine none).setting) {call : CompiledCall}
    (hc : call.callable.Conforms p.types)
    (hfits : Fits p.opcodes p.constants call.callable call.nodes)
    (hexpected : p.types.Agrees call.argumentType) {a : Address} (ha : Stands terms m a (.slot a))
    (hmeaning : ∀ fuel v, s.meaning fuel moduleName name argument = some v ↔
      ((p.typeOf (.slot a)).isRuntimeDetermined = true ∨
        p.suits (p.typeOf (.slot a)) call.argumentType = true) ∧
        p.tree fuel (p.reference call.callable (.slot a) Callable.resultCell) = some v) :
    s.Prepared moduleName name argument
      (match Machine.construct call a m with
        | (.error q, m₂) => (.error (inFunction moduleName name [q]), m₂)
        | (.ok action, m₂) => (.ok (call, action), m₂)) := by
  have hkept := (silent_construct call a m).2.2
  rcases h.construct hp hc hfits hexpected ha with
    ⟨hok, result, m', terms', heq, hm', -, hstands⟩ | ⟨hno, q, m', heq⟩
  · rw [heq] at hkept ⊢
    refine ⟨hkept.trans hsetting, p, terms', result, _, rfl, hp, hm', hstands, fun fuel v => ?_⟩
    rw [hmeaning]
    exact and_iff_right hok
  · rw [heq]
    intro fuel v hv
    obtain ⟨hok, -⟩ := (hmeaning fuel v).mp hv
    rw [hno.1, hno.2] at hok
    simp at hok

/-- A function that was compiled, on an argument that is still to be converted. -/
lemma Script.prepared_convert (hg : (s.program s.memory).Grounded) {m : Machine}
    (hm : Models (s.program s.memory) (ownTerms s.memory.slots.size) m)
    (hkept : (s.machine none).Recompiled m) {index : Nat}
    (hindex : s.memory.lookup moduleName name = some index) {call : CompiledCall}
    (hvalue : s.memory.value? (.at index) = some (.callable call.callable))
    (hcompiled : (s.program s.memory).Compiled call.callable (s.memory.typeOf (.at index)) (.ok call))
    (hargument : ∀ f, (Stored.record argument).Holds f → f.Conforms s.types) :
    s.Prepared moduleName name argument
      (match Conversion.convert m.store.types (argumentsCell call.argumentType) (.record argument)
          m.store.memory with
        | (.error found, memory) =>
          (.error (inFunction moduleName name found), { m with store := { m.store with memory } })
        | (.ok a, memory) =>
          match Machine.construct call a { m with store := { m.store with memory } } with
          | (.error q, m₂) => (.error (inFunction moduleName name [q]), m₂)
          | (.ok action, m₂) => (.ok (call, action), m₂)) := by
  have hp : (s.program s.memory).Sound := sound_program hg hg.loaded.filled (.refl _)
  obtain ⟨-, hfits, result, hsig, hcompiles⟩ := hcompiled
  have hexpected : s.types.Agrees call.argumentType :=
    (hp.agrees_signature (hp.types index (hg.loaded.rooted _ _ hindex)) hsig).1
  have hconverts := Conversion.converts hg.tidy (argumentsCell call.argumentType) (.record argument)
    s.memory hg.loaded.filled hexpected hargument
  have hmeaning : ∀ fuel v, s.meaning fuel moduleName name argument = some v ↔ _ := fun fuel v =>
    meaning_iff_of_index hindex hvalue hsig
  have hmemory : m.store.memory = s.memory := hkept.memory
  rw [Conversion.convert_congr hm.recalls.resolve, hmemory]
  change Conversion.Converts s.types _ s.memory _ (Conversion.convert s.types _ _ s.memory)
    at hconverts
  change s.Prepared _ _ _ (match Conversion.convert s.types _ _ s.memory with
    | (.error found, memory) => _
    | (.ok a, memory) => _)
  generalize Conversion.convert s.types (argumentsCell call.argumentType) (.record argument)
    s.memory = r at hconverts hmeaning ⊢
  -- An argument that is not converted has no meaning; one that is leads on to the call.
  obtain ⟨_ | a, memory⟩ := r
  · intro fuel v h
    obtain ⟨a, _, h, -⟩ := (hmeaning fuel v).mp h
    cases h
  · have hp' : (s.program memory).Sound := sound_program hg hconverts.filled hconverts.isOver
    have hm' := models_start (m := { m with store := { m.store with memory } }) hp'
      hm.opcodes hm.modules hm.config rfl hm.recalls hm.compiled fun i => by
        show m.pending.get? i = none
        rw [hkept.pending]
        exact Std.TreeMap.getElem?_emptyc
    obtain ⟨i, hi, rfl, htype⟩ := hconverts.result a rfl
    refine prepared_construct hp' hm' hkept.setting (hp.callables _ _ hvalue) hfits hexpected
      (hm'.stands_slot hp' hi) fun fuel v => (hmeaning fuel v).trans ?_
    rw [show (s.program memory).typeOf (.slot (.at i)) = call.argumentType from htype]
    constructor
    · rintro ⟨_, _, heq, haccepts, htree⟩
      cases heq
      obtain ⟨_, _, hsig', -, hok⟩ := Program.accepts_iff.mp haccepts
      cases hsig.symm.trans hsig'
      exact ⟨hok, htree⟩
    · rintro ⟨hok, htree⟩
      exact ⟨_, memory, rfl, Program.accepts_iff.mpr ⟨_, _, hsig, hcompiles, hok⟩, htree⟩

/-- **Preparation** sets up a call whose result stands for what the function means, or fails when the
function means nothing. -/
lemma Script.prepare_spec (hg : (s.program s.memory).Grounded)
    (hm : Models (s.program s.memory) (ownTerms s.memory.slots.size) (s.machine none))
    (hargument : ∀ f, (Stored.record argument).Holds f → f.Conforms s.types) :
    s.Prepared moduleName name argument (prepare moduleName name argument (s.machine none)) := by
  have hp : (s.program s.memory).Sound := sound_program hg hg.loaded.filled (.refl _)
  cases hindex : s.memory.lookup moduleName name with
  | none =>
    obtain ⟨q, heq⟩ : ∃ q, prepare moduleName name argument (s.machine none) =
        (.error q, s.machine none) :=
      prepare_of_none (show (s.machine none).store.memory.lookup moduleName name = none from hindex)
    rw [heq]
    intro fuel v h
    obtain ⟨index, -, -, -, -, -, h, -⟩ := meaning_eq_some_iff.mp h
    rw [hindex] at h
    cases h
  | some index =>
    obtain ⟨hcached, hm₁, -⟩ := hm.compileAt hp (hg.loaded.rooted _ _ hindex)
    have hkept := Machine.recompiled_compileAt (m := s.machine none)
      (fun mnemonic op hop => (hp.around.opcodes mnemonic op (hm.opcodes ▸ hop)).keeps) index
    rw [prepare_of_index (show (s.machine none).store.memory.lookup moduleName name = some index
      from hindex)]
    generalize Machine.compileAt index (s.machine none) = r at hcached hm₁ hkept ⊢
    obtain ⟨c, m₁⟩ := r
    change (s.program s.memory).CompiledSlot (s.memory.typeOf (.at index)) c
      (s.memory.value? (.at index)) at hcached
    cases c with
    | error found =>
      intro fuel v h
      obtain ⟨_, f, _, _, _, memory, hindex', hvalue, -, -, hacc, -⟩ := meaning_eq_some_iff.mp h
      cases hindex.symm.trans hindex'
      rw [hvalue] at hcached
      obtain ⟨expected, result, hsig, hcompiles, -⟩ := Program.accepts_iff.mp hacc
      cases (hcached expected result hsig).symm.trans hcompiles
    | ok call =>
      have hvalue : s.memory.value? (.at index) = some (.callable call.callable) := by
        cases hvalue : s.memory.value? (.at index) with
        | none =>
          rw [hvalue] at hcached
          obtain ⟨found, hfound⟩ := hcached
          cases hfound
        | some value =>
          rw [hvalue] at hcached
          cases value with
          | callable f => rw [hcached.1]
          | _ =>
            obtain ⟨found, hfound⟩ := hcached
            cases hfound
      rw [hvalue] at hcached
      exact prepared_convert hg hm₁ hkept hindex hvalue hcached hargument

/-! ### Runs -/

lemma Script.run_fst (fuel : Nat) (token : Option String) :
    (s.run fuel moduleName name argument token).1 =
      (runOn fuel moduleName name argument (s.machine token)).1 := by
  unfold run
  dsimp only
  rw [RunM.run_bind]
  generalize runOn fuel moduleName name argument (s.machine token) = r
  obtain ⟨result, m⟩ := r
  cases result with
  | none => rfl
  | some o => cases o <;> rfl

lemma RunM.memory_tell (f : Memory → Notice) (m : Machine) :
    (RunM.tell f m).2.store.memory = m.store.memory := by
  unfold RunM.tell
  split <;> rfl

/-- What a run does once its call is set up. -/
lemma Script.runOn_of_prepare {fuel : Nat} {m m₁ : Machine} {call : CompiledCall} {action : Action}
    (h : prepare moduleName name argument m = (.ok (call, action), m₁)) :
    (runOn fuel moduleName name argument m).1 =
      match Machine.execute fuel (action.andThen .deepen)
        (RunM.tell (fun _ => .started call.callable) m₁).2 with
      | (none, _) => none
      | (some (.error p), _) => some (.error p)
      | (some (.ok a), m₂) =>
        match m₂.store.memory.treeAt a with
        | some t => some (.ok t)
        | none => some (.error (((Problem.mk .nonEvaluatedValue (m₂.store.memory.sourceOf a) []).set
            "module" moduleName).set "constant" name)) := by
  unfold runOn
  rw [RunM.run_bind, h]
  dsimp only
  rw [RunM.run_bind, RunM.run_bind]
  generalize Machine.execute fuel (action.andThen .deepen)
    (RunM.tell (fun _ => .started call.callable) m₁).2 = r
  obtain ⟨o, m₂⟩ := r
  cases o with
  | none => rfl
  | some o =>
    cases o with
    | error q => rfl
    | ok a =>
      dsimp only
      rw [RunM.run_bind, RunM.run_bind]
      show ((match (RunM.tell _ m₂).2.store.memory.treeAt a with
        | some t => pure (some (.ok t))
        | none => pure (some (.error (((Problem.mk .nonEvaluatedValue
            ((RunM.tell _ m₂).2.store.memory.sourceOf a) []).set _ _).set _ _))) :
          RunM (Option (Outcome Tree))) _).1 = _
      rw [RunM.memory_tell]
      cases m₂.store.memory.treeAt a <;> rfl

lemma Script.runOn_eq_ok_iff {fuel : Nat} {m m₁ : Machine} {call : CompiledCall} {action : Action}
    (h : prepare moduleName name argument m = (.ok (call, action), m₁)) {v : Tree} :
    (runOn fuel moduleName name argument m).1 = some (.ok v) ↔ ∃ a m₂,
      Machine.execute fuel (action.andThen .deepen)
        (RunM.tell (fun _ => .started call.callable) m₁).2 = (some (.ok a), m₂) ∧
      m₂.store.memory.treeAt a = some v := by
  rw [runOn_of_prepare h]
  generalize Machine.execute fuel (action.andThen .deepen)
    (RunM.tell (fun _ => .started call.callable) m₁).2 = r
  constructor
  · intro hv
    split at hv
    · cases hv
    · cases hv
    · next a m₂ =>
      split at hv
      · next t ht =>
        cases hv
        exact ⟨a, m₂, rfl, ht⟩
      · cases hv
  · rintro ⟨a, m₂, rfl, htree⟩
    dsimp only
    rw [htree]

lemma Script.runOn_of_error {fuel : Nat} {m m₁ : Machine} {q : Problem}
    (h : prepare moduleName name argument m = (.error q, m₁)) :
    (runOn fuel moduleName name argument m).1 = some (.error q) := by
  unfold runOn
  rw [RunM.run_bind, h]
  rfl

lemma Script.runOn_mono {fuel fuel' : Nat} (hle : fuel ≤ fuel') {m : Machine} {o : Outcome Tree}
    (h : (runOn fuel moduleName name argument m).1 = some o) :
    (runOn fuel' moduleName name argument m).1 = some o := by
  rcases hr : prepare moduleName name argument m with ⟨_ | ⟨call, action⟩, m₁⟩
  · rw [runOn_of_error hr] at h ⊢
    exact h
  · rw [runOn_of_prepare hr] at h ⊢
    rcases hexecute : Machine.execute fuel (action.andThen .deepen)
      (RunM.tell (fun _ => .started call.callable) m₁).2 with ⟨_ | r, m₂⟩
    · rw [hexecute] at h
      cases h
    · rw [hexecute] at h
      rw [show Machine.execute fuel' (action.andThen .deepen) _ = _ from takeTurns_mono hle hexecute]
      exact h

lemma Script.exists_error_of_any {r : Option (Outcome Tree)} (h : r.any (!·.isOk) = true) :
    ∃ p, r = some (.error p) := by
  obtain _ | p | v := r
  · cases h
  · exact ⟨p, rfl⟩
  · cases h

lemma Script.run_ne_ok_of_error {fuel : Nat} {p : Problem}
    (h : (s.run fuel moduleName name argument none).1 = some (.error p)) (fuel' : Nat) (v : Tree) :
    (s.run fuel' moduleName name argument none).1 ≠ some (.ok v) := by
  rw [run_fst] at h ⊢
  intro hok
  cases (runOn_mono (le_max_left ..) h).symm.trans (runOn_mono (le_max_right ..) hok)

/-- **Runs give what functions mean.** A script that was loaded with the standard opcodes, and whose
types are consistent, runs a function on an argument to a value exactly if that is the value which
evaluation by name gives the function for the argument. -/
theorem Script.runs_give_meaning {natives : List Ty} {l : Loader} {modules : List Module}
    (hl : Loader.make Standard.opcodes natives = .ok l) (hs : Script.load l modules = .ok s)
    (hc : s.Consistent modules)
    (hargument : ∀ f, (Stored.record argument).Holds f → f.Conforms s.types) (v : Tree) :
    (∃ fuel, (s.run fuel moduleName name argument none).1 = some (.ok v)) ↔
      ∃ fuel, s.meaning fuel moduleName name argument = some v := by
  obtain ⟨hg, hm⟩ := loaded_spec hl hs hc
  have hprepared : s.Prepared moduleName name argument _ := prepare_spec hg hm hargument
  simp only [run_fst]
  generalize hr : prepare moduleName name argument (s.machine none) = r at hprepared
  obtain ⟨o, m⟩ := r
  cases o with
  | error q =>
    simp only [runOn_of_error hr]
    exact ⟨nofun, fun ⟨fuel, h⟩ => absurd h (hprepared fuel v)⟩
  | ok e =>
    obtain ⟨call, action⟩ := e
    obtain ⟨hsetting, p, terms, result, t, rfl, hp, hmodels, hstands, hmeaning⟩ := hprepared
    obtain ⟨htell, htells⟩ := hmodels.tell fun _ => .started call.callable
    have htoken : (RunM.tell (fun _ => .started call.callable) m).2.setting.token = none := by
      rw [(Tame.tell _ m).2, hsetting]
      rfl
    simp only [runOn_eq_ok_iff hr, hmeaning]
    exact execute_iff_unfolds hp htell htoken (htells.stands hstands)

/-! ### A sum with a call among its terms -/

/-- Whether the cells of a callable conform to a registry. -/
def Callable.conforms (f : Callable) (reg : Registry) : Bool :=
  f.cells.all fun e => reg.holdsAll e.2.type &&
    match e.2.kind with
    | .opcode _ _ explicit => explicit.all fun b => reg.holdsAll b.2
    | .structured _ => !e.2.type.isRuntimeDetermined
    | _ => true

lemma Callable.conforms_of_check {reg : Registry} {f : Callable} (h : f.conforms reg = true) :
    f.Conforms reg := by
  have entry : ∀ {i cell}, f.cell? i = some cell → _ := fun hcell =>
    List.all_eq_true.mp h _ (KeyMap.mem_of_get? hcell)
  refine ⟨fun i cell hcell => ?_, fun i cell mnemonic arguments explicit hcell hkind id t ht => ?_,
    fun i cell members hcell hkind => ?_⟩
  · exact Registry.holdsAll_iff.mp (Bool.and_eq_true_iff.mp (entry hcell)).1
  · have hexplicit := (Bool.and_eq_true_iff.mp (entry hcell)).2
    simp only [hkind] at hexplicit
    exact Registry.holdsAll_iff.mp (List.all_eq_true.mp hexplicit _ (KeyMap.mem_of_get? ht))
  · have hclosed := (Bool.and_eq_true_iff.mp (entry hcell)).2
    simp only [hkind] at hclosed
    exact Bool.not_eq_true' _ ▸ hclosed

lemma Script.consistent_of_check {s : Script} {modules : List Module}
    (htypes : ∀ e ∈ s.types.types, '!' ∉ e.2.name.toList ∧ '[' ∉ e.2.name.toList ∧
      s.types.holdsAll e.2 = true)
    (hconstants : ∀ md ∈ modules, ∀ e ∈ md.constants, s.types.holdsAll e.2.type = true)
    (hcallables : ∀ md ∈ modules, ∀ e ∈ md.constants, ∀ f, e.2.value.Holds f →
      f.conforms s.types = true) : s.Consistent modules where
  unmarked := Registry.unmarked_of_all fun e he => (htypes e he).1
  unbracketed := fun _ _ ht => (htypes _ (KeyMap.mem_of_get? ht)).2.1
  coherent := Registry.coherent_of_all fun e he => (htypes e he).2.2
  constants := fun md hmd e he => Registry.holdsAll_iff.mp (hconstants md hmd e he)
  callables := fun md hmd e he f hf => Callable.conforms_of_check (hcallables md hmd e he f hf)

namespace Script.Sample

def nothing : Ty := .structured "nothing" none []

def function : Ty := .callable "function" none (.inline nothing) (.inline Standard.integer)

def arguments : Ty :=
  .structured "arguments" none [("f", .inline function), ("n", .inline Standard.integer)]

def key : Ty := .keyOf "key" none (.inline arguments)

def integers : Ty := .iterable "integers" none (.inline Standard.integer) .finite

/-- Adds two constants. -/
def adding : Callable where
  cells := [(0, ⟨.opcode "iadd" [2, 3] [], Standard.integer, none⟩), (1, .external "x" nothing),
    (2, .constant "m" "first" Standard.integer), (3, .constant "m" "second" Standard.integer)]

/-- Sums what the function in its argument gives and, twice, the integer in its argument. The call is
a term of the sum and is evaluated when the sum comes to it. -/
def summing : Callable where
  cells := [(0, ⟨.opcode "isum" [2, 3] [], Standard.integer, none⟩), (1, .external "x" arguments),
    (2, ⟨.iterable [4, 3], integers, none⟩), (3, ⟨.opcode "kload" [1, 5] [], Standard.integer, none⟩),
    (4, ⟨.call 6 7, Standard.integer, none⟩), (5, .constant "m" "n-key" key),
    (6, ⟨.opcode "kload" [1, 8] [], function, none⟩), (7, ⟨.structured [], nothing, none⟩),
    (8, .constant "m" "f-key" key)]

def sums : Module where
  name := "m"
  constants := [("f-key", ⟨key, .key "f", none⟩), ("first", ⟨Standard.integer, .native (.int 13), none⟩),
    ("main", ⟨.callable "main" none (.inline arguments) (.inline Standard.integer),
      .callable summing, none⟩),
    ("n-key", ⟨key, .key "n", none⟩), ("second", ⟨Standard.integer, .native (.int 32), none⟩)]

def given : KeyMap String Stored := [("f", .callable adding), ("n", .native (.int 26))]

/-- The script of the one module. -/
def loaded : Except (List Problem) Script :=
  (Loader.make Standard.opcodes Standard.natives).bind fun l => load l [sums]

def script : Script := loaded.toOption.getD ⟨[], [], {}, {}, .initial, [], .nothing, []⟩

def isInteger (i : Int64) : Option Tree → Bool
  | some (.native (.int j)) => i == j
  | _ => false

lemma eq_of_isInteger {i : Int64} {t : Option Tree} (h : isInteger i t = true) :
    t = some (.native (.int i)) := by
  unfold isInteger at h
  split at h
  · rw [eq_of_beq h]
  · cases h

/-- What a run comes to, if it succeeds. -/
def value? (r : Option (Outcome Tree)) : Option Tree := r.bind Except.toOption

lemma eq_of_value? {r : Option (Outcome Tree)} {v : Tree} (h : value? r = some v) :
    r = some (.ok v) := by
  obtain _ | _ | w := r <;> cases h
  rfl

lemma checked : loaded.isOk = true ∧
    (∀ e ∈ script.types.types, '!' ∉ e.2.name.toList ∧ '[' ∉ e.2.name.toList ∧
      script.types.holdsAll e.2 = true) ∧
    (∀ e ∈ sums.constants, script.types.holdsAll e.2.type = true) ∧
    summing.conforms script.types = true ∧ adding.conforms script.types = true ∧
    isInteger 97 (script.meaning 20 "m" "main" given) = true := by
  decide +kernel

lemma exists_load {opcodes : List Opcode} {natives : List Ty} {modules : List Module} {d : Script}
    (h : ((Loader.make opcodes natives).bind fun l => load l modules).isOk = true) :
    ∃ l, Loader.make opcodes natives = .ok l ∧ load l modules =
      .ok (((Loader.make opcodes natives).bind fun l => load l modules).toOption.getD d) := by
  cases hl : Loader.make opcodes natives with
  | error found =>
    rw [hl] at h
    cases h
  | ok l =>
    rw [hl] at h
    refine ⟨l, rfl, ?_⟩
    change (load l modules).isOk = true at h
    show load l modules = .ok ((load l modules).toOption.getD d)
    cases hs : load l modules with
    | error found =>
      rw [hs] at h
      cases h
    | ok s => rfl

lemma exists_loader :
    ∃ l, Loader.make Standard.opcodes Standard.natives = .ok l ∧ load l [sums] = .ok script :=
  exists_load checked.1

lemma consistent : script.Consistent [sums] := by
  obtain ⟨-, htypes, hconstants, hcallable, -⟩ := checked
  refine consistent_of_check htypes (List.forall_mem_singleton.mpr hconstants)
    (List.forall_mem_singleton.mpr fun e he f hf => ?_)
  simp only [sums, List.mem_cons, List.not_mem_nil, or_false] at he
  rcases he with rfl | rfl | rfl | rfl | rfl <;> cases hf
  exact hcallable

end Script.Sample

/-- The sum with a call among its terms: the function that is called comes with the argument. -/
theorem Script.sum_of_call_means_integer : ∃ l s,
    Loader.make Standard.opcodes Standard.natives = .ok l ∧ load l [Sample.sums] = .ok s ∧
    s.Consistent [Sample.sums] ∧
    (∀ f, (Stored.record Sample.given).Holds f → f.Conforms s.types) ∧
    ∃ fuel, (s.run fuel "m" "main" Sample.given none).1 = some (.ok (.native (.int 97))) := by
  obtain ⟨l, hl, hloaded⟩ := Sample.exists_loader
  obtain ⟨-, -, -, -, hadding, hvalue⟩ := Sample.checked
  have hgiven : ∀ f, (Stored.record Sample.given).Holds f → f.Conforms Sample.script.types := by
    rintro f (_ | _ | ⟨he, hf⟩)
    simp only [Sample.given, List.mem_cons, List.not_mem_nil, or_false] at he
    rcases he with rfl | rfl <;> cases hf
    exact Callable.conforms_of_check hadding
  refine ⟨l, Sample.script, hl, hloaded, Sample.consistent, hgiven, ?_⟩
  exact (runs_give_meaning hl hloaded Sample.consistent hgiven _).mpr
    ⟨20, Sample.eq_of_isInteger hvalue⟩

/-! ### Types that arguments bring along

A type that an argument brings along is not registered. A verdict on its name is kept like any other,
and another callable of the argument may use the name for another type.
-/

namespace Program

variable {p : Program}

/-- Whether one of the next calls on the way to the value of a term is of a function that does not
compile, or not for its argument. -/
def refuses (p : Program) : Nat → Term → Bool
  | n + 1, .cell f x i =>
    match (f.cell? i).map Cell.kind with
    | some (.call callable argument) =>
      match p.head 20 (p.reference f x callable) with
      | some (.callable c) =>
        !p.accepts c (p.typeOf (p.reference f x callable)) (p.typeOf (p.reference f x argument)) ||
          p.refuses n (p.reference c (p.reference f x argument) Callable.resultCell)
      | _ => false
    | _ => false
  | _, _ => false

lemma head_eq_none_of_refuses {n : Nat} {t : Term} (h : p.refuses n t = true) (fuel : Nat) :
    p.head fuel t = none := by
  -- on the calls: the one that is refused has no value, so neither has what calls it
  induction n generalizing t fuel with
  | zero => cases t <;> cases h
  | succ n ih =>
    cases t with
    | slot a => cases h
    | combined mnemonic type left right => cases h
    | cell f x i =>
      cases fuel with
      | zero => rw [head]
      | succ fuel =>
        rw [refuses] at h
        split at h
        · next callable argument hcell =>
          obtain ⟨cell, hcell, hkind⟩ := Option.map_eq_some_iff.mp hcell
          split at h
          · next c hc =>
            refine Option.eq_none_iff_forall_ne_some.mpr fun v hv => ?_
            rw [head_succ, headStep, hcell, Option.bind_some] at hv
            obtain ⟨c', hc', haccepts, hv⟩ := (ofCell_call_iff hkind).mp hv
            cases Yields.unique ⟨_, hc⟩ ⟨_, hc'⟩
            rw [haccepts, Bool.not_true, Bool.false_or] at h
            cases (ih h fuel).symm.trans hv
          · cases h
        · cases h

lemma tree_eq_none_of_refuses {n : Nat} {t : Term} (h : p.refuses n t = true) (fuel : Nat) :
    p.tree fuel t = none := by
  cases fuel with
  | zero => rw [tree]
  | succ fuel => rw [tree_succ, head_eq_none_of_refuses h, Option.bind_none]

end Program

namespace Script

/-- The term that a function stands for when it is given an argument, and what is read to evaluate it. -/
def opening (s : Script) (moduleName name : String) (argument : KeyMap String Stored) :
    Option (Program × Term) := do
  let index ← s.memory.lookup moduleName name
  let f ← (s.memory.value? (.at index)).bind Value.asCallable?
  let (expected, _) ← (s.program s.memory).signature? (s.memory.typeOf (.at index))
  match Conversion.convert s.types (argumentsCell expected) (.record argument) s.memory with
  | (.error _, _) => none
  | (.ok a, memory) =>
    some (s.program memory, (s.program memory).reference f (.slot a) Callable.resultCell)

lemma exists_opening {fuel : Nat} {v : Tree} (h : s.meaning fuel moduleName name argument = some v) :
    ∃ p t, s.opening moduleName name argument = some (p, t) ∧ p.tree fuel t = some v := by
  obtain ⟨index, f, expected, result, a, memory, hindex, hvalue, hsig, hconvert, -, htree⟩ :=
    meaning_eq_some_iff.mp h
  refine ⟨_, _, ?_, htree⟩
  change (s.program s.memory).signature? (s.memory.typeOf (.at index)) = some (expected, result) at hsig
  simp only [opening, hindex, hvalue, hsig, Option.bind_eq_bind, Option.bind_some, Value.asCallable?,
    hconvert]

namespace Visiting

def entry : Ty := .structured "A" none [("k", .inline Standard.integer)]

def thunk : Ty := .callable "thunk" none (.inline Sample.nothing) (.inline entry)

/-- Two types of one name, which no module writes down. Only the second has the member that a
function's result must have. -/
def narrow : Ty := .structured "Z" none []

def wide : Ty := .structured "Z" none [("k", .inline Standard.integer)]

/-- Gives the constant record, written with another type. -/
def giving (type : Ty) : Callable where
  cells := [(0, .constant "m" "a" type), (1, .external "arguments" Sample.nothing)]

def inner : Ty := .structured "inner" none [("g", .inline thunk)]

def relay : Ty := .callable "relay" none (.inline inner) (.inline entry)

def outer : Ty := .structured "outer" none [("f", .inline relay), ("g", .inline thunk)]

def innerKey : Ty := .keyOf "inner-key" none (.inline inner)

def outerKey : Ty := .keyOf "outer-key" none (.inline outer)

/-- Calls a member of its argument with the argument, and gives what that gives as of a type. -/
def asking (keyName : String) (argument key member type : Ty) : Callable where
  cells := [(0, ⟨.call 2 1, type, none⟩), (1, .external "arguments" argument),
    (2, ⟨.opcode "kload" [1, 3] [], member, none⟩), (3, .constant "m" keyName key)]

def asks : Module where
  name := "m"
  constants := [("a", ⟨entry, .record [("k", .native (.int 7))], none⟩),
    ("f", ⟨outerKey, .key "f", none⟩), ("g", ⟨innerKey, .key "g", none⟩),
    ("main", ⟨.callable "main" none (.inline outer) (.inline entry),
      .callable (asking "f" outer outerKey relay entry), none⟩)]

/-- The function asks the first of the two callables, which asks the second. -/
def visitors : KeyMap String Stored :=
  [("f", .callable (asking "g" inner innerKey thunk wide)), ("g", .callable (giving narrow))]

def asked : Except (List Problem) Script :=
  (Loader.make Standard.opcodes Standard.natives).bind fun l => load l [asks]

def host : Script := asked.toOption.getD ⟨[], [], {}, {}, .initial, [], .nothing, []⟩

lemma asked_checked : asked.isOk = true ∧
    (∀ e ∈ host.types.types, '!' ∉ e.2.name.toList ∧ '[' ∉ e.2.name.toList ∧
      host.types.holdsAll e.2 = true) ∧
    (∀ e ∈ asks.constants, host.types.holdsAll e.2.type = true) ∧
    (asking "f" outer outerKey relay entry).conforms host.types = true ∧
    (Sample.value? (host.run 80 "m" "main" visitors none).1).isSome = true ∧
    (host.opening "m" "main" visitors).any (fun e => e.1.refuses 2 e.2) = true := by
  decide +kernel

end Visiting

/-- **A run can succeed without a meaning**: its argument brings along two types of one name. The callable
that is asked first has the wide type, and leaves a verdict on the name; the one that is asked second has
the narrow type and should not compile, but gets the verdict of the first. -/
theorem run_of_visitors_means_nothing : ∃ l s,
    Loader.make Standard.opcodes Standard.natives = .ok l ∧ load l [Visiting.asks] = .ok s ∧
    s.Consistent [Visiting.asks] ∧
    (∃ fuel v, (s.run fuel "m" "main" Visiting.visitors none).1 = some (.ok v)) ∧
    ∀ fuel, s.meaning fuel "m" "main" Visiting.visitors = none := by
  obtain ⟨hloaded, htypes, hconstants, hcallable, hrun, hrefuses⟩ := Visiting.asked_checked
  obtain ⟨l, hl, hs⟩ : ∃ l, Loader.make Standard.opcodes Standard.natives = .ok l ∧
      load l [Visiting.asks] = .ok Visiting.host := Sample.exists_load hloaded
  have hc : Visiting.host.Consistent [Visiting.asks] := by
    refine consistent_of_check htypes (List.forall_mem_singleton.mpr hconstants)
      (List.forall_mem_singleton.mpr fun e he f hf => ?_)
    simp only [Visiting.asks, List.mem_cons, List.not_mem_nil, or_false] at he
    rcases he with rfl | rfl | rfl | rfl
    · obtain _ | _ | ⟨he, hf⟩ := hf
      simp only [List.mem_cons, List.not_mem_nil, or_false] at he
      subst he
      cases hf
    · cases hf
    · cases hf
    · cases hf
      exact hcallable
  obtain ⟨v, hv⟩ := Option.isSome_iff_exists.mp hrun
  obtain ⟨⟨p, t⟩, hopening, hrefuses⟩ := (Option.any_eq_true _ _).mp hrefuses
  refine ⟨l, _, hl, hs, hc, ⟨80, v, Sample.eq_of_value? hv⟩, fun fuel => ?_⟩
  refine Option.eq_none_iff_forall_ne_some.mpr fun w hw => ?_
  obtain ⟨_, _, hopening', htree⟩ := exists_opening hw
  cases hopening.symm.trans hopening'
  cases (Program.tree_eq_none_of_refuses hrefuses fuel).symm.trans htree

end Script

end CellMachine
