import CellMachine.Proofs.Meaning.Opcodes
import CellMachine.Proofs.Twins.Machines

/-!
The standard opcodes on stores that differ in what they remember. All but one only read memory; the one
that loads constants asks whether types match, and is told the same whatever was asked before.
-/

namespace CellMachine

/-- A computation that reads memory and nothing else, and changes nothing. -/
def Reads {α : Type} (P : α → Prop) (x : StoreM α) : Prop :=
  ∀ m, ∃ a, P a ∧ ∀ s : Store, s.memory = m → x s = (a, s)

namespace Reads

variable {α β : Type} {P : α → Prop} {Q : β → Prop}

lemma pure {a : α} (h : P a) : Reads P (pure a) := fun _ => ⟨a, h, fun _ _ => rfl⟩

lemma bind {x : StoreM α} {f : α → StoreM β} (hx : Reads P x) (hf : ∀ a, P a → Reads Q (f a)) :
    Reads Q (x >>= f) := by
  intro m
  obtain ⟨a, ha, hx⟩ := hx m
  obtain ⟨b, hb, hf⟩ := hf a ha m
  refine ⟨b, hb, fun s hs => ?_⟩
  rw [StoreM.run_bind, hx s hs]
  exact hf s hs

lemma memory : Reads (fun _ => True) StoreM.memory := fun m => ⟨m, trivial, by rintro s rfl; rfl⟩

lemma value? (a : Address) : Reads (fun _ => True) (StoreM.value? a) :=
  fun m => ⟨m.value? a, trivial, by rintro s rfl; rfl⟩

lemma sourceOf (a : Address) : Reads (fun _ => True) (StoreM.sourceOf a) :=
  fun m => ⟨m.sourceOf a, trivial, by rintro s rfl; rfl⟩

lemma typeOf (a : Address) : Reads (fun _ => True) (StoreM.typeOf a) :=
  fun m => ⟨m.typeOf a, trivial, by rintro s rfl; rfl⟩

lemma attempt {P : Outcome α → Prop} {Q : Outcome β → Prop} {x : Attempt α} {f : α → Attempt β}
    (hx : Reads P x.run) (herror : ∀ p, Q (.error p)) (hf : ∀ a, P (.ok a) → Reads Q (f a).run) :
    Reads Q (x >>= f).run := by
  rw [ExceptT.run_bind]
  refine hx.bind fun o ho => ?_
  cases o with
  | ok a => exact hf a ho
  | error p => exact .pure (herror p)

lemma lift {x : StoreM α} (hx : Reads P x) :
    Reads (fun o : Outcome α => ∀ a, o = .ok a → P a) (liftM x : Attempt α).run := by
  refine hx.bind (Q := fun o : Outcome α => ∀ a, o = .ok a → P a) fun a ha => .pure ?_
  rintro _ ⟨⟩
  exact ha

end Reads

lemma Build.reads_ropeOf (a : Address) : Reads (fun _ => True) (Build.ropeOf a).run := by
  have hvalue : Reads (fun _ : Outcome Value => True) (Build.evaluated a).run := by
    refine (Reads.lift (.value? a)).attempt (fun _ => trivial) fun v _ => ?_
    cases v with
    | some v => exact .pure trivial
    | none =>
      refine (Reads.lift (.sourceOf a)).attempt (fun _ => trivial) fun source _ => ?_
      exact (Reads.lift (.typeOf a)).attempt (fun _ => trivial) fun type _ => .pure trivial
  refine hvalue.attempt (fun _ => trivial) fun v _ => ?_
  cases v with
  | iterable items => exact .pure trivial
  | _ =>
    exact (Reads.lift (.sourceOf a)).attempt (fun _ => trivial) fun source _ => .pure trivial

namespace Tandem

variable {T : Tandem} {config : Config} {m n : Machine} {α β : Type}

/-- A computation on either of two stores with one memory. The results are related, and nothing is
changed but what is remembered of types. -/
def Consulted (T : Tandem) (memory : Memory) (x y : StoreM α) (R : α → α → Prop) : Prop :=
  ∀ s s', s.memory = memory → s'.memory = memory → T.types.Recalls s.types →
    T.types.Recalls s'.types → R (x s).1 (y s').1 ∧ ∃ types types', T.types.Recalls types ∧
      T.types.Recalls types' ∧ (x s).2 = { s with types } ∧ (y s').2 = { s' with types := types' }

namespace Consulted

variable {memory : Memory} {x y : StoreM α} {P R : α → α → Prop} {Q : β → β → Prop}

lemma pure {a b : α} (h : R a b) : T.Consulted memory (pure a) (pure b) R :=
  fun _ _ _ _ ht ht' => ⟨h, _, _, ht, ht', rfl, rfl⟩

lemma bind {f g : α → StoreM β} (hx : T.Consulted memory x y R)
    (hf : ∀ a b, R a b → T.Consulted memory (f a) (g b) Q) :
    T.Consulted memory (x >>= f) (y >>= g) Q := by
  intro s s' hs hs' ht ht'
  obtain ⟨hR, types, types', h₁, h₁', heq, heq'⟩ := hx s s' hs hs' ht ht'
  obtain ⟨hQ, types₂, types₂', h₂, h₂', heq₂, heq₂'⟩ := hf _ _ hR (x s).2 (y s').2
    (by rw [heq]; exact hs) (by rw [heq']; exact hs') (by rw [heq]; exact h₁)
    (by rw [heq']; exact h₁')
  refine ⟨hQ, types₂, types₂', h₂, h₂', ?_, ?_⟩
  · rw [StoreM.run_bind, heq₂, heq]
  · rw [StoreM.run_bind, heq₂', heq']

lemma ofMemory {f g : Memory → StoreM β} (hf : T.Consulted memory (f memory) (g memory) Q) :
    T.Consulted memory (StoreM.memory >>= f) (StoreM.memory >>= g) Q := by
  rintro s s' rfl hs' ht ht'
  have heq : (StoreM.memory >>= g) s' = g s.memory s' := by
    rw [StoreM.run_bind, StoreM.run_memory, hs']
  rw [heq]
  exact hf s s' rfl hs' ht ht'

lemma of_reads {P : α → Prop} (hx : Reads P x) (hR : ∀ a, P a → R a a) :
    T.Consulted memory x x R := by
  intro s s' hs hs' ht ht'
  obtain ⟨a, ha, heq⟩ := hx memory
  rw [heq s hs, heq s' hs']
  exact ⟨hR a ha, s.types, s'.types, ht, ht', rfl, rfl⟩

lemma of_types {f : Registry → α × Registry}
    (hf : ∀ types types', T.types.Recalls types → T.types.Recalls types' →
      R (f types).1 (f types').1 ∧ T.types.Recalls (f types).2 ∧ T.types.Recalls (f types').2) :
    T.Consulted memory (fun s => ((f s.types).1, { s with types := (f s.types).2 }))
      (fun s => ((f s.types).1, { s with types := (f s.types).2 })) R :=
  fun s s' _ _ ht ht' =>
    ⟨(hf s.types s'.types ht ht').1, _, _, (hf _ _ ht ht').2.1, (hf _ _ ht ht').2.2, rfl, rfl⟩

end Consulted

lemma Alongside.store (h : T.Twin config m n) {x y : StoreM α} {R : α → α → Prop}
    (hx : T.Consulted m.store.memory x y R) :
    T.Alongside config m n (RunM.store x) (RunM.store y) R := by
  obtain ⟨hR, types, types', ht, ht', heq, heq'⟩ :=
    hx m.store n.store rfl h.memory h.recalls.1 h.recalls.2
  refine ⟨?_, hR⟩
  rw [RunM.run_store, RunM.run_store, heq, heq']
  exact h.withTypes ht ht'

lemma Alongside.checking (h : T.Twin config m n) {asked : Config → Bool} {x : StoreM (List Problem)}
    (hx : T.Consulted m.store.memory x x fun found found' => found = [] ↔ found' = []) :
    T.Alongside config m n (RunM.checking asked x) (RunM.checking asked x)
      fun found found' => found = [] ↔ found' = [] := by
  rw [Alongside, RunM.checking, RunM.checking, h.left.config, h.right.config]
  split
  · exact Alongside.store h hx
  · exact ⟨h, Iff.rfl⟩

lemma consulted_matchTypes (hT : T.Sound) {memory : Memory} (source : Option Position) {a e : Ty}
    (ha : T.types.Agrees a) (he : T.types.Agrees e) :
    T.Consulted memory (StoreM.matchTypes source a (some e)) (StoreM.matchTypes source a (some e))
      (Accord fun _ => True) := by
  refine Consulted.of_types (f := fun types => types.matchTypes source a (some e))
    fun types types' ht ht' => ?_
  obtain ⟨hiff, hrecalls⟩ := ht.matchTypes hT.around.tidy (.inl ha) (.inl he) source
  obtain ⟨hiff', hrecalls'⟩ := ht'.matchTypes hT.around.tidy (.inl ha) (.inl he) source
  exact ⟨.of_iff (hiff.trans hiff'.symm), hrecalls, hrecalls'⟩

/-- Two results that are the same, or both failures. A value is no callable, and nothing is folded with
a function. -/
inductive EqualResult : Result → Result → Prop
  | value {v : Value} (h : ∀ c, v ≠ .callable c) : EqualResult (.value v) (.value v)
  | lazy (a : Address) : EqualResult (.lazy a) (.lazy a)
  | reduce (mnemonic : String) (context : Option Address) (items initial : Address) :
    EqualResult (.reduce (.opcode mnemonic context items initial))
      (.reduce (.opcode mnemonic context items initial))
  | error (p q : Problem) : EqualResult (.error p) (.error q)

end Tandem

namespace Standard

open Tandem

variable {T : Tandem} {memory : Memory} {f : Frame}

/-- What an opcode that only reads comes to. -/
def Plain (r : Result) : Prop := EqualResult r r

lemma plain_refuse (problems : List Problem) : Plain (refuse f problems) := .error _ _

section Binary

variable {α : Type} {mnemonic place : String} {type : Ty}
  {read : Frame → Memory → Nat → Option α} {combine : α → α → Value}

lemma reads_binary (hcombine : ∀ x y, ∃ n, combine x y = .native n) (f : Frame) :
    Reads Plain ((binary mnemonic place type read combine).evaluate f) := by
  refine Reads.memory.bind fun m _ => ?_
  split
  · next x y _ _ =>
    obtain ⟨n, hn⟩ := hcombine x y
    exact .pure (.value fun c hc => by rw [hn] at hc; cases hc)
  · exact .pure (plain_refuse _)

end Binary

lemma reads_sum {mnemonic place adding : String} {type : Ty} (f : Frame) :
    Reads Plain ((sum mnemonic place adding type).evaluate f) := by
  simp only [sum]
  split
  · exact .pure (.reduce _ _ _ _)
  · exact .pure (.error _ _)

lemma reads_peek (f : Frame) : Reads Plain (peek.evaluate f) := by
  refine Reads.memory.bind fun m _ => ?_
  split
  · exact .pure (.error _ _)
  · split
    · exact .pure (.lazy _)
    · exact .pure (.error _ _)

lemma reads_getKey (f : Frame) : Reads Plain (getKey.evaluate f) := by
  refine Reads.memory.bind fun m _ => ?_
  split
  · exact .pure (.error _ _)
  · split
    · exact .pure (.error _ _)
    · split
      · exact .pure (.lazy _)
      · exact .pure (.error _ _)

lemma reads_slice (f : Frame) : Reads Plain (slice.evaluate f) := by
  have part : ∀ list low high, Reads (fun o => Plain (.ofOutcome o)) (Build.sub list low high).run := by
    intro list low high
    refine (Build.reads_ropeOf list).attempt (fun _ => .error _ _) fun r _ => ?_
    cases hr : r.sub low high with
    | ok r' => exact .pure (.value nofun)
    | error p => exact .pure (.error _ _)
  refine Reads.memory.bind fun m _ => ?_
  split
  · split
    · split
      · exact .pure (plain_refuse _)
      · split
        · exact (part _ _ _).bind fun o ho => .pure ho
        · exact .pure (.value nofun)
    · exact .pure (plain_refuse _)
  · exact .pure (.error _ _)

lemma reads_evaluate {op : Opcode} (hop : op ∈ opcodes) (f : Frame) :
    op = loadConst ∨ Reads Plain (op.evaluate f) := by
  simp only [opcodes, List.mem_cons, List.not_mem_nil, or_false] at hop
  rcases hop with rfl | rfl | rfl | rfl | rfl | rfl | rfl | rfl | rfl
  · exact .inr (reads_binary (fun _ _ => ⟨_, rfl⟩) f)
  · exact .inr (reads_binary (fun _ _ => ⟨_, rfl⟩) f)
  · exact .inr (reads_sum f)
  · exact .inr (reads_sum f)
  · exact .inr (reads_binary (fun _ _ => ⟨_, rfl⟩) f)
  · exact .inr (reads_peek f)
  · exact .inr (reads_slice f)
  · exact .inr (reads_getKey f)
  · exact .inl rfl

section Checks

variable (hT : T.Sound) (hmodules : f.modules = T.modules) (hresult : T.types.Agrees f.resultType)

include hT hmodules hresult

lemma consulted_checkNames : T.Consulted memory (StoreM.check (checkNames f))
    (StoreM.check (checkNames f)) fun found found' => found = [] ↔ found' = [] := by
  rintro s s' hs hs' ht ht'
  obtain ⟨hiff, hrecalls, hrecalls'⟩ := checkNames_agree (m := memory) hT.around.tidy
    (hmodules ▸ hT.modules) hresult ht ht'
  rw [StoreM.run_check, StoreM.run_check, hs, hs']
  exact ⟨hiff, _, _, hrecalls, hrecalls', rfl, rfl⟩

lemma consulted_findConstant (moduleName name : String) : T.Consulted memory
    (fun s => ((findConstant f moduleName name s.types).1,
      { s with types := (findConstant f moduleName name s.types).2 }))
    (fun s => ((findConstant f moduleName name s.types).1,
      { s with types := (findConstant f moduleName name s.types).2 })) (Accord fun _ => True) := by
  refine .of_types fun types types' ht ht' => ?_
  obtain ⟨hiff, hrecalls⟩ := findConstant_agree hT.around.tidy rfl rfl (hmodules ▸ hT.modules) hresult
    ht ht' moduleName name
  exact ⟨.of_iff hiff, hrecalls⟩

lemma consulted_loadConst :
    T.Consulted memory (loadConst.evaluate f) (loadConst.evaluate f) EqualResult := by
  refine .ofMemory ?_
  split
  · next moduleName name _ _ =>
    refine (consulted_findConstant hT hmodules hresult moduleName name).bind fun o o' ho => ?_
    cases ho with
    | error p q => exact .pure (.error p q)
    | ok _ =>
      dsimp only
      split
      · exact .pure (.lazy _)
      · exact .pure (.error _ _)
  · exact (consulted_checkNames hT hmodules hresult).bind fun _ _ _ => .pure (.error _ _)

/-- **A standard opcode** comes to the same, whatever is remembered. -/
lemma consulted_evaluate {op : Opcode} (hop : op ∈ opcodes) :
    T.Consulted memory (op.evaluate f) (op.evaluate f) EqualResult := by
  rcases reads_evaluate hop f with rfl | hreads
  · exact consulted_loadConst hT hmodules hresult
  · exact .of_reads hreads fun _ => id

lemma consulted_runtimeCheck {op : Opcode} (hop : op ∈ opcodes) :
    T.Consulted memory (StoreM.check (op.runtimeCheck f)) (StoreM.check (op.runtimeCheck f))
      fun found found' => found = [] ↔ found' = [] := by
  have read : ∀ found : Memory → List Problem,
      T.Consulted memory (StoreM.check fun m => pure (found m)) (StoreM.check fun m => pure (found m))
        fun found found' => found = [] ↔ found' = [] := by
    rintro found s s' hs hs' ht ht'
    rw [StoreM.run_check, StoreM.run_check, hs, hs']
    exact ⟨Iff.rfl, _, _, ht, ht', rfl, rfl⟩
  simp only [opcodes, List.mem_cons, List.not_mem_nil, or_false] at hop
  rcases hop with rfl | rfl | rfl | rfl | rfl | rfl | rfl | rfl | rfl
  · exact read _
  · exact read _
  · exact read fun _ => []
  · exact read fun _ => []
  · exact read _
  · exact read fun _ => []
  · exact read _
  · exact read fun _ => []
  · exact consulted_checkNames hT hmodules hresult

end Checks

end Standard

end CellMachine
