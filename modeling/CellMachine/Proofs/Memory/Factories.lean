import CellMachine.Proofs.Memory.Changes
import CellMachine.Proofs.Memory.Updates

/-!
What the factories do to memory. Sequences, records and deferred calls are built of slots that are added
to memory, and a factory that fails has added slots at most. So opcodes that are made of factories develop
memory.
-/

namespace CellMachine

namespace Attempt

/-- A computation that adds slots at most, whether it fails or not. -/
def Adds {α : Type} (x : Attempt α) : Prop := ∀ s : Store, s.memory.Over (x.run s).2.memory

namespace Adds

variable {α β : Type} {x : Attempt α}

lemma of_memory (h : ∀ s : Store, (x.run s).2.memory = s.memory) : x.Adds := by
  intro s
  rw [h s]
  exact .refl _

lemma pure (a : α) : Adds (Pure.pure a) := of_memory fun _ => rfl

lemma fail (p : Problem) : Adds (Attempt.fail p : Attempt α) := of_memory fun _ => rfl

lemma ofOutcome (o : Outcome α) : Adds (Attempt.ofOutcome o) := of_memory fun _ => rfl

lemma bind {f : α → Attempt β} (hx : x.Adds) (hf : ∀ a, (f a).Adds) : (x >>= f).Adds := by
  intro s
  have hfirst := hx s
  rw [run_bind]
  rcases hr : x.run s with ⟨_ | b, s₁⟩
  · rw [hr] at hfirst
    exact hfirst
  · rw [hr] at hfirst
    exact hfirst.trans (hf b s₁)

lemma read {x : StoreM α} (hx : ∀ s : Store, (x s).2 = s) : Adds (liftM x : Attempt α) :=
  of_memory fun s => congrArg Store.memory (hx s)

lemma allocate (cell : Cell) (v : Option Value) :
    Adds (liftM (StoreM.allocate cell v) : Attempt Address) :=
  fun s => s.memory.over_allocate cell v

end Adds

end Attempt

namespace Build

open Attempt

/-! ### Sequences -/

lemma adds_evaluated (a : Address) : (evaluated a).Adds := by
  refine (Adds.read fun _ => rfl).bind fun v => ?_
  cases v with
  | some v => exact .pure v
  | none =>
    exact (Adds.read fun _ => rfl).bind fun source => (Adds.read fun _ => rfl).bind fun type => .fail _

lemma adds_ropeOf (a : Address) : (ropeOf a).Adds := by
  refine (adds_evaluated a).bind fun v => ?_
  cases v with
  | iterable items => exact .pure _
  | _ => exact (Adds.read fun _ => rfl).bind fun source => .fail _

lemma over_allocateItems (element : Ty) (i : Nat) (values : List Value) (s : Store) :
    s.memory.Over (allocateItems element i values s).2.memory := by
  induction values generalizing i s with
  | nil => exact .refl _
  | cons v values ih =>
    let cell := partCell ("iterable." ++ toString i) element
    have hrest := ih (i + 1) (StoreM.allocate cell (some v) s).2
    exact (s.memory.over_allocate cell (some v)).trans hrest

lemma adds_ofValues (values : List Value) (element : Ty) :
    Adds (liftM (ofValues values element) : Attempt Value) := over_allocateItems element 0 values

lemma adds_edit {a b : Address} {f : Rope Address → Rope Address → Attempt Value}
    (hf : ∀ r s, (f r s).Adds) : Adds (do f (← ropeOf a) (← ropeOf b)) :=
  (adds_ropeOf a).bind fun r => (adds_ropeOf b).bind fun s => hf r s

lemma adds_append (first second : Address) : (append first second).Adds :=
  adds_edit fun _ _ => .pure _

lemma adds_push (items item : Address) : (push items item).Adds :=
  (adds_ropeOf items).bind fun _ => .pure _

lemma adds_replace (items : Address) (index : Int) (item : Address) :
    (replace items index item).Adds :=
  (adds_ropeOf items).bind fun _ => (Adds.ofOutcome _).bind fun _ => .pure _

lemma adds_sub (items : Address) (start stop : Nat) : (sub items start stop).Adds :=
  (adds_ropeOf items).bind fun _ => (Adds.ofOutcome _).bind fun _ => .pure _

lemma adds_insert (first second : Address) (index : Nat) : (insert first second index).Adds :=
  adds_edit fun _ _ => (Adds.ofOutcome _).bind fun _ => .pure _

/-! ### Records and calls -/

lemma adds_recordOfMembers (entries : List (String × Address)) (type : Ty) :
    (recordOfMembers entries type).Adds :=
  (Adds.of_memory fun s => (finds_checkRecord type entries s).memory).bind fun _ => .pure _

lemma adds_allocateEntries (type : Ty) : ∀ entries, (allocateEntries type entries).Adds
  | [] => .pure []
  | (key, v) :: rest => by
    refine (Adds.read fun _ => rfl).bind fun types => (Adds.ofOutcome _).bind fun member => ?_
    exact (Adds.allocate _ _).bind fun a => (adds_allocateEntries type rest).bind fun others => .pure _

lemma adds_recordOfValues (entries : List (String × Value)) (type : Ty) :
    (recordOfValues entries type).Adds :=
  (adds_allocateEntries type entries).bind fun members => adds_recordOfMembers members type

lemma adds_layersOf (base : Address) : (layersOf base).Adds := by
  refine (adds_evaluated base).bind fun v => ?_
  cases v with
  | structured r =>
    cases r with
    | layered layers type => exact .pure _
    | flat entries => exact (Adds.read fun _ => rfl).bind fun type => .pure _
  | _ => exact (Adds.read fun _ => rfl).bind fun source => .fail _

lemma adds_updateWithMembers (base : Address) (entries : List (String × Address)) (type : Option Ty) :
    (updateWithMembers base entries type).Adds :=
  (adds_layersOf base).bind fun _ =>
    (Adds.of_memory fun s => (finds_checkRecord _ entries s).memory).bind fun _ => .pure _

lemma adds_updateWithValues (base : Address) (entries : List (String × Value)) (type : Option Ty) :
    (updateWithValues base entries type).Adds :=
  (Adds.read fun _ => rfl).bind fun _ => (adds_allocateEntries _ entries).bind fun members =>
    adds_updateWithMembers base members type

lemma adds_call (callable argument : Address) : (call callable argument).Adds := by
  unfold call
  refine (Adds.read fun _ => rfl).bind fun source => (Adds.read fun _ => rfl).bind fun type => ?_
  split
  · refine (Adds.of_memory fun s => (finds_checkMember argument _ s).memory).bind fun _ => ?_
    split
    · refine (Adds.read fun _ => rfl).bind fun types => (Adds.ofOutcome _).bind fun t => ?_
      exact .allocate _ none
    · exact .fail _
  · exact .fail _

end Build

/-- A function combines two terms by a deferred call: slots are added, and what comes of it is a slot to
evaluate. -/
lemma Machine.combine_function (f : Address) (first second : String)
    (context : Option (String × Address)) (type : Ty) (left right : Address) :
    ∃ x : Attempt Action, combine (.function f first second context type) left right =
      RunM.attempt x ∧ x.Adds ∧ Returns x fun a => ∃ b, a = .evaluate b .shallow := by
  refine ⟨_, rfl, ?_, ?_⟩
  · refine (Build.adds_recordOfMembers _ _).bind fun record => ?_
    refine (Attempt.Adds.allocate _ _).bind fun argument => ?_
    exact (Build.adds_call _ _).bind fun deferred => .pure _
  · exact Returns.bind fun record => Returns.bind fun argument => Returns.bind fun deferred =>
      Returns.pure ⟨deferred, rfl⟩

/-! ### Opcodes -/

/-- A computation that reads the store and otherwise builds values by factories only. -/
inductive Build.Made : {α : Type} → Attempt α → Prop
  | pure {α : Type} (a : α) : Made (Pure.pure a)
  | fail {α : Type} (p : Problem) : Made (Attempt.fail p : Attempt α)
  | read {α : Type} {x : StoreM α} (hx : ∀ s : Store, (x s).2 = s) : Made (liftM x : Attempt α)
  | evaluated (a : Address) : Made (Build.evaluated a)
  | bind {α β : Type} {x : Attempt α} {f : α → Attempt β} (hx : Made x) (hf : ∀ a, Made (f a)) :
    Made (x >>= f)
  | ofValues (values : List Value) (element : Ty) :
    Made (liftM (Build.ofValues values element) : Attempt Value)
  | append (first second : Address) : Made (Build.append first second)
  | push (items item : Address) : Made (Build.push items item)
  | replace (items : Address) (index : Int) (item : Address) : Made (Build.replace items index item)
  | sub (items : Address) (start stop : Nat) : Made (Build.sub items start stop)
  | insert (first second : Address) (index : Nat) : Made (Build.insert first second index)
  | recordOfMembers (entries : List (String × Address)) (type : Ty) :
    Made (Build.recordOfMembers entries type)
  | recordOfValues (entries : List (String × Value)) (type : Ty) :
    Made (Build.recordOfValues entries type)
  | updateWithMembers (base : Address) (entries : List (String × Address)) (type : Option Ty) :
    Made (Build.updateWithMembers base entries type)
  | updateWithValues (base : Address) (entries : List (String × Value)) (type : Option Ty) :
    Made (Build.updateWithValues base entries type)
  | call (callable argument : Address) : Made (Build.call callable argument)

/-- **Whatever is made of factories** adds slots at most. -/
lemma Build.Made.adds {α : Type} {x : Attempt α} (h : Made x) : x.Adds := by
  induction h with
  | pure a => exact .pure a
  | fail p => exact .fail p
  | read hx => exact .read hx
  | evaluated a => exact adds_evaluated a
  | bind _ _ ihx ihf => exact ihx.bind ihf
  | ofValues values element => exact adds_ofValues values element
  | append first second => exact adds_append first second
  | push items item => exact adds_push items item
  | replace items index item => exact adds_replace items index item
  | sub items start stop => exact adds_sub items start stop
  | insert first second index => exact adds_insert first second index
  | recordOfMembers entries type => exact adds_recordOfMembers entries type
  | recordOfValues entries type => exact adds_recordOfValues entries type
  | updateWithMembers base entries type => exact adds_updateWithMembers base entries type
  | updateWithValues base entries type => exact adds_updateWithValues base entries type
  | call callable argument => exact adds_call callable argument

lemma Opcode.develops_of_made {op : Opcode} {build : Frame → Attempt Value}
    (hop : ∀ f, op.evaluate f = Result.ofOutcome <$> (build f).run)
    (hbuild : ∀ f, Build.Made (build f)) : op.Develops := by
  intro f s
  rw [hop f]
  exact ((hbuild f).adds s).develops

end CellMachine
