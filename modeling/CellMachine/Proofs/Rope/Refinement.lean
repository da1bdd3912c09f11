import CellMachine.Proofs.Rope.Contents

/-!
Ropes refine lists. Ropes are made one after another in a workspace, each from those made before;
the same operations are made on plain lists, and whatever can be asked of a rope is answered as its
list answers it.
-/

namespace CellMachine

namespace Rope

variable {α : Type}

/-- An operation that makes a rope. Operands are named by their places in a workspace. -/
inductive Edit (α : Type) where
  | empty
  | values (items : List α)
  | append (first second : Nat)
  | push (base : Nat) (a : α)
  | sub (base start stop : Nat)
  | replace (base : Nat) (index : Int) (a : α)
  | insert (base index other : Nat)

namespace Edit

/-- What an operation makes of ropes; `none` when an operand is not in the workspace. -/
def onRopes (w : List (Rope α)) : Edit α → Option (Outcome (Rope α))
  | empty => some (.ok .empty)
  | values items => some (.ok (.ofList items))
  | append i j => w[i]?.bind fun r => w[j]?.map fun s => .ok (r.append s)
  | push i a => w[i]?.map fun r => .ok (r.push a)
  | sub i start stop => w[i]?.map fun r => r.sub start stop
  | replace i index a => w[i]?.map fun r => r.replace index a
  | insert i index j => w[i]?.bind fun r => w[j]?.map fun s => r.insert index s

/-- What the same operation makes of lists; the inner `none` is a refusal. -/
def onLists (w : List (List α)) : Edit α → Option (Option (List α))
  | empty => some (some [])
  | values items => some (some items)
  | append i j => w[i]?.bind fun l => w[j]?.map fun m => some (l ++ m)
  | push i a => w[i]?.map fun l => some (l ++ [a])
  | sub i start stop => w[i]?.map fun l =>
    if start ≤ stop ∧ stop ≤ l.length then some ((l.take stop).drop start) else none
  | replace i index a => w[i]?.map fun l =>
    if -(l.length : Int) ≤ index ∧ index < l.length then
      some (l.set (if index < 0 then l.length + index else index).toNat a)
    else none
  | insert i index j => w[i]?.bind fun l => w[j]?.map fun m =>
    if index ≤ l.length then some (l.take index ++ m ++ l.drop index) else none

/-- Adds what an operation makes; a refused one adds nothing. -/
def extendRopes (w : List (Rope α)) (e : Edit α) : List (Rope α) :=
  match e.onRopes w with
  | some (.ok r) => w ++ [r]
  | _ => w

def extendLists (w : List (List α)) (e : Edit α) : List (List α) :=
  match e.onLists w with
  | some (some l) => w ++ [l]
  | _ => w

/-- The ropes that a sequence of operations makes. -/
def ropes (es : List (Edit α)) : List (Rope α) := es.foldl extendRopes []

/-- The lists that a sequence of operations makes. -/
def lists (es : List (Edit α)) : List (List α) := es.foldl extendLists []

end Edit

/-- A rope answers as a list does. -/
structure Denotes (r : Rope α) (l : List α) : Prop where
  length : r.length = l.length
  isEmpty : r.isEmpty = true ↔ l = []
  toList : r.toList = l
  get? : ∀ i, r.get? i = l[i]?

/-- A rope was made where a list was, and its refusal is that of an index. -/
def Matches (R : Rope α → List α → Prop) : Outcome (Rope α) → Option (List α) → Prop
  | .ok r, some l => R r l
  | .error p, none => p.cause = .indexOutOfRange
  | _, _ => False

/-- The invariant of the operations. -/
def Holds (r : Rope α) (l : List α) : Prop := r.WellFormed ∧ r.elems = l

lemma Holds.denotes {r : Rope α} {l : List α} (h : Holds r l) : Denotes r l := by
  obtain ⟨wf, rfl⟩ := h
  exact ⟨length_eq wf, isEmpty_iff wf, toList_eq wf, get?_eq wf⟩

lemma Matches.mono {R S : Rope α → List α → Prop} (hRS : ∀ r l, R r l → S r l)
    {o : Outcome (Rope α)} {l : Option (List α)} (h : Matches R o l) : Matches S o l := by
  cases o with
  | ok r =>
    cases l with
    | some l => exact hRS r l h
    | none => exact h
  | error p => cases l <;> exact h

lemma matches_of_cases {o : Outcome (Rope α)} {c : Prop} [Decidable c] {l : List α}
    (hok : c → ∃ r, o = .ok r ∧ Holds r l)
    (hno : ¬c → ∃ p, o = .error p ∧ p.cause = .indexOutOfRange) :
    Matches Holds o (if c then some l else none) := by
  by_cases hc : c
  · obtain ⟨r, rfl, hr⟩ := hok hc
    rw [if_pos hc]
    exact hr
  · obtain ⟨p, rfl, hp⟩ := hno hc
    rw [if_neg hc]
    exact hp

/-! ### One operation -/

lemma holds_append {r s : Rope α} {l m : List α} (h : Holds r l) (h' : Holds s m) :
    Holds (r.append s) (l ++ m) :=
  ⟨wellFormed_append h.1 h'.1, by rw [elems_append h.1 h'.1, h.2, h'.2]⟩

lemma holds_ofList (l : List α) : Holds (ofList l) l := ⟨wellFormed_ofList l, elems_ofList l⟩

lemma matches_sub {r : Rope α} {l : List α} (h : Holds r l) (start stop : Nat) :
    Matches Holds (r.sub start stop)
      (if start ≤ stop ∧ stop ≤ l.length then some ((l.take stop).drop start) else none) := by
  obtain ⟨wf, rfl⟩ := h
  refine matches_of_cases (fun hc => ?_) (sub_refused wf)
  obtain ⟨t, ht, wft, helems⟩ := sub_ok wf hc.1 hc.2
  refine ⟨t, ht, wft, ?_⟩
  rw [helems, List.extract_eq_take_drop, List.drop_take]

lemma matches_replace {r : Rope α} {l : List α} (h : Holds r l) (index : Int) (a : α) :
    Matches Holds (r.replace index a)
      (if -(l.length : Int) ≤ index ∧ index < l.length then
        some (l.set (if index < 0 then l.length + index else index).toNat a) else none) := by
  obtain ⟨wf, rfl⟩ := h
  exact matches_of_cases (fun hc => replace_ok wf a hc.1 hc.2) (replace_refused wf a)

lemma matches_insert {r o : Rope α} {l m : List α} (h : Holds r l) (h' : Holds o m) (index : Nat) :
    Matches Holds (r.insert index o)
      (if index ≤ l.length then some (l.take index ++ m ++ l.drop index) else none) := by
  obtain ⟨wf, rfl⟩ := h
  obtain ⟨wf', rfl⟩ := h'
  exact matches_of_cases (insert_ok wf wf') (insert_refused wf o)

lemma operand {w : List (Rope α)} {v : List (List α)} (h : List.Forall₂ Holds w v) (i : Nat) :
    Option.Rel Holds w[i]? v[i]? := by
  induction h generalizing i with
  | nil => simp
  | cons hd _ ih =>
    cases i with
    | zero => exact .some hd
    | succ i => simpa using ih i

lemma rel_one {r : Option (Rope α)} {l : Option (List α)} (h : Option.Rel Holds r l)
    {f : Rope α → Outcome (Rope α)} {g : List α → Option (List α)}
    (hfg : ∀ r l, Holds r l → Matches Holds (f r) (g l)) :
    Option.Rel (Matches Holds) (r.map f) (l.map g) := by
  cases h with
  | none => exact .none
  | some h => exact .some (hfg _ _ h)

lemma rel_two {r s : Option (Rope α)} {l m : Option (List α)} (h : Option.Rel Holds r l)
    (h' : Option.Rel Holds s m) {f : Rope α → Rope α → Outcome (Rope α)}
    {g : List α → List α → Option (List α)}
    (hfg : ∀ r l s m, Holds r l → Holds s m → Matches Holds (f r s) (g l m)) :
    Option.Rel (Matches Holds) (r.bind fun r => s.map (f r)) (l.bind fun l => m.map (g l)) := by
  cases h with
  | none => exact .none
  | some h => exact rel_one h' fun s m => hfg _ _ s m h

lemma matches_edit {w : List (Rope α)} {v : List (List α)} (h : List.Forall₂ Holds w v)
    (e : Edit α) : Option.Rel (Matches Holds) (e.onRopes w) (e.onLists v) := by
  cases e with
  | empty => exact .some ⟨wellFormed_empty, elems_empty⟩
  | values items => exact .some (holds_ofList items)
  | append i j => exact rel_two (operand h i) (operand h j) fun r l s m => holds_append
  | push i a => exact rel_one (operand h i) fun r l hr => holds_append hr (holds_ofList [a])
  | sub i start stop => exact rel_one (operand h i) fun r l hr => matches_sub hr start stop
  | replace i index a => exact rel_one (operand h i) fun r l hr => matches_replace hr index a
  | insert i index j =>
    exact rel_two (operand h i) (operand h j) fun r l s m hr hs => matches_insert hr hs index

/-! ### Sequences of operations -/

lemma forall₂_extend {w : List (Rope α)} {v : List (List α)} (h : List.Forall₂ Holds w v)
    (e : Edit α) : List.Forall₂ Holds (e.extendRopes w) (e.extendLists v) := by
  have key := matches_edit h e
  unfold Edit.extendRopes Edit.extendLists
  generalize e.onRopes w = o at key
  generalize e.onLists v = l at key
  cases key with
  | none => exact h
  | @some o l key =>
    cases o with
    | ok r =>
      cases l with
      | some l => exact List.rel_append h (.cons key .nil)
      | none => exact key.elim
    | error p =>
      cases l with
      | some l => exact key.elim
      | none => exact h

lemma forall₂_holds (es : List (Edit α)) :
    List.Forall₂ Holds (Edit.ropes es) (Edit.lists es) := by
  induction es using List.reverseRecOn with
  | nil => exact .nil
  | append_singleton es e ih =>
    simp only [Edit.ropes, Edit.lists, List.foldl_append, List.foldl_cons, List.foldl_nil]
    exact forall₂_extend ih e

lemma extendRopes_prefix (w : List (Rope α)) (e : Edit α) : w <+: e.extendRopes w := by
  unfold Edit.extendRopes
  split
  · exact List.prefix_append _ _
  · exact List.prefix_rfl

lemma extendLists_prefix (w : List (List α)) (e : Edit α) : w <+: e.extendLists w := by
  unfold Edit.extendLists
  split
  · exact List.prefix_append _ _
  · exact List.prefix_rfl

lemma foldl_prefix {β ε : Type} {f : List β → ε → List β} (hf : ∀ w e, w <+: f w e) (es : List ε)
    (w : List β) : w <+: es.foldl f w := by
  induction es generalizing w with
  | nil => exact List.prefix_rfl
  | cons e es ih => exact (hf w e).trans (ih (f w e))

/-- **Ropes refine lists.** After any sequence of operations every rope of the workspace answers as
the list at its place; the next operation makes a rope exactly when it makes a list, which the rope
denotes, and is refused for its index otherwise; and what later operations make leaves the ropes and
lists made before as they were. -/
theorem ropes_refine_lists (es : List (Edit α)) :
    List.Forall₂ Denotes (Edit.ropes es) (Edit.lists es) ∧
      (∀ e : Edit α, Option.Rel (Matches Denotes) (e.onRopes (Edit.ropes es))
        (e.onLists (Edit.lists es))) ∧
      ∀ later : List (Edit α), Edit.ropes es <+: Edit.ropes (es ++ later) ∧
        Edit.lists es <+: Edit.lists (es ++ later) := by
  have holds := forall₂_holds es
  refine ⟨holds.imp fun _ _ => Holds.denotes, fun e => ?_, fun later => ⟨?_, ?_⟩⟩
  · have key := matches_edit holds e
    generalize e.onRopes (Edit.ropes es) = o at key
    generalize e.onLists (Edit.lists es) = l at key
    cases key with
    | none => exact .none
    | some key => exact .some (key.mono fun _ _ => Holds.denotes)
  · rw [Edit.ropes, Edit.ropes, List.foldl_append]
    exact foldl_prefix extendRopes_prefix later _
  · rw [Edit.lists, Edit.lists, List.foldl_append]
    exact foldl_prefix extendLists_prefix later _

end Rope

end CellMachine
