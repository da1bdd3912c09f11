/-!
Finite maps as association lists in ascending key order.

Everything that is listed to a reader, such as parameters, members of a structure or constants of a
module, is listed in the order of its keys, so the order is part of the map.
-/

namespace CellMachine

/-- Entries in ascending order of their keys, one entry a key. -/
abbrev KeyMap (κ : Type u) (α : Type v) := List (κ × α)

namespace KeyMap

variable {κ : Type u} {α : Type v} {β : Type w}

section Order

variable [Ord κ]

/-- Writes an entry, replacing the one with the same key. -/
def insert (k : κ) (a : α) : KeyMap κ α → KeyMap κ α
  | [] => [(k, a)]
  | (k₁, a₁) :: m =>
    match compare k k₁ with
    | .lt => (k, a) :: (k₁, a₁) :: m
    | .eq => (k, a) :: m
    | .gt => (k₁, a₁) :: insert k a m

/-- The map that holds the given entries; of entries with one key, the last. -/
def ofList (l : List (κ × α)) : KeyMap κ α := l.foldl (fun m e => insert e.1 e.2 m) []

/-- The later map wins where both have a key. -/
def union (m n : KeyMap κ α) : KeyMap κ α := n.foldl (fun m e => insert e.1 e.2 m) m

end Order

section Equality

variable [BEq κ]

def get? (m : KeyMap κ α) (k : κ) : Option α := List.lookup k m

def contains (m : KeyMap κ α) (k : κ) : Bool := (get? m k).isSome

/-- Writes an entry unless its key has one already. -/
def insertNew [Ord κ] (k : κ) (a : α) (m : KeyMap κ α) : KeyMap κ α :=
  if contains m k then m else insert k a m

end Equality

def keys (m : KeyMap κ α) : List κ := m.map Prod.fst

def values (m : KeyMap κ α) : List α := m.map Prod.snd

def mapValues (f : α → β) (m : KeyMap κ α) : KeyMap κ β := m.map fun e => (e.1, f e.2)

@[simp] theorem get?_nil [BEq κ] (k : κ) : get? ([] : KeyMap κ α) k = none := rfl

@[simp] theorem keys_nil : keys ([] : KeyMap κ α) = [] := rfl

@[simp] theorem keys_cons (e : κ × α) (m : KeyMap κ α) : keys (e :: m) = e.1 :: keys m := rfl

end KeyMap

end CellMachine
