import Mathlib.Data.List.DropRight
import CellMachine.Proofs.KeyMap
import CellMachine.Watch.Buffer

/-!
A buffer of events holds the newest. All events that were ever pushed are numbered in the order in
which they came, and what a buffer holds is the end of that stream, which reaches back to the last
time it was cleared and no further than its capacity.
-/

namespace CellMachine

/-! ### Counts -/

namespace KeyMap

variable {κ α : Type} [BEq κ] [LawfulBEq κ] [Ord κ] [Std.LawfulEqOrd κ]

lemma sum_values_count [Std.TransOrd κ] {m : KeyMap κ Nat} (h : m.Ascending) (k : κ) :
    (m.insert k ((m.get? k).getD 0 + 1)).values.sum = m.values.sum + 1 := by
  induction m with
  | nil => rfl
  | cons e m ih =>
    obtain ⟨k₁, n⟩ := e
    obtain ⟨hhead, htail⟩ := List.pairwise_cons.mp h
    rw [insert]
    cases hc : compare k k₁ with
    | lt =>
      have hnone : get? ((k₁, n) :: m) k = none := by
        refine get?_eq_none_of_lt fun e he => ?_
        rcases List.mem_cons.mp he with rfl | he
        · exact hc
        · exact Std.TransCmp.lt_trans hc (hhead e he)
      rw [hnone]
      simp only [values, List.map_cons, List.sum_cons, Option.getD_none]
      omega
    | eq =>
      obtain rfl := Std.LawfulEqOrd.eq_of_compare hc
      rw [get?_cons_self]
      simp only [values, List.map_cons, List.sum_cons, Option.getD_some]
      omega
    | gt =>
      have hne : k₁ ≠ k := by
        rintro rfl
        rw [Std.ReflOrd.compare_self] at hc
        cases hc
      rw [get?_cons_of_ne hne]
      have hrest := ih htail
      simp only [values, List.map_cons, List.sum_cons] at hrest ⊢
      omega

end KeyMap

/-! ### What a buffer is told -/

namespace Buffer

inductive Command where
  | push (depth : Nat) (event : Event)
  | clear

namespace Command

def isPush : Command → Bool
  | push .. => true
  | clear => false

/-- What is pushed, with the depth that is told with it. -/
def pushed? : Command → Option (Nat × Event)
  | push depth event => some (depth, event)
  | clear => none

/-- All events that are ever pushed, in the order of the pushes and numbered in that order. -/
def stream (cs : List Command) : List EventRecord :=
  (cs.filterMap pushed?).mapIdx fun id p => ⟨id, p.1, p.2⟩

/-- How many pushes there are after the last clearing. -/
def sinceClear (cs : List Command) : Nat := (cs.rtakeWhile isPush).length

variable {cs : List Command}

lemma stream_push (depth : Nat) (event : Event) :
    stream (cs ++ [push depth event]) = stream cs ++ [⟨(stream cs).length, depth, event⟩] := by
  simp [stream, pushed?]

lemma stream_clear : stream (cs ++ [clear]) = stream cs := by
  simp [stream, List.filterMap_cons, pushed?]

lemma length_stream (cs : List Command) : (stream cs).length = (cs.filterMap pushed?).length :=
  List.length_mapIdx

lemma sinceClear_push (depth : Nat) (event : Event) :
    sinceClear (cs ++ [push depth event]) = sinceClear cs + 1 := by
  rw [sinceClear, List.rtakeWhile_concat_pos isPush _ _ rfl, List.length_append]
  rfl

lemma sinceClear_clear : sinceClear (cs ++ [clear]) = 0 := by
  rw [sinceClear, List.rtakeWhile_concat_neg isPush _ _ (by decide), List.length_nil]

end Command

open Command

/-- Follows commands in turn. The numbers that the pushes answer are collected. -/
def follow (b : Buffer) : List Command → List Nat × Buffer
  | [] => ([], b)
  | .push depth event :: cs =>
    ((b.push depth event).1 :: ((b.push depth event).2.follow cs).1,
      ((b.push depth event).2.follow cs).2)
  | .clear :: cs => b.clear.follow cs

/-! ### One push -/

variable (b : Buffer) (depth : Nat) (event : Event)

lemma rtake_min {β : Type} (l : List β) (n : Nat) : l.rtake (min n l.length) = l.rtake n := by
  unfold List.rtake
  congr 1
  omega

lemma rtake_rtake {β : Type} (l : List β) (m n : Nat) :
    (l.rtake n).rtake m = l.rtake (min m n) := by
  simp only [List.rtake, List.drop_drop, List.length_drop]
  congr 1
  omega

lemma toList_evict {α : Type} {capacity : Nat} (hroom : capacity ≠ 0) (q : Deque α) :
    (evict capacity hroom q).toList = q.toList.rtake (capacity - 1) := by
  fun_induction evict capacity hroom q with
  | case1 q hfull ih =>
    have hlength := q.length_toList
    rw [ih, Deque.toList_popFront, List.rtake, List.rtake, ← List.drop_one, List.drop_drop,
      List.length_drop]
    congr 1
    omega
  | case2 q hfull =>
    have hlength := q.length_toList
    rw [List.rtake, Nat.sub_eq_zero_of_le (by omega), List.drop_zero]

lemma push_of_no_room (hroom : b.capacity = 0) :
    b.push depth event = (b.total, { b with total := b.total + 1 }) := dif_pos hroom

lemma push_of_room (hroom : b.capacity ≠ 0) :
    b.push depth event = (b.total, { b with
      stored := (evict b.capacity hroom b.stored).pushBack ⟨b.total, depth, event⟩
      total := b.total + 1 }) := dif_neg hroom

@[simp] lemma push_fst : (b.push depth event).1 = b.total := by
  by_cases hroom : b.capacity = 0
  · rw [push_of_no_room b depth event hroom]
  · rw [push_of_room b depth event hroom]

@[simp] lemma capacity_push : (b.push depth event).2.capacity = b.capacity := by
  by_cases hroom : b.capacity = 0
  · rw [push_of_no_room b depth event hroom]
  · rw [push_of_room b depth event hroom]

@[simp] lemma total_push : (b.push depth event).2.total = b.total + 1 := by
  by_cases hroom : b.capacity = 0
  · rw [push_of_no_room b depth event hroom]
  · rw [push_of_room b depth event hroom]

/-- **A push keeps the newest**, the event itself among them, of a buffer that holds no more than
fits. -/
lemma records_push (hfits : b.records.length ≤ b.capacity) :
    (b.push depth event).2.records =
      (b.records ++ [EventRecord.mk b.total depth event]).rtake b.capacity := by
  by_cases hroom : b.capacity = 0
  · have hnil : b.records = [] := List.eq_nil_of_length_eq_zero (by omega)
    rw [push_of_no_room b depth event hroom, hroom, List.rtake_zero]
    exact hnil
  · obtain ⟨c, hc⟩ := Nat.exists_eq_succ_of_ne_zero hroom
    rw [push_of_room b depth event hroom, records, Deque.toList_pushBack, toList_evict, hc,
      List.rtake_concat_succ]
    rfl

variable {b depth event}

lemma mem_records_push {e : EventRecord} (h : e ∈ (b.push depth event).2.records) :
    e ∈ b.records ∨ e = ⟨b.total, depth, event⟩ := by
  by_cases hroom : b.capacity = 0
  · rw [push_of_no_room b depth event hroom] at h
    exact .inl h
  · rw [push_of_room b depth event hroom, records, Deque.toList_pushBack, toList_evict] at h
    exact (List.mem_append.mp h).imp List.mem_of_mem_drop List.mem_singleton.mp

/-! ### The end of the stream -/

/-- What a buffer is after commands: it holds an end of the stream, which has nothing from before the
last clearing and no more than fits. -/
structure Follows (capacity : Nat) (past : List Command) (b : Buffer) : Prop where
  bound : b.capacity = capacity
  total : b.total = (stream past).length
  records : b.records = (stream past).rtake (min capacity (sinceClear past))

namespace Follows

variable {capacity : Nat} {past : List Command} {b : Buffer}

lemma start (capacity : Nat) : Follows capacity [] { capacity } :=
  ⟨rfl, rfl, List.drop_nil.symm⟩

lemma push (h : Follows capacity past b) (depth : Nat) (event : Event) :
    Follows capacity (past ++ [.push depth event]) (b.push depth event).2 := by
  obtain ⟨rfl, htotal, hrecords⟩ := h
  have hfits : b.records.length ≤ b.capacity := by
    rw [hrecords, List.rtake, List.length_drop]
    omega
  refine ⟨capacity_push b depth event, ?_, ?_⟩
  · rw [total_push, stream_push, List.length_append, htotal]
    rfl
  · rw [records_push b depth event hfits, hrecords, htotal, ← List.rtake_concat_succ, rtake_rtake,
      stream_push, sinceClear_push]
    congr 1
    omega

lemma clear (h : Follows capacity past b) : Follows capacity (past ++ [.clear]) b.clear := by
  refine ⟨h.bound, by rw [stream_clear]; exact h.total, ?_⟩
  rw [sinceClear_clear, Nat.min_zero, List.rtake_zero]
  rfl

lemma follow (h : Follows capacity past b) (cs : List Command) :
    Follows capacity (past ++ cs) (b.follow cs).2 := by
  induction cs generalizing past b with
  | nil => simpa [Buffer.follow] using h
  | cons c cs ih =>
    rw [List.append_cons]
    cases c with
    | push depth event => exact ih (h.push depth event)
    | clear => exact ih h.clear

end Follows

/-- Pushes are numbered on from what was pushed before. -/
lemma answers_follow (b : Buffer) (cs : List Command) :
    (b.follow cs).1 = List.range' b.total (stream cs).length := by
  rw [length_stream]
  induction cs generalizing b with
  | nil => rfl
  | cons c cs ih =>
    cases c with
    | push depth event =>
      rw [follow, push_fst, ih, total_push]
      rfl
    | clear => exact ih b.clear

/-! ### What a buffer answers -/

lemma sum_values_foldl (l : List EventRecord) {m : KeyMap String Nat} (h : m.Ascending) :
    (l.foldl (fun m r => m.insert r.event.type ((m.get? r.event.type).getD 0 + 1)) m).values.sum =
      m.values.sum + l.length := by
  induction l generalizing m with
  | nil => rfl
  | cons r l ih =>
    rw [List.foldl_cons, ih (KeyMap.ascending_insert _ _ h), KeyMap.sum_values_count h,
      List.length_cons]
    omega

lemma recent_eq (b : Buffer) (k : Nat) :
    b.recent k = b.records.rtake (min k b.records.length) := by
  rw [rtake_min, recent, ← b.stored.length_toList]
  rfl

/-- **Buffers hold the newest events.** Whatever a new buffer is told, it has as its records the last
of all events pushed, as many as came after the last clearing, or as fit if these are more. Each push
answers the number of those before it, cleared and forgotten ones included, and its record has that
number; their total goes on in the same way. The records last pushed are the end of all records, and
the counts by type add up to the number of records. -/
theorem buffers_hold_newest (capacity : Nat) (cs : List Command) :
    let after := (Buffer.follow { capacity } cs).2
    (Buffer.follow { capacity } cs).1 = List.range (stream cs).length ∧
      after.total = (stream cs).length ∧
      after.records = (stream cs).rtake (min capacity (sinceClear cs)) ∧
      (∀ k, after.recent k = after.records.rtake (min k after.records.length)) ∧
      after.counts.values.sum = after.records.length := by
  intro after
  have h : Follows capacity cs after := (Follows.start capacity).follow cs
  refine ⟨?_, h.total, h.records, recent_eq after, ?_⟩
  · rw [answers_follow, List.range_eq_range']
  · exact (sum_values_foldl after.records .nil).trans (Nat.zero_add _)

end Buffer

end CellMachine
