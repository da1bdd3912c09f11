import CellMachine.Proofs.Meaning.Opcodes
import CellMachine.Proofs.Rope.Iteration
import CellMachine.Proofs.Standard.Declarations

/-!
The slice opcode as a function on lists. Its bounds are any two machine words. The check before it, the
resolution of its bounds and the cutting of the rope each restrict them in their own way, and it is shown
that they agree: what passes is cut off where the list ends, and the rope is never asked for more than it
holds.
-/

namespace CellMachine.Standard

variable {f : Frame} {m : Memory} {s : Store} {items : Sequence Address} {start stop : Int64}

/-- An argument is an integer, in a cell of the type of integers or in an open one. -/
def HoldsInt (f : Frame) (m : Memory) (i : Nat) (value : Int64) : Prop :=
  ∃ a, f.args[i]? = some a ∧ m.value? a = some (.int value) ∧
    ((m.typeOf a).isRuntimeDetermined = true ∨ (m.typeOf a).tag? = integer.tag?)

/-- Where a part that is to stop at `stop` does so, in a list of `n` elements. -/
def partEnd (n : Nat) (stop : Int) : Nat := (if 0 ≤ stop then min stop n else max 0 (n + stop)).toNat

namespace HoldsInt

variable {i : Nat} {value : Int64}

lemma intArg (h : HoldsInt f m i value) : Standard.intArg f m i = some value := by
  obtain ⟨a, ha, hvalue, -⟩ := h
  rw [Standard.intArg, Frame.value?, ha, Option.bind_some, hvalue]
  rfl

lemma checkNative (h : HoldsInt f m i value) (evaluated : Bool) :
    Standard.checkNative f m i evaluated integer = none := by
  obtain ⟨a, ha, hvalue, htype⟩ := h
  have hread : f.value? m i = some (.int value) := by
    rw [Frame.value?, ha, Option.bind_some, hvalue]
  refine checkNative_eq_none_iff.mpr ⟨⟨"integer", rfl, m.typeOf a, ?_, htype⟩, ?_, ?_⟩
  · rw [ha, Option.map_some]
  · exact fun _ => by rw [hread, Option.isSome_some]
  · intro v hv
    cases hread.symm.trans hv
    exact ⟨.int value, rfl, rfl⟩

end HoldsInt

/-! ### Bounds -/

lemma checkBounds_eq_nil_iff (hstart : HoldsInt f m 1 start) (hstop : HoldsInt f m 2 stop)
    (evaluated : Bool) : checkBounds f m evaluated = [] ↔
      0 ≤ start.toInt ∧ ¬ (0 ≤ stop.toInt ∧ stop.toInt < start.toInt) := by
  have hnatives : checkNatives f m [1, 2] evaluated integer = [] :=
    checkNatives_pair.mpr ⟨hstart.checkNative evaluated, hstop.checkNative evaluated⟩
  rw [checkBounds_eq hnatives hstart.intArg hstop.intArg]
  simp

lemma cause_of_mem_checkBounds (hstart : HoldsInt f m 1 start) (hstop : HoldsInt f m 2 stop)
    {evaluated : Bool} : ∀ p ∈ checkBounds f m evaluated, p.cause = .argumentValue := by
  have hnatives : checkNatives f m [1, 2] evaluated integer = [] :=
    checkNatives_pair.mpr ⟨hstart.checkNative evaluated, hstop.checkNative evaluated⟩
  intro p hp
  simp only [checkBounds, hnatives, hstart.intArg, hstop.intArg] at hp
  rcases List.mem_append.mp hp with hp | hp
  · by_cases hsign : start.toInt < 0
    · rw [if_pos hsign, List.mem_singleton] at hp
      rw [hp]
      rfl
    · rw [if_neg hsign] at hp
      cases hp
  · by_cases horder : 0 ≤ stop.toInt ∧ stop.toInt < start.toInt
    · rw [if_pos horder, List.mem_singleton] at hp
      rw [hp]
      rfl
    · rw [if_neg horder] at hp
      cases hp

/-- The bounds of a part as they are resolved: nothing is left of a part that stops where it starts, or
before. -/
lemma resolve_part {n : Nat} (hn : n < 2 ^ 63) :
    Span.resolve ⟨some start.toNatClampNeg, some stop⟩ n =
      if start.toInt.toNat < partEnd n stop.toInt then
        some (start.toInt.toNat, partEnd n stop.toInt)
      else none := by
  have hbounds : Span.bounds ⟨some start.toNatClampNeg, some stop⟩ n =
      (start.toInt.toNat, partEnd n stop.toInt) := by
    rw [Span.bounds, partEnd]
    refine Prod.ext rfl ?_
    dsimp only
    by_cases hstop : stop.toInt < 0
    · rw [if_pos hstop, if_neg (by omega)]
      omega
    · rw [if_neg hstop, if_pos (by omega)]
      omega
  rw [Span.resolve_eq _ hn, hbounds]

lemma partEnd_le (n : Nat) (stop : Int) : partEnd n stop ≤ n := by
  unfold partEnd
  split <;> omega

/-! ### Parts -/

/-- A part that does not start before the list is cut out of it, or is empty. -/
lemma evaluate_slice_of_nonneg (hlist : f.value? s.memory 0 = some (.iterable items))
    (hitems : items.WellFormed) (hsize : items.size < 2 ^ 63) (hstart : HoldsInt f s.memory 1 start)
    (hstop : HoldsInt f s.memory 2 stop) (hsign : 0 ≤ start.toInt) :
    ∃ part : Sequence Address, part.WellFormed ∧
      slice.evaluate f s = (.value (.iterable part), s) ∧
      part.toList = items.toList.extract start.toInt.toNat (partEnd items.size stop.toInt) := by
  obtain ⟨list, hfirst, hvalue⟩ := Option.bind_eq_some_iff.mp hlist
  have heval := evaluate_slice hfirst hvalue hstart.intArg hstop.intArg (by omega)
  rw [resolve_part hsize] at heval
  by_cases hsome : start.toInt.toNat < partEnd items.size stop.toInt
  · -- the bounds are in order and within the list, so the rope is cut between them
    obtain ⟨r, hr, hwf, hpart⟩ := Sequence.sub_ok hitems hsome.le (partEnd_le _ _)
    refine ⟨.rope r, hwf, ?_, hpart⟩
    rw [heval, if_pos hsome]
    dsimp only
    rw [Build.run_sub hvalue hr]
    rfl
  · refine ⟨.rope (.ofList []), Rope.wellFormed_ofList [], ?_, ?_⟩
    · rw [heval, if_neg hsome]
      rfl
    · rw [Sequence.toList_ofList, List.extract_eq_take_drop, Nat.sub_eq_zero_of_le (by omega),
        List.take_zero]

lemma evaluate_slice_of_neg (hlist : f.value? s.memory 0 = some (.iterable items))
    (hstart : HoldsInt f s.memory 1 start) (hstop : HoldsInt f s.memory 2 stop)
    (hsign : start.toInt < 0) :
    ∃ p, slice.evaluate f s = (.error p, s) ∧ p.cause = .argumentValue := by
  obtain ⟨list, hfirst, hvalue⟩ := Option.bind_eq_some_iff.mp hlist
  have hasItems : (f.value? s.memory 0).bind Value.asIterable? = some items := by
    rw [hlist]
    rfl
  refine ⟨(checkBounds f s.memory true).head?.getD (f.problem .argumentValue), ?_, ?_⟩
  · simp only [slice, StoreM.run_bind, StoreM.run_memory, hfirst, hasItems, hstart.intArg,
      hstop.intArg, if_pos hsign]
    rfl
  · cases hfound : (checkBounds f s.memory true).head? with
    | none => rfl
    | some p => exact cause_of_mem_checkBounds hstart hstop p (List.mem_of_head? hfound)

/-- **A slice is the part of the list between its bounds.** For a list in memory, flat or a rope, and any
two integers as bounds: the check in a run finds nothing exactly if the part starts in the list or after it
and does not stop at an index before its start. A part that does not start before the list consists of
the slots that are in the list from its start up to its end, with nothing evaluated on the way; any
other is refused for the value of its bounds. The rope is never asked for what it does not hold. -/
theorem slice_eq_extract (hlist : f.value? s.memory 0 = some (.iterable items))
    (hitems : items.WellFormed) (hsize : items.size < 2 ^ 63) (hstart : HoldsInt f s.memory 1 start)
    (hstop : HoldsInt f s.memory 2 stop) :
    (∀ types, (slice.runtimeCheck f s.memory types).1 = [] ↔
      0 ≤ start.toInt ∧ ¬ (0 ≤ stop.toInt ∧ stop.toInt < start.toInt)) ∧
    (0 ≤ start.toInt → ∃ part : Sequence Address, part.WellFormed ∧
      slice.evaluate f s = (.value (.iterable part), s) ∧
      part.toList = items.toList.extract start.toInt.toNat (partEnd items.size stop.toInt)) ∧
    (start.toInt < 0 → ∃ p, slice.evaluate f s = (.error p, s) ∧ p.cause = .argumentValue) ∧
    ∀ p, (slice.evaluate f s).1 = .error p →
      p.cause ≠ .indexOutOfRange ∧ p.cause ≠ .badSpliceRange := by
  refine ⟨fun _ => checkBounds_eq_nil_iff hstart hstop true,
    evaluate_slice_of_nonneg hlist hitems hsize hstart hstop,
    evaluate_slice_of_neg hlist hstart hstop, fun p hp => ?_⟩
  by_cases hsign : 0 ≤ start.toInt
  · obtain ⟨part, -, heval, -⟩ :=
      evaluate_slice_of_nonneg hlist hitems hsize hstart hstop hsign
    rw [heval] at hp
    cases hp
  · obtain ⟨q, heval, hcause⟩ := evaluate_slice_of_neg hlist hstart hstop (by omega)
    rw [heval] at hp
    cases hp
    rw [hcause]
    exact ⟨nofun, nofun⟩

namespace Sample

/-- A cell that takes a part of a list. -/
def cut : Frame where
  source := none
  args := [.at 0, .at 1, .at 2]
  resultType := iterableOfT
  bindings := []
  modules := []

/-- A list of three slots, of which the second has no value, and the bounds of its part. -/
def pending : Store where
  memory.slots := #[⟨.external "list" iterableOfT, some (.iterable (.flat #[.at 3, .at 4, .at 5]))⟩,
    ⟨.external "start" integer, some (.int 1)⟩, ⟨.external "end" integer, some (.int (-1))⟩,
    ⟨.external "first" integer, some (.int 7)⟩, ⟨.external "second" integer, none⟩,
    ⟨.external "third" integer, some (.int 9)⟩]

/-- From the second element up to the last: the slot in the middle, still without a value. -/
theorem middle_is_left_unevaluated :
    (slice.runtimeCheck cut pending.memory pending.types).1 = [] ∧
    ∃ part : Sequence Address, slice.evaluate cut pending = (.value (.iterable part), pending) ∧
      part.toList = [.at 4] ∧ pending.memory.value? (.at 4) = none := by
  have hstart : HoldsInt cut pending.memory 1 1 := ⟨.at 1, rfl, rfl, .inr rfl⟩
  have hstop : HoldsInt cut pending.memory 2 (-1) := ⟨.at 2, rfl, rfl, .inr rfl⟩
  have hlist : cut.value? pending.memory 0 =
    some (.iterable (.flat #[.at 3, .at 4, .at 5])) := rfl
  obtain ⟨hcheck, hpart, -⟩ := slice_eq_extract hlist trivial (by decide) hstart hstop
  obtain ⟨part, -, heval, hlist⟩ := hpart (by decide)
  refine ⟨(hcheck _).mpr (by decide), part, heval, ?_, rfl⟩
  rw [hlist, Sequence.toList_flat]
  rfl

end Sample

end CellMachine.Standard
