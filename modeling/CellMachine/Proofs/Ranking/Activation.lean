import Mathlib.Tactic.Linarith
import CellMachine.Proofs.Ranking.Machines

/-!
The ranks of an activation. The new slots of a call lie above its argument and the constants, below any
bound that is above these, and in the order in which the walk from the result lists their cells.
-/

namespace CellMachine

namespace Machine

/-! ### Places between bounds -/

/-- The place at a position between two bounds. -/
def placeAt (low high : ℚ) (position : Nat) : ℚ := high - (high - low) / (position + 2)

section Places

variable {low high : ℚ}

lemma low_lt_placeAt (h : low < high) (n : Nat) : low < placeAt low high n := by
  have hpart : (high - low) / ((n : ℚ) + 2) < high - low := by
    refine div_lt_self (sub_pos.mpr h) ?_
    have hn : (0 : ℚ) ≤ n := n.cast_nonneg
    linarith
  unfold placeAt
  linarith

lemma placeAt_lt_high (h : low < high) (n : Nat) : placeAt low high n < high := by
  have hpart : 0 < (high - low) / ((n : ℚ) + 2) := div_pos (sub_pos.mpr h) (by positivity)
  unfold placeAt
  linarith

lemma placeAt_lt_placeAt (h : low < high) {j k : Nat} (hjk : j < k) :
    placeAt low high j < placeAt low high k := by
  have hcast : (j : ℚ) + 2 < k + 2 := by
    have : (j : ℚ) < k := Nat.cast_lt.mpr hjk
    linarith
  have hpart : (high - low) / ((k : ℚ) + 2) < (high - low) / ((j : ℚ) + 2) :=
    div_lt_div_of_pos_left (sub_pos.mpr h) (by positivity) hcast
  unfold placeAt
  linarith

end Places

/-! ### New slots -/

/-- The ranks after an activation: new slots lie between two bounds, as the walk lists their cells. -/
def ranksIn (m : Machine) (ρ : Nat → ℚ) (call : CompiledCall) (argument : Address) (low high : ℚ)
    (i : Nat) : ℚ :=
  if i < m.store.memory.slots.size then ρ i
  else
    match (m.activated call argument).pending.get? i with
    | some p => placeAt low high (call.callable.reachable.1.idxOf p.node)
    | none => low

section Activation

variable {base : Memory} {m : Machine} {ρ : Nat → ℚ} {call : CompiledCall} {argument : Address}
  {low high : ℚ}

lemma ranksIn_of_lt {i : Nat} (hi : i < m.store.memory.slots.size) :
    m.ranksIn ρ call argument low high i = ρ i := if_pos hi

lemma ranksIn_of_new {i : Nat} (hi : m.store.memory.slots.size ≤ i) {p : Pending}
    (hp : (m.activated call argument).pending.get? i = some p) :
    m.ranksIn ρ call argument low high i =
      placeAt low high (call.callable.reachable.1.idxOf p.node) := by
  rw [ranksIn, if_neg (Nat.not_lt.mpr hi), hp]

lemma inside_activated (h : m.Layered base ρ)
    (hfits : Fits m.setting.opcodes base call.callable call.nodes) (hx : m.Held argument) {j : Nat}
    {a : Address} (hj : (call.nodes.get? j).isSome = true)
    (ha : (activate argument call.nodes m.store).1.get? j = some a) :
    (m.activated call argument).store.memory.Inside a := by
  obtain ⟨node, hnode⟩ := Option.isSome_iff_exists.mp hj
  obtain ⟨b, hb, hheld⟩ := held_activated h.toSafe hfits hx hnode
  rw [ha] at hb
  cases hb
  exact (safe_activated h.toSafe hfits hx).inside_of_held hheld

/-- The slot of a node is not above the argument and the constants, or lies at the node's place. -/
lemma rank_slot (h : m.Layered base ρ)
    (hfits : Fits m.setting.opcodes base call.callable call.nodes) (hx : m.Held argument)
    (hlow : 0 ≤ low) (hargument : argument.rank ρ ≤ low) {j : Nat} {a : Address}
    (hj : (call.nodes.get? j).isSome = true)
    (ha : (activate argument call.nodes m.store).1.get? j = some a) :
    a.rank (m.ranksIn ρ call argument low high) ≤ low ∨
      a.rank (m.ranksIn ρ call argument low high) =
        placeAt low high (call.callable.reachable.1.idxOf j) := by
  have hact := activates_activate argument call.nodes m.store
  obtain ⟨node, hnode⟩ := Option.isSome_iff_exists.mp hj
  obtain ⟨b, hb, hplaced⟩ := exists_placed hact hnode
  rw [ha] at hb
  cases hb
  rcases hfits.node_cases hnode with hop | ⟨k, hop, hk⟩ | hnew
  · simp only [Placed, hop] at hplaced
    obtain ⟨i, hi, rfl⟩ := h.inside_of_held hx
    rw [hplaced, Address.rank, ranksIn_of_lt hi]
    exact .inl hargument
  · simp only [Placed, hop] at hplaced
    rw [hplaced, Address.rank, ranksIn_of_lt (lt_of_lt_of_le hk h.memory.size_le)]
    exact .inl ((h.constants k hk).trans hlow)
  · obtain ⟨k, rfl, hk⟩ := (placed_iff_of_new hnew).mp hplaced
    exact .inr (ranksIn_of_new (Nat.le_add_right _ _)
      (pending_activated_of_new call argument hfits.ascending (KeyMap.mem_of_get? hnode) hnew ha))

/-- A new slot is above what its cell refers to, and above the constants. -/
lemma rises_activated (h : m.Layered base ρ)
    (hfits : Fits m.setting.opcodes base call.callable call.nodes) (hx : m.Held argument)
    (hlow : 0 ≤ low) (hargument : argument.rank ρ ≤ low) (hhigh : low < high) {i j : Nat}
    (hi : m.store.memory.slots.size ≤ i)
    (hp : (m.activated call argument).pending.get? i =
      some ⟨⟨call, (activate argument call.nodes m.store).1⟩, j⟩) :
    (m.activated call argument).Rises (m.ranksIn ρ call argument low high) i
      ⟨⟨call, (activate argument call.nodes m.store).1⟩, j⟩ := by
  have hplace : m.ranksIn ρ call argument low high i =
      placeAt low high (call.callable.reachable.1.idxOf j) := ranksIn_of_new hi hp
  refine ⟨?_, fun node hnode r hr a ha => ?_⟩
  · rw [hplace]
    exact hlow.trans_lt (low_lt_placeAt hhigh _)
  · have hsome := hfits.refs _ node hnode r hr
    refine ⟨inside_activated h hfits hx hsome ha, ?_⟩
    rw [hplace, LowerSet.mem_Iio_iff]
    rcases rank_slot h hfits hx hlow hargument hsome ha with hle | heq
    · exact hle.trans_lt (low_lt_placeAt hhigh _)
    · rw [heq]
      exact placeAt_lt_placeAt hhigh (hfits.listed _ node hnode r hr)

/-- **An activation** can be ranked below any bound that its argument is below. -/
lemma exists_ranks_activated (h : m.Layered base ρ)
    (hfits : Fits m.setting.opcodes base call.callable call.nodes) (hx : m.Held argument)
    (hargument : argument.rank ρ < high) (hpos : 0 < high) :
    ∃ ρ', (m.activated call argument).Layered base ρ' ∧
      Confined ⊥ ρ m ρ' (m.activated call argument) ∧
      ∀ j a, (call.nodes.get? j).isSome = true →
        (activate argument call.nodes m.store).1.get? j = some a →
        (m.activated call argument).Among ρ' (.Iio high) a := by
  obtain ⟨low, hlow, hle, hhigh⟩ : ∃ low, 0 ≤ low ∧ argument.rank ρ ≤ low ∧ low < high :=
    ⟨_, le_max_left _ _, le_max_right _ _, max_lt hpos hargument⟩
  have hact := activates_activate argument call.nodes m.store
  have later : m.Precedes (m.activated call argument) := precedes_activated h.toSafe hfits
  have hranks : ∀ i < m.store.memory.slots.size, m.ranksIn ρ call argument low high i = ρ i :=
    fun i hi => ranksIn_of_lt hi
  have hlayered : (m.activated call argument).Layered base (m.ranksIn ρ call argument low high) := by
    refine h.grow (safe_activated h.toSafe hfits hx) later hranks (fun _ _ => hact.kept)
      fun i p hp => ?_
    rcases exists_entered hp with hp | ⟨e, he, hnew, hslot, rfl⟩
    · exact .inl hp
    · obtain ⟨k, rfl, -⟩ := le_of_new hact hfits.ascending he hnew hslot
      exact .inr (rises_activated h hfits hx hlow hle hhigh (Nat.le_add_right _ _) hp)
  refine ⟨_, hlayered, ⟨later, hranks, fun i hi => ?_, fun i hi _ hnone => ?_⟩,
    fun j a hj ha => ⟨inside_activated h hfits hx hj ha, ?_⟩⟩
  · exact pending_activated_of_lt call argument hfits.ascending hi
  · show (activate argument call.nodes m.store).2.memory.value? (.at i) = none
    rw [hact.memory.value? hi, hnone]
  · rw [LowerSet.mem_Iio_iff]
    rcases rank_slot h hfits hx hlow hle hj ha with hle | heq
    · exact hle.trans_lt hhigh
    · rw [heq]
      exact placeAt_lt_high hhigh _

end Activation

end Machine

end CellMachine
