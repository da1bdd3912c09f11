import CellMachine.Proofs.Rope.Bounds

/-!
How deep ropes get. Whoever looks up an element goes down one level after another, so the depth of a
rope is what an access costs. A cut builds the nodes on the paths to its two ends anew and leaves out
parts that it empties; it never stands higher than the rope that it is cut from. Levels are only added by
joining, and each operation joins a fixed number of times.
-/

namespace CellMachine

namespace Rope

variable {α : Type} {r s t o low high : Rope α} {run : Run α} {d : Nat}

/-! ### Parts and cuts -/

@[simp] lemma depth_absent : (absent : Rope α).depth = 0 := rfl

lemma depth_pos (h : r ≠ absent) : 0 < r.depth := by
  cases r with
  | absent => exact absurd rfl h
  | node => simp [depth]

lemma depth_part_le (r : Rope α) : r.part.depth ≤ r.depth := by
  unfold part
  split_ifs <;> simp

lemma depth_join (low : Rope α) (run : Run α) (high : Rope α) :
    (join low run high).depth = 1 + max low.part.depth high.part.depth := rfl

lemma depth_join_le (run : Run α) (hlow : low.depth ≤ d) (hhigh : high.depth ≤ d) :
    (join low run high).depth ≤ d + 1 := by
  have := low.depth_part_le
  have := high.depth_part_le
  rw [depth_join]
  omega

@[simp] lemma depth_empty : (empty : Rope α).depth = 1 := by
  simp [empty, depth_join, part, isEmpty, start, stop]

@[simp] lemma depth_ofList (l : List α) : (ofList l).depth = 1 := by
  simp [ofList, ofArray, depth_join, part, isEmpty, start, stop]

/-- **A cut is no deeper** than what it is cut from, wherever it is made: below each node that it
keeps, it keeps cuts of that node's parts. -/
lemma depth_slice_le {from_ to_ : Int} (h : r.slice from_ to_ = .ok t) : t.depth ≤ r.depth := by
  -- On the rope: a cut of a node joins a cut of each of its parts.
  induction r generalizing from_ to_ t with
  | absent =>
    cases h
    simp
  | node start stop low run high ihl ihh =>
    rw [slice_node] at h
    obtain ⟨below, hbelow, h⟩ := exists_of_bind h
    obtain ⟨middle, -, h⟩ := exists_of_bind h
    obtain ⟨above, habove, h⟩ := exists_of_bind h
    cases h
    have hlow : below.depth ≤ low.depth := by
      split_ifs at hbelow
      · exact ihl hbelow
      · cases hbelow
        simp
    have hhigh : above.depth ≤ high.depth := by
      split_ifs at habove
      · exact ihh habove
      · cases habove
        simp
    calc (join below middle above).depth
        = 1 + max below.part.depth above.part.depth := depth_join below middle above
      _ ≤ 1 + max below.depth above.depth := by gcongr <;> apply depth_part_le
      _ ≤ 1 + max low.depth high.depth := by gcongr

lemma depth_sub_le {i j : Nat} (h : r.sub i j = .ok t) : t.depth ≤ r.depth := by
  unfold sub at h
  split_ifs at h
  · cases h
    exact le_rfl
  · exact depth_slice_le h

/-! ### Joining -/

lemma depth_append (r s : Rope α) : (r.append s).depth =
    1 + ((([r, s].filter fun x => !x.isEmpty).map depth).max?).getD 0 := by
  rw [append, depth_join]
  by_cases hr : r.isEmpty <;> by_cases hs : s.isEmpty <;> simp [part, hr, hs, List.max?_cons]

lemma depth_append_le (hr : r.depth ≤ d) (hs : s.depth ≤ d) : (r.append s).depth ≤ d + 1 :=
  depth_join_le _ hr hs

lemma depth_replace_le {index : Int} {a : α} (h : r.replace index a = .ok t) :
    t.depth ≤ r.depth + 1 := by
  unfold replace at h
  extract_lets resolved at h
  split_ifs at h
  obtain ⟨before, hbefore, h⟩ := exists_of_bind h
  obtain ⟨after, hafter, h⟩ := exists_of_bind h
  cases h
  exact depth_join_le _ (depth_sub_le hbefore) (depth_sub_le hafter)

lemma depth_insert_le {index : Nat} (h : r.insert index o = .ok t) :
    t.depth ≤ max r.depth o.depth + 2 := by
  unfold insert at h
  split_ifs at h
  obtain ⟨before, hbefore, h⟩ := exists_of_bind h
  obtain ⟨after, hafter, h⟩ := exists_of_bind h
  cases h
  have hbefore := depth_sub_le hbefore
  have hafter := depth_sub_le hafter
  have hfirst : (before.append o).depth ≤ max r.depth o.depth + 1 :=
    depth_append_le (by omega) (by omega)
  exact depth_append_le hfirst (by omega)

/-! ### Histories -/

namespace Edit

/-- How many levels an operation adds at most. -/
def rise : Edit α → Nat
  | sub .. => 0
  | empty | values _ | append .. | push .. | replace .. => 1
  | insert .. => 2

end Edit

lemma depth_edit_le {w : List (Rope α)} (hw : ∀ r ∈ w, r ≠ absent ∧ r.depth ≤ d) {e : Edit α}
    (h : e.onRopes w = some (.ok t)) : t.depth ≤ d + e.rise := by
  have operand {i : Nat} {r : Rope α} (hr : w[i]? = some r) : 0 < r.depth ∧ r.depth ≤ d :=
    (hw r (List.mem_of_getElem? hr)).imp depth_pos id
  cases e with
  | empty =>
    cases h
    simp [Edit.rise]
  | values items =>
    cases h
    simp [Edit.rise]
  | append i j =>
    obtain ⟨r, hr, h⟩ := Option.bind_eq_some_iff.mp h
    obtain ⟨s, hs, h⟩ := Option.map_eq_some_iff.mp h
    cases h
    exact depth_append_le (operand hr).2 (operand hs).2
  | push i a =>
    obtain ⟨r, hr, h⟩ := Option.map_eq_some_iff.mp h
    cases h
    have hbase := operand hr
    -- The new run is one level itself; there is room for it since the rope pushed to is a node.
    exact depth_append_le hbase.2 (by simp; omega)
  | sub i start stop =>
    obtain ⟨r, hr, h⟩ := Option.map_eq_some_iff.mp h
    exact (depth_sub_le h).trans (operand hr).2
  | replace i index a =>
    obtain ⟨r, hr, h⟩ := Option.map_eq_some_iff.mp h
    have := depth_replace_le h
    have := operand hr
    simp only [Edit.rise]
    omega
  | insert i index j =>
    obtain ⟨r, hr, h⟩ := Option.bind_eq_some_iff.mp h
    obtain ⟨s, hs, h⟩ := Option.map_eq_some_iff.mp h
    have := depth_insert_le h
    have := operand hr
    have := operand hs
    simp only [Edit.rise]
    omega

lemma depth_le_rises (es : List (Edit α)) : ∀ r ∈ Edit.ropes es, r.depth ≤ (es.map Edit.rise).sum := by
  induction es using List.reverseRecOn with
  | nil => exact fun r hr => absurd hr List.not_mem_nil
  | append_singleton es e ih =>
    have hnodes := ne_absent_of_mem es
    simp only [Edit.ropes, List.foldl_append, List.foldl_cons, List.foldl_nil, List.map_append,
      List.map_cons, List.map_nil, List.sum_append, List.sum_singleton] at hnodes ih ⊢
    intro r hr
    unfold Edit.extendRopes at hr
    split at hr
    · next t ht =>
      rcases List.mem_append.mp hr with hr | hr
      · exact (ih r hr).trans (Nat.le_add_right _ _)
      · obtain rfl := List.mem_singleton.mp hr
        exact depth_edit_le (fun s hs => ⟨hnodes s hs, ih s hs⟩) ht
    · exact (ih r hr).trans (Nat.le_add_right _ _)

/-- **Ropes get deeper by joining only.** Take any two ropes that operations make. Every valid cut of
the first succeeds and is no deeper than it is; the two joined stand one level above the deepest of those
that hold something; replacing an element adds one level at most, and inserting the second rope adds two
at most to the deeper of both. So a rope is never deeper than the levels that its history's operations
add, of which cuts add none. -/
theorem ropes_deepen_by_joining (es es' : List (Edit α)) (r o : Rope α) (hr : r ∈ Edit.ropes es)
    (ho : o ∈ Edit.ropes es') :
    (∀ start stop, start ≤ stop → stop ≤ r.length →
      ∃ t, r.sub start stop = .ok t ∧ t.depth ≤ r.depth) ∧
    (r.append o).depth = 1 + ((([r, o].filter fun x => !x.isEmpty).map depth).max?).getD 0 ∧
    (∀ index a, -(r.length : Int) ≤ index → index < r.length →
      ∃ t, r.replace index a = .ok t ∧ t.depth ≤ r.depth + 1) ∧
    (∀ index, index ≤ r.length →
      ∃ t, r.insert index o = .ok t ∧ t.depth ≤ max r.depth o.depth + 2) ∧
    r.depth ≤ (es.map Edit.rise).sum := by
  have wf := wellFormed_of_mem hr
  have wf' := wellFormed_of_mem ho
  have hlength := length_eq wf
  refine ⟨fun start stop h₁ h₂ => ?_, depth_append r o, fun index a h₁ h₂ => ?_, fun index h => ?_,
    depth_le_rises es r hr⟩
  · obtain ⟨t, ht, -, -⟩ := sub_ok wf h₁ (hlength ▸ h₂)
    exact ⟨t, ht, depth_sub_le ht⟩
  · obtain ⟨t, ht, -, -⟩ := replace_ok wf a (hlength ▸ h₁) (hlength ▸ h₂)
    exact ⟨t, ht, depth_replace_le ht⟩
  · obtain ⟨t, ht, -, -⟩ := insert_ok wf wf' (hlength ▸ h)
    exact ⟨t, ht, depth_insert_le ht⟩

/-- Runs are joined twice, an element is replaced in the middle, and just that is cut out. -/
def joinedAndReplaced : List (Edit Nat) :=
  [.values [1, 2], .values [3], .append 0 1, .append 2 0, .replace 3 2 9, .sub 4 2 3]

/-- Of four levels one is left in the cut; to put that back in adds two levels at most. -/
theorem joined_and_replaced_deepens : ∃ r o, (Edit.ropes joinedAndReplaced)[4]? = some r ∧
    (Edit.ropes joinedAndReplaced)[5]? = some o ∧ r.depth = 4 ∧ o.depth = 1 ∧
    (∃ t, r.sub 1 4 = .ok t ∧ t.depth ≤ 4) ∧ (r.append o).depth = 5 ∧
    (∃ t, r.replace 1 5 = .ok t ∧ t.depth ≤ 5) ∧ ∃ t, r.insert 2 o = .ok t ∧ t.depth ≤ 6 := by
  have hjoined : (Edit.ropes joinedAndReplaced)[4]?.map (fun r => (r.depth, r.length, r.isEmpty)) =
      some (4, 5, false) := by decide +kernel
  have hcut : (Edit.ropes joinedAndReplaced)[5]?.map (fun o => (o.depth, o.isEmpty)) =
      some (1, false) := by decide +kernel
  obtain ⟨r, hr, hshape⟩ := Option.map_eq_some_iff.mp hjoined
  obtain ⟨o, ho, hshape'⟩ := Option.map_eq_some_iff.mp hcut
  simp only [Prod.mk.injEq] at hshape hshape'
  obtain ⟨hdepth, hlength, hfull⟩ := hshape
  obtain ⟨hdepth', hfull'⟩ := hshape'
  obtain ⟨hsub, happend, hreplace, hinsert, -⟩ :=
    ropes_deepen_by_joining joinedAndReplaced joinedAndReplaced r o (List.mem_of_getElem? hr)
      (List.mem_of_getElem? ho)
  rw [hdepth, hlength] at hsub hreplace
  rw [hdepth, hdepth', hlength] at hinsert
  refine ⟨r, o, hr, ho, hdepth, hdepth', hsub 1 4 (by omega) (by omega), ?_,
    hreplace 1 5 (by omega) (by omega), hinsert 2 (by omega)⟩
  simp [happend, hfull, hfull', hdepth, hdepth', List.max?_cons]

end Rope

end CellMachine
