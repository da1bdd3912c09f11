import Mathlib.Tactic
import CellMachine.Opcode.Declaration

/-!
Where generics occur in declared types. The check of declarations walks through a type with a stack and
notes the generics that it meets in places where there may be none. It notes nothing exactly if every
generic stands at the top of the type, or directly below it in an iterable or a key-of.
-/

namespace CellMachine

/-- A generic occurs so many levels below a reference, in what is written in place. -/
inductive TyRef.GenericAt : Nat → TyRef → Prop where
  | here (id : String) (hint : Hint) : GenericAt 0 (.generic id hint)
  | inside {t : Ty} {r : TyRef} {depth : Nat} (hr : r ∈ t.refs) (h : GenericAt depth r) :
    GenericAt (depth + 1) (.inline t)

/-- Generics stand at the top of a declared type only, or directly below a top-level iterable or
key-of. -/
def TyRef.Shallow (r : TyRef) : Prop :=
  ∀ depth, r.GenericAt depth → depth = 0 ∨
    depth = 1 ∧ ∃ t, r = .inline t ∧ (t.category = .iterable ∨ t.category = .keyOf)

/-- How many generics of a declared type stand neither at its top nor directly below a top-level
iterable or key-of. -/
def TyRef.deepGenericCount : TyRef → Nat
  | .inline (.iterable _ _ e _) => if e.isGeneric then 0 else e.genericCount
  | .inline (.keyOf _ _ o) => if o.isGeneric then 0 else o.genericCount
  | .inline t => t.genericCount
  | .named _ => 0
  | .generic .. => 0

/-! ### Counting generics -/

lemma genericCountStores_eq_zero_iff {m : List (String × TyRef)} :
    genericCountStores m = 0 ↔ ∀ r ∈ m.map Prod.snd, r.genericCount = 0 := by
  induction m with
  | nil => exact ⟨fun _ => nofun, fun _ => rfl⟩
  | cons e m ih =>
    rw [genericCountStores, Nat.add_eq_zero_iff, ih, List.map_cons, List.forall_mem_cons]

lemma Ty.genericCount_eq_zero_iff {t : Ty} :
    t.genericCount = 0 ↔ ∀ r ∈ t.refs, r.genericCount = 0 := by
  cases t with
  | native => exact ⟨fun _ => nofun, fun _ => rfl⟩
  | iterable => rw [refs, List.forall_mem_singleton, genericCount]
  | structured => exact genericCountStores_eq_zero_iff
  | callable =>
    rw [refs, List.forall_mem_cons, List.forall_mem_singleton, genericCount, Nat.add_eq_zero_iff]
  | keyOf => rw [refs, List.forall_mem_singleton, genericCount]

lemma Ty.exists_ref_of_generic {t : Ty} (h : t.genericCount ≠ 0) :
    ∃ r ∈ t.refs, r.genericCount ≠ 0 := by
  by_contra hnone
  push Not at hnone
  exact h (genericCount_eq_zero_iff.mpr hnone)

lemma TyRef.size_le_of_mem {r : TyRef} {rs : List TyRef} (h : r ∈ rs) : r.size ≤ sizeRefs rs := by
  induction h with
  | head => exact Nat.le_add_right ..
  | tail _ _ ih => exact ih.trans (Nat.le_add_left ..)

lemma Ty.size_lt_of_mem_refs {t : Ty} {r : TyRef} (h : r ∈ t.refs) : r.size < t.size :=
  (TyRef.size_le_of_mem h).trans_lt t.sizeRefs_lt

lemma TyRef.exists_genericAt : ∀ {r : TyRef}, r.genericCount ≠ 0 → ∃ depth, r.GenericAt depth
  | .generic id hint, _ => ⟨0, .here id hint⟩
  | .named _, h => absurd rfl h
  | .inline t, h => by
    obtain ⟨r, hr, hcount⟩ := Ty.exists_ref_of_generic h
    have := Ty.size_lt_of_mem_refs hr
    obtain ⟨depth, hdepth⟩ := exists_genericAt hcount
    exact ⟨depth + 1, .inside hr hdepth⟩
termination_by r => r.size

/-- **Nothing is counted exactly if there is nothing.** -/
lemma TyRef.genericCount_eq_zero_iff {r : TyRef} :
    r.genericCount = 0 ↔ ∀ depth, ¬r.GenericAt depth := by
  constructor
  · intro hcount depth h
    induction h with
    | here id hint => cases hcount
    | inside hr _ ih => exact ih (Ty.genericCount_eq_zero_iff.mp hcount _ hr)
  · intro hnone
    by_contra hcount
    obtain ⟨depth, h⟩ := exists_genericAt hcount
    exact hnone depth h

/-! ### The walk -/

/-- **The walk notes what is out of place**: it notes nothing exactly if every generic on its stack may
stand there, and none is further below. -/
lemma TyRef.walk_eq_nil_iff (stack : List (TyRef × Bool)) :
    TyRef.walk stack = [] ↔
      ∀ e ∈ stack, ∀ depth, e.1.GenericAt depth → depth = 0 ∧ e.2 = true := by
  -- Along the walk: the cases are what can be on top of the stack.
  induction stack using TyRef.walk.induct with
  | case1 => exact ⟨fun _ => nofun, fun _ => by rw [walk]⟩
  | case2 id hint stack ih =>
    rw [walk, if_pos rfl, ih, List.forall_mem_cons, and_iff_right]
    intro depth h
    cases h
    exact ⟨rfl, rfl⟩
  | case3 id hint allowed stack hallowed =>
    rw [walk, if_neg hallowed]
    exact ⟨nofun, fun h => absurd (h _ List.mem_cons_self 0 (.here id hint)).2 hallowed⟩
  | case4 name allowed stack ih =>
    rw [walk, ih, List.forall_mem_cons, and_iff_right]
    exact nofun
  | case5 t allowed stack ih =>
    rw [walk, ih, List.forall_mem_append, List.forall_mem_cons]
    refine and_congr_left fun _ => ⟨fun h depth hdepth => ?_, fun h e he depth hdepth => ?_⟩
    · cases hdepth with
      | inside hr hdepth =>
        cases (h _ (List.mem_reverse.mpr (List.mem_map_of_mem hr)) _ hdepth).2
    · obtain ⟨r, hr, rfl⟩ := List.mem_map.mp (List.mem_reverse.mp he)
      cases (h (depth + 1) (.inside hr hdepth)).1

lemma TyRef.shallow_inline_iff {t : Ty} : (TyRef.inline t).Shallow ↔
    ∀ r ∈ t.refs, ∀ depth, r.GenericAt depth →
      depth = 0 ∧ (t.category = .iterable ∨ t.category = .keyOf) := by
  constructor
  · intro h r hr depth hdepth
    rcases h (depth + 1) (.inside hr hdepth) with h | ⟨h, u, hu, hcategory⟩
    · cases h
    · cases hu
      exact ⟨Nat.succ.inj h, hcategory⟩
  · rintro h depth (_ | ⟨hr, hdepth⟩)
    obtain ⟨rfl, hcategory⟩ := h _ hr _ hdepth
    exact .inr ⟨rfl, t, rfl, hcategory⟩

/-- **A declared type passes exactly if its generics stand at the top or directly below it.** -/
lemma TyRef.deepGenerics_eq_nil_iff {r : TyRef} : r.deepGenerics = [] ↔ r.Shallow := by
  cases r with
  | generic id hint =>
    refine ⟨fun _ depth h => ?_, fun _ => rfl⟩
    cases h
    exact .inl rfl
  | named name => exact ⟨fun _ => nofun, fun _ => rfl⟩
  | inline t =>
    simp only [deepGenerics, walk_eq_nil_iff, List.mem_reverse, List.forall_mem_map,
      shallow_inline_iff, Bool.or_eq_true, beq_iff_eq]

lemma TyRef.genericAt_zero_iff {r : TyRef} : (∀ depth, r.GenericAt depth → depth = 0) ↔
    (if r.isGeneric then 0 else r.genericCount) = 0 := by
  split
  · next hgeneric =>
    refine ⟨fun _ => rfl, fun _ depth h => ?_⟩
    cases h with
    | here => rfl
    | inside => cases hgeneric
  · next hgeneric =>
    rw [genericCount_eq_zero_iff]
    refine forall_congr' fun depth => ⟨fun h hdepth => ?_, fun h hdepth => absurd hdepth h⟩
    cases hdepth with
    | here => exact hgeneric rfl
    | inside hr hdepth => cases h (.inside hr hdepth)

lemma TyRef.deepGenericCount_eq_zero_iff {r : TyRef} :
    r.deepGenericCount = 0 ↔ r.deepGenerics = [] := by
  rw [deepGenerics_eq_nil_iff]
  cases r with
  | generic id hint => exact ⟨fun _ => deepGenerics_eq_nil_iff.mp rfl, fun _ => rfl⟩
  | named name => exact ⟨fun _ => nofun, fun _ => rfl⟩
  | inline t =>
    rw [shallow_inline_iff]
    cases t with
    | iterable n s e ends =>
      rw [deepGenericCount, ← genericAt_zero_iff]
      simp [Ty.refs, Ty.category]
    | keyOf n s o =>
      rw [deepGenericCount, ← genericAt_zero_iff]
      simp [Ty.refs, Ty.category]
    | _ => simp [deepGenericCount, Ty.genericCount_eq_zero_iff, genericCount_eq_zero_iff, Ty.category]

end CellMachine
