import CellMachine.Proofs.Registry.Simulation

/-!
The types written in a type, as a list. What is asked of every type that is written somewhere can be
decided in this way for a given registry.
-/

namespace CellMachine

mutual

/-- The types written in a type, itself first. -/
def Ty.written : Ty → List Ty
  | .native n s tag test => [.native n s tag test]
  | .iterable n s e ends => .iterable n s e ends :: e.written
  | .structured n s m => .structured n s m :: writtenStores m
  | .callable n s a r => .callable n s a r :: (a.written ++ r.written)
  | .keyOf n s o => .keyOf n s o :: o.written

def TyRef.written : TyRef → List Ty
  | .inline t => t.written
  | .named _ => []
  | .generic .. => []

def writtenStores : List (String × TyRef) → List Ty
  | [] => []
  | (_, r) :: m => r.written ++ writtenStores m

end

lemma mem_writtenStores {u : Ty} {m : List (String × TyRef)} :
    u ∈ writtenStores m ↔ ∃ r ∈ m.map Prod.snd, u ∈ r.written := by
  induction m with
  | nil => simp [writtenStores]
  | cons e m ih =>
    obtain ⟨k, r⟩ := e
    simp [writtenStores, ih]

lemma TyRef.mem_written {u : Ty} {r : TyRef} : u ∈ r.written ↔ ∃ t, r = .inline t ∧ u ∈ t.written := by
  cases r <;> simp [TyRef.written]

lemma Ty.mem_written_iff {u t : Ty} :
    u ∈ t.written ↔ u = t ∨ ∃ v, .inline v ∈ t.refs ∧ u ∈ v.written := by
  cases t <;>
    simp [Ty.written, Ty.refs, mem_writtenStores, TyRef.mem_written, or_and_right, exists_or,
      @eq_comm _ (TyRef.inline _)]

lemma size_le_sizeStores {r : TyRef} {m : List (String × TyRef)} (h : r ∈ m.map Prod.snd) :
    r.size ≤ sizeStores m := by
  induction m with
  | nil => cases h
  | cons e m ih =>
    obtain ⟨k, s⟩ := e
    rw [sizeStores]
    rcases List.mem_cons.mp h with rfl | h
    · exact Nat.le_add_right _ _
    · exact (ih h).trans (Nat.le_add_left _ _)

lemma Ty.size_lt_of_inline {v t : Ty} (h : .inline v ∈ t.refs) : v.size < t.size := by
  cases t with
  | native => cases h
  | iterable n s e ends =>
    cases List.mem_singleton.mp h
    simp [Ty.size, TyRef.size]
  | structured n s m =>
    have hle := size_le_sizeStores h
    rw [TyRef.size] at hle
    rw [Ty.size]
    omega
  | callable n s a r =>
    simp only [Ty.refs, List.mem_cons, List.not_mem_nil, or_false] at h
    rcases h with rfl | rfl <;> simp only [Ty.size, TyRef.size] <;> omega
  | keyOf n s o =>
    cases List.mem_singleton.mp h
    simp [Ty.size, TyRef.size]

/-- **The list holds what is written in a type**, at any depth. -/
lemma Ty.mem_written {u t : Ty} : u ∈ t.written ↔ u.Within t := by
  constructor
  · intro h
    induction hn : t.size using Nat.strong_induction_on generalizing t with
    | _ n ih =>
      rcases Ty.mem_written_iff.mp h with rfl | ⟨v, hv, hu⟩
      · exact .refl
      · exact .inline hv (ih v.size (hn ▸ Ty.size_lt_of_inline hv) hu rfl)
  · intro h
    induction h with
    | refl => exact Ty.mem_written_iff.mpr (.inl rfl)
    | inline hv _ ih => exact Ty.mem_written_iff.mpr (.inr ⟨_, hv, ih⟩)

namespace Registry

/-- Whether every type written in a type has the definition that is registered under its name. -/
def holdsAll (reg : Registry) (t : Ty) : Bool :=
  t.written.all fun u => (reg.get? u.name).any fun v => v.sameDefinition u

variable {reg : Registry}

lemma holdsAll_iff {t : Ty} : reg.holdsAll t = true ↔ reg.Agrees t := by
  simp only [holdsAll, List.all_eq_true, Option.any_eq_true, Ty.mem_written]
  rfl

lemma coherent_of_all (h : ∀ e ∈ reg.types, reg.holdsAll e.2 = true) : reg.Coherent :=
  fun _ _ ht => holdsAll_iff.mp (h _ (KeyMap.mem_of_get? ht))

lemma unmarked_of_all (h : ∀ e ∈ reg.types, '!' ∉ e.2.name.toList) : reg.Unmarked :=
  fun _ _ ht => h _ (KeyMap.mem_of_get? ht)

end Registry

end CellMachine
