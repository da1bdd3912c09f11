import CellMachine.Proofs.Registry.Registration
import CellMachine.Proofs.Registry.Written

/-!
Name conflicts in what is registered. Registration opens one type of each name and only compares the
definitions of the others with it, so that what those others are made of is never read. Where types
of one definition are written alike nothing is missed; below two that are not, a conflict can stay
hidden.
-/

namespace CellMachine

/-- Of the types written in a type, those of one definition refer to the same. -/
def Ty.Uniform (t : Ty) : Prop :=
  ∀ u v : Ty, u.Within t → v.Within t → u.sameDefinition v = true → u.refs = v.refs

lemma Ty.uniform_of_names {t : Ty} (types : String → Option Ty)
    (h : ∀ u : Ty, u.Within t → types u.name = some u) : t.Uniform := by
  intro u v hu hv hsame
  have hname := (Ty.sameDefinition_iff.mp hsame).name_eq
  obtain rfl : u = v := Option.some.inj ((h u hu).symm.trans (hname ▸ h v hv))
  rfl

namespace Registry

/-- The types that a registration opens, one of each name: what is written in one of them has the
definition of another, each has the definition registered afterwards, and what they refer to by name is
registered. -/
structure Opened (reg' : Registry) (t : Ty) (found : KeyMap String Ty) : Prop where
  root : found.get? t.name = some t
  within : ∀ k w, found.get? k = some w → w.name = k ∧ w.Within t
  inlines : ∀ k w, found.get? k = some w → ∀ u, .inline u ∈ w.refs →
    ∃ v, found.get? u.name = some v ∧ v.sameDefinition u = true
  registered : ∀ k w, found.get? k = some w → ∃ v, reg'.get? k = some v ∧ v.sameDefinition w = true
  named : ∀ k w, found.get? k = some w → ∀ n, .named n ∈ w.refs → ∃ v, reg'.get? n = some v

variable {reg reg' : Registry} {t : Ty} {found : KeyMap String Ty}

lemma exists_opened (h : reg.register t = .ok reg') : ∃ found, Opened reg' t found := by
  obtain ⟨found, hc, -⟩ := register_spec h
  obtain ⟨hin, hroot⟩ := closure_root hc
  obtain ⟨w, hw⟩ := Option.isSome_iff_exists.mp (KeyMap.isSome_get?_iff.mpr hin)
  obtain rfl : w = t := hroot _ (KeyMap.mem_of_get? hw) rfl
  obtain ⟨d, -, rfl, -, hnoted, hnamed⟩ := exists_discovery hc
  refine ⟨d.found, hw, fun k v hv => ?_, fun k v hv u hu => ?_, fun k v hv => ?_,
    fun k v hv n hn => ?_⟩
  · obtain ⟨noted, hwithin⟩ := hnoted _ (KeyMap.mem_of_get? hv)
    exact ⟨noted.name_eq, hwithin⟩
  · exact (hnoted _ (KeyMap.mem_of_get? hv)).1.inlines u hu
  · exact same_found hc h (KeyMap.mem_of_get? hv)
  · have hname := hnamed _ ((hnoted _ (KeyMap.mem_of_get? hv)).1.names n hn)
    exact Option.isSome_iff_exists.mp (KeyMap.isSome_get?_iff.mpr (mem_keys_register hc h hname))

/-- Where types of one definition are written alike, every type written in the root has the definition
of the one that was opened, from the root downwards. -/
lemma Opened.knows (h : Opened reg' t found) (huniform : t.Uniform) {u : Ty} (hu : u.Within t) :
    ∃ w, found.get? u.name = some w ∧ w.sameDefinition u = true := by
  suffices hdown : ∀ {v : Ty}, u.Within v → v.Within t →
      (∃ w, found.get? v.name = some w ∧ w.sameDefinition v = true) →
      ∃ w, found.get? u.name = some w ∧ w.sameDefinition u = true from
    hdown hu .refl ⟨t, h.root, Ty.sameDefinition_iff.mpr (Ty.Same.refl t)⟩
  intro v huv
  induction huv with
  | refl => exact fun _ hknown => hknown
  | @inline v₁ v hv₁ _ ih =>
    rintro hv ⟨w, hw, hsame⟩
    have hrefs := huniform w v (h.within _ w hw).2 hv hsame
    exact ih ((Ty.Within.inline hv₁ .refl).trans hv) (h.inlines _ w hw v₁ (hrefs ▸ hv₁))

/-- **Conflicts hide below lookalikes only.** A registration that succeeds has opened types of distinct
names that agree with one another and with the registry; and where no two types are of one definition
and yet refer to different types, all types of one name are of one definition, which is the registered
one, and every name referred to is registered. -/
theorem register_finds_conflicts_of_uniform (h : reg.register t = .ok reg') :
    (∃ found, Opened reg' t found) ∧ (t.Uniform →
      (∀ u v : Ty, u.Within t → v.Within t → u.name = v.name → u.sameDefinition v = true) ∧
        reg'.Agrees t ∧
        ∀ u : Ty, u.Within t → ∀ n, .named n ∈ u.refs → ∃ v, reg'.get? n = some v) := by
  obtain ⟨found, hopened⟩ := exists_opened h
  refine ⟨⟨found, hopened⟩, fun huniform => ⟨fun u v hu hv hname => ?_, fun u hu => ?_,
    fun u hu n hn => ?_⟩⟩
  · obtain ⟨w, hw, hwu⟩ := hopened.knows huniform hu
    obtain ⟨w', hw', hwv⟩ := hopened.knows huniform hv
    rw [← hname, hw] at hw'
    cases hw'
    rw [Ty.sameDefinition_iff] at hwu hwv ⊢
    exact hwu.symm.trans hwv
  · obtain ⟨w, hw, hwu⟩ := hopened.knows huniform hu
    obtain ⟨v, hv, hvw⟩ := hopened.registered _ w hw
    rw [Ty.sameDefinition_iff] at hwu hvw
    exact ⟨v, hv, Ty.sameDefinition_iff.mpr (hvw.trans hwu)⟩
  · obtain ⟨w, hw, hwu⟩ := hopened.knows huniform hu
    have hrefs := huniform w u (hopened.within _ w hw).2 hu hwu
    exact hopened.named _ w hw n (hrefs ▸ hn)

/-! ### Two lookalikes -/

namespace Sample

/-- Iterables of one definition, whatever the tag of their elements is. -/
def lookalike (tag : String) (kind : NativeKind) : Ty :=
  .iterable "L" none (.inline (.native "B" none tag (NativeView.is kind))) .irrelevant

/-- A structure with two iterables. -/
def paired (first second : Ty) : Ty :=
  .structured "root" none [("p", .inline first), ("q", .inline second)]

def alike : Ty := paired (lookalike "integer" .int) (lookalike "integer" .int)

def unlike : Ty := paired (lookalike "integer" .int) (lookalike "string" .string)

lemma registers : (Registry.initial.register alike).isOk = true ∧
    (Registry.initial.register unlike).isOk = true := by decide +kernel

lemma exists_ok {α : Type} {r : Outcome α} (h : r.isOk = true) : ∃ a, r = .ok a := by
  cases r with
  | error p => cases h
  | ok a => exact ⟨a, rfl⟩

lemma uniform_alike : alike.Uniform := by
  let types : KeyMap String Ty := [("root", alike), ("L", lookalike "integer" .int),
    ("B", .native "B" none "integer" (NativeView.is .int))]
  refine Ty.uniform_of_names types.get? fun u hu => ?_
  rw [← Ty.mem_written] at hu
  simp only [alike, paired, lookalike, Ty.written, writtenStores, TyRef.written, List.mem_cons,
    List.mem_append, List.not_mem_nil, or_false] at hu
  rcases hu with rfl | (rfl | rfl) | rfl | rfl <;> rfl

/-- Two iterables that are written alike are registered with the structure that holds them. -/
theorem alike_has_no_conflict : ∃ reg', Registry.initial.register alike = .ok reg' ∧
    alike.Uniform ∧ (∃ found, Opened reg' alike found) ∧ reg'.Agrees alike := by
  obtain ⟨reg', h⟩ := exists_ok registers.1
  obtain ⟨hopened, hagrees⟩ := register_finds_conflicts_of_uniform h
  exact ⟨reg', h, uniform_alike, hopened, (hagrees uniform_alike).2.1⟩

/-- **A conflict is missed**: two elements of one name but of different tags are registered when they
are written in iterables of one definition. -/
theorem not_forall_register_finds_conflicts : ¬ ∀ (reg reg' : Registry) (t : Ty), reg.Reached →
    reg.register t = .ok reg' → ∀ u v : Ty, u.Within t → v.Within t → u.name = v.name →
      u.sameDefinition v = true := by
  intro hall
  obtain ⟨reg', h⟩ := exists_ok registers.2
  have hsame := hall _ _ _ .initial h (.native "B" none "integer" (NativeView.is .int))
    (.native "B" none "string" (NativeView.is .string)) (Ty.mem_written.mp ?_) (Ty.mem_written.mp ?_) rfl
  · cases hsame
  · simp [unlike, paired, lookalike, Ty.written, writtenStores, TyRef.written]
  · simp [unlike, paired, lookalike, Ty.written, writtenStores, TyRef.written]

end Sample

end Registry

end CellMachine
