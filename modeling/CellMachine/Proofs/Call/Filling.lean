import CellMachine.Proofs.Call.Binding
import CellMachine.Proofs.Opcode.Depth
import CellMachine.Proofs.Registry.Instances

/-!
Declared types with their generics filled in. What an opcode asks for is its declared type with every
generic replaced by the type it is bound to. What its arguments are compared with is another type, which
has a made-up name; but a type that agrees with the registry matches both part by part, or neither.
-/

namespace CellMachine

mutual

/-- A type in which every generic is replaced. Names stay as they are. -/
def Ty.fill (bound : String → Ty) : Ty → Ty
  | .native n s tag test => .native n s tag test
  | .iterable n s e ends => .iterable n s (e.fill bound) ends
  | .structured n s m => .structured n s (fillStores bound m)
  | .callable n s a r => .callable n s (a.fill bound) (r.fill bound)
  | .keyOf n s o => .keyOf n s (o.fill bound)

def TyRef.fill (bound : String → Ty) : TyRef → TyRef
  | .inline t => .inline (t.fill bound)
  | .named n => .named n
  | .generic id _ => .inline (bound id)

def fillStores (bound : String → Ty) : List (String × TyRef) → List (String × TyRef)
  | [] => []
  | (k, r) :: m => (k, r.fill bound) :: fillStores bound m

end

mutual

lemma Ty.fill_of_concrete {bound : String → Ty} : ∀ {t : Ty}, t.genericCount = 0 → t.fill bound = t
  | .native .., _ => rfl
  | .iterable _ _ _ _, h => by
    rw [Ty.fill, TyRef.fill_of_concrete h]
  | .structured _ _ _, h => by
    rw [Ty.fill, fillStores_of_concrete h]
  | .callable _ _ _ _, h => by
    obtain ⟨ha, hr⟩ := Nat.add_eq_zero_iff.mp h
    rw [Ty.fill, TyRef.fill_of_concrete ha, TyRef.fill_of_concrete hr]
  | .keyOf _ _ _, h => by
    rw [Ty.fill, TyRef.fill_of_concrete h]

lemma TyRef.fill_of_concrete {bound : String → Ty} :
    ∀ {r : TyRef}, r.genericCount = 0 → r.fill bound = r
  | .inline _, h => by rw [TyRef.fill, Ty.fill_of_concrete h]
  | .named _, _ => rfl

lemma fillStores_of_concrete {bound : String → Ty} :
    ∀ {m : List (String × TyRef)}, genericCountStores m = 0 → fillStores bound m = m
  | [], _ => rfl
  | (_, _) :: _, h => by
    obtain ⟨hr, hm⟩ := Nat.add_eq_zero_iff.mp h
    rw [fillStores, TyRef.fill_of_concrete hr, fillStores_of_concrete hm]

end

namespace Binding

variable {reg : Registry}

/-- What a generic is bound to; a generic without a binding is open. -/
def lookup (bound : KeyMap String Ty) (id : String) : Ty := (bound.get? id).getD .runtimeDetermined

/-- A declared type in which every generic is replaced by what it is bound to. -/
def filled (reg : Registry) (bound : KeyMap String Ty) : TyRef → Outcome Ty
  | .generic id _ => .ok (lookup bound id)
  | declared => (reg.resolve declared).map (Ty.fill (lookup bound))

/-- The declared types that generics are looked for in: a generic, an iterable or a key-of directly of a
generic, and types without generics, which agree with the registry; or a name that is not known. -/
inductive Declared (reg : Registry) : TyRef → Prop where
  | generic (id : String) (hint : Hint) : Declared reg (.generic id hint)
  | iterable {r : TyRef} {name id : String} {source : Option Position} {hint : Hint}
    {ends : Termination}
    (h : reg.resolve r = .ok (.iterable name source (.generic id hint) ends))
    (hname : '!' ∉ name.toList) : Declared reg r
  | keyOf {r : TyRef} {name id : String} {source : Option Position} {hint : Hint}
    (h : reg.resolve r = .ok (.keyOf name source (.generic id hint)))
    (hname : '!' ∉ name.toList) : Declared reg r
  | concrete {r : TyRef} {t : Ty} (h : reg.resolve r = .ok t) (hagrees : reg.Agrees t)
    (hconcrete : t.genericCount = 0) : Declared reg r
  | unknown (name : String) (h : reg.get? name = none) : Declared reg (.named name)

/-- The check of declarations leaves generics at the top of a type, or directly below it. -/
lemma deepGenericCount_of_check {s : Signature} (h : s.check reg = []) :
    ∀ r ∈ s.declared, r.deepGenericCount = 0 := by
  have shallow : ∀ {extra : Ty → List Cause} {r : TyRef}, s.typeCauses reg extra r = [] →
      r.deepGenericCount = 0 := fun h =>
    TyRef.deepGenericCount_eq_zero_iff.mpr (List.map_eq_nil_iff.mp (List.append_eq_nil_iff.mp h).2)
  obtain ⟨hinner, hresult⟩ := List.append_eq_nil_iff.mp h
  obtain ⟨-, harguments⟩ := List.append_eq_nil_iff.mp hinner
  intro r hr
  rcases List.mem_append.mp hr with hr | hr
  · obtain ⟨a, ha, rfl⟩ := List.mem_map.mp hr
    obtain ⟨i, hi⟩ := List.mem_iff_getElem?.mp ha
    have hin : (i, a) ∈ s.numbered :=
      List.mem_map.mpr ⟨(a, i), List.mem_zipIdx_iff_getElem?.mpr hi, rfl⟩
    exact shallow (List.map_eq_nil_iff.mp (List.flatMap_eq_nil_iff.mp harguments _ hin))
  · cases List.mem_singleton.mp hr
    exact shallow (List.map_eq_nil_iff.mp hresult)

lemma declared_of_shallow {r : TyRef} {t : Ty} (hres : reg.resolve r = .ok t)
    (hshallow : (TyRef.inline t).deepGenericCount = 0) (hname : '!' ∉ t.name.toList)
    (hagrees : t.genericCount = 0 → reg.Agrees t) : Declared reg r := by
  have concrete : t.genericCount = 0 → Declared reg r := fun h => .concrete hres (hagrees h) h
  cases t with
  | iterable n s e ends =>
    cases e with
    | generic id hint => exact .iterable hres hname
    | _ => exact concrete hshallow
  | keyOf n s o =>
    cases o with
    | generic id hint => exact .keyOf hres hname
    | _ => exact concrete hshallow
  | _ => exact concrete hshallow

lemma known_lookup {bound : KeyMap String Ty}
    (hbound : ∀ id t, bound.get? id = some t → reg.Known t) (id : String) :
    reg.Known (lookup bound id) := by
  rw [lookup]
  cases hid : bound.get? id with
  | none => exact Registry.known_runtimeDetermined reg
  | some t => exact hbound id t hid

/-- What stands for a declared type in comparisons: it is compared like the declared type with its
generics filled in. -/
structure StandsFor (reg : Registry) (t filled : Ty) : Prop where
  formed : reg.Formed t
  actual : ∀ a, reg.Agrees a → reg.MatchesByParts a t → reg.MatchesByParts a filled
  expected : ∀ e, reg.Agrees e → reg.MatchesByParts t e → reg.MatchesByParts filled e

lemma StandsFor.refl {t : Ty} (h : reg.Agrees t) : StandsFor reg t t :=
  ⟨.inl h, fun _ _ h => h, fun _ _ h => h⟩

/-- An instance stands for a type of the same contents. A type that agrees has never the definition of
an instance, so it can match only by its contents. -/
lemma StandsFor.of_contents (tidy : reg.Tidy) {t filled : Ty} (ht : Registry.Instance reg.Agrees t)
    (hactual : ∀ a, Registry.ContentsRelated (Registry.Similar reg.Holds) a t →
      Registry.ContentsRelated (Registry.Similar reg.Holds) a filled)
    (hexpected : ∀ e, Registry.ContentsRelated (Registry.Similar reg.Holds) t e →
      Registry.ContentsRelated (Registry.Similar reg.Holds) filled e) : StandsFor reg t filled where
  formed := .inr ht
  actual a ha h := by
    rcases h with hsame | hcontents
    · exact absurd (hsame.name_eq ▸ ht.bracket) (tidy.not_bracket ha)
    · exact .inr (hactual a hcontents)
  expected e he h := by
    rcases h with hsame | hcontents
    · exact absurd (hsame.name_eq ▸ ht.bracket) (tidy.not_bracket he)
    · exact .inr (hexpected e hcontents)

lemma StandsFor.iterable (tidy : reg.Tidy) {name : String} (hname : '!' ∉ name.toList)
    (source : Option Position) (ends : Termination) {u : Ty} (hu : reg.Agrees u) :
    StandsFor reg (.iterable (name ++ "[" ++ u.name ++ "]") source (.inline u) ends)
      (.iterable name source (.inline u) ends) := by
  refine .of_contents tidy (.iterable hname source ends hu) (fun a h => ?_) fun e h => ?_
  · cases a <;> exact h
  · cases e <;> exact h

lemma StandsFor.keyOf (tidy : reg.Tidy) {name : String} (hname : '!' ∉ name.toList)
    (source : Option Position) {u : Ty} (hu : reg.Agrees u) :
    StandsFor reg (.keyOf (name ++ "[" ++ u.name ++ "]") source (.inline u))
      (.keyOf name source (.inline u)) := by
  refine .of_contents tidy (.keyOf hname source hu) (fun a h => ?_) fun e h => ?_
  · cases a <;> exact h
  · cases e <;> exact h

lemma substitute_of_resolve {r : TyRef} {t : Ty} (h : reg.resolve r = .ok t)
    (bound : KeyMap String Ty) : substitute reg r bound = substitute reg (.inline t) bound ∧
      filled reg bound r = .ok (t.fill (lookup bound)) := by
  cases r with
  | inline u =>
    cases h
    exact ⟨rfl, rfl⟩
  | named n =>
    have hinline : reg.resolve (.inline t) = .ok t := rfl
    refine ⟨by simp only [substitute, h, hinline], ?_⟩
    simp only [filled, h]
    rfl
  | generic id hint => cases h

lemma standsFor_of_binding {bound : KeyMap String Ty}
    (hbound : ∀ id t, bound.get? id = some t → reg.Known t) {id : String} {made t u : Ty}
    (h : (if (lookup bound id).isRuntimeDetermined then .ok (lookup bound id) else .ok made :
      Outcome Ty) = .ok t) (hmade : reg.Agrees (lookup bound id) → StandsFor reg made u) :
    t.isRuntimeDetermined = true ∨ StandsFor reg t u := by
  split at h
  · next hopen =>
    cases h
    exact .inl hopen
  · next hopen =>
    cases h
    exact .inr (hmade ((known_lookup hbound id).resolve_left hopen))

/-- **What a declared type becomes** is open, or stands for the declared type with its generics filled
in. -/
lemma substitute_standsFor (tidy : reg.Tidy) {declared : TyRef} (hdeclared : Declared reg declared)
    {bound : KeyMap String Ty} (hbound : ∀ id t, bound.get? id = some t → reg.Known t) {t : Ty}
    (h : substitute reg declared bound = .ok t) :
    ∃ u, filled reg bound declared = .ok u ∧
      (t.isRuntimeDetermined = true ∨ StandsFor reg t u) := by
  cases hdeclared with
  | generic id hint =>
    cases h
    exact ⟨_, rfl, (known_lookup hbound id).imp_right .refl⟩
  | @iterable r name id source hint ends hres hname =>
    obtain ⟨hsubst, hfilled⟩ := substitute_of_resolve hres bound
    rw [hsubst] at h
    simp only [substitute, Registry.resolve] at h
    exact ⟨_, hfilled, standsFor_of_binding hbound h (.iterable tidy hname source ends)⟩
  | @keyOf r name id source hint hres hname =>
    obtain ⟨hsubst, hfilled⟩ := substitute_of_resolve hres bound
    rw [hsubst] at h
    simp only [substitute, Registry.resolve] at h
    exact ⟨_, hfilled, standsFor_of_binding hbound h (.keyOf tidy hname source)⟩
  | @concrete r u hres hagrees hconcrete =>
    obtain ⟨hsubst, hfilled⟩ := substitute_of_resolve hres bound
    rw [Ty.fill_of_concrete hconcrete] at hfilled
    have hsame : substitute reg (.inline u) bound = .ok u := by
      cases u with
      | iterable n s r e =>
        cases r with
        | generic id hint => cases hconcrete
        | _ => rfl
      | keyOf n s r =>
        cases r with
        | generic id hint => cases hconcrete
        | _ => rfl
      | _ => rfl
    rw [hsubst, hsame] at h
    cases h
    exact ⟨_, hfilled, .inr (.refl hagrees)⟩
  | unknown name hname =>
    simp only [substitute, Registry.resolve, hname] at h
    cases h

/-! ### What fits a declared type -/

/-- A declared type is open with its generics bound, or has a property with its generics filled in. -/
def OpenOr (reg : Registry) (bound : KeyMap String Ty) (declared : TyRef) (P : Ty → Prop) :
    Prop :=
  ∃ t filled, Binding.substitute reg declared bound = .ok t ∧
    Binding.filled reg bound declared = .ok filled ∧ (t.isRuntimeDetermined = true ∨ P filled)

/-- What is known of the type of an argument. -/
def ArgumentFits (reg : Registry) (bound : KeyMap String Ty) (declared : TyRef) (t : Ty) :
    Prop :=
  OpenOr reg bound declared fun filled => t.isRuntimeDetermined = true ∨ reg.MatchesByParts t filled

/-- What is known of the type of the cell. -/
def ResultFits (reg : Registry) (bound : KeyMap String Ty) (declared : TyRef) (t : Ty) :
    Prop :=
  OpenOr reg bound declared fun filled => t.isRuntimeDetermined = true ∨ reg.MatchesByParts filled t

end Binding

end CellMachine
