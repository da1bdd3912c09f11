import CellMachine.Proofs.Registry.Simulation

/-!
What registration keeps: a type stands under its own name, and every name that a registered type
refers to is registered. Discovery has noted, when it ends, whatever is written inside what it
noted.
-/

namespace CellMachine

namespace Registry

/-- A type is registered under its name. -/
def Holds (reg : Registry) (t : Ty) : Prop := reg.get? t.name = some t

/-- The registries that are made by successful registrations. -/
inductive Reached : Registry → Prop
  | initial : Reached .initial
  | register {reg reg' : Registry} {t : Ty} (h : Reached reg) (h' : reg.register t = .ok reg') :
    Reached reg'

/-- Types stand under their names, and names referred to are registered. -/
structure Resolved (reg : Registry) : Prop where
  name_eq : ∀ n t, reg.get? n = some t → t.name = n
  refs : ∀ n t, reg.get? n = some t → ∀ r ∈ t.refs, r.isGeneric = false →
    r.name ∈ reg.types.keys

/-! ### Discovery -/

/-- A type was noted that may stand for another one. -/
def Discovery.Knows (d : Discovery) (u : Ty) : Prop :=
  ∃ w, d.found.get? u.name = some w ∧ w.sameDefinition u = true

/-- A noted type has no registered type against it, and whatever is written inside it was noted too. -/
structure Noted (reg : Registry) (d : Discovery) (name : String) (t : Ty) : Prop where
  name_eq : t.name = name
  same : ∀ v, reg.get? t.name = some v → v.sameDefinition t = true
  inlines : ∀ u, .inline u ∈ t.refs → d.Knows u
  names : ∀ n, .named n ∈ t.refs → (n, t.name) ∈ d.named

/-- A later state of a discovery, in which types of some kind were noted. -/
structure Grown (reg : Registry) (P : Ty → Prop) (d d' : Discovery) : Prop where
  kept : ∀ k w, d.found.get? k = some w → d'.found.get? k = some w
  named : d.named ⊆ d'.named
  ascending : d.found.Ascending → d'.found.Ascending
  found : ∀ e ∈ d'.found, e ∈ d.found ∨ (Noted reg d' e.1 e.2 ∧ P e.2) ∧ e.1 ∉ d.found.keys

variable {reg : Registry} {P Q : Ty → Prop}

lemma Discovery.Knows.mem_keys {d : Discovery} {u : Ty} (h : d.Knows u) : u.name ∈ d.found.keys := by
  obtain ⟨w, hw, -⟩ := h
  exact KeyMap.isSome_get?_iff.mp (Option.isSome_iff_exists.mpr ⟨w, hw⟩)

lemma Grown.knows {d d' : Discovery} (h : Grown reg P d d') {u : Ty} (hu : d.Knows u) : d'.Knows u := by
  obtain ⟨w, hw, hsame⟩ := hu
  exact ⟨w, h.kept _ w hw, hsame⟩

lemma Grown.keys {d d' : Discovery} (h : Grown reg P d d') : d.found.keys ⊆ d'.found.keys := by
  intro k hk
  obtain ⟨w, hw⟩ := Option.isSome_iff_exists.mp (KeyMap.isSome_get?_iff.mpr hk)
  exact KeyMap.isSome_get?_iff.mp (Option.isSome_iff_exists.mpr ⟨w, h.kept k w hw⟩)

lemma Noted.mono {d d' : Discovery} (h : Grown reg P d d') {name : String} {t : Ty}
    (ht : Noted reg d name t) : Noted reg d' name t :=
  ⟨ht.name_eq, ht.same, fun u hu => h.knows (ht.inlines u hu), fun n hn => h.named (ht.names n hn)⟩

lemma Grown.refl (d : Discovery) : Grown reg P d d :=
  ⟨fun _ _ => id, fun _ => id, id, fun _ => Or.inl⟩

lemma Grown.imp {d d' : Discovery} (h : Grown reg P d d') (hPQ : ∀ u, P u → Q u) :
    Grown reg Q d d' :=
  ⟨h.kept, h.named, h.ascending,
    fun e he => (h.found e he).imp_right (And.imp_left (And.imp_right (hPQ _)))⟩

lemma Grown.trans {d d' d'' : Discovery} (h : Grown reg P d d') (h' : Grown reg P d' d'') :
    Grown reg P d d'' := by
  refine ⟨fun k w hk => h'.kept k w (h.kept k w hk), fun _ hk => h'.named (h.named hk),
    fun hd => h'.ascending (h.ascending hd), fun e he => ?_⟩
  rcases h'.found e he with he | he
  · exact (h.found e he).imp_right (And.imp_left (And.imp_left (Noted.mono h')))
  · exact Or.inr ⟨he.1, fun hk => he.2 (h.keys hk)⟩

lemma mem_namedRefs {t : Ty} {n : String} (h : .named n ∈ t.refs) : (n, t.name) ∈ namedRefs t :=
  List.mem_filterMap.mpr ⟨.named n, h, rfl⟩

/-- Noting a type either finds that it was noted or adds it with its references by name, which a
registered type of its name must not stand against. -/
lemma note_cases {t : Ty} {d : Discovery} {o : Option Discovery} (h : reg.note t d = .ok o) :
    (o = none ∧ d.Knows t) ∨
      o = some ⟨d.found.insert t.name t, d.named ++ namedRefs t⟩ ∧ t.name ∉ d.found.keys ∧
        ∀ v, reg.get? t.name = some v → v.sameDefinition t = true := by
  unfold note at h
  cases hseen : KeyMap.get? d.found t.name with
  | some seen =>
    simp only [hseen] at h
    split at h
    · next hsame =>
      cases h
      exact Or.inl ⟨rfl, seen, hseen, hsame⟩
    · cases h
  | none =>
    have hnew : t.name ∉ d.found.keys := by
      rw [← KeyMap.isSome_get?_iff, hseen]
      exact nofun
    simp only [hseen] at h
    cases hex : reg.get? t.name with
    | some existing =>
      simp only [hex] at h
      split at h
      · next hsame =>
        cases h
        exact Or.inr ⟨rfl, hnew, fun v hv => Option.some.inj hv ▸ hsame⟩
      · cases h
    | none =>
      simp only [hex] at h
      cases h
      exact Or.inr ⟨rfl, hnew, nofun⟩

/-- A newly noted type is noted with all it holds once its inline members were discovered, and it alone
stands under its name. -/
lemma grown_note {t : Ty} {d d' : Discovery} (hnew : t.name ∉ d.found.keys)
    (hsame : ∀ v, reg.get? t.name = some v → v.sameDefinition t = true)
    (h : Grown reg (fun u => ∃ v, .inline v ∈ t.refs ∧ u.Within v)
      ⟨d.found.insert t.name t, d.named ++ namedRefs t⟩ d')
    (hinline : ∀ u, .inline u ∈ t.refs → d'.Knows u) :
    Grown reg (Ty.Within · t) d d' ∧ d'.Knows t ∧
      (t.name ∉ d.found.keys → ∀ e ∈ d'.found, e.1 = t.name → e.2 = t) := by
  have hself : d'.found.get? t.name = some t := h.kept _ t (KeyMap.get?_insert_self _ _ _)
  refine ⟨⟨fun k w hk => h.kept k w ?_, fun k hk => h.named (List.mem_append_left _ hk),
    fun hd => h.ascending (KeyMap.ascending_insert _ _ hd), fun e he => ?_⟩,
    ⟨t, hself, Ty.sameDefinition_iff.mpr (Ty.Same.refl t)⟩, fun _ e he hname => ?_⟩
  · have hne : t.name ≠ k := fun heq =>
      hnew (heq ▸ KeyMap.isSome_get?_iff.mp (Option.isSome_iff_exists.mpr ⟨w, hk⟩))
    exact (KeyMap.get?_insert_of_ne hne t d.found).trans hk
  · rcases h.found e he with he | ⟨⟨he, v, hv, hwithin⟩, hk⟩
    · rcases KeyMap.mem_insert he with rfl | he
      · exact Or.inr ⟨⟨⟨rfl, hsame, hinline,
          fun n hn => h.named (List.mem_append_right _ (mem_namedRefs hn))⟩, .refl⟩, hnew⟩
      · exact Or.inl he
    · exact Or.inr ⟨⟨he, .inline hv hwithin⟩,
        fun hk' => hk (KeyMap.mem_keys_insert.mpr (Or.inr hk'))⟩
  · rcases h.found e he with he | ⟨-, hk⟩
    · rcases KeyMap.mem_insert he with rfl | he
      · rfl
      · exact absurd (hname ▸ KeyMap.mem_keys_of_mem he) hnew
    · exact absurd (KeyMap.mem_keys_insert.mpr (Or.inl hname)) hk

mutual

lemma discover_spec (t : Ty) {d d' : Discovery} (h : reg.discover t d = .ok d') :
    Grown reg (Ty.Within · t) d d' ∧ d'.Knows t ∧
      (t.name ∉ d.found.keys → ∀ e ∈ d'.found, e.1 = t.name → e.2 = t) := by
  cases hnote : reg.note t d with
  | error p =>
    rw [discover, hnote] at h
    cases h
  | ok o =>
    -- What was met before is not entered again; else the parts are discovered in turn.
    rcases note_cases hnote with ⟨rfl, hin⟩ | ⟨rfl, hnew, hsame⟩
    · rw [discover, hnote] at h
      cases h
      exact ⟨.refl d, hin, fun hnew => absurd hin.mem_keys hnew⟩
    match t with
    | .native .. =>
      rw [discover, hnote] at h
      cases h
      exact grown_note hnew hsame (.refl _) nofun
    | .iterable _ _ e _ =>
      rw [discover, hnote] at h
      obtain ⟨hg, hin⟩ := discoverRef_spec e h
      exact grown_note hnew hsame (hg.imp fun _ ⟨v, hv, hu⟩ => ⟨v, List.mem_singleton.mpr hv.symm, hu⟩)
        fun u hu => hin u (List.mem_singleton.mp hu).symm
    | .structured _ _ m =>
      rw [discover, hnote] at h
      obtain ⟨hg, hin⟩ := discoverStores_spec m h
      exact grown_note hnew hsame hg hin
    | .callable _ _ a r =>
      rw [discover, hnote] at h
      dsimp only at h
      cases hr : reg.discoverRef r _ with
      | error p =>
        rw [hr] at h
        cases h
      | ok d₁ =>
        rw [hr] at h
        obtain ⟨hg, hin⟩ := discoverRef_spec r hr
        obtain ⟨hg', hin'⟩ := discoverRef_spec a h
        refine grown_note hnew hsame
          ((hg.imp fun _ ⟨v, hv, hu⟩ => ⟨v, hv ▸ List.mem_cons_of_mem _ List.mem_cons_self, hu⟩).trans
            (hg'.imp fun _ ⟨v, hv, hu⟩ => ⟨v, hv ▸ List.mem_cons_self, hu⟩)) fun u hu => ?_
        rcases List.mem_cons.mp hu with hu | hu
        · exact hin' u hu.symm
        · exact hg'.knows (hin u (List.mem_singleton.mp hu).symm)
    | .keyOf _ _ o =>
      rw [discover, hnote] at h
      obtain ⟨hg, hin⟩ := discoverRef_spec o h
      exact grown_note hnew hsame (hg.imp fun _ ⟨v, hv, hu⟩ => ⟨v, List.mem_singleton.mpr hv.symm, hu⟩)
        fun u hu => hin u (List.mem_singleton.mp hu).symm

lemma discoverRef_spec (r : TyRef) {d d' : Discovery} (h : reg.discoverRef r d = .ok d') :
    Grown reg (fun u => ∃ v, r = .inline v ∧ u.Within v) d d' ∧
      ∀ u, r = .inline u → d'.Knows u := by
  match r with
  | .inline t =>
    rw [discoverRef] at h
    obtain ⟨hg, hin, -⟩ := discover_spec t h
    refine ⟨hg.imp fun u hu => ⟨t, rfl, hu⟩, fun u hu => ?_⟩
    cases hu
    exact hin
  | .named _ =>
    rw [discoverRef] at h
    cases h
    exact ⟨.refl d, nofun⟩
  | .generic .. =>
    rw [discoverRef] at h
    cases h
    exact ⟨.refl d, nofun⟩

lemma discoverStores_spec (m : List (String × TyRef)) {d d' : Discovery}
    (h : reg.discoverStores m d = .ok d') :
    Grown reg (fun u => ∃ v, .inline v ∈ m.map Prod.snd ∧ u.Within v) d d' ∧
      ∀ u, .inline u ∈ m.map Prod.snd → d'.Knows u := by
  match m with
  | [] =>
    rw [discoverStores] at h
    cases h
    exact ⟨.refl d, nofun⟩
  | (k, r) :: m =>
    rw [discoverStores] at h
    cases hm : reg.discoverStores m d with
    | error p =>
      rw [hm] at h
      cases h
    | ok d₁ =>
      rw [hm] at h
      obtain ⟨hg, hin⟩ := discoverStores_spec m hm
      obtain ⟨hg', hin'⟩ := discoverRef_spec r h
      refine ⟨(hg.imp fun _ ⟨v, hv, hu⟩ => ⟨v, List.mem_cons_of_mem _ hv, hu⟩).trans
        (hg'.imp fun _ ⟨v, hv, hu⟩ => ⟨v, hv ▸ List.mem_cons_self, hu⟩), fun u hu => ?_⟩
      rcases List.mem_cons.mp hu with hu | hu
      · exact hin' u hu.symm
      · exact hg'.knows (hin u hu)

end

/-- What a closure is the outcome of: types written in its root were noted, and all names referred to
are found or registered. -/
lemma exists_discovery {t : Ty} {found : KeyMap String Ty} (h : reg.closure t = .ok found) :
    ∃ d, reg.discover t ⟨[], []⟩ = .ok d ∧ d.found = found ∧ found.Ascending ∧
      (∀ e ∈ found, Noted reg d e.1 e.2 ∧ e.2.Within t) ∧
        ∀ e ∈ d.named, e.1 ∈ found.keys ∨ e.1 ∈ reg.types.keys := by
  unfold closure at h
  cases hd : reg.discover t ⟨[], []⟩ with
  | error p =>
    rw [hd] at h
    cases h
  | ok d =>
    rw [hd] at h
    dsimp only at h
    cases hmissing : d.named.find? fun e => !d.found.contains e.1 && !reg.contains e.1 with
    | some e =>
      rw [hmissing] at h
      cases h
    | none =>
      rw [hmissing] at h
      cases h
      have hgrown := (discover_spec t hd).1
      refine ⟨d, rfl, rfl, hgrown.ascending List.Pairwise.nil, fun e he => ?_, fun e he => ?_⟩
      · exact ((hgrown.found e he).resolve_left List.not_mem_nil).1
      · have hfound := List.find?_eq_none.mp hmissing e he
        simp only [Bool.and_eq_true, Bool.not_eq_true', not_and, Bool.not_eq_false] at hfound
        by_cases hc : d.found.contains e.1 = true
        · exact Or.inl (KeyMap.contains_iff.mp hc)
        · exact Or.inr (KeyMap.contains_iff.mp (hfound (Bool.eq_false_of_not_eq_true hc)))

lemma closure_spec {t : Ty} {found : KeyMap String Ty} (h : reg.closure t = .ok found) :
    ∀ e ∈ found, e.2.name = e.1 ∧
      ∀ r ∈ e.2.refs, r.isGeneric = false → r.name ∈ found.keys ∨ r.name ∈ reg.types.keys := by
  obtain ⟨d, -, rfl, -, hnoted, hnamed⟩ := exists_discovery h
  intro e he
  obtain ⟨noted, -⟩ := hnoted e he
  refine ⟨noted.name_eq, fun r hr hg => ?_⟩
  cases r with
  | inline u => exact Or.inl (noted.inlines u hr).mem_keys
  | named n => exact hnamed _ (noted.names n hr)
  | generic _ _ => cases hg

lemma closure_root {t : Ty} {found : KeyMap String Ty} (h : reg.closure t = .ok found) :
    t.name ∈ found.keys ∧ ∀ e ∈ found, e.1 = t.name → e.2 = t := by
  obtain ⟨d, hd, rfl, -⟩ := exists_discovery h
  obtain ⟨-, hknows, hroot⟩ := discover_spec t hd
  have honly := hroot List.not_mem_nil
  obtain ⟨w, hw, -⟩ := hknows
  have hmem := KeyMap.mem_of_get? hw
  obtain rfl : w = t := honly _ hmem rfl
  exact ⟨KeyMap.mem_keys_of_mem hmem, honly⟩

/-! ### Registration -/

lemma types_initial : Registry.initial.types =
    [(Ty.metaType.name, .metaType), (Ty.runtimeDetermined.name, .runtimeDetermined)] := rfl

lemma resolved_initial : Resolved .initial := by
  have entries : ∀ n t, Registry.initial.get? n = some t → t.name = n ∧ t.refs = [] := by
    intro n t h
    have hmem := KeyMap.mem_of_get? h
    rw [types_initial] at hmem
    rcases List.mem_cons.mp hmem with hmem | hmem
    · cases hmem
      exact ⟨rfl, rfl⟩
    · cases List.mem_singleton.mp hmem
      exact ⟨rfl, rfl⟩
  refine ⟨fun n t h => (entries n t h).1, fun n t h r hr => ?_⟩
  rw [(entries n t h).2] at hr
  cases hr

lemma register_spec {reg reg' : Registry} {t : Ty} (h : reg.register t = .ok reg') :
    ∃ found, reg.closure t = .ok found ∧
      reg'.types = reg.types.union (found.filter fun e => !reg.contains e.1) := by
  unfold register at h
  cases hc : reg.closure t with
  | error p =>
    rw [hc] at h
    cases h
  | ok found =>
    rw [hc] at h
    dsimp only at h
    refine ⟨found, rfl, ?_⟩
    split at h
    · next hempty =>
      cases h
      rw [List.isEmpty_iff.mp hempty]
      rfl
    · cases h
      rfl

lemma mem_missing_iff {reg : Registry} {found : KeyMap String Ty} {e : String × Ty} :
    e ∈ found.filter (fun e => !reg.contains e.1) ↔ e ∈ found ∧ e.1 ∉ reg.types.keys := by
  rw [List.mem_filter, Registry.contains, Bool.not_eq_true', ← Bool.not_eq_true,
    KeyMap.contains_iff]

lemma mem_keys_register {reg' : Registry} {t : Ty} {found : KeyMap String Ty}
    (hc : reg.closure t = .ok found) (h : reg.register t = .ok reg') {k : String}
    (hk : k ∈ found.keys ∨ k ∈ reg.types.keys) : k ∈ reg'.types.keys := by
  obtain ⟨found', hc', htypes⟩ := register_spec h
  cases hc.symm.trans hc'
  rw [htypes, KeyMap.mem_keys_union]
  by_cases hin : k ∈ reg.types.keys
  · exact Or.inl hin
  · obtain ⟨e, he, rfl⟩ := List.mem_map.mp (hk.resolve_right hin)
    exact Or.inr (KeyMap.mem_keys_of_mem (mem_missing_iff.mpr ⟨he, hin⟩))

lemma resolved_register {reg' : Registry} {t : Ty} (hreg : Resolved reg)
    (h : reg.register t = .ok reg') : Resolved reg' := by
  obtain ⟨found, hc, htypes⟩ := register_spec h
  have spec := closure_spec hc
  refine ⟨fun n u hu => ?_, fun n u hu r hr hg => ?_⟩
  · rw [Registry.get?, htypes] at hu
    rcases KeyMap.get?_union_cases hu with hu | hu
    · exact hreg.name_eq n u hu
    · exact (spec _ (mem_missing_iff.mp hu).1).1
  · rw [Registry.get?, htypes] at hu
    rcases KeyMap.get?_union_cases hu with hu | hu
    · exact mem_keys_register hc h (Or.inr (hreg.refs n u hu r hr hg))
    · exact mem_keys_register hc h ((spec _ (mem_missing_iff.mp hu).1).2 r hr hg)

lemma get?_register {reg reg' : Registry} {t u : Ty} {name : String}
    (h : reg.register t = .ok reg') (hu : reg.get? name = some u) : reg'.get? name = some u := by
  obtain ⟨found, -, htypes⟩ := register_spec h
  rw [Registry.get?, htypes]
  refine (KeyMap.get?_union_of_not_mem fun hk => ?_).trans hu
  obtain ⟨e, he, rfl⟩ := List.mem_map.mp hk
  exact (mem_missing_iff.mp he).2 (KeyMap.isSome_get?_iff.mp (Option.isSome_iff_exists.mpr ⟨u, hu⟩))

lemma same_found {reg' : Registry} {t : Ty} {found : KeyMap String Ty}
    (hc : reg.closure t = .ok found) (h : reg.register t = .ok reg') {e : String × Ty}
    (he : e ∈ found) : ∃ v, reg'.get? e.1 = some v ∧ v.sameDefinition e.2 = true := by
  obtain ⟨found', hc', htypes⟩ := register_spec h
  cases hc.symm.trans hc'
  obtain ⟨d, -, rfl, hascending, hnoted, -⟩ := exists_discovery hc
  obtain ⟨noted, -⟩ := hnoted e he
  cases hold : reg.get? e.1 with
  | some v => exact ⟨v, get?_register h hold, noted.same v (noted.name_eq ▸ hold)⟩
  | none =>
    have hkey := mem_keys_register hc h (Or.inl (KeyMap.mem_keys_of_mem he))
    obtain ⟨v, hv⟩ := Option.isSome_iff_exists.mp (KeyMap.isSome_get?_iff.mpr hkey)
    refine ⟨v, hv, ?_⟩
    rw [htypes] at hv
    rcases KeyMap.get?_union_cases hv with hv | hv
    · cases hold.symm.trans hv
    · have hfound := hascending.get?_of_mem (mem_missing_iff.mp hv).1
      rw [show d.found.get? e.1 = some e.2 from hascending.get?_of_mem he] at hfound
      cases hfound
      exact Ty.sameDefinition_iff.mpr (Ty.Same.refl _)

lemma same_register {reg' : Registry} {t : Ty} (h : reg.register t = .ok reg') :
    ∃ v, reg'.get? t.name = some v ∧ v.sameDefinition t = true := by
  obtain ⟨found, hc, -⟩ := register_spec h
  obtain ⟨hin, hroot⟩ := closure_root hc
  obtain ⟨e, he, hname⟩ := List.mem_map.mp hin
  obtain rfl := hroot e he hname
  exact hname ▸ same_found hc h he

lemma Reached.resolved {reg : Registry} (h : Reached reg) : Resolved reg := by
  induction h with
  | initial => exact resolved_initial
  | register _ h ih => exact resolved_register ih h

end Registry

end CellMachine
