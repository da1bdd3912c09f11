import CellMachine.Proofs.Registry.Verdicts

/-!
What a registry is after any requests. A registration that is refused changes nothing; one that is
accepted adds what is written in the type and missing, and is nothing new when it is asked for again.
The registered types are always closed: what they refer to is registered, with the definition that is
written there.
-/

namespace CellMachine

namespace Registry

/-- What can be asked of a registry: to add a type, or to compare types. -/
inductive Request where
  | add (t : Ty)
  | compare (q : Question)

/-- The registry after a request. A type that is refused leaves it as it was. -/
def serve (reg : Registry) : Request → Registry
  | .add t =>
    match reg.register t with
    | .ok reg' => reg'
    | .error _ => reg
  | .compare q => q.ask reg

/-- What adding a type makes of a registry: old definitions stay, the type is defined, what is new was
written in it, and from then on the type can be added again without a change. -/
structure Added (reg reg' : Registry) (t : Ty) : Prop where
  kept : ∀ n u, reg.get? n = some u → reg'.get? n = some u
  defined : ∃ u, reg'.get? t.name = some u ∧ u.sameDefinition t = true
  written : ∀ n u, reg'.get? n = some u → reg.get? n = none → u.name = n ∧ u.Within t
  again : ∀ requests : List Request,
    (requests.foldl serve reg').register t = .ok (requests.foldl serve reg')

/-- A registry is closed: the types that registered types refer to are registered, and have the
definition that is written in place of the reference. -/
structure Enclosed (reg : Registry) : Prop where
  name_eq : ∀ n u, reg.get? n = some u → u.name = n
  children : ∀ n u, reg.get? n = some u → ∀ r ∈ u.refs, r.isGeneric = false →
    ∃ v, reg.get? r.name = some v ∧ ∀ w, r = .inline w → v.sameDefinition w = true

variable {reg reg' : Registry} {t : Ty}

/-! ### What requests keep -/

/-- A request does one of three things: it adds a type, it is refused one, or it keeps the types. -/
lemma serve_cases (reg : Registry) (request : Request) :
    (∃ t, reg.register t = .ok (reg.serve request)) ∨ (reg.serve request).types = reg.types := by
  cases request with
  | add t =>
    cases h : reg.register t with
    | ok reg' => exact Or.inl ⟨t, by rw [serve, h]⟩
    | error p => exact Or.inr (by rw [serve, h])
  | compare q => exact Or.inr (types_ask reg q)

lemma get?_serve {request : Request} {n : String} {u : Ty} (h : reg.get? n = some u) :
    (reg.serve request).get? n = some u := by
  rcases serve_cases reg request with ⟨t, ht⟩ | htypes
  · exact get?_register ht h
  · rw [get?, htypes]
    exact h

lemma get?_served {requests : List Request} {n : String} {u : Ty} (h : reg.get? n = some u) :
    (requests.foldl serve reg).get? n = some u := by
  induction requests generalizing reg with
  | nil => exact h
  | cons request requests ih => exact ih (get?_serve h)

/-! ### Adding a type again -/

/-- Nothing that a registry holds stands against what was found. -/
def Allows (reg : Registry) (found : KeyMap String Ty) : Prop :=
  ∀ k w, found.get? k = some w → ∀ v, reg.get? k = some v → v.sameDefinition w = true

lemma found_of_discover {d d' : Discovery} (h : reg.discover t d = .ok d')
    (hnew : t.name ∉ d.found.keys) : d'.found.get? t.name = some t := by
  obtain ⟨-, ⟨w, hw, -⟩, honly⟩ := discover_spec t h
  obtain rfl : w = t := honly hnew _ (KeyMap.mem_of_get? hw) rfl
  exact hw

lemma note_again {d : Discovery} {o : Option Discovery} (h : reg.note t d = .ok o)
    (hallows : t.name ∉ d.found.keys → ∀ v, reg'.get? t.name = some v → v.sameDefinition t = true) :
    reg'.note t d = .ok o := by
  unfold note at h ⊢
  cases hseen : KeyMap.get? d.found t.name with
  | some seen =>
    rw [hseen] at h
    exact h
  | none =>
    have hnew : t.name ∉ d.found.keys := by
      rw [← KeyMap.isSome_get?_iff, hseen]
      exact nofun
    have hopened : o = some ⟨d.found.insert t.name t, d.named ++ namedRefs t⟩ := by
      have hnoted : reg.note t d = .ok o := by rw [note]; exact h
      rcases note_cases hnoted with ⟨-, hknows⟩ | ⟨ho, -, -⟩
      · exact absurd hknows.mem_keys hnew
      · exact ho
    dsimp only
    cases hown : reg'.get? t.name with
    | none => rw [hopened]
    | some v =>
      dsimp only
      rw [hopened, if_pos (hallows hnew v hown)]

mutual

lemma discover_again (t : Ty) {d d' : Discovery} (h : reg.discover t d = .ok d')
    (hallows : reg'.Allows d'.found) : reg'.discover t d = .ok d' := by
  cases hnote : reg.note t d with
  | error p =>
    rw [discover, hnote] at h
    cases h
  | ok o =>
    have hnote' := note_again hnote fun hnew => hallows _ _ (found_of_discover h hnew)
    cases o with
    | none =>
      rw [discover, hnote] at h
      rw [discover, hnote']
      exact h
    | some d₁ =>
      match t with
      | .native .. =>
        rw [discover, hnote] at h
        rw [discover, hnote']
        exact h
      | .iterable _ _ e _ =>
        rw [discover, hnote] at h
        rw [discover, hnote']
        exact discoverRef_again e h hallows
      | .structured _ _ m =>
        rw [discover, hnote] at h
        rw [discover, hnote']
        exact discoverStores_again m h hallows
      | .callable _ _ a r =>
        rw [discover, hnote] at h
        rw [discover, hnote']
        dsimp only at h ⊢
        cases hr : reg.discoverRef r d₁ with
        | error p =>
          rw [hr] at h
          cases h
        | ok d₂ =>
          rw [hr] at h
          have hkept := (discoverRef_spec a h).1.kept
          rw [discoverRef_again r hr fun k w hw => hallows k w (hkept k w hw)]
          exact discoverRef_again a h hallows
      | .keyOf _ _ o =>
        rw [discover, hnote] at h
        rw [discover, hnote']
        exact discoverRef_again o h hallows

lemma discoverRef_again (r : TyRef) {d d' : Discovery} (h : reg.discoverRef r d = .ok d')
    (hallows : reg'.Allows d'.found) : reg'.discoverRef r d = .ok d' := by
  match r with
  | .inline t =>
    rw [discoverRef] at h ⊢
    exact discover_again t h hallows
  | .named _ =>
    rw [discoverRef] at h ⊢
    exact h
  | .generic .. =>
    rw [discoverRef] at h ⊢
    exact h

lemma discoverStores_again (m : List (String × TyRef)) {d d' : Discovery}
    (h : reg.discoverStores m d = .ok d') (hallows : reg'.Allows d'.found) :
    reg'.discoverStores m d = .ok d' := by
  match m with
  | [] =>
    rw [discoverStores] at h ⊢
    exact h
  | (k, r) :: m =>
    rw [discoverStores] at h ⊢
    cases hm : reg.discoverStores m d with
    | error p =>
      rw [hm] at h
      cases h
    | ok d₁ =>
      rw [hm] at h
      have hkept := (discoverRef_spec r h).1.kept
      rw [discoverStores_again m hm fun k w hw => hallows k w (hkept k w hw)]
      exact discoverRef_again r h hallows

end

lemma closure_again {found : KeyMap String Ty} (h : reg.closure t = .ok found)
    (hallows : reg'.Allows found) (hkeys : ∀ k ∈ reg.types.keys, k ∈ reg'.types.keys) :
    reg'.closure t = .ok found := by
  obtain ⟨d, hd, rfl, -, -, hnamed⟩ := exists_discovery h
  have hnone : d.named.find? (fun e => !d.found.contains e.1 && !reg'.contains e.1) = none := by
    refine List.find?_eq_none.mpr fun e he => ?_
    rw [Bool.and_eq_true, Bool.not_eq_true', Bool.not_eq_true', not_and, Bool.not_eq_false]
    intro hfound
    refine KeyMap.contains_iff.mpr (hkeys _ ((hnamed e he).resolve_left fun hin => ?_))
    rw [KeyMap.contains_iff.mpr hin] at hfound
    cases hfound
  rw [closure, discover_again t hd hallows]
  dsimp only
  rw [hnone]

lemma register_again {later : Registry} (h : reg.register t = .ok reg')
    (hkept : ∀ n u, reg'.get? n = some u → later.get? n = some u) :
    later.register t = .ok later := by
  obtain ⟨found, hc, -⟩ := register_spec h
  have hknown : ∀ k w, found.get? k = some w →
      ∃ v, later.get? k = some v ∧ v.sameDefinition w = true := fun k w hw => by
    obtain ⟨v, hv, hsame⟩ := same_found hc h (KeyMap.mem_of_get? hw)
    exact ⟨v, hkept k v hv, hsame⟩
  have hkeys : ∀ k, k ∈ found.keys ∨ k ∈ reg.types.keys → k ∈ later.types.keys := fun k hk => by
    obtain ⟨v, hv⟩ := Option.isSome_iff_exists.mp
      (KeyMap.isSome_get?_iff.mpr (mem_keys_register hc h hk))
    exact KeyMap.isSome_get?_iff.mp (Option.isSome_iff_exists.mpr ⟨v, hkept k v hv⟩)
  have hc' : later.closure t = .ok found := by
    refine closure_again hc (fun k w hw v hv => ?_) fun k hk => hkeys k (Or.inr hk)
    obtain ⟨v', hv', hsame⟩ := hknown k w hw
    cases hv.symm.trans hv'
    exact hsame
  have hnothing : found.filter (fun e => !later.contains e.1) = [] := by
    refine List.filter_eq_nil_iff.mpr fun e he => ?_
    rw [Registry.contains, KeyMap.contains_iff.mpr (hkeys _ (Or.inl (KeyMap.mem_keys_of_mem he)))]
    exact Bool.false_ne_true
  rw [register, hc']
  dsimp only
  rw [hnothing]
  rfl

/-! ### Closed registries -/

lemma enclosed_initial : Enclosed .initial := by
  refine ⟨resolved_initial.name_eq, fun n u hu r hr => ?_⟩
  have hmem := KeyMap.mem_of_get? hu
  rw [types_initial, List.mem_cons, List.mem_singleton] at hmem
  rcases hmem with hmem | hmem
  · cases hmem
    cases hr
  · cases hmem
    cases hr

lemma Enclosed.register (hreg : Enclosed reg) (h : reg.register t = .ok reg') : Enclosed reg' := by
  obtain ⟨found, hc, htypes⟩ := register_spec h
  obtain ⟨d, -, rfl, -, hnoted, hnamed⟩ := exists_discovery hc
  have hcases : ∀ n u, reg'.get? n = some u → reg.get? n = some u ∨ (n, u) ∈ d.found := by
    intro n u hu
    rw [get?, htypes] at hu
    exact (KeyMap.get?_union_cases hu).imp_right fun hu => (mem_missing_iff.mp hu).1
  refine ⟨fun n u hu => ?_, fun n u hu r hr hg => ?_⟩
  · exact (hcases n u hu).elim (hreg.name_eq n u) fun hu => (hnoted _ hu).1.name_eq
  rcases hcases n u hu with hold | hfound
  · obtain ⟨v, hv, hsame⟩ := hreg.children n u hold r hr hg
    exact ⟨v, get?_register h hv, hsame⟩
  obtain ⟨noted, -⟩ := hnoted _ hfound
  cases r with
  | inline w =>
    -- the type that was found under the name stands between the registered one and the one written
    obtain ⟨w', hw', hsame⟩ := noted.inlines w hr
    obtain ⟨v, hv, hsame'⟩ := same_found hc h (KeyMap.mem_of_get? hw')
    refine ⟨v, hv, fun x hx => ?_⟩
    cases hx
    rw [Ty.sameDefinition_iff] at hsame hsame' ⊢
    exact hsame'.trans hsame
  | named m =>
    have hkey := mem_keys_register hc h (hnamed _ (noted.names m hr))
    obtain ⟨v, hv⟩ := Option.isSome_iff_exists.mp (KeyMap.isSome_get?_iff.mpr hkey)
    exact ⟨v, hv, fun w hw => by cases hw⟩
  | generic _ _ => cases hg

lemma Enclosed.of_types (hreg : Enclosed reg) (h : reg'.types = reg.types) : Enclosed reg' := by
  have hget : ∀ n, reg'.get? n = reg.get? n := fun n => by rw [get?, h, get?]
  refine ⟨fun n u hu => hreg.name_eq n u (hget n ▸ hu), fun n u hu r hr hg => ?_⟩
  rw [hget]
  exact hreg.children n u (hget n ▸ hu) r hr hg

lemma Enclosed.served (hreg : Enclosed reg) (requests : List Request) :
    Enclosed (requests.foldl serve reg) := by
  induction requests generalizing reg with
  | nil => exact hreg
  | cons request requests ih =>
    refine ih ?_
    rcases serve_cases reg request with ⟨t, ht⟩ | htypes
    · exact hreg.register ht
    · exact hreg.of_types htypes

lemma Enclosed.resolve_iff (hreg : Enclosed reg) {n : String} {u : Ty} (hu : reg.get? n = some u)
    {r : TyRef} (hr : r ∈ u.refs) : (∃ w, reg.resolve r = .ok w) ↔ r.isGeneric = false := by
  cases r with
  | inline w => exact ⟨fun _ => rfl, fun _ => ⟨w, rfl⟩⟩
  | named m =>
    obtain ⟨v, hv, -⟩ := hreg.children n u hu _ hr rfl
    have hv : reg.get? m = some v := hv
    exact ⟨fun _ => rfl, fun _ => ⟨v, by rw [resolve, hv]⟩⟩
  | generic _ _ =>
    refine ⟨fun h => ?_, fun h => ?_⟩
    · obtain ⟨w, hw⟩ := h
      cases hw
    · cases h

lemma added (h : reg.register t = .ok reg') : Added reg reg' t where
  kept _ _ hu := get?_register h hu
  defined := same_register h
  written n u hu hnew := by
    obtain ⟨found, hc, htypes⟩ := register_spec h
    obtain ⟨d, -, rfl, -, hnoted, -⟩ := exists_discovery hc
    rw [get?, htypes] at hu
    rcases KeyMap.get?_union_cases hu with hu | hu
    · cases hu.symm.trans hnew
    · obtain ⟨noted, hwithin⟩ := hnoted _ (mem_missing_iff.mp hu).1
      exact ⟨noted.name_eq, hwithin⟩
  again requests := register_again h fun _ _ hu => get?_served hu

/-- **Registration is atomic, monotone, closed and idempotent.** After any requests, a type that is
refused changes nothing, one that is accepted is added, and the registry is closed, so that the
references of registered types can be resolved. -/
theorem registration_adds_or_refuses (earlier : List Request) (t : Ty) :
    let reg := earlier.foldl serve .initial
    (∀ p, reg.register t = .error p → reg.serve (.add t) = reg) ∧
      (∀ reg', reg.register t = .ok reg' → reg.serve (.add t) = reg' ∧ Added reg reg' t) ∧
      Enclosed reg ∧
      ∀ n u, reg.get? n = some u → ∀ r ∈ u.refs,
        (∃ w, reg.resolve r = .ok w) ↔ r.isGeneric = false := by
  intro reg
  have henclosed : Enclosed reg := enclosed_initial.served earlier
  refine ⟨fun p h => by rw [serve, h], fun reg' h => ⟨by rw [serve, h], added h⟩, henclosed,
    fun n u hu r hr => henclosed.resolve_iff hu hr⟩

/-- Streams are accepted; where they are registered, an integer of their name is refused. -/
example : (Registry.initial.register (streamTy "flow")).isOk = true ∧
    (streams.register (.native "flow" none "integer" (NativeView.is .int))).isOk = false := by decide +kernel

end Registry

end CellMachine
