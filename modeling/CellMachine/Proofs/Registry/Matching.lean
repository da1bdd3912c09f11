import CellMachine.Proofs.Registry.Comparison
import CellMachine.Proofs.Registry.Registration

/-!
Matching decides the greatest structural simulation between registered types, whatever was asked of
the registry before.
-/

namespace CellMachine

namespace Registry

variable {reg : Registry}

/-! ### Types that agree with a registry -/

lemma Agrees.of_ref {t u : Ty} (h : reg.Agrees t) (hu : .inline u ∈ t.refs) : reg.Agrees u :=
  fun v hv => h v (hv.trans (.inline hu .refl))

lemma Agrees.exists_same {t : Ty} (h : reg.Agrees t) :
    ∃ v, reg.get? t.name = some v ∧ v.Same t := by
  obtain ⟨v, hv, hsame⟩ := h t .refl
  exact ⟨v, hv, Ty.sameDefinition_iff.mp hsame⟩

/-- The keys of different pairs of registered names are different. -/
def Apart (reg : Registry) : Prop :=
  ∀ a ∈ reg.types.keys, ∀ e ∈ reg.types.keys, ∀ a' ∈ reg.types.keys, ∀ e' ∈ reg.types.keys,
    pairKey a e = pairKey a' e' → a = a' ∧ e = e'

lemma Agrees.unmarked (hmark : Unmarked reg) {t : Ty} (h : reg.Agrees t) : '!' ∉ t.name.toList := by
  obtain ⟨v, hv, hsame⟩ := h.exists_same
  exact hsame.name_eq ▸ hmark _ v hv

lemma Agrees.mem_keys {t : Ty} (h : reg.Agrees t) : t.name ∈ reg.types.keys := by
  obtain ⟨v, hv, -⟩ := h.exists_same
  exact KeyMap.isSome_get?_iff.mp (Option.isSome_iff_exists.mpr ⟨v, hv⟩)

/-- Where names are resolved and kept apart and all types agree, references can be followed, a name
tells the definition, and a key tells the names. -/
lemma closed_of_apart (hreg : Resolved reg) (hapart : Apart reg) (hcoh : Coherent reg) :
    Closed reg reg.Agrees where
  resolves := by
    intro t ht r hr hg
    obtain ⟨v, hv, hsame⟩ := ht.exists_same
    obtain ⟨s, hs, hrs⟩ := hsame.symm.exists_ref hr
    have hsg : s.isGeneric = false := by rw [← TyRef.isGeneric_eq_of_sameTarget hrs, hg]
    have hkey := hreg.refs _ v hv s hs hsg
    rw [← TyRef.name_eq_of_sameTarget hrs] at hkey
    cases r with
    | inline u => exact ⟨u, rfl, ht.of_ref hr, rfl, hkey⟩
    | named n =>
      obtain ⟨u, hu⟩ := Option.isSome_iff_exists.mp (KeyMap.isSome_get?_iff.mpr hkey)
      have hu : reg.get? n = some u := hu
      have hname := hreg.name_eq n u hu
      refine ⟨u, by rw [resolve, hu], hcoh n u hu, hname, hname ▸ hkey⟩
    | generic _ _ => cases hg
  same := by
    intro t u ht hu hname
    obtain ⟨v, hv, hvt⟩ := ht.exists_same
    obtain ⟨w, hw, hwu⟩ := hu.exists_same
    rw [hname, hw] at hv
    cases hv
    exact hvt.symm.trans hwu
  apart := fun a e a' e' ha he ha' he' =>
    hapart _ ha.mem_keys _ he.mem_keys _ ha'.mem_keys _ he'.mem_keys

lemma Unmarked.apart (hreg : Resolved reg) (hmark : Unmarked reg) : Apart reg := by
  have unmarked : ∀ n ∈ reg.types.keys, '!' ∉ n.toList := fun n hn => by
    obtain ⟨t, ht⟩ := Option.isSome_iff_exists.mp (KeyMap.isSome_get?_iff.mpr hn)
    exact hreg.name_eq n t ht ▸ hmark n t ht
  exact fun a ha _ _ a' ha' _ _ => pairKey_inj (unmarked a ha) (unmarked a' ha')

lemma closed_agrees (hreg : Resolved reg) (hmark : Unmarked reg) (hcoh : Coherent reg) :
    Closed reg reg.Agrees :=
  closed_of_apart hreg (hmark.apart hreg) hcoh

lemma similar_agrees_iff (hcoh : Coherent reg) {a e : String} :
    Similar reg.Agrees a e ↔ Similar reg.Holds a e := by
  constructor
  · rintro ⟨R, hR, hae⟩
    refine ⟨R, fun x y hxy => ?_, hae⟩
    rcases hR x y hxy with h | ⟨t, u, ht, hu, rfl, rfl, hcat, hrel⟩
    · exact Or.inl h
    · obtain ⟨t', ht', hsame⟩ := ht.exists_same
      obtain ⟨u', hu', hsame'⟩ := hu.exists_same
      have hrel' := hrel.congr hsame.symm hsame'.symm
      exact Or.inr ⟨t', u', by rw [Holds, hsame.name_eq, ht'], by rw [Holds, hsame'.name_eq, hu'],
        hsame.name_eq, hsame'.name_eq, hrel'.category_eq, hrel'⟩
  · rintro ⟨R, hR, hae⟩
    refine ⟨R, fun x y hxy => ?_, hae⟩
    rcases hR x y hxy with h | ⟨t, u, ht, hu, hrest⟩
    · exact Or.inl h
    · exact Or.inr ⟨t, u, hcoh _ t ht, hcoh _ u hu, hrest⟩

/-! ### Questions -/

/-- What a registry can be asked. -/
inductive Question where
  | types (source : Option Position) (actual : Ty) (expected : Option Ty)
  | refs (source : Option Position) (actual expected : TyRef)

namespace Question

/-- The registry after a question. -/
def ask (reg : Registry) : Question → Registry
  | types source actual expected => (reg.matchTypes source actual expected).2
  | refs source actual expected => (reg.matchRefs source actual expected).2

/-- A question about types of a family: every type that is given is one of it. -/
def Of (U : Ty → Prop) : Question → Prop
  | types _ actual expected => U actual ∧ ∀ e, expected = some e → U e
  | refs _ actual expected => ∀ t, actual = .inline t ∨ expected = .inline t → U t

/-- A question about registered types: every type that is given is registered. -/
def About (reg : Registry) : Question → Prop
  | types _ actual expected => reg.Holds actual ∧ ∀ e, expected = some e → reg.Holds e
  | refs _ actual expected => ∀ t, actual = .inline t ∨ expected = .inline t → reg.Holds t

end Question

lemma resolve_of_types {later : Registry} (h : later.types = reg.types) (r : TyRef) :
    later.resolve r = reg.resolve r := by
  cases r <;> simp only [resolve, get?, h]

lemma Closed.of_types {reg' : Registry} {U : Ty → Prop} (h : Closed reg U)
    (htypes : reg'.types = reg.types) : Closed reg' U := by
  refine ⟨fun t ht r hr hg => ?_, h.same, h.apart⟩
  rw [resolve_of_types htypes, htypes]
  exact h.resolves t ht r hr hg

lemma Question.Of.ask_cases {U : Ty → Prop} (hget : ∀ n t, reg.get? n = some t → U t)
    {reg' : Registry} (htypes : reg'.types = reg.types) {q : Question} (hq : q.Of U) :
    q.ask reg' = reg' ∨ ∃ source a e, U a ∧ U e ∧
      q.ask reg' = (reg'.matchTypes source a (some e)).2 := by
  -- What is not given with the question is looked up under its name.
  have registered : ∀ n t, reg'.get? n = some t → U t := by
    intro n t ht
    rw [Registry.get?, htypes] at ht
    exact hget n t ht
  cases q with
  | types source a e =>
    obtain ⟨ha, he⟩ := hq
    cases e with
    | some e => exact .inr ⟨source, a, e, ha, he e rfl, rfl⟩
    | none =>
      rw [Question.ask]
      cases hown : reg'.get? a.name with
      | none => exact .inl (by simp [matchTypes, hown])
      | some e =>
        exact .inr ⟨source, a, e, ha, registered _ e hown, by simp only [matchTypes, hown]; rfl⟩
  | refs source a e =>
    have resolved : ∀ r t, (∀ u, r = .inline u → U u) → reg'.resolve r = .ok t → U t := by
      intro r t hr hres
      cases r with
      | inline u =>
        cases hres
        exact hr t rfl
      | named n =>
        rw [resolve] at hres
        cases hn : reg'.get? n with
        | none =>
          rw [hn] at hres
          cases hres
        | some u =>
          rw [hn] at hres
          cases hres
          exact registered n t hn
      | generic _ _ => cases hres
    rw [Question.ask, matchRefs]
    split
    · split <;> exact .inl rfl
    cases ha : reg'.resolve a with
    | error p => exact .inl rfl
    | ok a' =>
      cases he : reg'.resolve e with
      | error p => exact .inl rfl
      | ok e' =>
        exact .inr ⟨source, a', e', resolved a a' (fun u hu => hq u (.inl hu)) ha,
          resolved e e' (fun u hu => hq u (.inr hu)) he, rfl⟩

lemma Question.About.of_agrees (hcoh : Coherent reg) {q : Question} (hq : q.About reg) :
    q.Of reg.Agrees := by
  cases q with
  | types source a e => exact ⟨hcoh _ a hq.1, fun t ht => hcoh _ t (hq.2 t ht)⟩
  | refs source a e => exact fun t ht => hcoh _ t (hq t ht)

lemma truthful_ask (hcoh : Coherent reg) {reg' : Registry}
    (hclosed : Closed reg' reg.Agrees) (htypes : reg'.types = reg.types)
    (htrue : Truthful reg.Agrees reg'.verdicts) {q : Question} (hq : q.About reg) :
    Truthful reg.Agrees (q.ask reg').verdicts ∧ (q.ask reg').types = reg.types := by
  rcases (hq.of_agrees hcoh).ask_cases hcoh htypes with h | ⟨source, a, e, ha, he, h⟩
  · rw [h]
    exact ⟨htrue, htypes⟩
  · obtain ⟨-, htrue', htypes'⟩ := matchTypes_spec hclosed htrue ha he source
    rw [h]
    exact ⟨htrue', htypes'.trans htypes⟩

lemma truthful_nil (U : Ty → Prop) : Truthful U [] := fun _ _ _ _ _ h => nomatch h

lemma Reached.verdicts {reg : Registry} (h : Reached reg) : reg.verdicts = [] := by
  induction h with
  | initial => rfl
  | @register reg reg' t _ h ih =>
    rw [Registry.register] at h
    split at h
    · cases h
    · dsimp only at h
      split at h
      · cases h
        exact ih
      · cases h
        rfl

lemma Closed.truthful_asked (closed : Closed reg reg.Agrees) (hreached : Reached reg)
    (hcoh : Coherent reg) {asked : List Question} (hasked : ∀ q ∈ asked, q.About reg) :
    Truthful reg.Agrees (asked.foldl Question.ask reg).verdicts ∧
      (asked.foldl Question.ask reg).types = reg.types := by
  induction asked using List.reverseRecOn with
  | nil =>
    rw [List.foldl_nil, hreached.verdicts]
    exact ⟨truthful_nil _, rfl⟩
  | append_singleton asked q ih =>
    obtain ⟨h₁, h₂⟩ := ih fun q hq => hasked q (List.mem_append_left _ hq)
    rw [List.foldl_append, List.foldl_cons, List.foldl_nil]
    exact truthful_ask hcoh (closed.of_types h₂) h₂ h₁
      (hasked q (List.mem_append_right _ List.mem_cons_self))

lemma truthful_asked (hreached : Reached reg) (hmark : Unmarked reg) (hcoh : Coherent reg)
    {asked : List Question} (hasked : ∀ q ∈ asked, q.About reg) :
    Truthful reg.Agrees (asked.foldl Question.ask reg).verdicts ∧
      (asked.foldl Question.ask reg).types = reg.types :=
  (closed_agrees hreached.resolved hmark hcoh).truthful_asked hreached hcoh hasked

/-- **Matching decides the greatest simulation.** After any questions about registered types, a type
is found to match where another is expected exactly when some simulation between registered types
relates their names. -/
theorem matches_iff_simulation (hreached : Reached reg) (hmark : Unmarked reg)
    (hcoh : Coherent reg) {asked : List Question} (hasked : ∀ q ∈ asked, q.About reg)
    {actual expected : Ty} (ha : reg.Holds actual) (he : reg.Holds expected)
    (source : Option Position) :
    ((asked.foldl Question.ask reg).matchTypes source actual (some expected)).1 = .ok () ↔
      ∃ R, IsSimulation reg.Holds R ∧ R actual.name expected.name := by
  obtain ⟨htrue, htypes⟩ := truthful_asked hreached hmark hcoh hasked
  have closed := (closed_agrees hreached.resolved hmark hcoh).of_types htypes
  have spec := (matchTypes_spec closed htrue (hcoh _ _ ha) (hcoh _ _ he) source).1
  exact spec.trans (similar_agrees_iff hcoh)

/-- Streams of integers, and a second type like them; both go on with themselves. -/
def streamTy (name : String) : Ty :=
  .structured name none [("head", .inline (.native "int" none "integer" (NativeView.is .int))),
    ("tail", .named name)]

/-- The registry with two kinds of streams. -/
def streams : Registry :=
  ⟨[("flow", streamTy "flow"), ("int", .native "int" none "integer" (NativeView.is .int)),
    ("meta-type", .metaType), ("runtime-determined", .runtimeDetermined),
    ("stream", streamTy "stream")], []⟩

lemma reached_streams : Reached streams :=
  .register (t := streamTy "stream") (.register (t := streamTy "flow") .initial rfl) rfl

lemma mem_streams {n : String} {t : Ty} (h : streams.get? n = some t) :
    t = streamTy "flow" ∨ t = streamTy "stream" ∨ t.refs = [] ∧ streams.Holds t ∧
      '!' ∉ t.name.toList := by
  have hmem := KeyMap.mem_of_get? h
  simp only [streams, List.mem_cons, Prod.mk.injEq, List.not_mem_nil, or_false] at hmem
  rcases hmem with ⟨-, rfl⟩ | ⟨-, rfl⟩ | ⟨-, rfl⟩ | ⟨-, rfl⟩ | ⟨-, rfl⟩
  · exact Or.inl rfl
  · exact Or.inr (Or.inr ⟨rfl, rfl, by decide⟩)
  · exact Or.inr (Or.inr ⟨rfl, rfl, by decide⟩)
  · exact Or.inr (Or.inr ⟨rfl, rfl, by decide⟩)
  · exact Or.inr (Or.inl rfl)

lemma unmarked_streams : Unmarked streams := by
  intro n t h
  rcases mem_streams h with rfl | rfl | ⟨-, -, h⟩
  · decide
  · decide
  · exact h

lemma agrees_of_refs_nil {t : Ty} (h : t.refs = []) (ht : reg.Holds t) : reg.Agrees t := by
  intro u hu
  cases hu with
  | refl => exact ⟨t, ht, Ty.sameDefinition_iff.mpr (.refl t)⟩
  | inline hv _ =>
    rw [h] at hv
    cases hv

lemma agrees_streamTy {name : String} (h : streams.Holds (streamTy name)) :
    streams.Agrees (streamTy name) := by
  intro u hu
  cases hu with
  | refl => exact ⟨_, h, Ty.sameDefinition_iff.mpr (.refl _)⟩
  | inline hv hu =>
    simp only [streamTy, Ty.refs, List.map_cons, List.map_nil, List.mem_cons, TyRef.inline.injEq,
      reduceCtorEq, List.not_mem_nil, or_false] at hv
    subst hv
    have hint : streams.Holds (.native "int" none "integer" (NativeView.is .int)) := rfl
    exact agrees_of_refs_nil rfl hint _ hu

lemma coherent_streams : Coherent streams := by
  intro n t h
  rcases mem_streams h with rfl | rfl | ⟨hrefs, hholds, -⟩
  · exact agrees_streamTy rfl
  · exact agrees_streamTy rfl
  · exact agrees_of_refs_nil hrefs hholds

/-- A flow matches a stream, also after a flow was refused for an integer. -/
theorem flow_matches_stream :
    Reached streams ∧ Unmarked streams ∧ Coherent streams ∧
      streams.Holds (streamTy "flow") ∧ streams.Holds (streamTy "stream") ∧
      (([Question.refs none (.named "flow") (.named "int"),
        .types none (streamTy "stream") none].foldl Question.ask streams).matchTypes none
          (streamTy "flow") (some (streamTy "stream"))).1 = .ok () := by
  have hflow : streams.Holds (streamTy "flow") := rfl
  have hstream : streams.Holds (streamTy "stream") := rfl
  refine ⟨reached_streams, unmarked_streams, coherent_streams, hflow, hstream, ?_⟩
  refine (matches_iff_simulation reached_streams unmarked_streams coherent_streams
    (fun q hq => ?_) hflow hstream none).mpr
    ⟨fun a e => a = e ∨ a = "flow" ∧ e = "stream", fun a e hae => ?_, Or.inr ⟨rfl, rfl⟩⟩
  · simp only [List.mem_cons, List.not_mem_nil, or_false] at hq
    rcases hq with rfl | rfl
    · exact fun t ht => nomatch ht
    · exact ⟨rfl, nofun⟩
  · rcases hae with h | ⟨rfl, rfl⟩
    · exact Or.inl h
    · refine Or.inr ⟨streamTy "flow", streamTy "stream", rfl, rfl, rfl, rfl, rfl, ?_⟩
      intro member hmember
      simp only [List.mem_cons, List.not_mem_nil, or_false] at hmember
      rcases hmember with rfl | rfl
      · exact ⟨_, rfl, Or.inl rfl⟩
      · exact ⟨_, rfl, Or.inr ⟨rfl, rfl⟩⟩

end Registry

end CellMachine
