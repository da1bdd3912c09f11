import CellMachine.Module
import CellMachine.Proofs.Registry.Matching
import CellMachine.Proofs.Registry.Written

/-!
What a match promises about values. A value that belongs to a type belongs to every type that the type
matches, but for its keys: a key of a structure need not be one of a structure with fewer members,
although the structures, and so the types of their keys, match.
-/

namespace CellMachine

namespace Registry

mutual

/-- A value belongs to a type, where `stored` says which keys a structure has. -/
def Belongs (reg : Registry) (stored : Ty → String → Prop) : Stored → Ty → Prop
  | .native n, t => t.admits n = true
  | .key k, t =>
    match t with
    | .keyOf _ _ owner => ∃ u, reg.resolve owner = .ok u ∧ stored u k
    | _ => False
  | .callable _, _ => False
  | .list items, t =>
    match t with
    | .iterable _ _ element _ => ∃ u, reg.resolve element = .ok u ∧ AllBelong reg stored items u
    | _ => False
  | .record members, t =>
    match t with
    | .structured _ _ stores =>
      ∀ e ∈ stores, ∃ u, reg.resolve e.2 = .ok u ∧ MemberBelongs reg stored members e.1 u
    | _ => False

def AllBelong (reg : Registry) (stored : Ty → String → Prop) : List Stored → Ty → Prop
  | [], _ => True
  | item :: rest, t => Belongs reg stored item t ∧ AllBelong reg stored rest t

/-- The first member under a key belongs to a type. -/
def MemberBelongs (reg : Registry) (stored : Ty → String → Prop) :
    List (String × Stored) → String → Ty → Prop
  | [], _, _ => False
  | (k, v) :: rest, key, t =>
    if k = key then Belongs reg stored v t else MemberBelongs reg stored rest key t

end

/-- A structure has the keys that it stores. -/
def Stores (t : Ty) (k : String) : Prop := k ∈ t.stores.keys

/-- A type is written somewhere in a registry. -/
def Written (reg : Registry) (t : Ty) : Prop := ∃ name v, reg.get? name = some v ∧ t.Within v

/-- A structure whose keys are the values of some type that is written in a registry. -/
def Keyed (reg : Registry) (t : Ty) : Prop :=
  ∃ name source owner, reg.Written (.keyOf name source owner) ∧ reg.resolve owner = .ok t

variable {reg : Registry} {U : Ty → Prop}

section Belongs

variable {stored : Ty → String → Prop} {t : Ty}

lemma belongs_native {n : Native} : reg.Belongs stored (.native n) t ↔ t.admits n = true := by
  rw [Belongs]

lemma belongs_key {k : String} : reg.Belongs stored (.key k) t ↔
    ∃ name source owner u, t = .keyOf name source owner ∧ reg.resolve owner = .ok u ∧ stored u k := by
  cases t <;> simp [Belongs]

lemma not_belongs_callable {c : Callable} : ¬ reg.Belongs stored (.callable c) t := by
  simp [Belongs]

lemma belongs_list {items : List Stored} : reg.Belongs stored (.list items) t ↔
    ∃ name source element ends u, t = .iterable name source element ends ∧
      reg.resolve element = .ok u ∧ reg.AllBelong stored items u := by
  cases t <;> simp [Belongs]

lemma belongs_record {members : List (String × Stored)} :
    reg.Belongs stored (.record members) t ↔ ∃ name source stores, t = .structured name source stores ∧
      ∀ e ∈ stores, ∃ u, reg.resolve e.2 = .ok u ∧ reg.MemberBelongs stored members e.1 u := by
  cases t <;> simp [Belongs]

end Belongs

/-! ### The family of the types written in a registry -/

lemma Holds.written {t : Ty} (h : reg.Holds t) : reg.Written t := ⟨t.name, t, h, .refl⟩

lemma Written.agrees (hcoh : Coherent reg) {t : Ty} (h : reg.Written t) : reg.Agrees t := by
  obtain ⟨name, v, hv, hwithin⟩ := h
  exact fun u hu => hcoh name v hv u (hu.trans hwithin)

lemma closed_written (hreg : Resolved reg) (hmark : Unmarked reg) (hcoh : Coherent reg) :
    Closed reg reg.Written where
  resolves := by
    intro t ht r hr hg
    obtain ⟨u, hu, -, hname, hkey⟩ :=
      (closed_agrees hreg hmark hcoh).resolves t (ht.agrees hcoh) r hr hg
    refine ⟨u, hu, ?_, hname, hkey⟩
    cases r with
    | inline v =>
      cases hu
      obtain ⟨name, w, hw, hwithin⟩ := ht
      exact ⟨name, w, hw, (Ty.Within.inline hr .refl).trans hwithin⟩
    | named n =>
      rw [resolve] at hu
      cases hn : reg.get? n with
      | none =>
        rw [hn] at hu
        cases hu
      | some w =>
        rw [hn] at hu
        cases hu
        exact ⟨n, u, hn, .refl⟩
    | generic _ _ => cases hg
  same := fun t u ht hu =>
    (closed_agrees hreg hmark hcoh).same t u (ht.agrees hcoh) (hu.agrees hcoh)
  apart := fun a e a' e' ha he ha' he' => (closed_agrees hreg hmark hcoh).apart a e a' e'
    (ha.agrees hcoh) (he.agrees hcoh) (ha'.agrees hcoh) (he'.agrees hcoh)

/-! ### Parts of similar types -/

/-- What two types are made of is related; a key of a structure may stand there more than once. -/
def PartsRelated (R : String → String → Prop) : Ty → Ty → Prop
  | .native _ _ a _, .native _ _ e _ => a = e
  | .iterable _ _ a _, .iterable _ _ e _ => RefsRelated R a e
  | .structured _ _ available, .structured _ _ asked =>
    ∀ member ∈ asked, ∃ a, (member.1, a) ∈ available ∧ RefsRelated R a member.2
  | .callable .., .callable .. => True
  | .keyOf _ _ a, .keyOf _ _ e => RefsRelated R a e
  | _, _ => False

lemma refsRelated_of_sameTarget {a e : TyRef} (h : a.sameTarget e = true) :
    RefsRelated (Similar U) a e := by
  cases a <;> cases e <;> simp only [TyRef.sameTarget, Bool.and_eq_true, beq_iff_eq,
    Bool.false_eq_true] at h
  case generic.generic => exact h
  all_goals
    simp only [RefsRelated]
    exact h ▸ similar_self U _

lemma ContentsRelated.parts {R : String → String → Prop} {a e : Ty} (h : ContentsRelated R a e) :
    PartsRelated R a e := by
  cases a <;> cases e <;> simp only [ContentsRelated] at h <;> simp only [PartsRelated]
  case structured.structured =>
    intro member hmember
    obtain ⟨r, hr, hrel⟩ := h member hmember
    exact ⟨r, KeyMap.mem_of_get? hr, hrel⟩
  all_goals exact h

lemma Similar.parts (closed : Closed reg U) {a e : Ty} (ha : U a) (he : U e)
    (h : Similar U a.name e.name) : PartsRelated (Similar U) a e := by
  rcases isSimulation_similar U _ _ h with hname | ⟨actual, expected, hactual, hexpected, hna, hne,
    -, hrel⟩
  · have hsame := closed.same a e ha he hname
    cases a <;> cases e <;> simp only [Ty.Same] at hsame <;> simp only [PartsRelated]
    case native.native => exact hsame.2
    case iterable.iterable => exact refsRelated_of_sameTarget hsame.2.2
    case structured.structured =>
      intro member hmember
      obtain ⟨f, hf, hkey, htarget⟩ := SameStores.exists_of_mem
        (hsame.2.flip.imp fun _ _ h => ⟨h.1.symm, TyRef.sameTarget_symm h.2⟩) hmember
      exact ⟨f.2, hkey ▸ hf, refsRelated_of_sameTarget (TyRef.sameTarget_symm htarget)⟩
    case keyOf.keyOf => exact refsRelated_of_sameTarget hsame.2
  · exact (hrel.congr (closed.same actual a hactual ha hna)
      (closed.same expected e hexpected he hne)).parts

lemma RefsRelated.concrete {R : String → String → Prop} {r s : TyRef} (h : RefsRelated R r s)
    (hr : r.isGeneric = false) : s.isGeneric = false ∧ R r.name s.name := by
  cases r <;> cases s <;> simp_all [RefsRelated, TyRef.isGeneric, TyRef.name]

lemma isGeneric_of_resolve {r : TyRef} {u : Ty} (h : reg.resolve r = .ok u) :
    r.isGeneric = false := by
  cases r with
  | generic id hint => cases h
  | _ => rfl

lemma Closed.resolve_related (closed : Closed reg U) {a e : Ty} (ha : U a) (he : U e) {r s : TyRef}
    (hr : r ∈ a.refs) (hs : s ∈ e.refs) (hrel : RefsRelated (Similar U) r s) {u : Ty}
    (hu : reg.resolve r = .ok u) :
    ∃ w, reg.resolve s = .ok w ∧ U u ∧ U w ∧ Similar U u.name w.name := by
  have hrg := isGeneric_of_resolve hu
  obtain ⟨hsg, hsim⟩ := hrel.concrete hrg
  obtain ⟨u', hu', hU, hname, -⟩ := closed.resolves a ha r hr hrg
  cases hu.symm.trans hu'
  obtain ⟨w, hw, hW, hname', -⟩ := closed.resolves e he s hs hsg
  exact ⟨w, hw, hU, hW, hname ▸ hname' ▸ hsim⟩

/-! ### Values of similar types -/

/-- Natives of one tag have one test. -/
def NativesAgree (U : Ty → Prop) : Prop :=
  ∀ name source tag test name' source' test', U (.native name source tag test) →
    U (.native name' source' tag test') → test = test'

/-- Where structures with keys of their own are similar, the keys of the first kind that one has, the
other has of the second kind. -/
def KeysPass (reg : Registry) (U : Ty → Prop) (stored stored' : Ty → String → Prop) : Prop :=
  ∀ n s r n' s' r' u w, U (.keyOf n s r) → U (.keyOf n' s' r') → reg.resolve r = .ok u →
    reg.resolve r' = .ok w → Similar U u.name w.name → ∀ k, stored u k → stored' w k

variable {stored stored' : Ty → String → Prop}

mutual

/-- **Values pass between similar types** where keys do. -/
lemma belongs_of_similar (closed : Closed reg U) (hnatives : NativesAgree U)
    (hkeys : KeysPass reg U stored stored') (v : Stored) {a e : Ty} (ha : U a) (he : U e)
    (h : Similar U a.name e.name) (hv : reg.Belongs stored v a) : reg.Belongs stored' v e := by
  have hparts := h.parts closed ha he
  match v with
  | .native n =>
    rw [belongs_native] at hv ⊢
    cases a <;> simp only [Ty.admits, Bool.false_eq_true] at hv
    cases e <;> simp only [PartsRelated] at hparts
    subst hparts
    rw [Ty.admits, ← hnatives _ _ _ _ _ _ _ ha he]
    exact hv
  | .key k =>
    obtain ⟨name, source, owner, u, rfl, hu, hk⟩ := belongs_key.mp hv
    cases e <;> simp only [PartsRelated] at hparts
    obtain ⟨w, hw, -, -, hsim⟩ := closed.resolve_related ha he List.mem_cons_self
      List.mem_cons_self hparts hu
    exact belongs_key.mpr ⟨_, _, _, w, rfl, hw, hkeys _ _ _ _ _ _ u w ha he hu hw hsim k hk⟩
  | .callable c => exact absurd hv not_belongs_callable
  | .list items =>
    obtain ⟨name, source, element, ends, u, rfl, hu, hitems⟩ := belongs_list.mp hv
    cases e <;> simp only [PartsRelated] at hparts
    obtain ⟨w, hw, hU, hW, hsim⟩ := closed.resolve_related ha he List.mem_cons_self
      List.mem_cons_self hparts hu
    exact belongs_list.mpr ⟨_, _, _, _, w, rfl, hw,
      allBelong_of_similar closed hnatives hkeys items hU hW hsim hitems⟩
  | .record members =>
    obtain ⟨name, source, stores, rfl, hmembers⟩ := belongs_record.mp hv
    cases e <;> simp only [PartsRelated] at hparts
    refine belongs_record.mpr ⟨_, _, _, rfl, fun member hmember => ?_⟩
    obtain ⟨r, hr, hrel⟩ := hparts member hmember
    obtain ⟨u, hu, hv⟩ := hmembers _ hr
    obtain ⟨w, hw, hU, hW, hsim⟩ := closed.resolve_related ha he (List.mem_map_of_mem hr)
      (List.mem_map_of_mem hmember) hrel hu
    exact ⟨w, hw, memberBelongs_of_similar closed hnatives hkeys members hU hW hsim hv⟩

lemma allBelong_of_similar (closed : Closed reg U) (hnatives : NativesAgree U)
    (hkeys : KeysPass reg U stored stored') (items : List Stored) {a e : Ty} (ha : U a) (he : U e)
    (h : Similar U a.name e.name) (hv : reg.AllBelong stored items a) :
    reg.AllBelong stored' items e := by
  match items with
  | [] => trivial
  | item :: rest =>
    rw [AllBelong] at hv ⊢
    exact ⟨belongs_of_similar closed hnatives hkeys item ha he h hv.1,
      allBelong_of_similar closed hnatives hkeys rest ha he h hv.2⟩

lemma memberBelongs_of_similar (closed : Closed reg U) (hnatives : NativesAgree U)
    (hkeys : KeysPass reg U stored stored') (members : List (String × Stored)) {key : String}
    {a e : Ty} (ha : U a) (he : U e) (h : Similar U a.name e.name)
    (hv : reg.MemberBelongs stored members key a) : reg.MemberBelongs stored' members key e := by
  match members with
  | [] => exact hv.elim
  | (k, v) :: rest =>
    rw [MemberBelongs] at hv ⊢
    split at hv
    · next hk =>
      rw [if_pos hk]
      exact belongs_of_similar closed hnatives hkeys v ha he h hv
    · next hk =>
      rw [if_neg hk]
      exact memberBelongs_of_similar closed hnatives hkeys rest ha he h hv

end

/-! ### Registered types -/

lemma Similar.mono {V : Ty → Prop} (h : ∀ t, U t → V t) {a e : String} (hae : Similar U a e) :
    Similar V a e := by
  obtain ⟨R, hR, hae⟩ := hae
  refine ⟨R, fun x y hxy => ?_, hae⟩
  rcases hR x y hxy with heq | ⟨t, u, ht, hu, hrest⟩
  · exact Or.inl heq
  · exact Or.inr ⟨t, u, h t ht, h u hu, hrest⟩

lemma similar_written_iff (hcoh : Coherent reg) {a e : String} :
    Similar reg.Written a e ↔ Similar reg.Agrees a e :=
  ⟨Similar.mono fun _ => Written.agrees hcoh,
    fun h => ((similar_agrees_iff hcoh).mp h).mono fun _ => Holds.written⟩

/-- **A match is sound for values, but for their keys.** After any questions, where a registered type
is found to match another one, each value of the first is a value of the second in which the keys may
be any; and it is a value of the second as it stands where structures that match, and whose keys are
asked for somewhere, have the same keys. -/
theorem match_passes_values_up_to_keys (hreached : Reached reg) (hmark : Unmarked reg)
    (hcoh : Coherent reg) (hnatives : NativesAgree reg.Written) {asked : List Question}
    (hasked : ∀ q ∈ asked, q.About reg) {actual expected : Ty} (ha : reg.Holds actual)
    (he : reg.Holds expected) (source : Option Position)
    (h : ((asked.foldl Question.ask reg).matchTypes source actual (some expected)).1 = .ok ()) :
    (∀ v, reg.Belongs Stores v actual → reg.Belongs (fun _ _ => True) v expected) ∧
      ((∀ s t, reg.Keyed s → reg.Keyed t → (reg.matchTypes none s (some t)).1 = .ok () →
          ∀ k, Stores s k → Stores t k) →
        ∀ v, reg.Belongs Stores v actual → reg.Belongs Stores v expected) := by
  have closed := closed_written hreached.resolved hmark hcoh
  have agrees := closed_agrees hreached.resolved hmark hcoh
  obtain ⟨htrue, htypes⟩ := truthful_asked hreached hmark hcoh hasked
  have hagrees := (matchTypes_spec (agrees.of_types htypes) htrue (hcoh _ _ ha) (hcoh _ _ he)
    source).1.mp h
  have hsim := (similar_written_iff hcoh).mpr hagrees
  refine ⟨fun v hv => ?_, fun hkeyed v hv => ?_⟩
  · exact belongs_of_similar closed hnatives (fun _ _ _ _ _ _ _ _ _ _ _ _ _ _ _ => trivial) v
      ha.written he.written hsim hv
  · refine belongs_of_similar closed hnatives ?_ v ha.written he.written hsim hv
    intro n s r n' s' r' u w ht ht' hu hw hsim'
    have hU := (closed.resolves _ ht r List.mem_cons_self (isGeneric_of_resolve hu))
    have hW := (closed.resolves _ ht' r' List.mem_cons_self (isGeneric_of_resolve hw))
    obtain ⟨u', hu', hU, -⟩ := hU
    obtain ⟨w', hw', hW, -⟩ := hW
    cases hu.symm.trans hu'
    cases hw.symm.trans hw'
    refine hkeyed u w ⟨n, s, r, ht, hu⟩ ⟨n', s', r', ht', hw⟩ ?_
    exact (matchTypes_spec agrees (hreached.verdicts ▸ truthful_nil _) (hU.agrees hcoh)
      (hW.agrees hcoh) none).1.mpr ((similar_written_iff hcoh).mp hsim')

/-! ### Deciding what is asked of a registry -/

/-- The types written in a registry. -/
def written (reg : Registry) : List Ty := reg.types.flatMap fun e => e.2.written

/-- Whether names are unmarked and types written agree with those registered. -/
def isOrderly (reg : Registry) : Bool :=
  reg.types.all fun e => !e.2.name.toList.contains '!' && reg.holdsAll e.2

/-- A native type has the test that its tag stands for. -/
def Tested (tests : String → NativeView → Bool) : Ty → Prop
  | .native _ _ tag test => test = tests tag
  | _ => True

lemma Written.mem {t : Ty} (h : reg.Written t) : t ∈ reg.written := by
  obtain ⟨name, v, hv, hwithin⟩ := h
  exact List.mem_flatMap.mpr ⟨_, KeyMap.mem_of_get? hv, Ty.mem_written.mpr hwithin⟩

lemma nativesAgree_of_tested {tests : String → NativeView → Bool}
    (h : ∀ t ∈ reg.written, Tested tests t) : NativesAgree reg.Written :=
  fun _ _ _ _ _ _ _ ha he => (h _ ha.mem).trans (h _ he.mem).symm

lemma orderly_of_check (h : reg.isOrderly = true) : Unmarked reg ∧ Coherent reg := by
  rw [isOrderly, List.all_eq_true] at h
  refine ⟨unmarked_of_all fun e he => ?_, coherent_of_all fun e he => ?_⟩
  · have hname := (Bool.and_eq_true_iff.mp (h e he)).1
    simpa using hname
  · exact (Bool.and_eq_true_iff.mp (h e he)).2

/-! ### A key that is lost -/

namespace Sample

def whole : Ty := .native "int" none "integer" (NativeView.is .int)

def narrow : Ty := .structured "A" none [("a", .inline whole)]

def wide : Ty := .structured "AB" none [("a", .inline whole), ("b", .inline whole)]

/-- A registry with two types that are made in one way of a structure and of a wider one. -/
def made (make : String → TyRef → Ty) : Registry :=
  ⟨[("A", narrow), ("AB", wide), ("int", whole), ("meta-type", .metaType),
    ("of A", make "of A" (.inline narrow)), ("of AB", make "of AB" (.inline wide)),
    ("runtime-determined", .runtimeDetermined)], []⟩

def keysOf (name : String) (owner : TyRef) : Ty := .keyOf name none owner

def listsOf (name : String) (element : TyRef) : Ty := .iterable name none element .irrelevant

lemma reached_keys : Reached (made keysOf) :=
  .register (t := keysOf "of AB" (.inline wide))
    (.register (t := keysOf "of A" (.inline narrow)) .initial rfl) rfl

lemma reached_lists : Reached (made listsOf) :=
  .register (t := listsOf "of AB" (.inline wide))
    (.register (t := listsOf "of A" (.inline narrow)) .initial rfl) rfl

lemma orderly : (made keysOf).isOrderly = true ∧ (made listsOf).isOrderly = true := by
  decide +kernel

def testOf (tag : String) : NativeView → Bool :=
  if tag = "integer" then NativeView.is .int
  else if tag = "meta-type" then NativeView.is .type
  else fun _ => false

lemma tested_keys : ∀ t ∈ (made keysOf).written, Tested testOf t := by
  refine List.forall_iff_forall_mem.mp ?_
  simp [written, made, keysOf, narrow, wide, whole, Ty.metaType, Ty.runtimeDetermined, Ty.written,
    writtenStores, TyRef.written, Tested, testOf]

lemma tested_lists : ∀ t ∈ (made listsOf).written, Tested testOf t := by
  refine List.forall_iff_forall_mem.mp ?_
  simp [written, made, listsOf, narrow, wide, whole, Ty.metaType, Ty.runtimeDetermined, Ty.written,
    writtenStores, TyRef.written, Tested, testOf]

lemma matched {make : String → TyRef → Ty} (h : ((made make).matchTypes none
    (make "of AB" (.inline wide)) (some (make "of A" (.inline narrow)))).1.isOk = true) :
    ((made make).matchTypes none (make "of AB" (.inline wide))
      (some (make "of A" (.inline narrow)))).1 = .ok () := by
  cases hr : ((made make).matchTypes none (make "of AB" (.inline wide))
      (some (make "of A" (.inline narrow)))).1 with
  | error p =>
    rw [hr] at h
    cases h
  | ok u => rfl

lemma match_keys : ((made keysOf).matchTypes none (keysOf "of AB" (.inline wide))
    (some (keysOf "of A" (.inline narrow)))).1 = .ok () := matched (by decide +kernel)

lemma match_lists : ((made listsOf).matchTypes none (listsOf "of AB" (.inline wide))
    (some (listsOf "of A" (.inline narrow)))).1 = .ok () := matched (by decide +kernel)

lemma concrete_keys {t : Ty} (h : (made keysOf).Written t) :
    t.category ≠ .callable ∧ ∀ r ∈ t.refs, r.isGeneric = false := by
  have hall : ((made keysOf).written.all fun t =>
      t.category != .callable && t.refs.all fun r => !r.isGeneric) = true := by decide +kernel
  obtain ⟨hcategory, hrefs⟩ := Bool.and_eq_true_iff.mp (List.all_eq_true.mp hall t h.mem)
  exact ⟨bne_iff_ne.mp hcategory, fun r hr => by simpa using List.all_eq_true.mp hrefs r hr⟩

lemma not_keyed_lists {t : Ty} : ¬ (made listsOf).Keyed t := by
  rintro ⟨name, source, owner, h, -⟩
  have hall : ((made listsOf).written.all fun t => t.category != .keyOf) = true := by decide +kernel
  exact bne_iff_ne.mp (List.all_eq_true.mp hall _ h.mem) rfl

/-- Lists of structures are lists of structures with fewer members. -/
theorem lists_of_wide_are_lists_of_narrow : Reached (made listsOf) ∧ Unmarked (made listsOf) ∧
    Coherent (made listsOf) ∧ NativesAgree (made listsOf).Written ∧
      ∀ v, (made listsOf).Belongs Stores v (listsOf "of AB" (.inline wide)) →
        (made listsOf).Belongs Stores v (listsOf "of A" (.inline narrow)) := by
  obtain ⟨hmark, hcoh⟩ := orderly_of_check orderly.2
  have hnatives := nativesAgree_of_tested tested_lists
  have hwide : (made listsOf).Holds (listsOf "of AB" (.inline wide)) := rfl
  have hnarrow : (made listsOf).Holds (listsOf "of A" (.inline narrow)) := rfl
  have hnone : ∀ q ∈ ([] : List Question), q.About (made listsOf) := nofun
  obtain ⟨-, hexact⟩ := match_passes_values_up_to_keys reached_lists hmark hcoh hnatives hnone hwide
    hnarrow none match_lists
  exact ⟨reached_lists, hmark, hcoh, hnatives, hexact fun s t hs => absurd hs not_keyed_lists⟩

/-- **A key is lost**: the keys of a structure match those of one with fewer members, and not every
key of the first is a key of the second. -/
theorem key_of_wide_is_no_key_of_narrow : ∃ (reg : Registry) (actual expected : Ty) (v : Stored),
    Reached reg ∧ Unmarked reg ∧ Coherent reg ∧ NativesAgree reg.Written ∧
      (∀ t, reg.Written t → t.category ≠ .callable ∧ ∀ r ∈ t.refs, r.isGeneric = false) ∧
      reg.Holds actual ∧ reg.Holds expected ∧
      (reg.matchTypes none actual (some expected)).1 = .ok () ∧
      reg.Belongs Stores v actual ∧ ¬ reg.Belongs Stores v expected := by
  obtain ⟨hmark, hcoh⟩ := orderly_of_check orderly.1
  have hnatives := nativesAgree_of_tested tested_keys
  have hwide : (made keysOf).Holds (keysOf "of AB" (.inline wide)) := rfl
  have hnarrow : (made keysOf).Holds (keysOf "of A" (.inline narrow)) := rfl
  refine ⟨made keysOf, _, _, .key "b", reached_keys, hmark, hcoh, hnatives,
    fun _ => concrete_keys, hwide, hnarrow, match_keys, ?_, ?_⟩
  · exact belongs_key.mpr ⟨_, _, _, wide, rfl, rfl, List.mem_cons_of_mem _ List.mem_cons_self⟩
  · intro h
    obtain ⟨_, _, _, u, howner, hu, hk⟩ := belongs_key.mp h
    cases howner
    cases hu
    exact absurd (List.mem_singleton.mp hk) (by decide)

end Sample

end Registry

end CellMachine
