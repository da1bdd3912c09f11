import CellMachine.Proofs.Machine.Actions
import CellMachine.Proofs.Meaning.Opcodes
import CellMachine.Proofs.Reduction.Terms
import CellMachine.Proofs.Registry.Refusals

/-!
Updates of structures. A structure that was updated again and again is a pile of layers, which later
structures share with earlier ones. Read from outside it is a map in which the entries were written one
after another, over what the first structure had; the keys that it shows are those of its type all
along. An update with an entry that does not fit is refused, and leaves everything as it was.
-/

namespace CellMachine

/-! ### Members that fit -/

namespace Registry

/-- A member is not compared with its declaration where one of the two is still open. -/
def isFree (type : Ty) (declared : TyRef) : Bool :=
  declared.isGeneric || type.isRuntimeDetermined || Build.isOpenRef declared

/-- A member of a type can stand where a structure declares another, as the registry says when it is
asked. -/
def Suits (reg : Registry) (type : Ty) (declared : TyRef) : Prop :=
  isFree type declared = true ∨ ∃ t, reg.resolve declared = .ok t ∧ reg.Accepts type t

/-- What is known of a member that was found to fit. -/
def Knows (reg : Registry) (type : Ty) (declared : TyRef) : Prop :=
  isFree type declared = true ∨ ∃ t, reg.resolve declared = .ok t ∧ reg.Settled type t

/-- What is known of a member that was found not to fit. -/
def Bars (reg : Registry) (type : Ty) (declared : TyRef) : Prop :=
  isFree type declared = false ∧ ∀ t, reg.resolve declared = .ok t → reg.Refused type t

variable {reg later : Registry} {type : Ty} {declared : TyRef}

lemma Knows.suits (h : reg.Knows type declared) : reg.Suits type declared :=
  h.imp_right fun ⟨t, ht, hsettled⟩ => ⟨t, ht, hsettled.accepts⟩

lemma Bars.not_suits (h : reg.Bars type declared) : ¬reg.Suits type declared := by
  rintro (hfree | ⟨t, ht, haccepts⟩)
  · rw [h.1] at hfree
    cases hfree
  · exact (h.2 t ht).fails none (haccepts none)

lemma Asked.knows (h : reg.Asked later) (hknows : reg.Knows type declared) :
    later.Knows type declared :=
  hknows.imp_right fun ⟨t, ht, hsettled⟩ =>
    ⟨t, (resolve_of_types h.types declared).trans ht, h.settled hsettled⟩

lemma Asked.bars (h : reg.Asked later) (hbars : reg.Bars type declared) :
    later.Bars type declared :=
  ⟨hbars.1, fun t ht => h.refused (hbars.2 t ((resolve_of_types h.types declared).symm.trans ht))⟩

lemma matchRefs_inline (hfree : isFree type declared = false) (source : Option Position) :
    reg.matchRefs source (.inline type) declared =
      match reg.resolve declared with
      | .error p => (.error (p.orAt source), reg)
      | .ok t => reg.matchTypes source type (some t) := by
  have hgeneric : declared.isGeneric = false := by
    unfold isFree at hfree
    simp only [Bool.or_eq_false_iff] at hfree
    exact hfree.1.1
  have hinline : (TyRef.inline type).isGeneric = false := rfl
  rw [matchRefs, hgeneric, hinline, Bool.or_self, if_neg Bool.false_ne_true]
  rfl

lemma knows_or_bars (hfree : isFree type declared = false) (source : Option Position) :
    (reg.matchRefs source (.inline type) declared).1 = .ok () ∧
        (reg.matchRefs source (.inline type) declared).2.Knows type declared ∨
      (∃ p, (reg.matchRefs source (.inline type) declared).1 = .error p) ∧
        (reg.matchRefs source (.inline type) declared).2.Bars type declared := by
  rw [matchRefs_inline hfree]
  cases hresolve : reg.resolve declared with
  | error p =>
    refine .inr ⟨⟨_, rfl⟩, hfree, fun t ht => ?_⟩
    rw [hresolve] at ht
    cases ht
  | ok t =>
    have hresolve' : (reg.matchTypes source type (some t)).2.resolve declared = .ok t :=
      (resolve_of_types (types_matchTypes ..) declared).trans hresolve
    dsimp only
    cases hanswer : (reg.matchTypes source type (some t)).1 with
    | ok _ =>
      have hsettled := (matchTypes_settles reg source type t).2 hanswer
      exact .inl ⟨rfl, .inr ⟨t, hresolve', hsettled⟩⟩
    | error p =>
      have hrefused := refused_of_fails (by rw [hanswer]; exact nofun)
      refine .inr ⟨⟨p, rfl⟩, hfree, fun t' ht' => ?_⟩
      cases hresolve'.symm.trans ht'
      exact hrefused

lemma accepts_of_ok {source : Option Position} {actual expected : Ty}
    (h : (reg.matchTypes source actual (some expected)).1 = .ok ()) :
    reg.Accepts actual expected := by
  intro source'
  rw [matchTypes_some] at h ⊢
  generalize reg.compareTypes _ expected actual _ = r at h ⊢
  obtain ⟨_ | _, q⟩ := r
  · cases h
  · rfl

lemma suits_iff_of_asked {source : Option Position}
    (h : (reg.matchRefs source (.inline type) declared).2.Asked later) :
    reg.Suits type declared ↔ later.Suits type declared := by
  cases hfree : isFree type declared with
  | true => exact iff_of_true (.inl hfree) (.inl hfree)
  | false =>
    rcases knows_or_bars hfree source with ⟨hok, hknows⟩ | ⟨⟨p, hp⟩, hbars⟩
    · refine iff_of_true ?_ (h.knows hknows).suits
      rw [matchRefs_inline hfree] at hok
      cases hresolve : reg.resolve declared with
      | error p =>
        rw [hresolve] at hok
        cases hok
      | ok t =>
        rw [hresolve] at hok
        exact .inr ⟨t, hresolve, accepts_of_ok hok⟩
    · refine iff_of_false ?_ (h.bars hbars).not_suits
      rintro (htrue | ⟨t, ht, haccepts⟩)
      · exact Bool.false_ne_true (hfree.symm.trans htrue)
      · rw [matchRefs_inline hfree, ht] at hp
        exact nomatch (haccepts source).symm.trans hp

/-- **Whether a member fits stands**, whichever of two times the registry is first asked. -/
lemma suits_iff_of_interleaved {source : Option Position}
    (h : Interleaved (fun reg => (reg.matchRefs source (.inline type) declared).2)
      (fun reg => (reg.matchRefs source (.inline type) declared).2) reg later) :
    reg.Suits type declared ↔ later.Suits type declared := by
  rcases h with rfl | hlater | hearlier
  · exact Iff.rfl
  · exact suits_iff_of_asked hlater
  · exact (suits_iff_of_asked hearlier).symm

end Registry

/-! ### Checks -/

namespace Build

/-- A check comes to a finding. It adds to what the registry knows and changes nothing else. -/
structure Finds (x : Attempt Unit) (s : Store) (good bad : Registry → Prop) : Prop where
  memory : (x.run s).2.memory = s.memory
  cancelled : (x.run s).2.cancelled = s.cancelled
  asked : s.types.Asked (x.run s).2.types
  finding : (x.run s).1 = .ok () ∧ good (x.run s).2.types ∨
    (∃ p, (x.run s).1 = .error p) ∧ bad (x.run s).2.types

lemma run_checkMember (a : Address) (declared : TyRef) (s : Store) :
    (checkMember a declared).run s =
      if Registry.isFree (s.memory.typeOf a) declared then (.ok (), s)
      else (StoreM.matchRefs (s.memory.sourceOf a) (.inline (s.memory.typeOf a)) declared) s := by
  show (ite (Registry.isFree (s.memory.typeOf a) declared = true) _ _ : Attempt Unit).run s = _
  split <;> rfl

lemma finds_checkMember (a : Address) (declared : TyRef) (s : Store) :
    Finds (checkMember a declared) s (fun reg => reg.Knows (s.memory.typeOf a) declared)
      fun reg => reg.Bars (s.memory.typeOf a) declared := by
  have hrun := run_checkMember a declared s
  cases hfree : Registry.isFree (s.memory.typeOf a) declared with
  | true =>
    rw [if_pos hfree] at hrun
    constructor <;> rw [hrun]
    · exact .refl _
    · exact .inl ⟨rfl, .inl hfree⟩
  | false =>
    rw [if_neg (by rw [hfree]; exact Bool.false_ne_true)] at hrun
    constructor <;> rw [hrun]
    · rfl
    · rfl
    · exact .single _ (.refs _ _ _)
    · exact Registry.knows_or_bars hfree _

namespace Finds

variable {x y : Attempt Unit} {s : Store} {good bad good' bad' : Registry → Prop}

lemma of_error {p : Problem} (hrun : x.run s = (.error p, s)) (hbad : bad s.types) :
    Finds x s good bad := by
  constructor <;> rw [hrun]
  · exact .refl _
  · exact .inr ⟨⟨p, rfl⟩, hbad⟩

lemma explain (h : Finds x s good bad) (f : Problem → Problem) :
    Finds (x.explain f) s good bad := by
  have hrun : (x.explain f).run s = ((x.run s).1.mapError f, (x.run s).2) := by
    rw [Attempt.explain, ExceptT.run_mk, StoreM.run_bind]
    rcases x.run s with ⟨_ | _, _⟩ <;> rfl
  obtain ⟨hmemory, hcancelled, hasked, hfinding⟩ := h
  constructor <;> rw [hrun]
  · exact hmemory
  · exact hcancelled
  · exact hasked
  · rcases hfinding with ⟨hok, hgood⟩ | ⟨⟨p, hp⟩, hbad⟩
    · exact .inl ⟨by rw [hok]; rfl, hgood⟩
    · exact .inr ⟨⟨f p, by rw [hp]; rfl⟩, hbad⟩

/-- A second check is made only after a first that found nothing bad. -/
lemma bind (hx : Finds x s good bad)
    (hy : ∀ s' : Store, s'.memory = s.memory → Finds y s' good' bad')
    (hkept : ∀ {reg later : Registry}, reg.Asked later → good reg → good later) :
    Finds (x >>= fun _ => y) s (fun reg => good reg ∧ good' reg) fun reg => bad reg ∨ bad' reg := by
  have hrun := Attempt.run_bind x (fun _ => y) s
  obtain ⟨hmemory, hcancelled, hasked, hfinding⟩ := hx
  rcases hfirst : x.run s with ⟨p | u, s'⟩
  · rw [hfirst] at hrun hmemory hcancelled hasked hfinding
    obtain ⟨-, hbad⟩ := hfinding.resolve_left (fun h => nomatch h.1)
    constructor <;> rw [hrun]
    · exact hmemory
    · exact hcancelled
    · exact hasked
    · exact .inr ⟨⟨p, rfl⟩, .inl hbad⟩
  · rw [hfirst] at hrun hmemory hcancelled hasked hfinding
    obtain ⟨-, hgood⟩ := hfinding.resolve_right (fun ⟨⟨p, hp⟩, _⟩ => by cases hp)
    obtain ⟨hmemory', hcancelled', hasked', hfinding'⟩ := hy s' hmemory
    constructor <;> rw [hrun]
    · exact hmemory'.trans hmemory
    · exact hcancelled'.trans hcancelled
    · exact hasked.trans hasked'
    · exact hfinding'.imp (And.imp_right fun h => ⟨hkept hasked' hgood, h⟩)
        (And.imp_right .inr)

lemma mono (h : Finds x s good bad) (hgood : ∀ reg, good reg → good' reg)
    (hbad : ∀ reg, bad reg → bad' reg) : Finds x s good' bad' :=
  ⟨h.memory, h.cancelled, h.asked,
    h.finding.imp (And.imp_right (hgood _)) (And.imp_right (hbad _))⟩

end Finds

/-- All entries are known to fit a type. -/
def AllKnown (type : Ty) (memory : Memory) (entries : List (String × Address)) (reg : Registry) :
    Prop :=
  ∀ e ∈ entries, ∃ r, type.stores.get? e.1 = some r ∧ reg.Knows (memory.typeOf e.2) r

/-- Some entry is known not to fit a type, or is of a key that the type does not have. -/
def SomeBarred (type : Ty) (memory : Memory) (entries : List (String × Address)) (reg : Registry) :
    Prop :=
  ∃ e ∈ entries, ∀ r, type.stores.get? e.1 = some r → reg.Bars (memory.typeOf e.2) r

lemma finds_checkEntries (type : Ty) (entries : List (String × Address)) (s : Store) :
    Finds (checkEntries type entries) s (AllKnown type s.memory entries)
      (SomeBarred type s.memory entries) := by
  induction entries generalizing s with
  | nil => exact ⟨rfl, rfl, .refl _, .inl ⟨rfl, fun e he => absurd he List.not_mem_nil⟩⟩
  | cons e rest ih =>
    obtain ⟨key, a⟩ := e
    unfold checkEntries
    cases hstored : type.stores.get? key with
    | none =>
      refine Finds.of_error rfl ⟨(key, a), List.mem_cons_self, fun r hr => ?_⟩
      rw [hstored] at hr
      cases hr
    | some r =>
      have hrest : ∀ s' : Store, s'.memory = s.memory → Finds (checkEntries type rest) s'
          (AllKnown type s.memory rest) (SomeBarred type s.memory rest) :=
        fun s' hs' => hs' ▸ ih s'
      refine (((finds_checkMember a r s).explain _).bind hrest fun h => h.knows).mono ?_ ?_
      · rintro reg ⟨hhead, htail⟩ e he
        rcases List.mem_cons.mp he with rfl | he
        · exact ⟨r, hstored, hhead⟩
        · exact htail e he
      · rintro reg (hhead | ⟨e, he, htail⟩)
        · refine ⟨(key, a), List.mem_cons_self, fun r' hr' => ?_⟩
          cases hstored.symm.trans hr'
          exact hhead
        · exact ⟨e, List.mem_cons_of_mem _ he, htail⟩

/-- Whether all entries fit a type, as the registry says when it is asked. -/
def AllFit (type : Ty) (memory : Memory) (entries : List (String × Address)) (reg : Registry) :
    Prop :=
  ∀ e ∈ entries, ∃ r, type.stores.get? e.1 = some r ∧ reg.Suits (memory.typeOf e.2) r

lemma finds_checkRecord (type : Ty) (entries : List (String × Address)) (s : Store) :
    Finds (checkRecord type entries) s
      (fun reg => type.category = .structured ∧ AllKnown type s.memory entries reg)
      fun reg => type.category ≠ .structured ∨ SomeBarred type s.memory entries reg := by
  cases type with
  | structured name source stores =>
    exact (finds_checkEntries (.structured name source stores) entries s).mono
      (fun reg h => ⟨rfl, h⟩) fun reg h => .inr h
  | _ => exact Finds.of_error rfl (.inl nofun)

lemma AllKnown.allFit {type : Ty} {memory : Memory} {entries : List (String × Address)}
    {reg : Registry} (h : AllKnown type memory entries reg) : AllFit type memory entries reg :=
  fun e he => (h e he).imp fun _ hr => ⟨hr.1, hr.2.suits⟩

lemma SomeBarred.not_allFit {type : Ty} {memory : Memory} {entries : List (String × Address)}
    {reg : Registry} (h : SomeBarred type memory entries reg) : ¬AllFit type memory entries reg := by
  intro hfit
  obtain ⟨e, he, hbars⟩ := h
  obtain ⟨r, hr, hsuits⟩ := hfit e he
  exact (hbars r hr).not_suits hsuits

end Build

/-! ### One update -/

namespace Record

variable {α σ : Type}

/-- The layers and the type with which a record goes on when it is updated; a flat one becomes a layer
of a type that is given. -/
def layersIn (type : Ty) : Record α → List (KeyMap String α) × Ty
  | flat entries => ([entries], type)
  | layered layers own => (layers, own)

/-- A record with entries written over it. -/
def updated (r : Record α) (type : Ty) (entries : List (String × α)) : Record α :=
  child (r.layersIn type).1 (r.layersIn type).2 (.ofList entries)

/-- What was written last for a key, in the order in which entries were written. -/
def written (entries : List (String × α)) (k : String) : Option α := KeyMap.get? entries.reverse k

lemma written_append (l m : List (String × α)) (k : String) :
    written (l ++ m) k = (written m k).or (written l k) := by
  rw [written, List.reverse_append, KeyMap.get?_append]
  rfl

lemma get?_updated (r : Record α) (type : Ty) (entries : List (String × α)) (k : String) :
    (r.updated type entries).get? k = (written entries k).or (r.get? k) := by
  have hbelow : ((r.layersIn type).1.findSome? fun layer => layer.get? k) = r.get? k := by
    cases r with
    | flat entries => exact get?_ofLayer entries type k
    | layered layers own => rfl
  rw [updated, child, get?, List.findSome?_cons, hbelow, KeyMap.get?_ofList, written]
  cases KeyMap.get? entries.reverse k <;> rfl

lemma forEach_eq (r : Record α) (visitor : String → α → σ → Except σ σ) (s : σ) :
    r.forEach visitor s = Visitor.ended
      ((r.keys.filterMap fun k => (r.get? k).map fun a => (k, a)).foldlM
        (fun s e => visitor e.1 e.2 s) s) := by
  have key : ∀ (keys : List String) (s : σ), r.visitKeys visitor keys s =
      (keys.filterMap fun k => (r.get? k).map fun a => (k, a)).foldlM
        (fun s e => visitor e.1 e.2 s) s := by
    intro keys
    induction keys with
    | nil => exact fun _ => rfl
    | cons k keys ih =>
      intro s
      rw [visitKeys, List.filterMap_cons]
      cases r.get? k with
      | none => exact ih s
      | some a =>
        simp only [Option.map_some, List.foldlM_cons]
        cases visitor k a s with
        | error t => rfl
        | ok t => exact ih t
  rw [forEach, key]
  rfl

end Record

namespace Build

variable {s : Store} {base : Address} {r : Record Address}

lemma run_updateWithMembers (hbase : s.memory.value? base = some (.structured r))
    (entries : List (String × Address)) :
    (updateWithMembers base entries none).run s =
      match (checkRecord (r.layersIn (s.memory.typeOf base)).2 entries).run s with
      | (.ok _, s') => (.ok (.structured (r.updated (s.memory.typeOf base) entries)), s')
      | (.error p, s') => (.error p, s') := by
  have hlayers : (layersOf base).run s = (.ok (r.layersIn (s.memory.typeOf base)), s) := by
    rw [layersOf, Attempt.run_bind_of_ok (run_evaluated hbase)]
    cases r <;> rfl
  rw [updateWithMembers, Attempt.run_bind_of_ok hlayers, Attempt.run_bind, Option.getD_none]
  rcases (checkRecord (r.layersIn (s.memory.typeOf base)).2 entries).run s with ⟨_ | _, _⟩ <;> rfl

/-- **An update is accepted exactly if all its entries fit**, as the registry says from then on; and
whether it is accepted or not, nothing changes but what the registry knows. -/
lemma update_spec (hbase : s.memory.value? base = some (.structured r))
    (entries : List (String × Address)) :
    let own := s.memory.typeOf base
    let type := (r.layersIn own).2
    let result := (updateWithMembers base entries none).run s
    result.2.memory = s.memory ∧ result.2.cancelled = s.cancelled ∧
      s.types.Asked result.2.types ∧
      (result.1 = .ok (.structured (r.updated own entries)) ∧ type.category = .structured ∧
          AllFit type s.memory entries result.2.types ∨
        (∃ p, result.1 = .error p) ∧
          ¬(type.category = .structured ∧ AllFit type s.memory entries result.2.types)) := by
  intro own type result
  have hrun := run_updateWithMembers hbase entries
  obtain ⟨hmemory, hcancelled, hasked, hfinding⟩ := finds_checkRecord type entries s
  have hstore : result.2 = ((checkRecord type entries).run s).2 := by
    show ((updateWithMembers base entries none).run s).2 = _
    rw [hrun]
    rcases (checkRecord type entries).run s with ⟨_ | _, _⟩ <;> rfl
  have hanswer : result.1 = ((checkRecord type entries).run s).1.map fun _ =>
      .structured (r.updated own entries) := by
    show ((updateWithMembers base entries none).run s).1 = _
    rw [hrun]
    rcases (checkRecord type entries).run s with ⟨_ | _, _⟩ <;> rfl
  rw [hstore, hanswer]
  refine ⟨hmemory, hcancelled, hasked, ?_⟩
  rcases hfinding with ⟨hok, hcategory, hknown⟩ | ⟨⟨p, hp⟩, hbad⟩
  · exact .inl ⟨by rw [hok]; rfl, hcategory, hknown.allFit⟩
  · refine .inr ⟨⟨p, by rw [hp]; rfl⟩, fun ⟨hcategory, hfit⟩ => ?_⟩
    rcases hbad with hother | hbarred
    · exact hother hcategory
    · exact hbarred.not_allFit hfit

end Build

/-! ### Chains of updates -/

/-- One update of a chain: what was written, and the slot that then held the result. -/
structure Version where
  entries : List (String × Address)
  slot : Address
  record : Record Address

namespace Version

/-- Everything that was written, in the order in which it was. -/
def entriesOf (vs : List Version) : List (String × Address) := vs.flatMap Version.entries

/-- The slot of the structure that a chain has come to. -/
def current (base : Address) (vs : List Version) : Address := (vs.getLast?.map Version.slot).getD base

lemma entriesOf_concat (vs : List Version) (v : Version) :
    entriesOf (vs ++ [v]) = entriesOf vs ++ v.entries := by
  simp [entriesOf]

lemma current_concat (base : Address) (vs : List Version) (v : Version) :
    current base (vs ++ [v]) = v.slot := by
  simp [current]

end Version

open Version

/-- A host updates a structure again and again. Each update is accepted and is made to the slot that
holds the result of the one before it. In between the host does what it likes that leaves the slots
there are with their cells and values, which includes making the slot for a result. -/
inductive Chain (start : Store) (base : Address) : List Version → Store → Prop
  | start : Chain start base [] start
  | update {vs : List Version} {v : Version} {s s₁ s₂ s₃ : Store} (h : Chain start base vs s)
    (before : s.memory.Retains s₁.memory)
    (accepted : (Build.updateWithMembers (current base vs) v.entries none).run s₁ =
      (.ok (.structured v.record), s₂))
    (after : s₂.memory.Retains s₃.memory)
    (held : s₃.memory.value? v.slot = some (.structured v.record)) : Chain start base (vs ++ [v]) s₃

/-- A record shows entries that were written over a first record, under the keys of a type: by looking
up, as keys, and to whoever visits its members. -/
structure Record.Shows (r first : Record Address) (type : Ty) (entries : List (String × Address)) :
    Prop where
  get? : ∀ k, r.get? k = (Record.written entries k).or (first.get? k)
  keys : r.keys = type.stores.keys
  forEach : ∀ (σ : Type) (visitor : String → Address → σ → Except σ σ) (s : σ),
    r.forEach visitor s = Visitor.ended
      ((type.stores.keys.filterMap fun k =>
        ((Record.written entries k).or (first.get? k)).map fun a => (k, a)).foldlM
        (fun s e => visitor e.1 e.2 s) s)

namespace Chain

variable {start s : Store} {base : Address} {first : Record Address} {vs : List Version}

/-- What a record has come to be in a chain, for whoever updates it next. -/
structure Stands (first : Record Address) (type : Ty) (vs : List Version) (r : Record Address)
    (own : Ty) : Prop where
  type : (r.layersIn own).2 = type
  get? : ∀ k, r.get? k = (Record.written (entriesOf vs) k).or (first.get? k)

variable {type own : Ty} {r : Record Address} {v : Version}

/-- The record of an update stands in its turn, and shows what was written. -/
lemma Stands.updated (h : Stands first type vs r own) (hv : v.record = r.updated own v.entries) :
    (∀ own', Stands first type (vs ++ [v]) v.record own') ∧
      v.record.Shows first type (entriesOf (vs ++ [v])) := by
  have hget : ∀ k, v.record.get? k =
      (Record.written (entriesOf (vs ++ [v])) k).or (first.get? k) := fun k => by
    rw [hv, Record.get?_updated, h.get?, entriesOf_concat, Record.written_append, Option.or_assoc]
  have hkeys : v.record.keys = type.stores.keys := by
    rw [hv, ← h.type]
    rfl
  refine ⟨fun own' => ⟨by rw [hv]; exact h.type, hget⟩, hget, hkeys, fun σ visitor x => ?_⟩
  simp only [Record.forEach_eq, hkeys, hget]

/-- What a chain keeps: slots with their values, the record that is updated next, and all that were
made. -/
structure Kept (start : Store) (base : Address) (first : Record Address) (type : Ty)
    (vs : List Version) (s : Store) : Prop where
  retains : start.memory.Retains s.memory
  standing : ∃ r, s.memory.value? (current base vs) = some (.structured r) ∧
    Stands first type vs r (s.memory.typeOf (current base vs))
  versions : ∀ past v, past ++ [v] <+: vs →
    s.memory.value? v.slot = some (.structured v.record) ∧
      v.record.Shows first type (entriesOf (past ++ [v]))

lemma isSome_get?_of_value? {memory : Memory} {a : Address} {w : Value}
    (h : memory.value? a = some w) : (memory.get? a).isSome = true := by
  obtain ⟨slot, hslot, -⟩ := Option.bind_eq_some_iff.mp h
  rw [hslot]
  rfl

lemma kept (hbase : start.memory.value? base = some (.structured first))
    (h : Chain start base vs s) :
    Kept start base first (first.layersIn (start.memory.typeOf base)).2 vs s := by
  -- On the chain: the version at its end is a record that shows what was written so far.
  induction h with
  | start =>
    refine ⟨.refl _, ⟨first, hbase, rfl, fun k => rfl⟩, fun past v hprefix => ?_⟩
    exact absurd (List.prefix_nil.mp hprefix) (by simp)
  | @update vs v s s₁ s₂ s₃ _ before accepted after held ih =>
    obtain ⟨r, hvalue, hstands⟩ := ih.standing
    have hvalue₁ := before.keeps.value? hvalue
    rw [← before.typeOf (isSome_get?_of_value? hvalue)] at hstands
    obtain ⟨hmemory, -, -, hanswer⟩ := Build.update_spec hvalue₁ v.entries
    rw [accepted] at hmemory hanswer
    have hrecord : v.record = r.updated (s₁.memory.typeOf (current base vs)) v.entries := by
      rcases hanswer with ⟨hok, -⟩ | ⟨⟨p, hp⟩, -⟩
      · injection hok with hok
        injection hok
      · cases hp
    obtain ⟨hnext, hshows⟩ := hstands.updated hrecord
    have hretains : s.memory.Retains s₃.memory := before.trans (hmemory ▸ after)
    refine ⟨ih.retains.trans hretains, ?_, fun past w hprefix => ?_⟩
    · rw [current_concat]
      exact ⟨v.record, held, hnext _⟩
    · rcases List.prefix_concat_iff.mp hprefix with heq | hprefix
      · obtain ⟨rfl, hlast⟩ := List.append_inj' heq rfl
        cases hlast
        exact ⟨held, hshows⟩
      · obtain ⟨hslot, hshown⟩ := ih.versions past w hprefix
        exact ⟨hretains.keeps.value? hslot, hshown⟩

end Chain

/-- The updates of two chains show the same, if the chains started from records that did and the same
was written in them. -/
lemma shows_alike {r r' first first' : Record Address} {type : Ty} {entries : List (String × Address)}
    (h : r.Shows first type entries) (h' : r'.Shows first' type entries)
    (hfirst : ∀ k, first.get? k = first'.get? k) :
    (∀ k, r.get? k = r'.get? k) ∧ r.keys = r'.keys :=
  ⟨fun k => by rw [h.get?, h'.get?, hfirst], h.keys.trans h'.keys.symm⟩

lemma update_flat_eq {s : Store} {a b : Address} {entries : KeyMap String Address}
    (hflat : s.memory.value? a = some (.structured (.flat entries)))
    (hlayered : s.memory.value? b = some (.structured (.ofLayer entries (s.memory.typeOf a))))
    (next : List (String × Address)) :
    (Build.updateWithMembers a next none).run s = (Build.updateWithMembers b next none).run s := by
  rw [Build.run_updateWithMembers hflat, Build.run_updateWithMembers hlayered]
  rfl

/-- An entry fits a type: its key is stored, and its member is taken whenever the registry is asked,
before or after it has come to a state. -/
def Build.Fits (type : Ty) (memory : Memory) (reg : Registry) (e : String × Address) : Prop :=
  ∃ declared, type.stores.get? e.1 = some declared ∧ ∀ (source : Option Position) (asked : Registry),
    Registry.Interleaved
        (fun reg => (reg.matchRefs source (.inline (memory.typeOf e.2)) declared).2)
        (fun reg => (reg.matchRefs source (.inline (memory.typeOf e.2)) declared).2) asked reg →
      asked.Suits (memory.typeOf e.2) declared

lemma Build.fits_iff {type : Ty} {memory : Memory} {reg : Registry} {e : String × Address} :
    Build.Fits type memory reg e ↔
      ∃ declared, type.stores.get? e.1 = some declared ∧ reg.Suits (memory.typeOf e.2) declared := by
  refine exists_congr fun declared => and_congr_right fun _ => ⟨fun h => h none reg (.inl rfl), ?_⟩
  exact fun h source asked hasked => (Registry.suits_iff_of_interleaved hasked).mpr h

/-- **Updates are map writes.** A chain of updates leaves the structure that it starts from, and every
one that it makes, where they are; each shows what had been written when it was made, over what the
first one had, under the keys of the first one's type. After an update it makes no difference whether
the first structure was flat or layered. An update is accepted exactly if its type is structured and
all its entries fit, whenever the registry is asked about them; accepted or not, it changes nothing
but what the registry remembers. -/
theorem updates_are_map_writes {start s : Store} {base : Address} {first : Record Address}
    (hbase : start.memory.value? base = some (.structured first)) {vs : List Version}
    (h : Chain start base vs s) :
    (s.memory.value? base = some (.structured first) ∧ ∀ past v, past ++ [v] <+: vs →
      s.memory.value? v.slot = some (.structured v.record) ∧
        v.record.Shows first (first.layersIn (start.memory.typeOf base)).2
          (entriesOf (past ++ [v]))) ∧
    (∀ entries, first = .flat entries → ∀ (start' s' : Store) (base' : Address) (vs' : List Version),
      start'.memory.value? base' =
          some (.structured (.ofLayer entries (start.memory.typeOf base))) →
        Chain start' base' vs' s' → ∀ past v past' v', past ++ [v] <+: vs → past' ++ [v'] <+: vs' →
          entriesOf (past ++ [v]) = entriesOf (past' ++ [v']) →
            (∀ k, v.record.get? k = v'.record.get? k) ∧ v.record.keys = v'.record.keys) ∧
    (∀ (now : Store) (a b : Address) (entries : KeyMap String Address),
      now.memory.value? a = some (.structured (.flat entries)) →
        now.memory.value? b = some (.structured (.ofLayer entries (now.memory.typeOf a))) →
          ∀ next, (Build.updateWithMembers a next none).run now =
            (Build.updateWithMembers b next none).run now) ∧
    ∀ (now : Store) (a : Address) (r : Record Address) (next : List (String × Address)),
      now.memory.value? a = some (.structured r) →
        let type := (r.layersIn (now.memory.typeOf a)).2
        let result := (Build.updateWithMembers a next none).run now
        ((∃ v, result.1 = .ok v) ↔ type.category = .structured ∧
            ∀ e ∈ next, Build.Fits type now.memory result.2.types e) ∧
          result.2.memory = now.memory ∧ result.2.cancelled = now.cancelled ∧
            now.types.Asked result.2.types := by
  have hkept := Chain.kept hbase h
  refine ⟨⟨hkept.retains.keeps.value? hbase, hkept.versions⟩, ?_,
    fun now a b entries hflat hlayered next => update_flat_eq hflat hlayered next, ?_⟩
  · rintro entries rfl start' s' base' vs' hbase' h' past v past' v' hprefix hprefix' hsame
    have hshows := (hkept.versions past v hprefix).2
    have hshows' := ((Chain.kept hbase' h').versions past' v' hprefix').2
    rw [← hsame] at hshows'
    exact shows_alike hshows hshows' fun k => (Record.get?_ofLayer ..).symm
  · intro now a r next hvalue type result
    obtain ⟨hmemory, hcancelled, hasked, hanswer⟩ := Build.update_spec hvalue next
    refine ⟨?_, hmemory, hcancelled, hasked⟩
    simp only [Build.fits_iff]
    rcases hanswer with ⟨hok, hcategory, hfit⟩ | ⟨⟨p, hp⟩, hunfit⟩
    · exact iff_of_true ⟨_, hok⟩ ⟨hcategory, hfit⟩
    · exact iff_of_false (fun ⟨v, hv⟩ => nomatch hv.symm.trans hp) hunfit

namespace Version.Sample

/-- A point and three numbers, the first two of which are its coordinates. -/
def pointStore : Store where
  memory.slots :=
    let number : Ty := .native "int" none "int" (NativeView.is .int)
    let slot (n : Int64) : Slot := ⟨.external "number" number, some (.native (.int n))⟩
    let point : Ty := .structured "point" none [("x", .inline number), ("y", .inline number)]
    #[⟨.external "point" point, some (.structured (.flat [("x", .at 1), ("y", .at 2)]))⟩,
      slot 3, slot 4, slot 5]

/-- The point with another coordinate. -/
def moved : Version where
  entries := [("x", .at 3)]
  slot := .at 4
  record := (Record.flat [("x", .at 1), ("y", .at 2)]).updated (pointStore.memory.typeOf (.at 0))
    [("x", .at 3)]

/-- The store with the moved point beside the first. -/
def movedStore : Store :=
  { pointStore with
    memory := (pointStore.memory.allocate (.external "moved" (pointStore.memory.typeOf (.at 0)))
      (some (.structured moved.record))).2 }

lemma chain_moved : Chain pointStore (.at 0) [moved] movedStore := by
  have haccepted : (Build.updateWithMembers (.at 0) moved.entries none).run pointStore =
      (.ok (.structured moved.record), pointStore) := rfl
  exact .update .start (.refl _) haccepted (pointStore.memory.over_allocate _ _).retains rfl

/-- The moved point has one coordinate of its own and one of the first, and there is no third to be
written to it. -/
theorem moved_point_is_written_over_first :
    moved.record.get? "x" = some (.at 3) ∧ moved.record.get? "y" = some (.at 2) ∧
      moved.record.keys = ["x", "y"] ∧
      ∀ v, ((Build.updateWithMembers (.at 4) [("z", .at 3)] none).run movedStore).1 ≠ .ok v := by
  have hbase : pointStore.memory.value? (.at 0) =
      some (.structured (.flat [("x", .at 1), ("y", .at 2)])) := rfl
  obtain ⟨⟨-, hversions⟩, -, -, hupdate⟩ := updates_are_map_writes hbase chain_moved
  obtain ⟨hmoved, hshows⟩ := hversions [] moved (List.prefix_refl _)
  refine ⟨hshows.get? "x", hshows.get? "y", hshows.keys, fun v hv => ?_⟩
  obtain ⟨declared, hdeclared, -⟩ :=
    ((hupdate movedStore (.at 4) moved.record [("z", .at 3)] hmoved).1.mp ⟨v, hv⟩).2 _
      List.mem_cons_self
  cases hdeclared

end Version.Sample

end CellMachine
