import CellMachine.Proofs.Tandem.Steps

/-!
Actions of two machines side by side that succeed: what follows for further work from what is known of
actions with less fuel.
-/

namespace CellMachine

namespace Tandem

open Machine

variable {T : Tandem} {D D' : Nat → Nat → Prop} {m m' n n' : Machine}

/-- The follower comes in some way to a slot that is paired with the leader's. -/
def Reaches (T : Tandem) (D : Nat → Nat → Prop) (m n : Machine) (R : Address → Machine → Prop)
    (b : Address) (m' : Machine) : Prop :=
  ∃ D' c n', R c n' ∧ T.Abreast D' m' n' ∧ Onward D m n D' m' n' ∧ Paired D' b c

/-- Where an action of the leader succeeds with some fuel, the follower's succeeds. -/
def Leading (T : Tandem) (fuel : Nat) : Prop :=
  ∀ ⦃D : Nat → Nat → Prop⦄ ⦃m n : Machine⦄ ⦃x y : Action⦄ ⦃b : Address⦄ ⦃m' : Machine⦄,
    T.Abreast D m n → T.SameAction D x y → Succeeds fuel x m b m' →
    T.Reaches D m n (Ends y n) b m'

lemma Leading.mono {fuel fuel' : Nat} (hl : T.Leading fuel) (hle : fuel' ≤ fuel) :
    T.Leading fuel' :=
  fun _ _ _ _ _ _ _ h hxy hs => hl h hxy (succeeds_mono hle hs)

lemma Reaches.of_onward (onward : Onward D m n D' m' n') {R : Address → Machine → Prop} {b : Address}
    {m'' : Machine} (h : T.Reaches D' m' n' R b m'') : T.Reaches D m n R b m'' := by
  obtain ⟨D'', c, n'', hR, h'', onward', hbc⟩ := h
  exact ⟨D'', c, n'', hR, h'', onward.trans onward', hbc⟩

namespace Leading

variable {fuel : Nat} {b : Address}

lemma ticked (hl : T.Leading fuel) (h : T.Abreast D m n) {x y : Action} (hxy : T.SameAction D x y)
    (hs : Succeeds fuel x m.tick b m') : ∃ D' c n', Ends y n.tick c n' ∧ T.Abreast D' m' n' ∧
      Onward D m n D' m' n' ∧ Paired D' b c := by
  obtain ⟨h₀, onward₀⟩ := h.tick
  obtain ⟨D', c, n', hends, h₁, onward₁, hbc⟩ := hl h₀ hxy hs
  exact ⟨D', c, n', hends, h₁, onward₀.trans onward₁, hbc⟩

lemma awaited (hl : T.Leading fuel) (h : T.Abreast D m n) {x y : Action} (hxy : T.SameAction D x y)
    (hs : Succeeds fuel x m.tick b m') : ∃ D' c n', Ends y n.tick c n' ∧
      T.Abreast D' m'.tick n'.tick ∧ Onward D m n D' m'.tick n'.tick ∧ Paired D' b c := by
  obtain ⟨D', c, n', hends, h₁, onward₁, hbc⟩ := hl.ticked h hxy hs
  obtain ⟨h₂, onward₂⟩ := h₁.tick
  exact ⟨D', c, n', hends, h₂, onward₁.trans onward₂, hbc⟩

lemma leads (hl : T.Leading fuel) {r r' : Step Action × Machine} (hr : T.Lockstep D m n r r')
    (hleads : Leads (Succeeds fuel) r b m') : T.Reaches D m n (Leads Ends r') b m' := by
  cases hr with
  | failed => exact hleads.elim
  | value h onward hab =>
    obtain ⟨rfl, rfl⟩ := hleads
    exact ⟨_, _, _, ⟨rfl, rfl⟩, h, onward, hab⟩
  | action h onward hxy => exact .of_onward onward (hl h hxy hleads)

lemma all (hl : T.Leading fuel) (h : T.Abreast D m n) {xs ys : List Action}
    (hall : List.Forall₂ (T.SameAction D) xs ys) {bs : List Address}
    (hs : SucceedAll (Succeeds fuel) xs m bs m') : ∃ D' cs n', SucceedAll Ends ys n cs n' ∧
      T.Abreast D' m' n' ∧ Onward D m n D' m' n' ∧ List.Forall₂ (Paired D') bs cs := by
  induction xs generalizing ys D m n bs with
  | nil =>
    cases hall
    obtain ⟨rfl, rfl⟩ := hs
    exact ⟨D, [], n, ⟨rfl, rfl⟩, h, .refl D m n, .nil⟩
  | cons x xs ih =>
    obtain _ | ⟨hxy, hall⟩ := hall
    obtain ⟨b, m₁, rest, hb, hrest, rfl⟩ := hs
    obtain ⟨D₁, c, n₁, hends, h₁, onward, hbc⟩ := hl.ticked h hxy hb
    obtain ⟨D₂, cs, n₂, hcs, h₂, onward₂, hall₂⟩ :=
      ih h₁ (hall.imp fun _ _ => .mono onward.pairs) hrest
    exact ⟨D₂, c :: cs, n₂, ⟨c, n₁, cs, hends, hcs, rfl⟩, h₂, onward.trans onward₂,
      .cons (onward₂.paired hbc) hall₂⟩

end Leading

/-! ### Slots that were evaluated -/

/-- With some fuel, an evaluation of a slot that succeeds comes to the slot, evaluated so far. -/
def Reaching (T : Tandem) (fuel : Nat) : Prop :=
  ∀ ⦃D : Nat → Nat → Prop⦄ ⦃m n : Machine⦄ ⦃a b c : Address⦄ ⦃depth : Depth⦄ ⦃m' : Machine⦄,
    T.Abreast D m n → Paired D a b → Succeeds fuel (.evaluate a depth) m c m' →
    c = a ∧ Reached m' a depth

lemma Onward.full (onward : Onward D m n D' m' n') {a : Address} (ha : m.store.memory.Full a) :
    m'.store.memory.Full a := by
  induction ha with
  | mk hv _ ih => exact .mk (onward.leader.values _ _ hv) ih

namespace Leading

variable {fuel : Nat} {a b c : Address}

lemma full_all (hl : T.Leading fuel) (hr : T.Reaching fuel) {as bs cs : List Address}
    (h : T.Abreast D m n) (hall : List.Forall₂ (Paired D) as bs)
    (hs : SucceedAll (Succeeds fuel) (as.map fun a => .evaluate a .deep) m cs m') :
    ∃ D' n', T.Abreast D' m' n' ∧ Onward D m n D' m' n' ∧ ∀ a ∈ as, m'.store.memory.Full a := by
  induction as generalizing D m n bs cs with
  | nil =>
    obtain ⟨-, rfl⟩ := hs
    exact ⟨D, n, h, .refl D m n, List.forall_mem_nil _⟩
  | cons a as ih =>
    obtain _ | ⟨hab, hall⟩ := hall
    obtain ⟨c, m₁, rest, hc, hrest, -⟩ := hs
    obtain ⟨-, hfull⟩ := hr h.tick.1 hab hc
    obtain ⟨D₁, _, n₁, -, h₁, onward₁, -⟩ := hl.ticked h (.evaluate hab .deep) hc
    obtain ⟨D₂, n₂, h₂, onward₂, hfulls⟩ := ih h₁ (onward₁.forall₂ hall) hrest
    exact ⟨D₂, n₂, h₂, onward₁.trans onward₂,
      List.forall_mem_cons.mpr ⟨onward₂.full hfull, hfulls⟩⟩

lemma full_of_closed {v w : Value} (hvw : T.Alike D v w)
    (hc : c ∈ v.members) (hopen : c ∉ openMembers m.store.memory v) : m.store.memory.Full c := by
  rw [openMembers, List.mem_filter, not_and] at hopen
  replace hopen := hopen hc
  obtain ⟨d, -, hcd⟩ := exists_of_mem hvw.members hc
  obtain ⟨hij⟩ := hcd
  rename_i i j
  cases hu : m.store.memory.value? (.at i) with
  | none => simp [hu] at hopen
  | some u =>
    refine .mk hu ?_
    cases u with
    | iterable items => simp [hu] at hopen
    | structured r => simp [hu] at hopen
    | _ => exact List.forall_mem_nil _

lemma deepened (hl : ∀ k < fuel, T.Leading k) (hr : ∀ k < fuel, T.Reaching k)
    (h : T.Abreast D m n) (hab : Paired D a b) {v : Value}
    (hv : m.store.memory.value? a = some v)
    (hleads : Leads (Succeeds fuel) (deepen a v m) c m') : c = a ∧ m'.store.memory.Full a := by
  obtain ⟨w, -, hvw⟩ := h.exists_value hab hv
  have hpaired := forall₂_openMembers h hvw
  have closed : ∀ c ∈ v.members, c ∉ openMembers m.store.memory v → m.store.memory.Full c :=
    fun c hc hopen => full_of_closed hvw hc hopen
  obtain ⟨hij⟩ := hab
  rw [deepen_eq] at hleads
  cases hopen : openMembers m.store.memory v with
  | nil =>
    rw [hopen] at hleads closed
    obtain ⟨rfl, rfl⟩ := hleads
    exact ⟨rfl, .mk hv fun c hc => closed c hc List.not_mem_nil⟩
  | cons d ds =>
    rw [hopen] at hleads hpaired closed
    cases fuel with
    | zero => cases hleads
    | succ fuel =>
      obtain ⟨bs, m₁, hs, hlast⟩ := succeeds_succ_iff.mp hleads
      obtain ⟨rfl, rfl⟩ := hlast
      obtain ⟨D₁, n₁, h₁, onward₁, hfull⟩ := full_all (hl fuel (by omega)) (hr fuel (by omega)) h
        hpaired hs
      obtain ⟨-, onward₂⟩ := h₁.tick
      have onward := onward₁.trans onward₂
      refine ⟨rfl, .mk (onward.leader.values _ _ hv) fun c hc => ?_⟩
      by_cases hin : c ∈ d :: ds
      · exact onward₂.full (hfull c hin)
      · exact onward.full (closed c hc hin)

lemma settled (hl : ∀ k < fuel, T.Leading k) (h : T.Abreast D m n) (hab : Paired D a b)
    {x y : Action} (hxy : T.SameAction D x y) (hs : Succeeds fuel (x.andThen (.settle a)) m c m') :
    c = a ∧ (m'.store.memory.value? a).isSome = true := by
  cases fuel with
  | zero => cases hs
  | succ fuel =>
    obtain ⟨b₁, m₁, hfirst, hlast⟩ := succeeds_andThen hs
    obtain ⟨D₁, _, n₁, -, h₁, onward₁, -⟩ := (hl fuel (by omega)).awaited h hxy hfirst
    change Leads _ (settle a b₁ m₁.tick) c m' at hlast
    cases hv : m₁.tick.store.memory.value? b₁ with
    | none =>
      obtain ⟨q, hq⟩ := settle_of_none a hv
      rw [hq] at hlast
      exact hlast.elim
    | some v =>
      rw [settle_of_value hv] at hlast
      obtain ⟨rfl, rfl⟩ := hlast
      obtain ⟨hij⟩ := onward₁.paired hab
      exact ⟨rfl, Memory.isSome_memoize_self (h₁.lt_size hij).1 v⟩

lemma forced (hT : T.Sound) (hl : ∀ k < fuel + 1, T.Leading k) (hr : ∀ k < fuel, T.Reaching k)
    (h : T.Abreast D m n) (hab : Paired D a b) {depth : Depth}
    (hleads : Leads (Succeeds fuel) (force a depth m) c m') : c = a ∧ Reached m' a depth := by
  cases hv : m.store.memory.value? a with
  | some v =>
    cases depth with
    | shallow =>
      rw [force_shallow_of_value hv] at hleads
      obtain ⟨rfl, rfl⟩ := hleads
      exact ⟨rfl, Option.isSome_iff_exists.mpr ⟨v, hv⟩⟩
    | deep =>
      rw [force_deep_of_value hv] at hleads
      exact deepened (fun k hk => hl k (by omega)) hr h hab hv hleads
  -- A slot without a value is settled first, and only then looked into.
  | none =>
    cases hresolve : resolve a m with
    | mk o m₁ =>
      cases o with
      | error q =>
        have hforce : force a depth m = (.error q, m₁) := by
          simp only [force, RunM.run_bind, RunM.run_value?, hv, hresolve, RunM.run_pure]
        rw [hforce] at hleads
        exact hleads.elim
      | ok x =>
        obtain ⟨y, n₁, -, hxy, h₁, onward₁⟩ := resolve_follows hT h hab hv hresolve
        have hab₁ := onward₁.paired hab
        rw [force_of_resolved hv (congrArg Prod.fst hresolve), hresolve] at hleads
        cases depth with
        | shallow => exact settled (fun k hk => hl k (by omega)) h₁ hab₁ hxy hleads
        | deep =>
          cases fuel with
          | zero => cases hleads
          | succ fuel =>
            obtain ⟨b₁, m₂, hfirst, hlast⟩ := succeeds_andThen hleads
            obtain ⟨rfl, hsome⟩ := settled (fun k hk => hl k (by omega)) h₁.tick.1 hab₁ hxy hfirst
            obtain ⟨D₂, _, n₂, -, h₂, onward₂, -⟩ :=
              (hl fuel (by omega)).awaited h₁ (.andThen hxy (.settle hab₁)) hfirst
            obtain ⟨v, hv'⟩ : ∃ v, m₂.tick.store.memory.value? b₁ = some v :=
              Option.isSome_iff_exists.mp hsome
            change Leads _ (force b₁ .deep m₂.tick) c m' at hlast
            rw [force_deep_of_value hv'] at hlast
            exact deepened (fun k hk => hl k (by omega)) (fun k hk => hr k (by omega)) h₂
              (onward₂.paired hab₁) hv' hlast

/-- **An evaluation of a slot that succeeds** comes to the slot, evaluated as far as it was asked. -/
lemma reaching (hT : T.Sound) (hl : T.Leading fuel) : T.Reaching fuel := by
  induction fuel using Nat.strong_induction_on with
  | _ fuel ih =>
    intro D m n a b c depth m' h hab hs
    cases fuel with
    | zero => cases hs
    | succ fuel =>
      obtain ⟨bs, m₁, ⟨rfl, rfl⟩, hleads⟩ := succeeds_succ_iff.mp hs
      exact forced hT (fun k hk => hl.mono hk.le)
        (fun k hk => ih k (by omega) (hl.mono (by omega))) h.tick.1 hab hleads

end Leading

end Tandem

end CellMachine
