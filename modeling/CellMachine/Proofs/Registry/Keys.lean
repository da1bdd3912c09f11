import CellMachine.Proofs.Registry.Verdicts
import CellMachine.Proofs.Registry.Written

/-!
Verdicts are remembered under keys. Where the key of two registered names tells the names, whether
types match does not depend on what was asked before. The mark between the names is not escaped, so
that names with the mark in them can have the key of others, whose verdict is then given out for them.
-/

namespace CellMachine

namespace Registry

variable {reg : Registry}

/-- **Verdicts are those of a fresh registry** where keys tell names: after any questions about
registered types, two of them match exactly if they match with nothing remembered. -/
theorem verdict_of_fresh (hreached : Reached reg) (hapart : Apart reg) (hcoh : Coherent reg)
    {asked : List Question} (hasked : ∀ q ∈ asked, q.About reg) {actual expected : Ty}
    (ha : reg.Holds actual) (he : reg.Holds expected) (source : Option Position) :
    ((asked.foldl Question.ask reg).matchTypes source actual (some expected)).1 = .ok () ↔
      ((asked.foldl Question.ask reg).fresh.matchTypes source actual (some expected)).1 = .ok () := by
  have closed := closed_of_apart hreached.resolved hapart hcoh
  obtain ⟨htrue, htypes⟩ := closed.truthful_asked hreached hcoh hasked
  have later := matchTypes_spec (closed.of_types htypes) htrue (hcoh _ _ ha) (hcoh _ _ he) source
  have hclosed : Closed (asked.foldl Question.ask reg).fresh reg.Agrees := closed.of_types htypes
  have fresh := matchTypes_spec hclosed (truthful_nil _) (hcoh _ _ ha) (hcoh _ _ he) source
  exact later.1.trans fresh.1.symm

/-- A match is given out for every pair of types of one category that has its key. -/
lemma accepts_of_pairKey {a e b f : Ty} {source : Option Position}
    (hok : (reg.matchTypes source a (some e)).1 = .ok ()) (hne : e.name ≠ a.name)
    (hkey : pairKey b.name f.name = pairKey a.name e.name) (hcat : f.category = b.category) :
    (reg.matchTypes source a (some e)).2.Accepts b f := by
  obtain ⟨-, hverdict⟩ := ((matchTypes_settles reg source a e).2 hok).resolve_left hne
  exact Settled.accepts (.inr ⟨hcat, hkey ▸ hverdict⟩)

namespace Sample

def native (name tag : String) (kind : NativeKind) : Ty :=
  .native name none tag (NativeView.is kind)

/-- Two integers with marks in their names, and a string. -/
def marked : Registry :=
  ⟨[("a!b", native "a!b" "integer" .int), ("c!", native "c!" "integer" .int),
    ("meta-type", .metaType), ("runtime-determined", .runtimeDetermined),
    ("s", native "s" "string" .string)], []⟩

/-- Two integers that have the key of an integer and a string. -/
def colliding : Registry :=
  ⟨[("a", native "a" "integer" .int), ("a!b", native "a!b" "integer" .int),
    ("b!c", native "b!c" "string" .string), ("c", native "c" "integer" .int),
    ("meta-type", .metaType), ("runtime-determined", .runtimeDetermined)], []⟩

lemma reached_marked : Reached marked :=
  .register (t := native "s" "string" .string) (.register (t := native "c!" "integer" .int)
    (.register (t := native "a!b" "integer" .int) .initial rfl) rfl) rfl

lemma reached_colliding : Reached colliding :=
  .register (t := native "b!c" "string" .string) (.register (t := native "a" "integer" .int)
    (.register (t := native "c" "integer" .int)
      (.register (t := native "a!b" "integer" .int) .initial rfl) rfl) rfl) rfl

lemma matches_of_isOk {r : Outcome Unit} (h : r.isOk = true) : r = .ok () := by
  cases r with
  | error p => cases h
  | ok _ => rfl

lemma checked_marked : Apart marked ∧ Coherent marked := by
  have hapart : ∀ a ∈ marked.types.keys, ∀ e ∈ marked.types.keys, ∀ a' ∈ marked.types.keys,
      ∀ e' ∈ marked.types.keys, pairKey a e = pairKey a' e' → a = a' ∧ e = e' := by decide +kernel
  exact ⟨hapart, coherent_of_all (by decide +kernel)⟩

lemma coherent_colliding : Coherent colliding := coherent_of_all (by decide +kernel)

/-- Marks in names do no harm as long as keys tell the names apart. -/
theorem marked_verdict_of_fresh : Reached marked ∧ Apart marked ∧ Coherent marked ∧
    ¬ Unmarked marked ∧
    ((([.types none (native "s" "string" .string) (some (native "c!" "integer" .int)),
      .refs none (.named "a!b") (.named "c!")] : List Question).foldl Question.ask
        marked).matchTypes none (native "c!" "integer" .int)
          (some (native "a!b" "integer" .int))).1 = .ok () := by
  obtain ⟨hapart, hcoherent⟩ := checked_marked
  refine ⟨reached_marked, hapart, hcoherent, fun h => h "a!b" _ rfl (by decide), ?_⟩
  have hc : marked.Holds (native "c!" "integer" .int) := rfl
  have hab : marked.Holds (native "a!b" "integer" .int) := rfl
  refine (verdict_of_fresh reached_marked hapart hcoherent (fun q hq => ?_) hc hab none).mpr
    (matches_of_isOk (by decide +kernel))
  simp only [List.mem_cons, List.not_mem_nil, or_false] at hq
  rcases hq with rfl | rfl
  · exact ⟨rfl, fun e he => Option.some.inj he ▸ rfl⟩
  · exact fun t ht => nomatch ht

/-- **A verdict is given out for another pair**: the string matches the integer after two integers were
compared. -/
theorem not_forall_verdict_of_fresh : ¬ ∀ reg : Registry, Reached reg → Coherent reg →
    ∀ asked : List Question, (∀ q ∈ asked, q.About reg) → ∀ actual expected : Ty,
      reg.Holds actual → reg.Holds expected → ∀ source : Option Position,
        (((asked.foldl Question.ask reg).matchTypes source actual (some expected)).1 = .ok () ↔
          ((asked.foldl Question.ask reg).fresh.matchTypes source actual
            (some expected)).1 = .ok ()) := by
  intro hall
  have hafter := hall colliding reached_colliding coherent_colliding
    [.types none (native "a!b" "integer" .int) (some (native "c" "integer" .int))]
    (fun q hq => ?_) (native "a" "integer" .int) (native "b!c" "string" .string) rfl rfl none
  · have hserved : (colliding.matchTypes none (native "a!b" "integer" .int)
        (some (native "c" "integer" .int))).2.Accepts (native "a" "integer" .int)
          (native "b!c" "string" .string) :=
      accepts_of_pairKey (matches_of_isOk (by decide +kernel)) (by decide) (by decide) rfl
    have hfresh : (colliding.fresh.matchTypes none (native "a" "integer" .int)
        (some (native "b!c" "string" .string))).1.isOk = false := by decide +kernel
    have hrefused : (colliding.fresh.matchTypes none (native "a" "integer" .int)
        (some (native "b!c" "string" .string))).1 = .ok () := hafter.mp (hserved none)
    rw [hrefused] at hfresh
    cases hfresh
  · cases List.mem_singleton.mp hq
    exact ⟨rfl, fun e he => Option.some.inj he ▸ rfl⟩

end Sample

end Registry

end CellMachine
