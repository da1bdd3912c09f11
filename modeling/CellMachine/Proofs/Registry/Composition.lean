import Mathlib.Logic.Relation
import CellMachine.Proofs.Registry.Keys

/-!
Matches compose. A type that can stand where a second is expected, which can stand where a third is,
can stand where the third is expected, whatever was asked of the registry before any of the three
questions.

Two simulations are composed pair by pair. Where both pairs are alike in what they are made of, the
type in the middle is met with two definitions of one name, which are the same.
-/

namespace CellMachine

namespace Registry

open Relation (Comp)

lemma RefsRelated.comp {R S : String → String → Prop} {a b c : TyRef} (h : RefsRelated R a b)
    (h' : RefsRelated S b c) : RefsRelated (Comp R S) a c := by
  cases a <;> cases b <;> cases c <;> simp only [RefsRelated] at h h' ⊢
  case generic.generic.generic => exact ⟨h.1.trans h'.1, h.2.trans h'.2⟩
  all_goals exact ⟨_, h, h'⟩

lemma ContentsRelated.comp {R S : String → String → Prop} {a b c : Ty}
    (h : ContentsRelated R a b) (h' : ContentsRelated S b c) : ContentsRelated (Comp R S) a c := by
  cases a <;> cases b <;> simp only [ContentsRelated] at h <;> cases c <;>
    simp only [ContentsRelated] at h' ⊢
  case native.native.native => exact h.trans h'
  case iterable.iterable.iterable => exact h.comp h'
  case structured.structured.structured =>
    -- What is asked of the first type is asked of the second, which has it.
    intro member hmember
    obtain ⟨r, hr, hrel'⟩ := h' member hmember
    obtain ⟨s, hs, hrel⟩ := h (member.1, r) (KeyMap.mem_of_get? hr)
    exact ⟨s, hs, hrel.comp hrel'⟩
  case callable.callable.callable => exact ⟨h.1.comp h'.1, h.2.comp h'.2⟩
  case keyOf.keyOf.keyOf => exact h.comp h'

variable {U : Ty → Prop}

/-- **Similarity is transitive** where a name tells the definition. -/
lemma Similar.trans (same : ∀ t u, U t → U u → t.name = u.name → t.Same u) {a b c : String}
    (h : Similar U a b) (h' : Similar U b c) : Similar U a c := by
  refine ⟨Comp (Similar U) (Similar U), ?_, b, h, h'⟩
  rintro x z ⟨y, hxy, hyz⟩
  rcases isSimulation_similar U x y hxy with rfl | ⟨a, b, ha, hb, rfl, rfl, hcat, hrel⟩
  · -- One pair relates a name to itself, so the other pair is related alone.
    rcases isSimulation_similar U x z hyz with rfl | ⟨b, c, hb, hc, rfl, rfl, hcat, hrel⟩
    · exact .inl rfl
    · exact .inr ⟨b, c, hb, hc, rfl, rfl, hcat, hrel.mono fun _ _ _ _ _ _ h =>
        ⟨_, similar_self U _, h⟩⟩
  · rcases isSimulation_similar U b.name z hyz with rfl | ⟨b', c, hb', hc, hname, rfl, hcat', hrel'⟩
    · exact .inr ⟨a, b, ha, hb, rfl, rfl, hcat, hrel.mono fun _ _ _ _ _ _ h =>
        ⟨_, h, similar_self U _⟩⟩
    · have hsame := same b' b hb' hb hname
      have hrel' := hrel'.congr hsame (.refl c)
      exact .inr ⟨a, c, ha, hc, rfl, rfl, hcat.trans hrel'.category_eq, hrel.comp hrel'⟩

variable {reg : Registry}

namespace Sample

/-- A list of integers that goes on with itself, and may carry more. -/
def chain (name : String) (more : List (String × TyRef)) : Ty :=
  .structured name none ([("head", .inline (native "int" "integer" .int)), ("next", .named name)] ++
    more)

def long : Ty := chain "long" [("note", .named "int"), ("tag", .named "int")]

def middle : Ty := chain "middle" [("note", .named "int")]

def short : Ty := chain "short" []

/-- Three kinds of lists, each with a member more than the next one. -/
def chains : Registry :=
  ⟨[("int", native "int" "integer" .int), ("long", long), ("meta-type", .metaType),
    ("middle", middle), ("runtime-determined", .runtimeDetermined), ("short", short)], []⟩

lemma reached_chains : Reached chains :=
  .register (t := long) (.register (t := middle) (.register (t := short) .initial rfl) rfl) rfl

end Sample

end Registry

end CellMachine
