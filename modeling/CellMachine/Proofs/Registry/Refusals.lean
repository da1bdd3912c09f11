import CellMachine.Proofs.Registry.Parts

/-!
Refusals stand. A pair that was found not to match is of different categories, or is remembered as one
that does not match, so that it is refused again, whatever is asked of the registry in between. As with
matches, nothing is assumed of the types that are compared, or of what is remembered at the start.
-/

namespace CellMachine

namespace Registry

/-- What is known of two types that do not match: they have different names, and are of different
categories or remembered with a problem. -/
def Refused (reg : Registry) (actual expected : Ty) : Prop :=
  expected.name ≠ actual.name ∧ (expected.category ≠ actual.category ∨
    ∃ p, reg.verdicts.get? (pairKey actual.name expected.name) = some (some p))

variable {reg later : Registry} {actual expected : Ty}

lemma refused_of_answer? {e a : Ty} {verdicts : KeyMap String (Option Problem)} {p : Problem}
    (h : answer? e a ⟨[], verdicts⟩ = some (.error p)) (types : KeyMap String Ty) :
    Refused ⟨types, verdicts⟩ a e := by
  rw [answer?] at h
  split at h
  · cases h
  next hname =>
  split at h
  · next hcat => exact ⟨hname, .inl hcat⟩
  · refine ⟨hname, .inr ?_⟩
    rw [if_neg (by simp)] at h
    cases hget : KeyMap.get? verdicts (pairKey a.name e.name) with
    | none =>
      rw [hget] at h
      cases h
    | some v =>
      cases v with
      | none =>
        rw [hget] at h
        cases h
      | some p => exact ⟨p, rfl⟩

lemma Refused.fails (h : reg.Refused actual expected) (source : Option Position) :
    (reg.matchTypes source actual (some expected)).1 ≠ .ok () := by
  obtain ⟨hname, hrefused⟩ := h
  have hanswer : ∃ p, answer? expected actual ⟨[], reg.verdicts⟩ = some (.error p) := by
    rw [answer?, if_neg hname]
    by_cases hcat : expected.category ≠ actual.category
    · exact ⟨_, if_pos hcat⟩
    · obtain ⟨p, hp⟩ := hrefused.resolve_left hcat
      refine ⟨p, ?_⟩
      rw [if_neg hcat, if_neg (by simp)]
      simp only [hp]
  obtain ⟨p, hp⟩ := hanswer
  rw [matchTypes_eq, fuelFor, compareTypes_succ, hp]
  rintro ⟨⟩

lemma refused_of_fails {source : Option Position}
    (h : (reg.matchTypes source actual (some expected)).1 ≠ .ok ()) :
    (reg.matchTypes source actual (some expected)).2.Refused actual expected := by
  rw [matchTypes_eq, fuelFor, compareTypes_succ] at h ⊢
  cases hanswer : answer? expected actual ⟨[], reg.verdicts⟩ with
  | some o =>
    rw [hanswer] at h
    cases o with
    | ok _ => exact absurd rfl h
    | error p => exact refused_of_answer? hanswer reg.types
  | none =>
    rw [hanswer] at h
    dsimp only at h ⊢
    generalize compareParts _ _ _ = r at h ⊢
    obtain ⟨p | _, q⟩ := r
    · exact ⟨(ne_of_answer?_eq_none hanswer).symm, .inr ⟨_, KeyMap.get?_insert_self ..⟩⟩
    · exact absurd rfl h

lemma Refused.ask (h : reg.Refused actual expected) (q : Question) :
    (q.ask reg).Refused actual expected := by
  refine ⟨h.1, h.2.imp_right fun ⟨p, hp⟩ => ⟨p, ?_⟩⟩
  rcases ask_cases reg q with h | ⟨source, a, e, h⟩
  · rw [h]
    exact hp
  · rw [h]
    exact (matchTypes_settles reg source a e).1 _ _ hp

lemma Asked.refused (h : reg.Asked later) (hrefused : reg.Refused actual expected) :
    later.Refused actual expected := by
  obtain ⟨asked, rfl⟩ := h
  induction asked using List.reverseRecOn with
  | nil => exact hrefused
  | append_singleton asked q ih =>
    rw [List.foldl_append, List.foldl_cons, List.foldl_nil]
    exact ih.ask q

/-- Two states of one registry in which a question is asked, in either order, with any questions in
between; or one state. -/
def Interleaved (ask ask' : Registry → Registry) (types later : Registry) : Prop :=
  later = types ∨ (ask types).Asked later ∨ (ask' later).Asked types

/-- **An answer stands**, whichever of two times it is first asked for. -/
lemma matches_of_matches {source : Option Position}
    (h : Interleaved (fun reg => (reg.matchTypes source actual (some expected)).2)
      (fun reg => (reg.matchTypes source actual (some expected)).2) reg later)
    (hok : (later.matchTypes source actual (some expected)).1 = .ok ()) :
    (reg.matchTypes source actual (some expected)).1 = .ok () := by
  rcases h with rfl | hlater | hearlier
  · exact hok
  · by_contra hfails
    exact (hlater.refused (refused_of_fails hfails)).fails source hok
  · exact hearlier.accepts hok source

end Registry

end CellMachine
