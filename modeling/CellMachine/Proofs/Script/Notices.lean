import CellMachine.Proofs.Machine.Brackets
import CellMachine.Proofs.Safety.Runs

/-!
What a watcher hears of a run. A run that fails tells its failure last and no other one; a run that
succeeds tells of no failure, and every return and every resolution that it tells of closes the start
before it that is still open.
-/

namespace CellMachine

open Machine

namespace Script

variable {s : Script} {moduleName name : String} {argument : KeyMap String Stored}
  {outside : Nat → List String} {fuel : Nat} {token : Option String} {m m' : Machine}

lemma notices_tell (f : Memory → Notice) (m : Machine) :
    (RunM.tell f m).2.notices.reverse = m.notices.reverse ++
      (if m.setting.attention = .nothing then [] else [f m.store.memory]) := by
  unfold RunM.tell
  split
  · exact (List.append_nil _).symm
  · exact List.reverse_cons

lemma notMem_told {attention : Attention} {n n' : Notice} (h : n ≠ n') :
    n ∉ if attention = .nothing then [] else [n'] := by
  split
  · exact List.not_mem_nil
  · exact fun hn => h (List.mem_singleton.mp hn)

lemma setting_tell (f : Memory → Notice) (m : Machine) : (RunM.tell f m).2.setting = m.setting := by
  unfold RunM.tell
  split <;> rfl

lemma heard_start {call : CompiledCall} {action : Action} {m m₁ : Machine} (hnone : m.notices = [])
    (hprepare : prepare moduleName name argument m = (.ok (call, action), m₁)) :
    let m₂ := (RunM.tell (fun _ => .started call.callable) m₁).2
    m₂.notices.reverse = (if m.setting.attention = .nothing then [] else [.started call.callable]) ∧
      Heard m.setting.attention m₂.notices.reverse [Job.ofAction (action.andThen .deepen)] m₂ := by
  obtain ⟨-, hnotices, hsetting⟩ := silent_prepare moduleName name argument m
  rw [hprepare] at hnotices hsetting
  dsimp only at hnotices hsetting
  have htold := notices_tell (fun _ => .started call.callable) m₁
  have hkept := setting_tell (fun _ => .started call.callable) m₁
  rw [hnotices, hnone, hsetting, List.reverse_nil, List.nil_append] at htold
  refine ⟨htold, by rw [hkept, hsetting], List.forall_mem_singleton.mpr ?_, [],
    (List.append_nil _).symm, fun _ => List.not_mem_nil, fun _ => .nil⟩
  exact shut_ofAction ((quiet_prepare hprepare).neutral.shut_andThen rfl)

/-- What is heard of a run that has its value: balanced notices, which tell the start of a function
first and its return last if anybody watches. -/
structure Bracketed (attention : Attention) (notices : List Notice) : Prop where
  balanced : Balanced notices
  whole : attention ≠ .nothing → ∃ f kind inner,
    notices = .started f :: (inner ++ [.returned f kind]) ∧ Balanced inner

/-- The notices of an execution between a start and the return of one function. -/
lemma bracketed_of_balanced {attention : Attention} {inner : List Notice} (h : Balanced inner)
    (f : Callable) (kind : Option String) :
    Bracketed attention ((if attention = .nothing then [] else [.started f]) ++ inner ++
      (if attention = .nothing then [] else [.returned f kind])) := by
  by_cases hnothing : attention = .nothing
  · simp only [if_pos hnothing, List.nil_append, List.append_nil]
    exact ⟨h, fun hsome => absurd hnothing hsome⟩
  · simp only [if_neg hnothing, List.cons_append]
    exact ⟨.wrap (b := .function f) rfl h rfl .nil, fun _ => ⟨f, kind, inner, rfl, h⟩⟩

/-- Before a failure of the whole run is told, no failure is; and the notices of a run that has its value
are bracketed. -/
lemma told_runOnAmid {o : Outcome Tree} (hnone : m.notices = [])
    (h : runOnAmid outside fuel moduleName name argument m = (some o, m')) :
    m'.setting.attention = m.setting.attention ∧ (∀ p, .failed p ∉ m'.notices.reverse) ∧
      ∀ t, o = .ok t → Bracketed m.setting.attention m'.notices.reverse := by
  obtain ⟨p, hprepare, ho⟩ | ⟨call, action, m₁, executed, m₂, hprepare, hturns, hend⟩ :=
    runOnAmid_cases h
  · obtain ⟨-, hnotices, hsetting⟩ := silent_prepare moduleName name argument m
    rw [hprepare] at hnotices hsetting
    dsimp only at hnotices hsetting
    cases ho
    rw [hnotices, hsetting, hnone]
    exact ⟨rfl, fun _ => List.not_mem_nil, nofun⟩
  match executed with
  | none => cases hend.1
  | some executed =>
    obtain ⟨htold, hstart⟩ := heard_start hnone hprepare
    obtain ⟨hattends, w, hw, hfailed, hbalanced⟩ := hstart.takeTurnsAmid hturns
    rw [htold] at hw
    have hinner : ∀ p, .failed p ∉ m₂.notices.reverse := fun p hp => by
      rw [hw] at hp
      exact (List.mem_append.mp hp).elim (notMem_told fun h => by cases h) (hfailed p)
    match executed with
    | .error p =>
      obtain ⟨ho, rfl⟩ := hend
      cases ho
      exact ⟨hattends, hinner, nofun⟩
    | .ok a =>
      obtain ⟨rfl, -⟩ := hend
      rw [setting_tell, notices_tell, hattends]
      refine ⟨rfl, fun p hp => ?_, fun t _ => hw ▸ bracketed_of_balanced (hbalanced a rfl) _ _⟩
      exact (List.mem_append.mp hp).elim (hinner p) (notMem_told fun h => by cases h)

/-- **What a watcher hears is well bracketed.** If a run has its value, then starts on the one side and
returns and resolutions on the other are the brackets of a balanced word, in which each closes the latest
start that is open, of the same function or of the same cell, and no failure is told; if it fails and
anybody watches, its failure is told once, at the end. -/
theorem notices_are_bracketed (s : Script) (outside : Nat → List String) (fuel : Nat)
    (moduleName name : String) (argument : KeyMap String Stored) (token : Option String) :
    let run := s.runAmid outside fuel moduleName name argument token
    (∀ t, run.1 = some (.ok t) → Bracketed s.attention run.2.2 ∧ ∀ p, .failed p ∉ run.2.2) ∧
      ∀ p, run.1 = some (.error p) → s.attention ≠ .nothing →
        ∃ before, run.2.2 = before ++ [.failed p] ∧ ∀ q, .failed q ∉ before := by
  intro run
  rcases hr : runOnAmid outside fuel moduleName name argument (s.machine token) with ⟨r, m⟩
  match r with
  | none =>
    have hrun : run = _ := runAmid_of_none hr
    rw [hrun]
    exact ⟨nofun, nofun⟩
  | some (.ok t) =>
    obtain ⟨-, hfailed, hbracketed⟩ := told_runOnAmid (m := s.machine token) rfl hr
    have hrun : run = _ := runAmid_of_ok hr
    rw [hrun]
    exact ⟨fun _ _ => ⟨hbracketed t rfl, hfailed⟩, nofun⟩
  | some (.error p) =>
    obtain ⟨hattends, hfailed, -⟩ := told_runOnAmid (m := s.machine token) rfl hr
    have hattends : m.setting.attention = s.attention := hattends
    have hrun : run = _ := runAmid_of_error hr
    rw [hrun]
    refine ⟨nofun, fun q hq hwatched => ?_⟩
    cases hq
    refine ⟨m.notices.reverse, ?_, hfailed⟩
    dsimp only
    rw [notices_tell, hattends, if_neg hwatched]

end Script

end CellMachine
