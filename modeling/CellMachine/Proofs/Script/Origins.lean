import CellMachine.Proofs.Machine.Origins
import CellMachine.Proofs.Tandem.Presets

/-!
What failed in a failing run of a script's function. The problem that the run ends with is the one that was
found where the run failed first, whatever cells, calls and reductions it passed on its way out.
-/

namespace CellMachine

open Machine

namespace Script

/-- What failed in a run of a function, if it fails, while others cancel tokens: setting up the call, or
executing it, or writing out its value. -/
def failureAmid (s : Script) (outside : Nat → List String) (fuel : Nat) (moduleName name : String)
    (argument : KeyMap String Stored) (token : Option String) : Option Failure :=
  match prepare moduleName name argument (s.machine token) with
  | (.error p, _) => some (.found .machine p [])
  | (.ok (call, action), m) =>
    let root := action.andThen .deepen
    let executed := Machine.failureAmid outside fuel [.ofAction root] [Job.ofAction root]
      (RunM.tell (fun _ => .started call.callable) m).2
    executed <|>
      match (s.runAmid outside fuel moduleName name argument token).1 with
      | some (.error p) => some (.found .machine p [])
      | _ => none

variable {s : Script} {moduleName name : String} {argument : KeyMap String Stored}
  {outside : Nat → List String} {fuel : Nat} {token : Option String} {p : Problem}

/-- In a run the hooks of an opcode reported some problems when it was applied. -/
def Reports (s : Script) (outside : Nat → List String) (moduleName name : String)
    (argument : KeyMap String Stored) (token : Option String) (i : Invocation) (found : List Problem) :
    Prop :=
  ∃ top below m, s.Passes outside moduleName name argument token (top :: below) m ∧ top.Invokes i ∧
    i.reports (m.disturbed outside).tick = found

lemma exists_failure (h : (s.runAmid outside fuel moduleName name argument token).1 = some (.error p)) :
    ∃ F, s.failureAmid outside fuel moduleName name argument token = some F ∧
      F.Explains (s.Reports outside moduleName name argument token) p := by
  have hrun := h
  rw [fst_runAmid] at hrun
  rcases hr : runOnAmid outside fuel moduleName name argument (s.machine token) with ⟨r, m'⟩
  rw [hr] at hrun
  obtain rfl : r = some (.error p) := hrun
  unfold failureAmid
  obtain ⟨q, hprepare, heq⟩ | ⟨call, action, m₁, executed, m₂, hprepare, hturns, hend⟩ :=
    runOnAmid_cases hr
  · cases heq
    rw [hprepare]
    exact ⟨_, rfl, Failure.explains_machine p⟩
  · rw [hprepare]
    dsimp only
    set root := action.andThen .deepen
    set m := (RunM.tell (fun _ => .started call.callable) m₁).2
    have hcovers : Journal.Covers (ReportsAmid outside [Job.ofAction root] m) []
        [.ofAction root] [Job.ofAction root] :=
      .cons (.ofAction root root) (.nil _)
    obtain ⟨hfailed, hnone⟩ := failureAmid_spec (.refl _ _) hcovers hturns
    match executed with
    | none => cases hend.1
    | some (.error q) =>
      cases hend.1
      obtain ⟨F, hF, hexplains⟩ := hfailed p rfl
      rw [hF]
      refine ⟨F, rfl, hexplains.imp ?_⟩
      rintro i found ⟨top, below, m', hruns, hinvokes, hreports⟩
      exact ⟨top, below, m', ⟨call, action, m₁, hprepare, hruns⟩, hinvokes, hreports⟩
    | some (.ok a) =>
      rw [hnone nofun, h]
      exact ⟨_, rfl, Failure.explains_machine p⟩

/-! ### Problems and their origins -/

/-- **Problems keep their origin.** If a run of a function fails, whatever its opcodes are and whatever
others cancel, there is a failure that its problem stems from: wherever dependencies of an action failed the
first of them in the order of the action leads there. The problem has the cause and the parameters that it
was found with, and its place or else the best one of the opcode's cell; the number of other failures
at the innermost level where there were several is added, unless something is said about it already. If
the hooks of an opcode found it they did so in this run, and it is the first that they reported. -/
theorem problems_keep_their_origin
    (h : (s.runAmid outside fuel moduleName name argument token).1 = some (.error p)) :
    ∃ F, s.failureAmid outside fuel moduleName name argument token = some F ∧ F.Ordered ∧
      p.StemsFrom F.origin F.source F.others ∧
      ∀ i, F.origin = .opcode i →
        ∃ rest, s.Reports outside moduleName name argument token i (F.source :: rest) := by
  obtain ⟨F, hF, hexplains⟩ := exists_failure h
  exact ⟨F, hF, hexplains.ordered, hexplains.problem ▸ F.stemsFrom,
    fun i hi => hexplains.witnessed.origin hi⟩

namespace Slicing

def integers : Ty := .iterable "iterable[int]" none (.inline Standard.integer) .irrelevant

def lists : Ty := .iterable "lists" none (.inline integers) .finite

/-- Two slices of a list, both of which start before the list. -/
def slicing : Callable where
  cells := [(0, ⟨.iterable [2, 3], lists, none⟩), (1, .external "x" Sample.nothing),
    (2, ⟨.opcode "slice" [4, 5, 6] [("T", Standard.integer)], integers, some ⟨"m", 4, 2⟩⟩),
    (3, ⟨.opcode "slice" [4, 5, 6] [("T", Standard.integer)], integers, some ⟨"m", 5, 2⟩⟩),
    (4, .constant "m" "list" integers), (5, ⟨.opcode "iadd" [6, 6] [], Standard.integer, none⟩),
    (6, .constant "m" "last" Standard.integer)]

def slices : Module where
  name := "m"
  constants := [("last", ⟨Standard.integer, .native (.int (-1)), none⟩),
    ("list", ⟨integers, .list [.native (.int 7)], none⟩),
    ("main", ⟨.callable "main" none (.inline Sample.nothing) (.inline lists), .callable slicing, none⟩)]

def script : Script :=
  ((Loader.make Standard.opcodes Standard.natives).bind fun l => load l [slices]).toOption.getD
    ⟨[], [], {}, {}, .initial, [], .nothing, []⟩

/-- Whether what failed is the first slice, with one other beside it. -/
def isFirst (F : Failure) : Bool :=
  F.source.cause == .argumentValue && F.source.location == some ⟨"m", 4, 2⟩ &&
    F.origin.mnemonic? == some "slice" && (F.source.param? "opcode").isNone &&
    (F.source.param? "additional_errors").isNone && F.others == 1

lemma checked :
    (script.runAmid (fun _ => []) 42 "m" "main" [] none).1.any (!·.isOk) = true ∧
    (script.failureAmid (fun _ => []) 42 "m" "main" [] none).any isFirst = true := by
  decide +kernel

/-- Of two slices that are refused the first is told of, with its place, its opcode and the other one. -/
theorem first_slice_is_told : ∃ p,
    (script.runAmid (fun _ => []) 42 "m" "main" [] none).1 = some (.error p) ∧
    p.cause = .argumentValue ∧ p.location = some ⟨"m", 4, 2⟩ ∧
    p.param? "opcode" = some (.text "slice") ∧ p.param? "additional_errors" = some (.ofNat 1) := by
  obtain ⟨hfails, hfirst⟩ := checked
  obtain ⟨p, hrun⟩ := exists_error_of_any hfails
  obtain ⟨F, hF, hfirst⟩ := (Option.any_eq_true _ _).mp hfirst
  obtain ⟨F', hF', -, hstems, -⟩ := problems_keep_their_origin hrun
  cases hF.symm.trans hF'
  simp only [isFirst, Bool.and_eq_true, beq_iff_eq, Option.isNone_iff_eq_none] at hfirst
  obtain ⟨⟨⟨⟨⟨hcause, hlocation⟩, hmnemonic⟩, hopcode⟩, hcounted⟩, hothers⟩ := hfirst
  refine ⟨p, hrun, hstems.cause.trans hcause, ?_, ?_, ?_⟩
  · rw [hstems.location, hlocation]
    rfl
  · rw [hstems.opcode hopcode, hmnemonic]
    rfl
  · rw [hstems.counted hcounted, hothers]
    rfl

end Slicing

end Script

end CellMachine
