import CellMachine.Proofs.Forcing.Runs
import CellMachine.Proofs.Machine.Budget
import CellMachine.Proofs.Tandem.Steps

/-!
Where the problem of a failed run comes from. Beside a run a journal is kept: for each job on the stack the
action whose work it does, and how the dependencies of that came out so far, with what failed in them. The
journal is only written, so the machine runs as it does without. When the run ends with a problem, what failed
can be followed from action to dependency down to where the problem was found, and the problem that the run
ends with is the one found there: it keeps its cause, its place and its parameters, and what is said on the way
up is only added where nothing is said yet.
-/

namespace CellMachine

open Machine

/-! ### Failures -/

/-- Who finds that something is wrong: the hooks of an opcode that is applied, or the machine. -/
inductive Origin where
  | opcode (i : Invocation)
  | machine

/-- What failed. -/
inductive Failure where
  /-- Some problems were found, one of them first. -/
  | found (origin : Origin) (first : Problem) (rest : List Problem)
  /-- Of the dependencies of an action, those before `d` came to slots, and `d` failed. Of each of those
  after it, it is known whether it failed. -/
  | dependency (a : Action) (before : List Action) (d : Action) (first : Failure)
      (after : List (Action × Bool))

namespace Origin

def place : Origin → Option Position
  | opcode i => i.cell.bestSource
  | machine => none

def mnemonic? : Origin → Option String
  | opcode i => some i.opcode.mnemonic
  | machine => none

end Origin

namespace Failure

def origin : Failure → Origin
  | found origin _ _ => origin
  | dependency _ _ _ first _ => first.origin

/-- The problem that a failure stems from: down to the first dependency that failed, the first that was
found there. -/
def source : Failure → Problem
  | found _ first _ => first
  | dependency _ _ _ first _ => first.source

/-- How many failed beside what a failure stems from, at the innermost level where several failed. -/
def others : Failure → Nat
  | found _ _ rest => rest.length
  | dependency _ _ _ first after => if first.others = 0 then after.countP Prod.snd else first.others

/-- Wherever dependencies failed they are listed as the action declares them. -/
def Ordered : Failure → Prop
  | found .. => True
  | dependency a before d first after =>
    a.dependencies = before ++ d :: after.map Prod.fst ∧ first.Ordered

/-- What the hooks of opcodes are said to have found has a property. -/
def Witnessed (P : Invocation → List Problem → Prop) : Failure → Prop
  | found (.opcode i) first rest => P i (first :: rest)
  | found .machine _ _ => True
  | dependency _ _ _ first _ => first.Witnessed P

lemma Witnessed.origin {P : Invocation → List Problem → Prop} {F : Failure} (h : F.Witnessed P)
    {i : Invocation} (hi : F.origin = .opcode i) : ∃ rest, P i (F.source :: rest) := by
  induction F with
  | found origin first rest =>
    obtain rfl : origin = .opcode i := hi
    exact ⟨rest, h⟩
  | dependency _ _ _ _ _ ih => exact ih h hi

end Failure

/-! ### Problems on their way up -/

/-- A problem is another one on its way up, found by some origin with so many others beside it at the innermost
level where there were several. It has the cause and the parameters of that one, and its place if it had one.
Beside the opcode's name and the number of the others nothing is added, and these only if nothing is said
about them. -/
structure Problem.StemsFrom (p : Problem) (origin : Origin) (q : Problem) (others : Nat) : Prop where
  cause : p.cause = q.cause
  location : p.location = (q.location <|> origin.place)
  kept : ∀ k v, q.param? k = some v → p.param? k = some v
  opcode : q.param? "opcode" = none → p.param? "opcode" = origin.mnemonic?.map .text
  counted : q.param? "additional_errors" = none →
    p.param? "additional_errors" = if others = 0 then none else some (.ofNat others)
  added : ∀ k, k ≠ "opcode" → k ≠ "additional_errors" → p.param? k = q.param? k

def Problem.counting (p : Problem) (others : Nat) : Problem :=
  if others = 0 then p else p.add "additional_errors" others

lemma firstOf_cons (p : Problem) (rest : List Problem) :
    firstOf (p :: rest) = some (p.counting rest.length) := by
  cases rest <;> rfl

namespace Problem

variable {p q : Problem} {origin : Origin} {others : Nat}

lemma param?_add (p : Problem) (key : String) (value : Param) (k : String) :
    (p.add key value).param? k = if key = k then some ((p.param? key).getD value) else p.param? k :=
  KeyMap.get?_insertNew key k value p.params

lemma param?_counting (p : Problem) (n : Nat) (k : String) : (p.counting n).param? k =
    if k = "additional_errors" ∧ n ≠ 0 then some ((p.param? k).getD (.ofNat n)) else p.param? k := by
  unfold counting
  by_cases hzero : n = 0
  · rw [if_pos hzero, if_neg fun h => h.2 hzero]
  · rw [if_neg hzero, param?_add]
    by_cases hk : "additional_errors" = k
    · subst hk
      rw [if_pos rfl, if_pos ⟨rfl, hzero⟩]
    · rw [if_neg hk, if_neg fun h => hk h.1.symm]

lemma counting_cause (p : Problem) (n : Nat) : (p.counting n).cause = p.cause := by
  unfold counting
  split <;> rfl

lemma counting_location (p : Problem) (n : Nat) : (p.counting n).location = p.location := by
  unfold counting
  split <;> rfl

namespace StemsFrom

lemma refl (q : Problem) : q.StemsFrom .machine q 0 where
  cause := rfl
  location := by cases hq : q.location <;> rfl
  kept _ _ hk := hk
  opcode hnone := hnone
  counted hnone := hnone
  added _ _ _ := rfl

lemma counting (h : p.StemsFrom origin q others) (n : Nat) :
    (p.counting n).StemsFrom origin q (if others = 0 then n else others) where
  cause := (p.counting_cause n).trans h.cause
  location := (p.counting_location n).trans h.location
  kept k v hk := by
    rw [param?_counting, h.kept k v hk]
    split <;> rfl
  opcode hnone := by
    rw [param?_counting, if_neg fun hk => absurd hk.1 (by decide)]
    exact h.opcode hnone
  counted hnone := by
    have hcounted := h.counted hnone
    rw [param?_counting]
    by_cases hothers : others = 0
    · rw [if_pos hothers] at hcounted ⊢
      rw [hcounted]
      by_cases hn : n = 0
      · rw [if_neg fun hk => hk.2 hn, if_pos hn]
      · rw [if_pos ⟨rfl, hn⟩, if_neg hn, Option.getD_none]
    · rw [if_neg hothers] at hcounted ⊢
      rw [hcounted, if_neg hothers]
      split <;> rfl
  added k hopcode hcount := by
    rw [param?_counting, if_neg fun hk => hcount hk.1]
    exact h.added k hopcode hcount

lemma named (h : p.StemsFrom .machine q others) (i : Invocation) :
    ((p.add "opcode" i.opcode.mnemonic).orAt i.cell.bestSource).StemsFrom (.opcode i) q others := by
  have params : ∀ k, ((p.add "opcode" i.opcode.mnemonic).orAt i.cell.bestSource).param? k =
      if "opcode" = k then some ((p.param? "opcode").getD i.opcode.mnemonic) else p.param? k :=
    p.param?_add "opcode" i.opcode.mnemonic
  refine ⟨h.cause, ?location, fun k v hk => ?kept, fun hnone => ?opcode, fun hnone => ?counted,
    fun k hopcode hcount => ?added⟩
  case location =>
    show (p.location <|> i.cell.bestSource) = (q.location <|> i.cell.bestSource)
    rw [h.location]
    cases q.location <;> rfl
  case kept =>
    rw [params]
    split
    · next heq =>
      subst heq
      rw [h.kept _ v hk]
      rfl
    · exact h.kept k v hk
  case opcode =>
    rw [params, if_pos rfl, h.opcode hnone]
    rfl
  case counted =>
    rw [params, if_neg (by decide)]
    exact h.counted hnone
  case added =>
    rw [params, if_neg fun heq => hopcode heq.symm]
    exact h.added k hopcode hcount

end StemsFrom

end Problem

def Origin.tell : Origin → Problem → Problem
  | opcode i, p => (p.add "opcode" i.opcode.mnemonic).orAt i.cell.bestSource
  | machine, p => p

namespace Failure

def problem : Failure → Problem
  | found origin first rest => origin.tell (first.counting rest.length)
  | dependency _ _ _ first after => first.problem.counting (after.countP Prod.snd)

/-- **On its way up a problem stays what it was.** -/
lemma stemsFrom (F : Failure) : F.problem.StemsFrom F.origin F.source F.others := by
  induction F with
  | found origin first rest =>
    have hfirst := (Problem.StemsFrom.refl first).counting rest.length
    cases origin with
    | machine => exact hfirst
    | opcode i => exact hfirst.named i
  | dependency a before d first after ih => exact ih.counting _

end Failure

/-! ### What hooks report -/

namespace Invocation

/-- What is found wrong before an opcode runs, if that is looked for, and the store after it. -/
def foundBefore (i : Invocation) (m : Machine) : List Problem × Store :=
  if m.setting.config.runtimeValidation then
    StoreM.check (i.opcode.runtimeCheck (frameOf i m)) m.store
  else ([], m.store)

/-- What is found wrong with a value, if that is looked for. -/
def foundAfter (i : Invocation) (m : Machine) (v : Value) (s : Store) : List Problem :=
  if m.setting.config.validateReturns then
    (StoreM.check (i.opcode.resultCheck (frameOf i m) v) s).1
  else []

/-- What the hooks of an opcode report when it is applied to arguments that are ready: what is found before
it runs, or else what it runs into, or else what is found wrong with its value. -/
def reports (i : Invocation) (m : Machine) : List Problem :=
  if (i.unready m.store.memory).isSome then []
  else
    match i.foundBefore m with
    | (p :: rest, _) => p :: rest
    | ([], s) =>
      match i.opcode.evaluate (frameOf i m) s with
      | (.error p, _) => [p]
      | (.value v, s) => i.foundAfter m v s
      | _ => []

end Invocation

namespace Machine

variable {m : Machine} {i : Invocation} {q : Problem} {rest : List Problem}

lemma findings_tellOpcode (f : Memory → Notice) (m : Machine) :
    (findings i (frameOf i m) (RunM.tellOpcode f m).2).1 = (i.foundBefore m).1 ∧
    (findings i (frameOf i m) (RunM.tellOpcode f m).2).2.store = (i.foundBefore m).2 ∧
    (findings i (frameOf i m) (RunM.tellOpcode f m).2).2.setting = m.setting := by
  have hsame : ∀ notices : List Notice,
      (findings i (frameOf i m) { m with notices }).1 = (i.foundBefore m).1 ∧
      (findings i (frameOf i m) { m with notices }).2.store = (i.foundBefore m).2 ∧
      (findings i (frameOf i m) { m with notices }).2.setting = m.setting := by
    intro notices
    rw [findings, RunM.checking, Invocation.foundBefore]
    dsimp only
    split <;> exact ⟨rfl, rfl, rfl⟩
  rw [RunM.tellOpcode]
  split
  · exact hsame _
  · exact hsame m.notices

lemma proceed_of_foundAfter {m' : Machine} (hsetting : m'.setting = m.setting) {v : Value}
    (hfound : i.foundAfter m v m'.store = q :: rest) :
    (proceed i (frameOf i m) (.value v) m').1 = i.failure (q.counting rest.length) := by
  have hflaws : (flaws i (frameOf i m) v m').1 = i.foundAfter m v m'.store := by
    rw [flaws, RunM.checking, Invocation.foundAfter, hsetting]
    split <;> rfl
  rw [proceed_value_eq, confer, RunM.run_bind, hflaws, hfound, firstOf_cons]
  rfl

/-- **An invocation fails with what its hooks report**, tagged as a failure of the opcode. -/
lemma invoke_of_reports (h : i.reports m = q :: rest) :
    (invoke i m).1 = i.failure (q.counting rest.length) := by
  unfold Invocation.reports at h
  split at h
  · cases h
  next hready =>
  obtain ⟨hfound, hstore, hsetting⟩ :=
    findings_tellOpcode (i := i) (fun _ => .opcodeStarted i.function i.index i.cell) m
  rw [invoke_eq_of_ready (Option.not_isSome_iff_eq_none.mp hready)]
  dsimp only
  generalize findings i (frameOf i m) _ = r at hfound hstore hsetting ⊢
  obtain ⟨found, m₁⟩ := r
  dsimp only at hfound hstore hsetting ⊢
  rcases hbefore : i.foundBefore m with ⟨before, s⟩
  rw [hbefore] at h hfound hstore
  dsimp only at hfound hstore
  subst hfound hstore
  cases found with
  | cons p rest' =>
    cases h
    rw [firstOf_cons]
  | nil =>
    dsimp only [firstOf] at h ⊢
    rcases heval : i.opcode.evaluate (frameOf i m) m₁.store with ⟨result, s'⟩
    rw [heval] at h
    cases result with
    | error p =>
      cases h
      rfl
    | value v =>
      have hsetting' : Machine.setting { m₁ with store := s' } = m.setting := hsetting
      exact proceed_of_foundAfter hsetting' h
    | lazy a => cases h
    | reduce r => cases h

end Machine

/-! ### Journals -/

/-- What is kept of a job: the dependency that it is for, the action whose work it does, which may have taken
the place of that, and how the dependencies of the action came out so far, with what failed if they failed. -/
structure Entry where
  served : Action
  action : Action
  came : List (Action × Option Failure) := []

/-- An entry for each job on the stack. -/
abbrev Journal := List Entry

namespace Failure

/-- The first failure among the dependencies of an action. -/
def among (a : Action) (before : List Action) : List (Action × Option Failure) → Option Failure
  | [] => none
  | (d, none) :: came => among a (before ++ [d]) came
  | (d, some first) :: came =>
    some (dependency a before d first (came.map fun c => (c.1, c.2.isSome)))

/-- What failed in work of an action's own, if it failed with a problem: what the hooks of an opcode reported,
or else the machine came across the problem. -/
def ofWork (work : Work Action) (m : Machine) (p : Problem) : Failure :=
  match work with
  | .invoke i =>
    match i.reports m with
    | q :: rest => found (.opcode i) q rest
    | [] => found .machine p []
  | _ => found .machine p []

end Failure

namespace Entry

def ofAction (a : Action) : Entry := ⟨a, a, []⟩

/-- What failed in a job that failed with a problem: one of its dependencies, or else its own work. -/
def failure (e : Entry) (m : Machine) (p : Problem) : Failure :=
  (Failure.among e.action [] e.came).getD (.ofWork e.action.work m p)

def hear (e : Entry) (d : Action) (o : Option Failure) : Entry := { e with came := e.came ++ [(d, o)] }

end Entry

namespace Journal

def handOver (m : Machine) (step : Step Action) (top : Entry) (below : Journal) : Journal :=
  match step with
  | .action next => ⟨top.served, next, []⟩ :: below
  | .value _ => below.modifyHead (·.hear top.served none)
  | .error p => below.modifyHead (·.hear top.served (some (top.failure m p)))

def advance (journal : Journal) (stack : List Job) (m : Machine) : Journal :=
  match journal, stack with
  | top :: below, job :: _ =>
    match job.waiting with
    | next :: _ => .ofAction next :: top :: below
    | [] => handOver m (conclusion job m).1 top below
  | journal, _ => journal

def failureOnTop (journal : Journal) (m : Machine) (p : Problem) : Failure :=
  match journal with
  | [] => .found .machine p []
  | top :: _ => top.failure m p

/-- What failed in the turn that a run ended with, unless the machine was stopped. -/
def failure (journal : Journal) (m : Machine) (p : Problem) : Failure :=
  if m.store.isCancelled m.setting.token || (overBudget m.setting.config (m.steps + 1)).isSome then
    .found .machine p []
  else journal.failureOnTop m.tick p

end Journal

namespace Machine

/-- What failed in a run, if it fails, while others cancel tokens. -/
def failureAmid (outside : Nat → List String) : Nat → Journal → List Job → Machine → Option Failure
  | 0, _, _, _ => none
  | fuel + 1, journal, stack, m =>
    match turn stack (m.disturbed outside) with
    | (.finished (.ok _), _) => none
    | (.finished (.error p), _) => some (journal.failure (m.disturbed outside) p)
    | (.running stack', m') =>
      failureAmid outside fuel (journal.advance stack (m.disturbed outside).tick) stack' m'

end Machine

/-! ### The journal tells the truth -/

section Journals

variable {P : Invocation → List Problem → Prop} {m m' : Machine} {e : Entry} {j : Job}
  {journal : Journal} {stack stack' : List Job} {missing : List Action}

/-- A failure that a problem is told of, with the dependencies in order. -/
structure Failure.Explains (P : Invocation → List Problem → Prop) (F : Failure) (p : Problem) :
    Prop where
  problem : F.problem = p
  ordered : F.Ordered
  witnessed : F.Witnessed P

lemma Failure.Witnessed.imp {Q : Invocation → List Problem → Prop} (hPQ : ∀ i found, P i found → Q i found)
    {F : Failure} (h : F.Witnessed P) : F.Witnessed Q := by
  induction F with
  | found origin first rest =>
    cases origin with
    | machine => trivial
    | opcode i => exact hPQ i _ h
  | dependency _ _ _ _ _ ih => exact ih h

lemma Failure.Explains.imp {Q : Invocation → List Problem → Prop}
    (hPQ : ∀ i found, P i found → Q i found) {F : Failure} {p : Problem} (h : F.Explains P p) :
    F.Explains Q p :=
  ⟨h.problem, h.ordered, h.witnessed.imp hPQ⟩

/-- What is noted of a dependency is how it came out. -/
inductive Notes (P : Invocation → List Problem → Prop) : Option Failure → Outcome Address → Prop
  | ok (b : Address) : Notes P none (.ok b)
  | error {F : Failure} {p : Problem} (h : F.Explains P p) : Notes P (some F) (.error p)

/-- An entry for a job, some of whose dependencies came out, some are missing, and the others wait. -/
def Entry.Tracks (P : Invocation → List Problem → Prop) (e : Entry) (missing : List Action) (j : Job) :
    Prop :=
  e.action.dependencies = e.came.map Prod.fst ++ missing ++ j.waiting ∧
    ∃ os, List.Forall₂ (fun c o => Notes P c.2 o) e.came os ∧
      j = Job.told (Job.ofAction e.action) j.waiting os

/-- Entries for the jobs of a stack: each job but the last is for what the one below it misses. -/
inductive Journal.Covers (P : Invocation → List Problem → Prop) :
    List Action → Journal → List Job → Prop
  | nil (missing : List Action) : Covers P missing [] []
  | cons {missing : List Action} {e : Entry} {j : Job} {below : Journal} {stack : List Job}
    (h : e.Tracks P missing j) (hbelow : Covers P [e.served] below stack) :
    Covers P missing (e :: below) (j :: stack)

lemma length_failures {came : List (Action × Option Failure)} {os : List (Outcome Address)}
    (h : List.Forall₂ (fun c o => Notes P c.2 o) came os) :
    (failures os).length = (came.map fun c => (c.1, c.2.isSome)).countP Prod.snd := by
  induction h with
  | nil => rfl
  | @cons c o came os hc _ ih =>
    obtain ⟨d, n⟩ := c
    cases hc with
    | ok b => exact ih.trans (List.countP_cons_of_neg Bool.false_ne_true).symm
    | error =>
      rw [List.map_cons, List.countP_cons_of_pos rfl, ← ih]
      rfl

/-- **The first of the problems** that a job is told of is that of the first failure noted. -/
lemma Failure.among_spec {a : Action} {came : List (Action × Option Failure)}
    {os : List (Outcome Address)} (h : List.Forall₂ (fun c o => Notes P c.2 o) came os)
    (before : List Action) :
    (failures os = [] ∧ among a before came = none) ∨
      ∃ F, among a before came = some F ∧ firstOf (failures os) = some F.problem ∧
        F.Witnessed P ∧ (a.dependencies = before ++ came.map Prod.fst → F.Ordered) := by
  induction h generalizing before with
  | nil => exact .inl ⟨rfl, rfl⟩
  | @cons c o came os hc hrest ih =>
    obtain ⟨d, n⟩ := c
    cases hc with
    | ok b =>
      refine (ih (before ++ [d])).imp_right ?_
      rintro ⟨F, hF, hfirst, hwitnessed, hordered⟩
      refine ⟨F, hF, hfirst, hwitnessed, fun hdeps => hordered ?_⟩
      rw [hdeps, List.append_assoc]
      rfl
    | @error F p hF =>
      refine .inr ⟨_, rfl, ?_, hF.witnessed, fun hdeps => ⟨?_, hF.ordered⟩⟩
      · show firstOf (p :: failures os) = some (F.problem.counting _)
        rw [firstOf_cons, length_failures hrest, hF.problem]
      · rw [hdeps, List.map_map]
        rfl

lemma Failure.explains_machine (p : Problem) : (found .machine p []).Explains P p :=
  ⟨rfl, trivial, trivial⟩

lemma Failure.explains_ofWork {work : Work Action} {bs : List Address} {p : Problem}
    (h : (perform work bs m).1 = .error p)
    (hP : ∀ i q rest, work = .invoke i → i.reports m = q :: rest → P i (q :: rest)) :
    (ofWork work m p).Explains P p := by
  unfold ofWork
  split
  · next i =>
    split
    · next q rest hreports =>
      refine ⟨?_, trivial, hP i q rest rfl hreports⟩
      have hinvoke : (invoke i m).1 = .error p := h
      rw [invoke_of_reports hreports] at hinvoke
      cases hinvoke
      rfl
    · exact explains_machine p
  · exact explains_machine p

namespace Entry.Tracks

lemma ofAction (served a : Action) : Entry.Tracks P ⟨served, a, []⟩ [] (Job.ofAction a) :=
  ⟨rfl, [], .nil, rfl⟩

lemma pushed (h : e.Tracks P [] j) {next : Action} {waiting : List Action}
    (hw : j.waiting = next :: waiting) : e.Tracks P [next] { j with waiting } := by
  obtain ⟨hdeps, os, hos, hj⟩ := h
  rw [hw] at hdeps
  refine ⟨?_, os, hos, ?_⟩
  · rw [hdeps]
    simp
  · rw [hj]
    rfl

lemma told {d : Action} (h : e.Tracks P [d] j) {n : Option Failure} {o : Outcome Address}
    (hn : Notes P n o) : (e.hear d n).Tracks P [] (Job.told j j.waiting [o]) := by
  obtain ⟨hdeps, os, hos, hj⟩ := h
  refine ⟨?_, os ++ [o], List.rel_append hos (.cons hn .nil), ?_⟩
  · show e.action.dependencies = (e.came ++ [(d, n)]).map Prod.fst ++ [] ++ j.waiting
    rw [hdeps, List.map_append, List.append_nil]
    rfl
  · show _ = Job.told (Job.ofAction e.action) j.waiting (os ++ [o])
    rw [← Job.told_append, ← hj]

/-- **What failed in a job** is what its entry says, if the job fails. -/
lemma explains (h : e.Tracks P [] j) (hw : j.waiting = []) {p : Problem}
    (hstep : (conclusion j m).1 = .error p)
    (hP : ∀ i q rest, j.Invokes i → i.reports m = q :: rest → P i (q :: rest)) :
    (e.failure m p).Explains P p := by
  obtain ⟨hdeps, os, hos, hj⟩ := h
  rw [hw, List.append_nil, List.append_nil] at hdeps
  rw [hw] at hj
  have hlength : os.length = e.action.dependencies.length := by
    rw [hdeps, List.length_map, hos.length_eq]
  rw [hj, conclusion_told hlength] at hstep
  unfold Entry.failure
  rcases Failure.among_spec hos [] (a := e.action) with
    ⟨hnone, hamong⟩ | ⟨F, hamong, hfirst, hwitnessed, hordered⟩
  · rw [hnone] at hstep
    rw [hamong, Option.getD_none]
    refine Failure.explains_ofWork hstep fun i q rest hwork => hP i q rest ⟨?_, hw, ?_⟩
    · rw [hj]
      exact hwork
    · rw [hj]
      show (failures os).reverse ++ [] = []
      rw [hnone]
      rfl
  · rw [hfirst] at hstep
    cases hstep
    rw [hamong, Option.getD_some]
    exact ⟨rfl, hordered hdeps, hwitnessed⟩

end Entry.Tracks

namespace Journal

/-- The stack and its journal after a turn, or what failed in it. -/
def Continues (P : Invocation → List Problem → Prop) (journal' : Journal) (F : Problem → Failure) :
    Turn → Prop
  | .running stack => Covers P [] journal' stack
  | .finished (.ok _) => True
  | .finished (.error p) => (F p).Explains P p

namespace Covers

lemma handOver (h : Covers P [e.served] journal stack) {step : Step Action}
    (hstep : ∀ p, step = .error p → (e.failure m p).Explains P p) :
    Continues P (Journal.handOver m step e journal) (e.failure m) (Machine.handOver step stack) := by
  cases step with
  | action next => exact .cons (.ofAction e.served next) h
  | value b =>
    cases h with
    | nil => trivial
    | cons htracks hbelow => exact .cons (htracks.told (.ok b)) hbelow
  | error p =>
    cases h with
    | nil => exact hstep p rfl
    | cons htracks hbelow => exact .cons (htracks.told (.error (hstep p rfl))) hbelow

/-- **A turn that is taken** is noted. -/
lemma advance (h : Covers P [] journal stack)
    (hP : ∀ top below i q rest, stack = top :: below → top.Invokes i →
      i.reports m = q :: rest → P i (q :: rest)) :
    Continues P (journal.advance stack m) (journal.failureOnTop m) (Machine.advance stack m).1 := by
  cases h with
  | nil => exact Failure.explains_machine _
  | @cons _ e j below stack htracks hbelow =>
    cases hw : j.waiting with
    | cons next waiting =>
      have hturn : Machine.advance (j :: stack) m =
          (.running (Job.ofAction next :: { j with waiting } :: stack), m) := by
        rw [Machine.advance, hw]
        rfl
      rw [hturn, Journal.advance, hw]
      exact .cons (.ofAction next next) (.cons (htracks.pushed hw) hbelow)
    | nil =>
      have hturn : Machine.advance (j :: stack) m =
          (Machine.handOver (conclusion j m).1 stack, (conclusion j m).2) := by
        rw [Machine.advance, hw]
        rfl
      rw [hturn, Journal.advance, hw]
      exact hbelow.handOver fun p hp =>
        htracks.explains hw hp fun i q rest => hP j stack i q rest rfl

/-- **A turn** is noted, or what failed in it is known. -/
lemma turn (h : Covers P [] journal stack)
    (hP : ∀ top below i q rest, stack = top :: below → top.Invokes i →
      i.reports m.tick = q :: rest → P i (q :: rest)) {t : Turn} (ht : turn stack m = (t, m')) :
    Continues P (journal.advance stack m.tick) (journal.failure m) t := by
  cases hcancelled : m.store.isCancelled m.setting.token with
  | true =>
    rw [turn_of_cancelled hcancelled] at ht
    cases ht
    show (journal.failure m _).Explains P _
    rw [Journal.failure, hcancelled, Bool.true_or, if_pos rfl]
    exact Failure.explains_machine _
  | false =>
    rw [turn_of_due hcancelled] at ht
    cases hbudget : overBudget m.setting.config (m.steps + 1) with
    | some limit =>
      rw [hbudget] at ht
      cases ht
      show (journal.failure m _).Explains P _
      rw [Journal.failure, hcancelled, hbudget, Option.isSome_some, Bool.or_true, if_pos rfl]
      exact Failure.explains_machine _
    | none =>
      rw [hbudget] at ht
      have hfailure : journal.failure m = journal.failureOnTop m.tick := by
        funext p
        rw [Journal.failure, hcancelled, hbudget]
        rfl
      have hadvance := h.advance hP
      rw [show Machine.advance stack m.tick = (t, m') from ht] at hadvance
      rw [hfailure]
      exact hadvance

end Covers

end Journal

/-! ### Runs -/

namespace Machine

variable {outside : Nat → List String} {stack₀ : List Job} {m₀ : Machine}

/-- In a run the hooks of an opcode reported some problems when it was applied. -/
def ReportsAmid (outside : Nat → List String) (stack₀ : List Job) (m₀ : Machine) (i : Invocation)
    (found : List Problem) : Prop :=
  ∃ top below m, RunsAmid outside stack₀ m₀ (top :: below) m ∧ top.Invokes i ∧
    i.reports (m.disturbed outside).tick = found

lemma RunsAmid.trans {stack'' : List Job} {m'' : Machine} (h : RunsAmid outside stack m stack' m')
    (h' : RunsAmid outside stack' m' stack'' m'') : RunsAmid outside stack m stack'' m'' := by
  induction h with
  | refl => exact h'
  | step hturn _ ih => exact .step hturn (ih h')

/-- **What failed in a run** is known if the run fails, and it is what the run's problem tells of. -/
lemma failureAmid_spec {fuel : Nat} (hruns : RunsAmid outside stack₀ m₀ stack m)
    (h : journal.Covers (ReportsAmid outside stack₀ m₀) [] stack) {r : Option (Outcome Address)}
    (hr : takeTurnsAmid outside fuel stack m = (r, m')) :
    (∀ p, r = some (.error p) → ∃ F, failureAmid outside fuel journal stack m = some F ∧
      F.Explains (ReportsAmid outside stack₀ m₀) p) ∧
    ((∀ p, r ≠ some (.error p)) → failureAmid outside fuel journal stack m = none) := by
  -- On the turns; the journal covers the failures of every job on the stack, and a turn keeps that.
  induction fuel generalizing journal stack m with
  | zero =>
    cases hr
    refine ⟨fun p hp => ?_, fun _ => rfl⟩
    cases hp
  | succ fuel ih =>
    rw [takeTurnsAmid] at hr
    rw [failureAmid]
    rcases hturn : turn stack (m.disturbed outside) with ⟨t, m₁⟩
    have hnoted := h.turn (fun top below i q rest hstack hi hreports => by
      subst hstack
      exact ⟨top, below, m, hruns, hi, hreports⟩) hturn
    rw [hturn] at hr
    cases t with
    | running stack₁ => exact ih (hruns.trans (.step hturn (.refl _ _))) hnoted hr
    | finished o =>
      cases hr
      cases o with
      | ok a =>
        refine ⟨fun p hp => ?_, fun _ => rfl⟩
        cases hp
      | error p =>
        refine ⟨?_, fun hne => absurd rfl (hne p)⟩
        rintro _ ⟨⟩
        exact ⟨_, rfl, hnoted⟩

end Machine

end Journals

end CellMachine
