import CellMachine.Proofs.Machine.Nesting
import CellMachine.Proofs.Script.Notices
import CellMachine.Proofs.Watch.Newest

/-!
The depth that a recorder writes down. As long as runs succeed, it is how many functions of the run were
started and have not returned; each run that fails leaves some that never return, and these count in all
later runs.
-/

namespace CellMachine

open Machine

/-! ### Recorders -/

namespace Recorder

variable {r : Recorder} {n : Notice} {w : List Notice} {e : EventRecord}

/-- Observes notices in turn. -/
def observeAll (r : Recorder) (w : List Notice) : Recorder := w.foldl observe r

/-- A notice that is recorded comes with the depth at which a return has been counted and a start has
not. -/
lemma observe_of_recorded (h : n.isOpcode = true → r.settings.opcodeEvents = true) :
    r.observe n = { r with
      buffer := (r.buffer.push (r.depth - returnCount [n]) (.ofNotice n)).2
      depth := r.depth - returnCount [n] + startCount [n] } := by
  cases n with
  | opcodeStarted f index cell =>
    have hrecords := h rfl
    simp only [observe, Notice.isOpcode, hrecords]
    rfl
  | opcodeResolved f index cell value =>
    have hrecords := h rfl
    simp only [observe, Notice.isOpcode, hrecords]
    rfl
  | _ => rfl

lemma settings_observeAll (r : Recorder) (w : List Notice) : (r.observeAll w).settings = r.settings := by
  induction w generalizing r with
  | nil => rfl
  | cons n w ih =>
    refine (ih (r.observe n)).trans ?_
    unfold observe
    split
    · rfl
    · rfl
    · split <;> rfl

lemma observeAll_append (r : Recorder) (v w : List Notice) :
    r.observeAll (v ++ w) = (r.observeAll v).observeAll w := List.foldl_append

/-- What a recorder knows after notices of which it records all, and which nest in the functions that it
counts. -/
lemma observeAll_spec (w : List Notice)
    (hrecords : ∀ n ∈ w, n.isOpcode = true → r.settings.opcodeEvents = true)
    (hnests : Nests r.depth 0 w) :
    (r.observeAll w).buffer.total = r.buffer.total + w.length ∧
      (r.observeAll w).depth + returnCount w = r.depth + startCount w ∧
      ∀ e ∈ (r.observeAll w).buffer.records, e ∈ r.buffer.records ∨ ∃ u n v, w = u ++ n :: v ∧
        e.id = r.buffer.total + u.length ∧ e.event = .ofNotice n ∧
        e.depth + returnCount (u ++ [n]) = r.depth + startCount u := by
  -- from the last notice on, as a record tells of those before it
  induction w using List.reverseRecOn with
  | nil => exact ⟨rfl, rfl, fun e he => .inl he⟩
  | append_singleton w n ih =>
    obtain ⟨htotal, hdepth, hrec⟩ := ih (fun n' hn' => hrecords n' (List.mem_append_left _ hn'))
      ⟨fun u v huv => hnests.returns u (v ++ [n]) (by rw [huv, List.append_assoc]),
        hnests.returns w [n] rfl⟩
    have hreturns := hnests.left
    rw [returnCount_append, startCount_append] at hreturns
    have hstep : r.observeAll (w ++ [n]) = (r.observeAll w).observe n := observeAll_append r w [n]
    rw [observe_of_recorded (fun hn => settings_observeAll r w ▸ hrecords n (by simp) hn)] at hstep
    -- a notice is not both
    have hone : returnCount [n] = 0 ∨ startCount [n] = 0 := by
      cases n <;> first | exact .inl rfl | exact .inr rfl
    have hnow : (r.observeAll w).depth - returnCount [n] + returnCount (w ++ [n]) =
        r.depth + startCount w := by
      rw [returnCount_append]
      omega
    rw [hstep]
    refine ⟨?_, ?_, fun e he => ?_⟩
    · rw [Buffer.total_push, htotal, List.length_append]
      rfl
    · show (r.observeAll w).depth - returnCount [n] + startCount [n] + returnCount (w ++ [n]) = _
      rw [startCount_append]
      omega
    · rcases Buffer.mem_records_push he with he | rfl
      · refine (hrec e he).imp id fun ⟨u, n', v, hw, hrest⟩ => ⟨u, n', v ++ [n], ?_, hrest⟩
        rw [hw]
        simp
      · exact .inr ⟨w, n, [], rfl, htotal, rfl, hnow⟩

end Recorder

lemma Watcher.observeAll_recorder (r : Recorder) (w : List Notice) :
    (Watcher.recorder r).observeAll w = .recorder (r.observeAll w) := by
  induction w generalizing r with
  | nil => rfl
  | cons n w ih => exact ih (r.observe n)

/-! ### Runs -/

namespace Script

variable {s : Script} {moduleName name : String} {argument : KeyMap String Stored}
  {outside : Nat → List String} {fuel : Nat} {token : Option String} {m m' : Machine}

lemma counts_runOnAmid {r : Option (Outcome Tree)} (hnone : m.notices = [])
    (hwatched : m.setting.attention ≠ .nothing)
    (h : runOnAmid outside fuel moduleName name argument m = (r, m')) :
    m'.setting.attention = m.setting.attention ∧ Counts m.setting.attention 0 [] m' := by
  rcases runOnAmid_cases h with ⟨p, hprepare, -⟩ | ⟨call, action, m₁, r₁, m₂, hprepare, hturns, hend⟩
  · obtain ⟨-, hnotices, hsetting⟩ := silent_prepare moduleName name argument m
    rw [hprepare] at hnotices hsetting
    dsimp only at hnotices hsetting
    rw [hnone] at hnotices
    refine ⟨by rw [hsetting], ?_, ?_⟩ <;> rw [hnotices]
    · exact discreet_nil _
    · exact .nil le_rfl
  · obtain ⟨htold, hheard⟩ := heard_start hnone hprepare
    rw [if_neg hwatched] at htold
    generalize (RunM.tell (fun _ => Notice.started call.callable) m₁).2 = m₀ at hturns htold hheard
    -- the function of the run itself has no job on the stack
    have hstart : Counts m.setting.attention 1 [Job.ofAction (action.andThen .deepen)] m₀ := by
      refine ⟨?_, ?_⟩ <;> rw [htold]
      · intro n hn hopcode
        rw [List.mem_singleton.mp hn] at hopcode
        cases hopcode
      · exact .single le_rfl
    obtain ⟨⟨hdiscreet, hnests⟩, hattends⟩ := hstart.takeTurnsAmid hwatched hheard hturns
    have hopen : Counts m.setting.attention 0 [] m₂ := ⟨hdiscreet, hnests.weaken (Nat.zero_le _)⟩
    match r₁ with
    | none =>
      obtain ⟨-, rfl⟩ := hend
      exact ⟨hattends, hopen⟩
    | some (.error p) =>
      obtain ⟨-, rfl⟩ := hend
      exact ⟨hattends, hopen⟩
    | some (.ok a) =>
      obtain ⟨rfl, -⟩ := hend
      have htold := notices_tell (fun memory => .returned call.callable (memory.kindAt a)) m₂
      rw [hattends, if_neg hwatched] at htold
      refine ⟨by rw [setting_tell, hattends], ?_, ?_⟩ <;> rw [htold]
      · intro n hn hopcode
        rcases List.mem_append.mp hn with hn | hn
        · exact hdiscreet n hn hopcode
        · rw [List.mem_singleton.mp hn] at hopcode
          cases hopcode
      · exact hnests.trans (.single le_rfl)

/-! ### Series of runs -/

/-- A function to be run, and what others cancel meanwhile. -/
structure Request where
  moduleName : String
  name : String
  argument : KeyMap String Stored
  token : Option String := none
  outside : Nat → List String := fun _ => []
  fuel : Nat

/-- How a run went and what it told. -/
structure Report where
  outcome : Option (Outcome Tree)
  notices : List Notice

/-- Runs one function after the other. -/
def runAll : List Request → Script → List Report
  | [], _ => []
  | r :: rest, s =>
    let run := s.runAmid r.outside r.fuel r.moduleName r.name r.argument r.token
    ⟨run.1, run.2.2⟩ :: runAll rest run.2.1

namespace Report

/-- The run has its value. -/
def Succeeded (r : Report) : Prop := ∃ t, r.outcome = some (.ok t)

/-- How many functions were started in some runs and never returned. -/
def abandoned (reports : List Report) : Nat :=
  (reports.map fun r => startCount r.notices - returnCount r.notices).sum

/-- What a run tells nests, and if it has its value, all functions that were started returned. -/
structure Sound (attention : Attention) (r : Report) : Prop where
  discreet : Discreet attention r.notices
  nests : Nests 0 0 r.notices
  returned : r.Succeeded → returnCount r.notices = startCount r.notices

end Report

/-- **Each run** tells of starts and returns that nest. -/
lemma sound_runAmid (hwatched : s.attention ≠ .nothing) (outside : Nat → List String) (fuel : Nat)
    (moduleName name : String) (argument : KeyMap String Stored) (token : Option String) :
    let run := s.runAmid outside fuel moduleName name argument token
    (Report.mk run.1 run.2.2).Sound s.attention := by
  intro run
  rcases hr : runOnAmid outside fuel moduleName name argument (s.machine token) with ⟨r, m⟩
  obtain ⟨hattends, hdiscreet, hnests⟩ := counts_runOnAmid (m := s.machine token) rfl hwatched hr
  match r with
  | none =>
    have hrun : run = _ := runAmid_of_none hr
    rw [hrun]
    exact ⟨hdiscreet, hnests, fun ⟨t, ht⟩ => by cases ht⟩
  | some (.ok t) =>
    have hrun : run = _ := runAmid_of_ok hr
    obtain ⟨-, -, hbracketed⟩ := told_runOnAmid (m := s.machine token) rfl hr
    rw [hrun]
    exact ⟨hdiscreet, hnests, fun _ => (hbracketed t rfl).balanced.returnCount_eq⟩
  | some (.error p) =>
    have hrun : run = _ := runAmid_of_error hr
    rw [hrun]
    refine ⟨?_, ?_, fun ⟨t, ht⟩ => by cases ht⟩ <;> dsimp only <;>
      rw [notices_tell, show m.setting.attention = s.attention from hattends, if_neg hwatched]
    · intro n hn hopcode
      rcases List.mem_append.mp hn with hn | hn
      · exact hdiscreet n hn hopcode
      · rw [List.mem_singleton.mp hn] at hopcode
        cases hopcode
    · exact hnests.trans (.single le_rfl)

lemma sound_runAll (requests : List Request) {s : Script} (hwatched : s.attention ≠ .nothing) :
    ∀ report ∈ runAll requests s, report.Sound s.attention := by
  induction requests generalizing s with
  | nil => exact List.forall_mem_nil _
  | cons r rest ih =>
    exact List.forall_mem_cons.mpr ⟨sound_runAmid hwatched r.outside r.fuel r.moduleName r.name
      r.argument r.token, ih (s := (s.runAmid r.outside r.fuel r.moduleName r.name r.argument
        r.token).2.1) hwatched⟩

/-- The record is of a notice of one of the runs: it has the notice's place among all that was told from
some place on, and its depth counts what has not returned of some functions, of those that earlier runs
abandoned and of those of the run itself. -/
def Located (place depth : Nat) (reports : List Report) (e : EventRecord) : Prop :=
  ∃ earlier report later u n v, reports = earlier ++ report :: later ∧ report.notices = u ++ n :: v ∧
    e.id = place + (earlier.flatMap Report.notices).length + u.length ∧ e.event = .ofNotice n ∧
    e.depth + returnCount (u ++ [n]) = depth + Report.abandoned earlier + startCount u

lemma Located.cons {place depth : Nat} {reports : List Report} {e : EventRecord} {r : Report}
    (h : Located (place + r.notices.length) (depth + (startCount r.notices - returnCount r.notices))
      reports e) : Located place depth (r :: reports) e := by
  obtain ⟨earlier, report, later, u, n, v, rfl, hnotices, hid, hevent, hdepth⟩ := h
  refine ⟨r :: earlier, report, later, u, n, v, rfl, hnotices, ?_, hevent, ?_⟩
  · rw [hid, List.flatMap_cons, List.length_append, ← Nat.add_assoc]
  · rw [hdepth, show Report.abandoned (r :: earlier) = startCount r.notices - returnCount r.notices +
      Report.abandoned earlier from List.sum_cons, ← Nat.add_assoc]

/-- **A recorder of several runs** holds records of what these told. -/
lemma located_observeAll {attention : Attention} (reports : List Report)
    (hsound : ∀ report ∈ reports, report.Sound attention) {r : Recorder}
    (hopcodes : attention = .opcodes → r.settings.opcodeEvents = true) {e : EventRecord}
    (he : e ∈ (r.observeAll (reports.flatMap Report.notices)).buffer.records) :
    e ∈ r.buffer.records ∨ Located r.buffer.total r.depth reports e := by
  -- On the reports: each nests, so it leaves the depth raised by the starts that it never closed.
  induction reports generalizing r with
  | nil => exact .inl he
  | cons report rest ih =>
    obtain ⟨hreport, hrest⟩ := List.forall_mem_cons.mp hsound
    rw [List.flatMap_cons, Recorder.observeAll_append] at he
    have hnests : Nests r.depth 0 report.notices := by
      have hraised := hreport.nests.raise r.depth
      rw [Nat.zero_add] at hraised
      exact hraised.weaken (Nat.zero_le _)
    obtain ⟨htotal, hdepth, hrecords⟩ := r.observeAll_spec report.notices
      (fun n hn hopcode => hopcodes (hreport.discreet n hn hopcode)) hnests
    have hleft := hreport.nests.left
    have hafter : (r.observeAll report.notices).depth =
        r.depth + (startCount report.notices - returnCount report.notices) := by omega
    rcases ih hrest (r.settings_observeAll report.notices ▸ hopcodes) he with he | hlocated
    · refine (hrecords e he).imp id fun ⟨u, n, v, hw, hid, hevent, hdepth⟩ => ?_
      exact ⟨[], report, rest, u, n, v, rfl, hw, hid, hevent, hdepth⟩
    · rw [htotal, hafter] at hlocated
      exact .inr hlocated.cons

lemma abandoned_of_succeeded {attention : Attention} {reports : List Report}
    (hsound : ∀ report ∈ reports, report.Sound attention) (h : ∀ report ∈ reports, report.Succeeded) :
    Report.abandoned reports = 0 := by
  refine List.sum_eq_zero fun k hk => ?_
  obtain ⟨report, hreport, rfl⟩ := List.mem_map.mp hk
  rw [(hsound report hreport).returned (h report hreport), Nat.sub_self]

/-- **A recorded depth counts functions that were started and have not returned.** Let a recorder watch
a script from the start, and functions of the script be run one after the other. Every record that it
holds in the end is of a notice of one of the runs. Its depth is the number of functions that were
started before the notice and that have not returned with it, in the same run, plus the number of those
that earlier runs started and abandoned; there are none of these if all earlier runs had their values. -/
theorem recorded_depth_counts_open_functions {s s₁ : Script} {settings : WatchSettings}
    (hwatch : s.watch settings.attention = .ok s₁) (requests : List Request) :
    ∃ r, (Watcher.recorder (.ofSettings settings)).observeAll
        ((runAll requests s₁).flatMap Report.notices) = .recorder r ∧
      ∀ e ∈ r.buffer.records, ∃ earlier report later u n v,
        runAll requests s₁ = earlier ++ report :: later ∧ report.notices = u ++ n :: v ∧
        e.id = (earlier.flatMap Report.notices).length + u.length ∧ e.event = .ofNotice n ∧
        e.depth + returnCount (u ++ [n]) = Report.abandoned earlier + startCount u ∧
        ((∀ report ∈ earlier, report.Succeeded) → Report.abandoned earlier = 0) := by
  have hattention : s₁.attention = settings.attention := by
    unfold watch at hwatch
    split at hwatch
    · cases hwatch
    · cases hwatch
      rfl
  have hwatched : s₁.attention ≠ .nothing := by
    rw [hattention, WatchSettings.attention]
    split <;> exact nofun
  have hopcodes : s₁.attention = .opcodes → settings.opcodeEvents = true := by
    rw [hattention, WatchSettings.attention]
    split
    · next h => exact fun _ => h
    · exact nofun
  have hsound := sound_runAll requests hwatched
  refine ⟨_, Watcher.observeAll_recorder _ _, fun e he => ?_⟩
  rcases located_observeAll _ hsound hopcodes he with he | hlocated
  · cases he
  · obtain ⟨earlier, report, later, u, n, v, hreports, hnotices, hid, hevent, hdepth⟩ := hlocated
    refine ⟨earlier, report, later, u, n, v, hreports, hnotices, hid.trans ?_, hevent, hdepth.trans ?_,
      abandoned_of_succeeded fun report hreport => hsound report ?_⟩
    · exact congrArg (· + _) (Nat.zero_add _)
    · exact congrArg (· + _) (Nat.zero_add _)
    · rw [hreports]
      exact List.mem_append_left _ hreport

/-! ### Two runs that are cancelled at once -/

namespace Halting

/-- The sum, with a token that is cancelled before the first turn. -/
def halted : Request := ⟨"m", "main", Sample.given, some "halt", fun _ => ["halt"], 1⟩

/-- The script with a recorder of calls. -/
def watched : Script := { Sample.script with attention := .calls }

def reports : List Report := runAll [halted, halted] watched

/-- A recorder of calls after both runs. -/
def recorder : Recorder := (Recorder.ofSettings {}).observeAll (reports.flatMap Report.notices)

lemma checked : Sample.script.isWatched = false ∧
    (recorder.buffer.records.map fun e => e.depth) = [0, 1, 1, 2] ∧
    (reports.map fun r => startCount r.notices) = [1, 1] := by
  decide +kernel

lemma watch : Sample.script.watch (WatchSettings.attention {}) = .ok watched :=
  if_neg (Bool.eq_false_iff.mp checked.1)

end Halting

/-- After a run that fails, depths are not the nesting of functions of the run: the function of a run
is recorded below the one that the run before it abandoned. -/
theorem not_forall_depth_counts_own_functions : ¬ ∀ (natives : List Ty) (l : Loader)
    (modules : List Module) (s s₁ : Script) (settings : WatchSettings) (requests : List Request),
    Loader.make Standard.opcodes natives = .ok l → load l modules = .ok s →
    s.watch settings.attention = .ok s₁ →
    ∃ r, (Watcher.recorder (.ofSettings settings)).observeAll
        ((runAll requests s₁).flatMap Report.notices) = .recorder r ∧
      ∀ e ∈ r.buffer.records, ∃ report ∈ runAll requests s₁, ∃ u n v, report.notices = u ++ n :: v ∧
        e.event = .ofNotice n ∧ e.depth + returnCount (u ++ [n]) = startCount u := by
  intro hclaim
  obtain ⟨l, hl, hloaded⟩ := Sample.exists_loader
  obtain ⟨r, hr, hrecords⟩ := hclaim _ l _ _ _ _ [Halting.halted, Halting.halted] hl hloaded
    Halting.watch
  rw [Watcher.observeAll_recorder] at hr
  obtain rfl := Watcher.recorder.inj hr
  obtain ⟨-, hdepths, hstarts⟩ := Halting.checked
  obtain ⟨e, he, hdepth⟩ : ∃ e ∈ Halting.recorder.buffer.records, e.depth = 2 := by
    refine List.mem_map.mp ?_
    rw [hdepths]
    decide
  obtain ⟨report, hreport, u, n, v, hnotices, -, hcount⟩ := hrecords e he
  -- no run starts two functions
  have hone : startCount report.notices = 1 := by
    have hmem : report ∈ Halting.reports := hreport
    have hcount := List.mem_map_of_mem (f := fun r : Report => startCount r.notices) hmem
    rw [hstarts] at hcount
    simpa using hcount
  rw [hnotices, startCount_append] at hone
  omega

/-- A recorder of the sum, which is cancelled twice. -/
theorem halted_depths_count_abandoned_functions : ∃ s s₁ : Script,
    s.watch (WatchSettings.attention {}) = .ok s₁ ∧
    ∃ r, (Watcher.recorder (.ofSettings {})).observeAll
        ((runAll [Halting.halted, Halting.halted] s₁).flatMap Report.notices) = .recorder r ∧
      ∀ e ∈ r.buffer.records, ∃ earlier report later u n v,
        runAll [Halting.halted, Halting.halted] s₁ = earlier ++ report :: later ∧
        report.notices = u ++ n :: v ∧
        e.id = (earlier.flatMap Report.notices).length + u.length ∧ e.event = .ofNotice n ∧
        e.depth + returnCount (u ++ [n]) = Report.abandoned earlier + startCount u ∧
        ((∀ report ∈ earlier, report.Succeeded) → Report.abandoned earlier = 0) :=
  ⟨Sample.script, Halting.watched, Halting.watch,
    recorded_depth_counts_open_functions Halting.watch [Halting.halted, Halting.halted]⟩

end Script

end CellMachine
