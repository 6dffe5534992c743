import Lox.Proofs.Session.Failing

set_option autoImplicit false

namespace Lox

def Issue.complaint (i : Issue) : List Output :=
  [.err ("".intercalate (List.replicate 60 "*") ++ "\n"),
    .err ("".intercalate (List.replicate 20 "  -") ++ "\n"), .err (i.text ++ "\n")]

namespace Shown

def printed (shown : Shown) : List String := shown.written.filterMap Output.line?

def halted (shown : Shown) : Bool :=
  match shown.result with
  | .error .endless => false
  | _ => true

end Shown

namespace Session

def spoken (line : String) : Bool := !line.toList.all Text.isBlank

def turns : Session → List String → List (Session × String)
  | _, [] => []
  | s, text :: rest => (s, text) :: (s.feed text none).2.turns rest

def halts (s : Session) (texts : List String) : Bool :=
  (s.turns texts).all fun turn => (turn.1.feed turn.2 none).1.halted

def fed : Session → List String → Session
  | s, [] => s
  | s, text :: rest => (s.feed text none).2.fed rest

/-- What is written at the prompt: for each line the prompt, what the line writes and the issues that it
leaves. -/
def dialogue (prompt : String) : Session → List String → List Output
  | _, [] => [.out prompt, .out "\n"]
  | s, line :: rest =>
    if spoken line then
      .out prompt :: (s.feed line none).1.written ++
        (s.feed line none).1.issues.flatMap Issue.complaint ++ (s.feed line none).2.dialogue prompt rest
    else .out prompt :: s.dialogue prompt rest

def told (s : Session) (written : List Output) : Session :=
  { s with report := { s.report with written := written.toArray } }

section Beside

variable {b b' : Report} {α : Type}

structure Beside (b b' : Report) (s t : Session) : Prop where
  report : Report.Alike b b' s.report t.report
  rest : { s with report := t.report } = t

-- Work that does the same whatever has been written before.
abbrev Blind (b b' : Report) (work : Work α) : Prop := Lockstep (Beside b b') Eq Eq work work

theorem apart_beside : Apart b b' (Beside b b') where
  report beside := beside.report
  other := by
    rintro s t r r' ⟨-, rest⟩ alike
    exact ⟨alike, congrArg (fun u : Session => { u with report := r' }) rest⟩

theorem blind_resolve (program : List Tree) : Blind b b' (resolve program) := by
  refine Lockstep.bind (Q := Eq) (.modifyGet ?_) ?_
  · rintro ⟨r, slots, m, limits⟩ ⟨r', _, _, _⟩ ⟨report, ⟨⟩⟩
    exact ⟨⟨report, rfl⟩, rfl⟩
  · rintro result _ rfl
    cases result with
    | error e => exact apart_beside.failIn .resolve (Report.records_resolveError e)
    | ok resolved => exact (apart_beside.reporting (Report.inStep_info _)).bind fun _ _ _ => .pure rfl

theorem blind_execute (program : List Tree) : Blind b b' (execute program) := by
  refine Lockstep.bind (Q := Eq) (.modifyGet ?_) ?_
  · rintro ⟨r, slots, m, limits⟩ ⟨r', _, _, _⟩ ⟨report, ⟨⟩⟩
    exact ⟨⟨report.wrote _, rfl⟩, rfl⟩
  · rintro result _ rfl
    cases result with
    | ok value => exact .pure rfl
    | error stop =>
      cases stop with
      | returned value => exact .pure rfl
      | fault f => exact apart_beside.failIn .run (Report.records_runtimeError _)
      | scope e => exact .throw rfl
      | endless => exact .throw rfl

theorem blind_tidy (v : Value) : Blind b b' (tidy v) := by
  refine Lockstep.get.bind ?_
  rintro ⟨r, slots, m, limits⟩ ⟨r', _, _, _⟩ ⟨-, ⟨⟩⟩
  dsimp only
  cases m.scopes with
  | chain c => exact .pure rfl
  | arena a =>
    refine (apart_beside.reporting (Report.inStep_info _)).bind fun _ _ _ => ?_
    generalize (do let _ ← Arena.collect m.heap [.value v]; Arena.compact).run a = outcome
    obtain ⟨result, a'⟩ := outcome
    refine Lockstep.bind (Lockstep.modify ?_) fun _ _ _ => ?_
    · rintro ⟨r, slots, m, limits⟩ ⟨r', _, _, _⟩ ⟨report, ⟨⟩⟩
      exact ⟨report, rfl⟩
    · cases result with
      | ok _ => exact .pure rfl
      | error e => exact .throw rfl

theorem blind_runText (text : String) (path : Option String) : Blind b b' (runText text path) := by
  refine (apart_beside.parseText text path).bind ?_
  rintro program _ rfl
  refine (blind_resolve program).bind ?_
  rintro resolved _ rfl
  refine (blind_execute resolved).bind ?_
  rintro v _ rfl
  exact (blind_tidy v).bind fun _ _ _ => .pure rfl

end Beside

variable {s : Session}

theorem feed_told (s : Session) (written : List Output) (text : String) (path : Option String) :
    ((s.told written).feed text path).1 = (s.feed text path).1 ∧
      ((s.told written).feed text path).2 =
        (s.feed text path).2.told (written ++ (s.feed text path).1.written) ∧
      (s.feed text path).2.report.written.toList =
        s.report.written.toList ++ (s.feed text path).1.written := by
  have beside : Beside s.report (s.told written).report s (s.told written) :=
    ⟨⟨rfl, rfl, s.report.source, s.report.issues, #[], by simp [Report.later],
      by simp [Report.later, told]⟩, rfl⟩
  obtain ⟨after, both⟩ := blind_runText text path s (s.told written) beside
  unfold feed
  generalize (runText text path).run s = left at after both ⊢
  generalize (runText text path).run (s.told written) = right at after both ⊢
  obtain ⟨result, r, slots, m, limits⟩ := left
  obtain ⟨result', r', _, _, _⟩ := right
  obtain ⟨⟨-, -, source, issues, new, here, there⟩, ⟨⟩⟩ := after
  have same : result' = result := by
    cases both with
    | ok same => rw [same]
    | error same => rw [same]
  dsimp only at here there ⊢
  rw [same, here, there]
  cases result <;>
    simp [told, Report.later, reporting_run, Report.reset, run_modify, Except.isOk, Except.toBool]

theorem feed_ok {s s' : Session} {text : String} {path : Option String} {v : Value}
    (run : (runText text path).run s = (.ok v, s')) :
    s.feed text path = (⟨.ok v.display, s'.report.written.toList.drop s.report.written.size,
      s'.report.issues⟩, s') := by
  unfold feed
  rw [run]
  rfl

theorem feed_error {s s' : Session} {text : String} {path : Option String} {e : Trouble}
    (run : (runText text path).run s = (.error e, s')) :
    s.feed text path = (⟨.error e, s'.report.written.toList.drop s.report.written.size,
      s'.report.issues⟩, { s' with report := { s'.report with issues := [] } }) := by
  unfold feed
  rw [run]
  rfl

structure Fresh (s : Session) : Prop where
  steady : Failing.Steady s.machine
  clean : s.report.issues = []
  room : s.report.maxIssues ≠ 1

inductive Verdict (s : Session) (text : String) : Prop
  | done (value : String) :
      (s.feed text none).1.result = .ok value → (s.feed text none).1.issues = [] → Verdict s text
  | failed (phase : Phase) (i : Issue) :
      (s.feed text none).1.result = .error (.failed phase) → (s.feed text none).1.issues = [i] →
      ((s.feed text none).1.rejected = true →
        (s.feed text none).1.printed = [] ∧ (s.feed text none).2.machine = s.machine) →
      Verdict s text

theorem printed_feed (s : Session) (text : String) (path : Option String) :
    (s.feed text path).2.report.printed = s.report.printed ++ (s.feed text path).1.printed := by
  obtain ⟨-, -, written⟩ := s.feed_told [] text path
  rw [Report.printed_eq, Report.printed_eq, written, List.filterMap_append]
  rfl

theorem Fresh.verdict (fresh : Fresh s) {text : String} (halted : (s.feed text none).1.halted = true) :
    Fresh (s.feed text none).2 ∧ Verdict s text := by
  have ends := Failing.ends_runText fresh.steady text none s (.refl s)
  have printed := s.printed_feed text none
  rcases run : (runText text none).run s with ⟨e | v, s'⟩
  · rw [run] at ends
    obtain ⟨steady, maxIssues, sole, rejected⟩ := ends
    have feed := feed_error run
    rcases sole fresh.clean fresh.room with rfl | ⟨phase, i, rfl, issues⟩
    · rw [feed] at halted
      cases halted
    · have unchanged : (s.feed text none).1.rejected = true →
          (s.feed text none).1.printed = [] ∧ (s.feed text none).2.machine = s.machine := by
        intro rejects
        rw [feed] at rejects
        obtain ⟨machine, silent⟩ := rejected rejects
        constructor
        · have same : s.report.printed ++ (s.feed text none).1.printed = s.report.printed ++ [] := by
            rw [← printed, List.append_nil, ← silent, feed]
            rfl
          exact List.append_cancel_left same
        · rw [feed]
          exact machine
      refine ⟨?_, .failed phase i ?_ ?_ unchanged⟩
      · rw [feed]
        exact ⟨steady, rfl, maxIssues ▸ fresh.room⟩
      · rw [feed]
      · rw [feed]
        exact issues
  · rw [run] at ends
    have feed := feed_ok run
    refine ⟨?_, .done v.display ?_ ?_⟩
    · rw [feed]
      exact ⟨ends.steady, ends.issues.trans fresh.clean, ends.maxIssues ▸ fresh.room⟩
    · rw [feed]
    · rw [feed]
      exact ends.issues.trans fresh.clean

theorem complain_run {r : Report} {i : Issue} (sole : r.issues = [i]) :
    (do Report.complain; Report.reset : Report.Work Unit).run r =
      (.ok (), { r with issues := [], written := (r.written.toList ++ i.complaint).toArray }) := by
  unfold Report.complain
  rw [run_bind, run_bind, run_get]
  dsimp only
  rw [Report.isOk, sole]
  change (Except.ok (),
    ({ r with issues := [], written := ((r.written.push _).push _).push _ } : Report)) = _
  simp [Issue.complaint, ← Array.toList_inj]

theorem Fresh.replLine_run (fresh : Fresh s) {line : String} (speaks : spoken line = true)
    (halted : (s.feed line none).1.halted = true) :
    (replLine line).run s = (.ok (), (s.feed line none).2.told
      ((s.feed line none).2.report.written.toList ++
        (s.feed line none).1.issues.flatMap Issue.complaint)) := by
  have ends := Failing.ends_runText fresh.steady line none s (.refl s)
  unfold replLine
  rw [if_neg (by simpa [spoken] using speaks), run_tryCatch, run_bind]
  rcases run : (runText line none).run s with ⟨e | v, s'⟩
  · rw [run] at ends
    rw [feed_error run] at halted ⊢
    rcases ends.sole fresh.clean fresh.room with rfl | ⟨phase, i, rfl, issues⟩
    · cases halted
    · dsimp only
      rw [reporting_run, complain_run issues, issues]
      simp [told]
  · rw [run] at ends
    rw [feed_ok run]
    dsimp only
    rw [run_pure, ends.issues, fresh.clean]
    simp [told]

theorem told_told (s : Session) (written written' : List Output) :
    (s.told written).told written' = s.told written' := rfl

theorem writeAll_told (outputs : List Output) (s : Session) (written : List Output) :
    (writeAll outputs).run (s.told written) = (.ok (), s.told (written ++ outputs)) := by
  induction outputs generalizing written with
  | nil => rw [List.append_nil, writeAll, run_pure]
  | cons o rest ih =>
    have pushed : (reporting (Report.write o)).run (s.told written) =
        (.ok (), s.told (written ++ [o])) := by
      simp [reporting_run, Report.write, run_modify, told]
    rw [writeAll, run_bind, pushed]
    dsimp only
    rw [ih, List.append_assoc, List.singleton_append]

theorem Fresh.repl_run (prompt : String) (fresh : Fresh s) {lines : List String}
    (halts : s.halts (lines.filter spoken) = true) (written : List Output) :
    (repl prompt lines).run (s.told written) =
      (.ok (), (s.fed (lines.filter spoken)).told (written ++ s.dialogue prompt lines)) := by
  induction lines generalizing s written with
  | nil => exact writeAll_told _ s written
  | cons line rest ih =>
    unfold repl dialogue
    rw [run_bind, writeAll_told]
    dsimp only
    rw [run_bind]
    by_cases speaks : spoken line
    · rw [List.filter_cons_of_pos speaks] at halts ⊢
      obtain ⟨here, later⟩ := Bool.and_eq_true_iff.1 halts
      -- What has been written so far makes no difference to the line.
      have fresh' : Fresh (s.told (written ++ [.out prompt])) := ⟨fresh.steady, fresh.clean, fresh.room⟩
      obtain ⟨shown, after, -⟩ := s.feed_told (written ++ [.out prompt]) line none
      rw [fresh'.replLine_run speaks (shown ▸ here), shown, after, if_pos speaks]
      dsimp only
      rw [told_told, ih (fresh.verdict here).1 later]
      simp [fed, told]
    · rw [List.filter_cons_of_neg speaks] at halts ⊢
      have silent : (replLine line).run (s.told (written ++ [.out prompt])) =
          (.ok (), s.told (written ++ [.out prompt])) := by
        unfold replLine
        rw [if_pos (by simpa [spoken] using speaks), run_pure]
      rw [silent, if_neg speaks]
      dsimp only
      rw [ih fresh halts, List.append_assoc, List.singleton_append]

theorem Fresh.turns (fresh : Fresh s) {texts : List String} (halts : s.halts texts = true) :
    Fresh (s.fed texts) ∧ ∀ turn ∈ s.turns texts, turn.1.report.issues = [] ∧ Verdict turn.1 turn.2 := by
  induction texts generalizing s with
  | nil => exact ⟨fresh, nofun⟩
  | cons text rest ih =>
    obtain ⟨here, later⟩ := Bool.and_eq_true_iff.1 halts
    obtain ⟨fresh', verdict⟩ := fresh.verdict here
    obtain ⟨last, verdicts⟩ := ih fresh' later
    exact ⟨last, List.forall_mem_cons.2 ⟨⟨fresh.clean, verdict⟩, verdicts⟩⟩

theorem lines_complaint (issues : List Issue) :
    (issues.flatMap Issue.complaint).filterMap Output.line? = [] := by
  induction issues with
  | nil => rfl
  | cons i rest ih => simpa [Issue.complaint, Output.line?] using ih

theorem lines_dialogue (prompt : String) (s : Session) (lines : List String) :
    (s.dialogue prompt lines).filterMap Output.line? =
      (s.turns (lines.filter spoken)).flatMap fun turn => (turn.1.feed turn.2 none).1.printed := by
  induction lines generalizing s with
  | nil => rfl
  | cons line rest ih =>
    unfold dialogue
    by_cases speaks : spoken line
    · rw [if_pos speaks, List.filter_cons_of_pos speaks, List.filterMap_append, List.filterMap_append,
        lines_complaint, ih, List.append_nil]
      rfl
    · rw [if_neg speaks, List.filter_cons_of_neg speaks]
      exact ih s

/-- The prompt survives everything. At a prompt that starts without issues and may note at least one,
lines are read until there are no more, as long as none of them goes on for ever. Nothing is left in
the report; the session is the one that comes of running the lines that are not blank one after the
other, and so are the lines that have been printed. Each line that fails leaves one issue, which is
shown once, before the next prompt; if it has not been run it has printed nothing and the machine is as
before. -/
theorem repl_survives (reached : s.Reached) (clean : s.report.issues = [])
    (room : s.report.maxIssues ≠ 1) (prompt : String) {lines : List String}
    (halts : s.halts (lines.filter spoken) = true) :
    ∃ s', (repl prompt lines).run s = (.ok (), s') ∧ s'.report.issues = [] ∧
      s' = (s.fed (lines.filter spoken)).told s'.report.written.toList ∧
      s'.report.written.toList = s.report.written.toList ++ s.dialogue prompt lines ∧
      s'.report.printed = s.report.printed ++
        (s.turns (lines.filter spoken)).flatMap (fun turn => (turn.1.feed turn.2 none).1.printed) ∧
      ∀ turn ∈ s.turns (lines.filter spoken),
        turn.1.report.issues = [] ∧ Verdict turn.1 turn.2 := by
  have fresh : Fresh s := ⟨Failing.steady_of_reached reached, clean, room⟩
  obtain ⟨last, verdicts⟩ := fresh.turns halts
  refine ⟨_, fresh.repl_run prompt halts s.report.written.toList, last.clean, rfl, rfl, ?_, verdicts⟩
  rw [← lines_dialogue, Report.printed_eq, Report.printed_eq, ← List.filterMap_append]
  rfl

-- A blank line, a line that cannot be scanned and one that fails when it is run.
def faltering : List String :=
  ["print \"a\";\n", " \n", "@\n", "print -nil;\n", "print \"b\";\n"]

theorem repl_survives_faltering : ∃ s',
    (repl "> " faltering).run (start (.new false 3) (.onArena fun _ => 0) ⟨20, 5⟩) = (.ok (), s') ∧
      s'.report.issues = [] ∧ s'.report.printed = ["a", "b"] := by
  have ran : ((start (.new false 3) (.onArena fun _ => 0) ⟨20, 5⟩).halts (faltering.filter spoken) &&
      ((start (.new false 3) (.onArena fun _ => 0) ⟨20, 5⟩).turns (faltering.filter spoken)).flatMap
        (fun turn => (turn.1.feed turn.2 none).1.printed) == ["a", "b"]) = true := by decide +kernel
  obtain ⟨halts, printed⟩ := Bool.and_eq_true_iff.1 ran
  obtain ⟨s', run, issues, -, -, lines, -⟩ :=
    repl_survives (.start (.new false 3) (fun _ => 0) ⟨20, 5⟩ (.inr rfl)) rfl (by decide) "> " halts
  refine ⟨s', run, issues, ?_⟩
  rw [lines, eq_of_beq printed]
  rfl

end Session
end Lox
