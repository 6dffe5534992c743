import Lox.Proofs.Session.Renamed

set_option autoImplicit false

namespace Lox

def Trouble.rejects : Trouble → Bool
  | .failed .lex | .failed .parse | .failed .resolve => true
  | _ => false

/-- What one input shows: its result as it is displayed, or the trouble it ended in; what it wrote; and
the issues it left in the report. -/
structure Shown where
  result : Except Trouble String
  written : List Output
  issues : List Issue

def Shown.rejected (shown : Shown) : Bool :=
  match shown.result with
  | .ok _ => false
  | .error e => e.rejects

namespace Session

-- After a failure the report is reset.
def feed (s : Session) (text : String) (path : Option String) : Shown × Session :=
  match (runText text path).run s with
  | (result, s') =>
    (⟨result.map Value.display, s'.report.written.toList.drop s.report.written.size, s'.report.issues⟩,
      if result.isOk then s' else ((reporting Report.reset).run s').2)

def showing : Session → List ((String × Option String) × Bool) → List Shown
  | _, [] => []
  | s, ((text, path), marked) :: rest =>
    let later := (s.feed text path).2.showing rest
    if marked then (s.feed text path).1 :: later else later

/-- Every input that is not marked is rejected when its turn comes. -/
def rejectsRest : Session → List ((String × Option String) × Bool) → Bool
  | _, [] => true
  | s, ((text, path), marked) :: rest =>
    (marked || (s.feed text path).1.rejected) && (s.feed text path).2.rejectsRest rest

end Session

namespace Report

structure SameRules (r r' : Report) : Prop where
  verbose : r.verbose = r'.verbose
  maxIssues : r.maxIssues = r'.maxIssues

structure Ready (r r' : Report) : Prop extends SameRules r r' where
  left : r.issues = []
  right : r'.issues = []

variable {α : Type} {r r' : Report}

end Report

namespace Session

variable {R : Renaming} {t : Session} {α : Type} {Q : α → Session → Prop}

-- `t` is the session without the rejected inputs. `Kept` holds between inputs, and within one for as
-- long as it may still be rejected; `Failed` is what is left of it when the input has been rejected.
abbrev Kept (R : Renaming) (t s : Session) : Prop := s.Alongside Report.Ready R t

abbrev Failed (R : Renaming) (t : Session) (e : Trouble) (s : Session) : Prop :=
  e.rejects = true → s.Alongside Report.SameRules R t

abbrev Clean (s : Session) : Prop := s.report.issues = []

theorem Alongside.sameRules {s : Session} (h : Kept R t s) : s.Alongside Report.SameRules R t :=
  ⟨h.slots, h.top, h.machine, h.limits, h.report.toSameRules⟩

theorem ends_failIn (phase : Phase) {record : Report.Work Unit} (records : Report.Records record) :
    Ends (Alongside Report.SameRules R · t) (failIn phase record) Q (Failed R t) := by
  rintro s ⟨slots, top, machine, limits, rules⟩
  obtain ⟨i, run⟩ := records
  rw [failIn_run phase (run _)]
  -- The issue may be one too many; the rules stay what they are all the same.
  exact fun _ => ⟨slots, top, machine, limits, rules.verbose, rules.maxIssues⟩

theorem Kept.parseText (text : String) (path : Option String) :
    Ends (Kept R t) (parseText text path) (fun _ => Kept R t) (Failed R t) := by
  refine ends_parseText text path ?_ fun phase record records s before =>
    ends_failIn phase records s before.sameRules
  exact fun s source written _ before => ⟨before.slots, before.top, before.machine, before.limits,
    ⟨before.report.verbose, before.report.maxIssues⟩, before.report.left, before.report.right⟩

theorem ends_resolve (program : List Tree) :
    Ends (Kept R t) (resolve program) (fun _ => Clean) (Failed R t) := by
  -- A program that is refused leaves its slots behind; one that is not is of no concern any more.
  have walked : Ends (Kept R t)
      (modifyGet fun s => ((s.slots.resolveProgram program).1,
        { s with slots := (s.slots.resolveProgram program).2 }))
      (fun (result : Except ResolveError (List Tree)) s => Clean s ∧ ∀ e, result = .error e →
        s.Alongside Report.SameRules R t) (Failed R t) := by
    intro s before
    obtain ⟨top, -⟩ := Slots.resolveProgram_outside program before.top
    exact ⟨before.report.left, fun e refused => ⟨before.slots.refused before.top refused, top,
      before.machine, before.limits, before.report.toSameRules⟩⟩
  refine walked.bind fun result => ?_
  cases result with
  | error e =>
    exact fun s after => ends_failIn .resolve (Report.records_resolveError e) s (after.2 e rfl)
  | ok resolved =>
    exact fun s after => (ends_info _ fun _ _ _ clean => clean).bind
      (fun _ => .pure fun _ clean => clean) s after.1

theorem ends_execute (program : List Tree) :
    Ends Clean (execute program) (fun _ => Clean) (Failed R t) := by
  refine Ends.bind (Q := fun _ => Clean) (fun s clean => clean) fun result => ?_
  cases result with
  | ok value => exact .pure fun _ clean => clean
  | error stop =>
    cases stop with
    | returned value => exact .pure fun _ clean => clean
    | scope e => exact .throw fun _ _ => nofun
    | endless => exact .throw fun _ _ => nofun
    | fault f =>
      intro s _
      obtain ⟨i, run⟩ := Report.records_runtimeError f.message
      rw [failIn_run .run (run _)]
      dsimp only
      split <;> exact nofun

theorem ends_tidy (v : Value) : Ends Clean (tidy v) (fun _ => Clean) (Failed R t) := by
  refine Ends.bind (Q := fun _ => Clean) (fun s clean => clean) fun s => ?_
  cases s.machine.scopes with
  | chain c => exact .pure fun _ clean => clean
  | arena a =>
    refine (ends_info _ fun _ _ _ clean => clean).bind fun _ => ?_
    dsimp only
    generalize (do let _ ← Arena.collect s.machine.heap [.value v]; Arena.compact).run a = outcome
    obtain ⟨result, a'⟩ := outcome
    refine Ends.bind (Q := fun _ => Clean) (fun s clean => clean) fun _ => ?_
    cases result with
    | ok _ => exact .pure fun _ clean => clean
    | error e => exact .throw fun _ _ => nofun

theorem ends_runText (text : String) (path : Option String) :
    Ends (Kept R t) (runText text path) (fun _ => Clean) (Failed R t) := by
  refine (Kept.parseText text path).bind fun program => ?_
  refine (ends_resolve program).bind fun resolved => ?_
  refine (ends_execute resolved).bind fun v => ?_
  exact (ends_tidy v).bind fun _ => .pure fun _ clean => clean

def facing (s : Session) (source : Option Source) : Session :=
  { s with report := { s.report with source } }

theorem runText_facing (text : String) (path : Option String) (s : Session) :
    (runText text path).run (s.facing (some ⟨text, path⟩)) = (runText text path).run s := by
  unfold runText parseText
  simp only [run_bind, reporting_run]
  rfl

variable {s : Session}

theorem Alongside.facing (h : Kept R t s) (source : Option Source) :
    (s.facing source).Alongside (Report.Alike s.report t.report) R (t.facing source) := by
  obtain ⟨slots, top, machine, limits, ⟨verbose, maxIssues⟩, left, right⟩ := h
  refine ⟨slots, top, machine, limits, verbose, maxIssues, source, [], #[], ?_, ?_⟩
  · simp only [Session.facing, Report.later, Array.append_empty, left]
  · simp only [Session.facing, Report.later, Array.append_empty, right]

theorem Alongside.feed (h : Kept R t s) (text : String) (path : Option String) :
    (s.feed text path).1 = (t.feed text path).1 ∧
      ∃ R', Kept R' (t.feed text path).2 (s.feed text path).2 := by
  have cleared := ends_runText text path s h
  -- The sources of the two reports may differ until the text sets them.
  obtain ⟨R', -, after, both⟩ := unison_runText text path _ _ (h.facing (some ⟨text, path⟩))
  rw [runText_facing, runText_facing] at after both
  unfold Session.feed
  generalize (runText text path).run s = left at cleared after both ⊢
  generalize (runText text path).run t = right at after both ⊢
  obtain ⟨result, s'⟩ := left
  obtain ⟨result', t'⟩ := right
  obtain ⟨slots, top, machine, limits, report⟩ := after
  dsimp only at cleared report both ⊢
  have ⟨verbose, maxIssues, issues, _⟩ := report.same
  have display : result.map Value.display = result'.map Value.display := by
    cases both with
    | ok both => exact congrArg Except.ok both.alike.display
    | error same => rw [same]
  have written : s'.report.written.toList.drop s.report.written.size =
      t'.report.written.toList.drop t.report.written.size := by
    obtain ⟨_, _, new, left, right⟩ := report.since
    simp [left, right, Report.later]
  refine ⟨by rw [display, written, issues], R', ?_⟩
  cases both with
  | ok => exact ⟨slots, top, machine, limits, ⟨verbose, maxIssues⟩, cleared, issues ▸ cleared⟩
  | error => exact ⟨slots, top, machine, limits, ⟨verbose, maxIssues⟩, rfl, rfl⟩

theorem Alongside.rejected (h : Kept R t s) {text : String} {path : Option String}
    (rejected : (s.feed text path).1.rejected = true) : Kept R t (s.feed text path).2 := by
  have failed := ends_runText text path s h
  unfold Session.feed Shown.rejected at rejected
  unfold Session.feed
  generalize (runText text path).run s = outcome at failed rejected ⊢
  obtain ⟨e | v, s'⟩ := outcome
  · obtain ⟨slots, top, machine, limits, rules⟩ := failed rejected
    exact ⟨slots, top, machine, limits, ⟨rules.verbose, rules.maxIssues⟩, rfl, h.report.right⟩
  · cases rejected

theorem Alongside.showing (h : Kept R t s) {inputs : List ((String × Option String) × Bool)}
    (rest : s.rejectsRest inputs = true) :
    s.showing inputs = t.showing (inputs.filter Prod.snd) := by
  induction inputs generalizing R s t with
  | nil => rfl
  | cons input inputs ih =>
    obtain ⟨⟨text, path⟩, marked⟩ := input
    unfold rejectsRest at rest
    obtain ⟨here, later⟩ := Bool.and_eq_true_iff.1 rest
    cases marked with
    | false => exact ih (h.rejected here) later
    | true =>
      -- The slots that the input has been given are new pairs of the renaming.
      obtain ⟨same, R', both⟩ := h.feed text path
      exact congrArg₂ List.cons same (ih both later)

/-- Texts that are rejected leave no trace. Take any inputs of a session, and mark some of them such
that every other one fails to be scanned, parsed or resolved when its turn comes. Without those others
the session shows the same for each marked input: the same lines, the same result or the same trouble,
and the same issues in the report. -/
theorem showing_without_rejected {report : Report} (clean : report.issues = []) (clock : Nat → Float)
    {machine : Machine} (kind : machine = .onChain clock ∨ machine = .onArena clock) (limits : Limits)
    {inputs : List ((String × Option String) × Bool)}
    (rest : (start report machine limits).rejectsRest inputs = true) :
    (start report machine limits).showing inputs =
      (start report machine limits).showing (inputs.filter Prod.snd) := by
  have ready : Report.Ready report report := ⟨⟨rfl, rfl⟩, clean, clean⟩
  obtain ⟨R, beside⟩ := alongside_start ready clock kind limits
  exact beside.showing rest

-- The rejected text has declared a name before it fails, so what comes after it has other slots.
theorem showing_without_rejected_spent :
    ((start (.new false 3) (.onArena fun _ => 0) ⟨20, 5⟩).feed
        "\x7bvar clock; a;\x7d" none).2.slots.next = 2 ∧
      (start (.new false 3) (.onArena fun _ => 0) ⟨20, 5⟩).showing
          [(("\x7bvar clock; a;\x7d", none), false), (("var b = clock; print b;", none), true)] =
        (start (.new false 3) (.onArena fun _ => 0) ⟨20, 5⟩).showing
          [(("var b = clock; print b;", none), true)] := by
  have ran : ((start (.new false 3) (.onArena fun _ => 0) ⟨20, 5⟩).rejectsRest
      [(("\x7bvar clock; a;\x7d", none), false), (("var b = clock; print b;", none), true)] &&
      ((start (.new false 3) (.onArena fun _ => 0) ⟨20, 5⟩).feed
        "\x7bvar clock; a;\x7d" none).2.slots.next == 2) = true := by decide +kernel
  obtain ⟨rest, next⟩ := Bool.and_eq_true_iff.1 ran
  exact ⟨eq_of_beq next, showing_without_rejected rfl _ (.inr rfl) _ rest⟩

end Session
end Lox
