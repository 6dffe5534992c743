import Lox.Proofs.Session.Rejected
import Lox.Proofs.Session.Scoping

set_option autoImplicit false

namespace Lox

namespace Session

/-- The sessions that there are: new ones, and those in which texts have been checked and run and
anything may have been done to the report. -/
inductive Reached : Session → Prop
  | start (report : Report) (clock : Nat → Float) (limits : Limits) {machine : Machine}
      (kind : machine = .onChain clock ∨ machine = .onArena clock) :
      Reached (start report machine limits)
  | check {s : Session} (text : String) (path : Option String) :
      Reached s → Reached ((checkText text path).run s).2
  | run {s : Session} (text : String) (path : Option String) :
      Reached s → Reached ((runText text path).run s).2
  | report {s : Session} (work : Report.Work Unit) : Reached s → Reached ((reporting work).run s).2

end Session

namespace Failing

open Mirror (World)

def Steady (m : Machine) : Prop := ∃ w : World, (∃ n, w.States m n) ∨ ∃ n, w.States n m

def Ended (v : Value) (m : Machine) : Prop :=
  ∃ w : World, (∃ n v', w.States m n ∧ w.Values v v') ∨ ∃ n, w.States n m

theorem Ended.steady {v : Value} {m : Machine} (ended : Ended v m) : Steady m := by
  obtain ⟨w, ⟨n, v', states, -⟩ | ended⟩ := ended
  · exact ⟨w, .inl ⟨n, states⟩⟩
  · exact ⟨w, .inr ended⟩

inductive Left : Except Stop Value → Machine → Prop
  | ok {v : Value} {m : Machine} : Ended v m → Left (.ok v) m
  | returned {v : Value} {m : Machine} : Ended v m → Left (.error (.returned v)) m
  | fault (f : Fault) {m : Machine} : Steady m → Left (.error (.fault f)) m
  | endless {m : Machine} : Steady m → Left (.error .endless) m

theorem Left.of_outcome {w : World} {m n : Machine} {r r' : Except Stop Value} (states : w.States m n)
    (outcome : Mirror.link.Outcome Mirror.link.values w r r') : Left r m ∧ Left r' n := by
  cases outcome with
  | ok both => exact ⟨.ok ⟨w, .inl ⟨n, _, states, both⟩⟩, .ok ⟨w, .inr ⟨m, states⟩⟩⟩
  | returned both => exact ⟨.returned ⟨w, .inl ⟨n, _, states, both⟩⟩, .returned ⟨w, .inr ⟨m, states⟩⟩⟩
  | fault => exact ⟨.fault _ ⟨w, .inl ⟨n, states⟩⟩, .fault _ ⟨w, .inr ⟨m, states⟩⟩⟩
  | endless => exact ⟨.endless ⟨w, .inl ⟨n, states⟩⟩, .endless ⟨w, .inr ⟨m, states⟩⟩⟩

theorem Steady.interpret {m : Machine} (steady : Steady m) (limits : Limits) (program : List Tree) :
    Left ((interpret limits program).run { m with printed := #[] }).1
      ((interpret limits program).run { m with printed := #[] }).2 := by
  have both : ∀ {w : World} {m n : Machine}, w.States m n →
      Left ((Lox.interpret limits program).run { m with printed := #[] }).1
          ((Lox.interpret limits program).run { m with printed := #[] }).2 ∧
        Left ((Lox.interpret limits program).run { n with printed := #[] }).1
          ((Lox.interpret limits program).run { n with printed := #[] }).2 := by
    rintro w m n ⟨agree, a, c, left, right, holds⟩
    obtain ⟨w', -, states, outcome⟩ := Mirror.sim_interpret limits program holds.mirrors.top
      { m with printed := #[] } { n with printed := #[] } ⟨agree.reset, a, c, left, right, holds⟩
    exact Left.of_outcome states outcome
  obtain ⟨w, ⟨n, states⟩ | ⟨n, states⟩⟩ := steady
  · exact (both states).1
  · exact (both states).2

section Texts

variable {t : Session} {α : Type} {Q : α → Session → Prop}

structure Waiting (t s : Session) : Prop where
  machine : s.machine = t.machine
  printed : s.report.printed = t.report.printed
  issues : s.report.issues = t.report.issues
  maxIssues : s.report.maxIssues = t.report.maxIssues

structure Running (t s : Session) : Prop where
  steady : Steady s.machine
  issues : s.report.issues = t.report.issues
  maxIssues : s.report.maxIssues = t.report.maxIssues

structure Stopped (t : Session) (result : Except Stop Value) (s : Session) : Prop where
  left : Left result s.machine
  issues : s.report.issues = t.report.issues
  maxIssues : s.report.maxIssues = t.report.maxIssues

structure Failed (t : Session) (e : Trouble) (s : Session) : Prop where
  steady : Steady s.machine
  maxIssues : s.report.maxIssues = t.report.maxIssues
  sole : t.report.issues = [] → t.report.maxIssues ≠ 1 →
    e = .endless ∨ ∃ phase i, e = .failed phase ∧ s.report.issues = [i]
  rejected : e.rejects = true → s.machine = t.machine ∧ s.report.printed = t.report.printed

theorem Waiting.running {s : Session} (waiting : Waiting t s) (steady : Steady t.machine) : Running t s :=
  ⟨waiting.machine ▸ steady, waiting.issues, waiting.maxIssues⟩

theorem ends_failIn {P : Session → Prop} (phase : Phase) {record : Report.Work Unit}
    (records : Report.Records record) (running : ∀ s, P s → Running t s)
    (rejected : ∀ s, P s → (Trouble.failed phase).rejects = true →
      s.machine = t.machine ∧ s.report.printed = t.report.printed) :
    Ends P (Session.failIn phase record) Q (Failed t) := by
  intro s before
  obtain ⟨steady, issues, maxIssues⟩ := running s before
  obtain ⟨i, run⟩ := records
  rw [Session.failIn_run phase (run _), issues, maxIssues]
  refine ⟨steady, maxIssues, fun clean room => ?_, fun early => ?_⟩
  · -- There is room for the first issue.
    rw [clean, if_neg (by simpa using room.symm)]
    exact .inr ⟨phase, _, rfl, rfl⟩
  · split at early
    · cases early
    · exact rejected s before early

theorem ends_parseText (steady : Steady t.machine) (text : String) (path : Option String) :
    Ends (Waiting t) (Session.parseText text path) (fun _ => Waiting t) (Failed t) := by
  refine Session.ends_parseText text path (fun s source written silent waiting => ?_)
    fun phase record records => ?_
  · exact ⟨waiting.machine, silent.trans waiting.printed, waiting.issues, waiting.maxIssues⟩
  · exact ends_failIn _ records (fun _ waiting => waiting.running steady)
      fun _ waiting _ => ⟨waiting.machine, waiting.printed⟩

theorem ends_resolve (steady : Steady t.machine) (program : List Tree) :
    Ends (Waiting t) (Session.resolve program) (fun _ => Waiting t) (Failed t) := by
  have walked : Ends (Waiting t)
      (modifyGet fun s => ((s.slots.resolveProgram program).1,
        { s with slots := (s.slots.resolveProgram program).2 }))
      (fun _ => Waiting t) (Failed t) :=
    fun s waiting => ⟨waiting.machine, waiting.printed, waiting.issues, waiting.maxIssues⟩
  refine walked.bind fun result => ?_
  cases result with
  | error e =>
    exact ends_failIn _ (Report.records_resolveError e) (fun _ waiting => waiting.running steady)
      fun _ waiting _ => ⟨waiting.machine, waiting.printed⟩
  | ok resolved =>
    refine (Session.ends_info _ fun s written silent waiting => ?_).bind fun _ => .pure fun _ waiting => waiting
    exact ⟨waiting.machine, silent.trans waiting.printed, waiting.issues, waiting.maxIssues⟩

theorem ends_execute (program : List Tree) :
    Ends (Running t) (Session.execute program) (fun v s => Running t s ∧ Ended v s.machine)
      (Failed t) := by
  refine Ends.bind (Q := Stopped t) (fun s running =>
    ⟨running.steady.interpret s.limits program, running.issues, running.maxIssues⟩) fun result => ?_
  rintro s ⟨left, issues, maxIssues⟩
  cases left with
  | ok ended => exact ⟨⟨ended.steady, issues, maxIssues⟩, ended⟩
  | returned ended => exact ⟨⟨ended.steady, issues, maxIssues⟩, ended⟩
  | fault f steady =>
    exact ends_failIn (P := Running t) .run (Report.records_runtimeError f.message)
      (fun _ running => running) (fun _ _ => nofun) s ⟨steady, issues, maxIssues⟩
  | endless steady => exact ⟨steady, maxIssues, fun _ _ => .inl rfl, nofun⟩

theorem ends_tidy (v : Value) :
    Ends (fun s => Running t s ∧ Ended v s.machine) (Session.tidy v) (fun _ => Running t) (Failed t) := by
  rintro s ⟨running, w, ⟨n, v', ⟨agree, a, c, left, right, holds⟩, both⟩ | ⟨n, states⟩⟩
  · obtain ⟨w', shrunk, a', run, agree', holds', -⟩ := Mirror.tidied agree holds both
    unfold Session.tidy
    rw [run_bind, run_get]
    dsimp only
    rw [left]
    dsimp only
    obtain ⟨written, info, -⟩ := Report.info_run ["Arena: " ++ toString a.table.size ++ " entries, "
      ++ toString a.activeScopes.length ++ " active"] s.report
    rw [run_bind, Session.reporting_run, info]
    dsimp only
    rw [run]
    exact ⟨⟨w', .inl ⟨n, agree'.scopes _ _, a', c, rfl, right, holds'⟩⟩, running.issues, running.maxIssues⟩
  · obtain ⟨-, -, c, -, here, -⟩ := states
    rw [Session.tidy_chain here]
    exact running

theorem ends_runText (steady : Steady t.machine) (text : String) (path : Option String) :
    Ends (Waiting t) (Session.runText text path) (fun _ => Running t) (Failed t) := by
  refine (ends_parseText steady text path).bind fun program => ?_
  refine (ends_resolve steady program).bind fun resolved => ?_
  refine Ends.bind (fun s waiting => ends_execute resolved s (waiting.running steady)) fun v => ?_
  exact (ends_tidy v).bind fun _ => .pure fun _ running => running

theorem Waiting.refl (t : Session) : Waiting t t := ⟨rfl, rfl, rfl, rfl⟩

end Texts

theorem steady_start (report : Report) (clock : Nat → Float) (limits : Limits) {machine : Machine}
    (kind : machine = .onChain clock ∨ machine = .onArena clock) :
    Steady (Session.start report machine limits).machine := by
  unfold Session.start Session.withNatives
  generalize Session.nativeSlots = slots
  obtain ⟨w, states⟩ := Mirror.states_install slots Native.all (Mirror.states_new clock)
  rcases kind with rfl | rfl
  · exact ⟨w, .inr ⟨_, states⟩⟩
  · exact ⟨w, .inl ⟨_, states⟩⟩

theorem steady_of_reached {s : Session} (reached : s.Reached) : Steady s.machine := by
  induction reached with
  | start report clock limits kind => exact steady_start report clock limits kind
  | report work _ ih => exact ih
  | @check s text path _ ih =>
    have ends := (ends_parseText ih text path).bind (ends_resolve ih) s (.refl s)
    change Steady ((Session.parseText text path >>= Session.resolve).run s).2.machine
    generalize (Session.parseText text path >>= Session.resolve).run s = outcome at ends ⊢
    obtain ⟨_ | _, s'⟩ := outcome
    · exact ends.steady
    · exact (ends.running ih).steady
  | @run s text path _ ih =>
    have ends := ends_runText ih text path s (.refl s)
    generalize (Session.runText text path).run s = outcome at ends ⊢
    obtain ⟨_ | _, s'⟩ := outcome
    · exact ends.steady
    · exact ends.steady

end Failing
end Lox
