import Lox.Proofs.Run.Steps
import Lox.Session

set_option autoImplicit false

namespace Lox

def Output.line? : Output → Option String
  | .line text => some text
  | _ => none

namespace Report

theorem printed_eq (r : Report) : r.printed = r.written.toList.filterMap Output.line? := rfl

theorem info_run (words : List String) (r : Report) :
    ∃ written, (info words).run r = (.ok (), { r with written }) ∧
      printed { r with written } = r.printed := by
  unfold info
  rw [run_bind, run_get]
  dsimp only
  split
  · refine ⟨_, rfl, ?_⟩
    simp [printed_eq, Output.line?]
  · exact ⟨r.written, rfl, rfl⟩

theorem issue_run (i : Issue) (r : Report) :
    (issue i).run r =
      (if ((r.issues ++ [i]).length : Int) = r.maxIssues then .error .tooManyIssues else .ok (),
        { r with issues := r.issues ++ [i] }) := by
  unfold issue
  rw [run_bind, run_modify]
  dsimp only
  rw [run_bind, run_get]
  dsimp only
  split <;> rfl

def Records (work : Work Unit) : Prop :=
  ∃ i : Option Source → Issue, ∀ r, work.run r = (issue (i r.source)).run r

theorem records_issue (i : Issue) : Records (issue i) := ⟨fun _ => i, fun _ => rfl⟩

theorem records_pointed (span : Option Span) (caption : String) (i : Annotation → Issue) :
    Records (do issue (i (← pointing span caption))) :=
  ⟨fun source => i ⟨source, span, caption⟩, fun _ => rfl⟩

theorem records_lexicalError (place : Nat) : Records (lexicalError place) := records_pointed _ _ _

theorem records_parseError (e : ParseError) : Records (parseError e) := by
  unfold parseError
  cases e.token? with
  | none => exact records_issue _
  | some t => exact records_pointed _ _ _

theorem records_resolveError (e : ResolveError) : Records (resolveError e) := by
  cases e with
  | undefined name => exact records_pointed _ _ _
  | mismatch subject => exact records_issue _

theorem records_runtimeError (message : String) : Records (runtimeError message) := records_issue _

end Report

namespace Session

variable {α : Type} {P : Session → Prop} {F : Trouble → Session → Prop}

theorem failIn_run (phase : Phase) {record : Report.Work Unit} {i : Issue} {s : Session}
    (run : record.run s.report = (Report.issue i).run s.report) :
    (failIn phase record : Work α).run s =
      (.error (if ((s.report.issues ++ [i]).length : Int) = s.report.maxIssues then .tooManyIssues
        else .failed phase),
        { s with report := { s.report with issues := s.report.issues ++ [i] } }) := by
  unfold failIn
  rw [run_bind, reporting_run, run, Report.issue_run]
  by_cases full : ((s.report.issues ++ [i]).length : Int) = s.report.maxIssues
  · rw [if_pos full, if_pos full]
  · rw [if_neg full, if_neg full]
    rfl

theorem ends_info (words : List String)
    (kept : ∀ s written, Report.printed { s.report with written } = s.report.printed → P s →
      P { s with report := { s.report with written } }) :
    Ends P (reporting (Report.info words)) (fun _ => P) F := by
  intro s before
  obtain ⟨written, run, silent⟩ := Report.info_run words s.report
  rw [reporting_run, run]
  exact kept s written silent before

theorem ends_parseText (text : String) (path : Option String)
    (kept : ∀ s source written, Report.printed { s.report with written } = s.report.printed → P s →
      P { s with report := { s.report with source, written } })
    (fails : ∀ phase record, Report.Records record →
      Ends P (failIn phase record) (fun _ : List Tree => P) F) :
    Ends P (parseText text path) (fun _ => P) F := by
  have facing : Ends P (reporting (Report.setSource text path)) (fun _ => P) F :=
    fun s before => kept s (some ⟨text, path⟩) s.report.written rfl before
  refine facing.bind fun _ => ?_
  cases scan text with
  | error place => exact fails _ _ (Report.records_lexicalError place)
  | ok tokens =>
    refine (ends_info _ fun s => kept s s.report.source).bind fun _ => ?_
    cases Grammar.parseProgram tokens with
    | error e => exact fails _ _ (Report.records_parseError e)
    | ok program => exact .pure fun _ before => before

end Session
end Lox
