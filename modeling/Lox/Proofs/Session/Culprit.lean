import Lox.Proofs.Grammar.Formed
import Lox.Proofs.Grammar.Names
import Lox.Proofs.Scan.Tokens
import Lox.Proofs.Session.Failing
import Lox.Proofs.Slots.Ordering

set_option autoImplicit false

namespace Lox

def Ident.StandsIn (text : String) (i : Ident) : Prop :=
  ∃ word span, i = .name word (some span) ∧ span.start < span.stop ∧ span.stop ≤ text.length ∧
    Scan.covered text.toList span = word.toList

namespace Event

def About (Q : Ident → Prop) : Event → Prop
  | .declares name | .uses name => Q name
  | .enter | .leave => True

theorem about_declares {Q : Ident → Prop} {names : List Ident} (h : ∀ i ∈ names, Q i) :
    ∀ e ∈ names.map Event.declares, e.About Q := by
  intro e member
  obtain ⟨name, listed, rfl⟩ := List.mem_map.1 member
  exact h name listed

theorem about_scope {Q : Ident → Prop} {E : List Event} (h : ∀ e ∈ E, e.About Q) :
    ∀ e ∈ .enter :: E ++ [.leave], e.About Q :=
  List.forall_mem_append.2 ⟨List.forall_mem_cons.2 ⟨trivial, h⟩, List.forall_mem_singleton.2 trivial⟩

end Event

namespace Tree

open Event

variable {Q : Ident → Prop} {o : Order}

mutual

-- The walk meets no identifier but those of the tree.
theorem about_events (t : Tree) (h : ∀ i ∈ t.idents, Q i) : ∀ e ∈ t.events o, e.About Q := by
  cases t with
  | literal => exact nofun
  | reference name => exact List.forall_mem_singleton.2 (h name (.head _))
  | assign target value =>
    obtain ⟨name, rest⟩ := List.forall_mem_cons.1 h
    exact List.forall_mem_append.2 ⟨about_events value rest, List.forall_mem_singleton.2 name⟩
  | declare target value =>
    obtain ⟨name, rest⟩ := List.forall_mem_cons.1 h
    exact List.forall_mem_append.2 ⟨about_events value rest, List.forall_mem_singleton.2 name⟩
  | unary _ e | grouping e | get e _ | expression e | print e | ret e => exact about_events e h
  | binary _ a b | set a _ b | ifThen a b | whileLoop a b =>
    obtain ⟨left, right⟩ := List.forall_mem_append.1 h
    exact List.forall_mem_append.2 ⟨about_events a left, about_events b right⟩
  | call callee arguments =>
    obtain ⟨left, right⟩ := List.forall_mem_append.1 h
    exact List.forall_mem_append.2 ⟨about_events callee left, about_eventsAll arguments right⟩
  | ifElse cond body other =>
    obtain ⟨first, rest⟩ := List.forall_mem_append.1 h
    obtain ⟨second, third⟩ := List.forall_mem_append.1 rest
    have tested := about_events cond first
    have taken := about_events body second
    have refused := about_events other third
    cases o with
    | source => exact List.forall_mem_append.2 ⟨tested, List.forall_mem_append.2 ⟨taken, refused⟩⟩
    | walk => exact List.forall_mem_append.2 ⟨refused, List.forall_mem_append.2 ⟨tested, taken⟩⟩
  | lambda params body =>
    obtain ⟨names, rest⟩ := List.forall_mem_append.1 h
    exact about_scope (List.forall_mem_append.2 ⟨about_declares names, about_eventsAll body rest⟩)
  | function name params body =>
    obtain ⟨first, rest⟩ := List.forall_mem_cons.1 h
    obtain ⟨names, rest⟩ := List.forall_mem_append.1 rest
    have inner := List.forall_mem_append.2 ⟨about_declares names, about_eventsAll body rest⟩
    exact List.forall_mem_cons.2 ⟨first, about_scope inner⟩
  | classDef name methods =>
    obtain ⟨first, rest⟩ := List.forall_mem_cons.1 h
    exact List.forall_mem_cons.2 ⟨first, about_scope (about_eventsAll methods rest)⟩
  | block body => exact about_scope (about_eventsAll body h)

theorem about_eventsAll (ts : List Tree) (h : ∀ i ∈ identsAll ts, Q i) : ∀ e ∈ eventsAll o ts, e.About Q := by
  cases ts with
  | nil => exact nofun
  | cons t ts =>
    obtain ⟨first, rest⟩ := List.forall_mem_append.1 h
    exact List.forall_mem_append.2 ⟨about_events t first, about_eventsAll ts rest⟩

end

end Tree

namespace Slots

theorem resolveProgram_blames {s s' : Slots} {program : List Tree} {e : ResolveError}
    (formed : ∀ t ∈ program, t.isStatement) (plain : ∀ i ∈ Tree.identsAll program, i.isResolved = false)
    (failed : s.resolveProgram program = (.error e, s')) :
    ∃ name ∈ Tree.identsAll program, e = .undefined name := by
  rw [resolveProgram, resolve, statements_tree formed] at failed
  have walked := Account.tells_walkAll tracing program s
  dsimp only at failed
  generalize (trees program).run s = outcome at walked failed
  obtain ⟨err | resolved, s₁⟩ := outcome
  · cases failed
    -- On names that nothing has resolved the walk gives up in one way only, at a use that finds no declaration.
    have unresolved : ∀ e ∈ Tree.eventsAll .walk program, e.unresolved := by
      intro e member
      have known := Tree.about_eventsAll program plain e member
      cases e with
      | declares name | uses name =>
        have known : name.isResolved = false := known
        simp [Event.unresolved, known]
      | enter | leave => rfl
    obtain ⟨name, rfl, before, after, out, F, split, -⟩ := walked unresolved
    have met : Event.uses name ∈ Tree.eventsAll .walk program := by simp [split]
    exact ⟨name, Tree.about_eventsAll program (fun _ member => member) _ met, rfl⟩
  · cases failed

end Slots

section Spans

variable {text : String} {tokens : List Token}

theorem tokenized_of_scan (scanned : scan text = .ok tokens) : Scan.Tokenized text.toList 0 text.length tokens := by
  have reads := Scan.scan_ok_iff.1 scanned
  have tokenized : Scan.Tokenized text.toList 0 _ tokens := reads.tokenized (by simp)
  rwa [Nat.zero_add, String.length_toList] at tokenized

theorem standsIn_of_token (scanned : scan text = .ok tokens) :
    ∀ t ∈ tokens, t.kind = .identifier → t.name.StandsIn text := by
  intro t member word
  obtain ⟨span, placed, -, inside⟩ := (tokenized_of_scan scanned).placed t member
  have spelled := (placed.spelled t.lexeme).2 rfl
  refine ⟨t.lexeme.text, span, ?_, placed.nonempty, inside, ?_⟩
  · rw [Token.name, placed.span_eq]
  · unfold Token.kind at word
    generalize t.lexeme = a at spelled word
    generalize Scan.covered text.toList span = w at spelled
    cases spelled with
    | identifier => exact String.toList_ofList.symm
    | punctuation | keyword | string | whole | fraction => cases word

end Spans

namespace Culprit

open Session

variable {t s' : Session} {text : String} {path : Option String}

def Parses (text : String) (program : List Tree) : Prop :=
  ∃ tokens, scan text = .ok tokens ∧ Grammar.parseProgram tokens = .ok program

structure Reading (t : Session) (text : String) (path : Option String) (s : Session) : Prop where
  slots : s.slots = t.slots
  issues : s.report.issues = t.report.issues
  source : s.report.source = some ⟨text, path⟩

theorem ends_failIn {α : Type} {P : Session → Prop} {Q : α → Session → Prop} {F : Trouble → Session → Prop}
    (phase : Phase) {record : Report.Work Unit}
    (records : ∀ s, P s → ∃ i, record.run s.report = (Report.issue i).run s.report ∧
      ∀ e, e = .failed phase ∨ e = .tooManyIssues →
        F e { s with report := { s.report with issues := s.report.issues ++ [i] } }) :
    Ends P (failIn phase record) Q F := by
  intro s before
  obtain ⟨i, run, failed⟩ := records s before
  rw [failIn_run phase run]
  refine failed _ ?_
  split
  · exact .inr rfl
  · exact .inl rfl

def Blamed (t : Session) (text : String) (path : Option String) (s' : Session) : Prop :=
  ∃ program err, Parses text program ∧ (t.slots.resolveProgram program).1 = .error err ∧
    ∀ name, err = .undefined name → s'.report.issues = t.report.issues ++
      [⟨"I don't see what this refers to.",
        [⟨some ⟨text, path⟩, name.span?, "'" ++ name.shown ++ "' is not declared in any enclosing scope"⟩], []⟩]

def Refused (t : Session) (text : String) (path : Option String) (e : Trouble) (s' : Session) : Prop :=
  (e ≠ .failed .resolve ∧ ∀ program, ¬ Parses text program) ∨ Blamed t text path s'

theorem ends_parseText (t : Session) (text : String) (path : Option String) :
    Ends (· = t) (parseText text path) (fun program s => Reading t text path s ∧ Parses text program)
      (Refused t text path) := by
  have facing : Ends (· = t) (reporting (Report.setSource text path)) (fun _ => Reading t text path)
      (Refused t text path) := by
    rintro s rfl
    exact ⟨rfl, rfl, rfl⟩
  refine facing.bind fun _ => ?_
  cases scanned : scan text with
  | error place =>
    refine ends_failIn .lex fun s _ => ⟨_, rfl, fun e which => .inl ⟨?_, ?_⟩⟩
    · rcases which with rfl | rfl <;> nofun
    · rintro program ⟨tokens, other, -⟩
      cases scanned.symm.trans other
  | ok tokens =>
    refine (Session.ends_info _ fun s written _ reading => ?_).bind fun _ => ?_
    · exact ⟨reading.slots, reading.issues, reading.source⟩
    cases parsed : Grammar.parseProgram tokens with
    | ok program => exact .pure fun s reading => ⟨reading, tokens, scanned, parsed⟩
    | error e =>
      refine ends_failIn .parse fun s _ => ?_
      obtain ⟨i, run⟩ := Report.records_parseError e
      refine ⟨_, run _, fun e which => .inl ⟨?_, ?_⟩⟩
      · rcases which with rfl | rfl <;> nofun
      · rintro program ⟨tokens', scanned', parsed'⟩
        cases scanned.symm.trans scanned'
        cases parsed.symm.trans parsed'

theorem ends_resolve {program : List Tree} (parses : Parses text program) :
    Ends (Reading t text path) (resolve program) (fun _ _ => True) (Refused t text path) := by
  have walked : Ends (Reading t text path)
      (modifyGet fun s => ((s.slots.resolveProgram program).1,
        { s with slots := (s.slots.resolveProgram program).2 }))
      (fun result s => result = (t.slots.resolveProgram program).1 ∧ s.report.issues = t.report.issues ∧
        s.report.source = some ⟨text, path⟩) (Refused t text path) := by
    intro s reading
    exact ⟨by rw [reading.slots], reading.issues, reading.source⟩
  refine walked.bind fun result => ?_
  cases result with
  | ok resolved =>
    intro s _
    obtain ⟨written, run, -⟩ := Report.info_run ["Resolved " ++ toString resolved.length ++ " statement(s)"] s.report
    rw [run_bind, reporting_run, run]
    trivial
  | error err =>
    cases err with
    | mismatch subject =>
      exact ends_failIn .resolve fun s ⟨same, _, _⟩ => ⟨_, rfl, fun _ _ => .inr ⟨program, _, parses, same.symm, nofun⟩⟩
    | undefined name =>
      refine ends_failIn .resolve fun s ⟨same, issues, source⟩ => ?_
      refine ⟨_, rfl, fun _ _ => .inr ⟨program, _, parses, same.symm, ?_⟩⟩
      rintro _ ⟨⟩
      dsimp only
      rw [issues, source]

theorem ends_checkText (t : Session) (text : String) (path : Option String) :
    Ends (· = t) (checkText text path) (fun _ _ => True) (Refused t text path) :=
  (ends_parseText t text path).bind fun _ s both => ends_resolve both.2 s both.1

/-- Every name of a text that is a program stands where its span says. If the text is refused for want of a
declaration, in whatever session, the report points at a name of that very text; and if it does not parse, the
blame is put on one of its tokens or on its end. -/
theorem complaints_point_at_text (text : String) :
    (∀ tokens, scan text = .ok tokens →
      (∀ program, Grammar.parseProgram tokens = .ok program → ∀ i ∈ Tree.identsAll program, i.StandsIn text) ∧
      (∀ e, Grammar.parseExpression tokens = .ok e → ∀ i ∈ e.idents, i.StandsIn text) ∧
      (∀ e, Grammar.parseProgram tokens = .error e ∨ Grammar.parseExpression tokens = .error e →
        e.here.place ≤ tokens.length ∧
        (e.here.place < tokens.length → ∃ t span, e.token? = some t ∧ tokens[e.here.place]? = some t ∧
          t.span = some span ∧ span.start < span.stop ∧ span.stop ≤ text.length))) ∧
    (∀ (s s' : Session) (path : Option String) (trouble : Trouble),
      (checkText text path).run s = (.error trouble, s') →
      trouble = .failed .resolve ∨ (∃ program, Parses text program) →
      ∃ program word span, Parses text program ∧
        (s.slots.resolveProgram program).1 = .error (.undefined (.name word (some span))) ∧
        .name word (some span) ∈ Tree.identsAll program ∧
        span.stop ≤ text.length ∧ Scan.covered text.toList span = word.toList ∧
        s'.report.issues = s.report.issues ++ [⟨"I don't see what this refers to.",
          [⟨some ⟨text, path⟩, some span, "'" ++ word ++ "' is not declared in any enclosing scope"⟩], []⟩]) := by
  constructor
  · intro tokens scanned
    have named := standsIn_of_token scanned
    refine ⟨fun program => Grammar.names_of_program named, fun e => Grammar.names_of_expression named, ?_⟩
    intro e failed
    have blames : e.here.place ≤ tokens.length ∧ e.token? = tokens[e.here.place]? := by
      rcases failed with failed | failed <;> exact Grammar.token?_of_error failed
    obtain ⟨within, blamed⟩ := blames
    refine ⟨within, fun before => ?_⟩
    have here := List.getElem?_eq_getElem before
    obtain ⟨span, placed, -, inside⟩ := (tokenized_of_scan scanned).placed _ (List.getElem_mem before)
    exact ⟨_, span, blamed.trans here, here, placed.span_eq, placed.nonempty, inside⟩
  · intro s s' path trouble run parsed
    have ends := ends_checkText s text path s rfl
    rw [run] at ends
    rcases ends with ⟨other, none⟩ | ⟨program, err, parses, failed, points⟩
    · rcases parsed with rfl | ⟨program, parses⟩
      · contradiction
      · exact absurd parses (none program)
    obtain ⟨tokens, scanned, parsed⟩ := id parses
    have stands := Grammar.names_of_program (standsIn_of_token scanned) parsed
    have plain : ∀ i ∈ Tree.identsAll program, i.isResolved = false := by
      intro i member
      obtain ⟨word, span, rfl, -⟩ := stands i member
      rfl
    obtain ⟨name, member, rfl⟩ := Slots.resolveProgram_blames (Grammar.isStatement_of_program parsed) plain
      (Prod.ext failed rfl)
    obtain ⟨word, span, rfl, -, inside, covers⟩ := stands name member
    exact ⟨program, word, span, parses, failed, member, inside, covers, points _ rfl⟩

theorem complaints_point_at_x :
    let s : Session := ⟨.new false 3, .empty, .onChain fun _ => 0, ⟨20, 5⟩⟩
    (∃ s' trouble program word span, (checkText "\nx;" none).run s = (.error trouble, s') ∧ Parses "\nx;" program ∧
      .name word (some span) ∈ Tree.identsAll program ∧ Scan.covered "\nx;".toList span = word.toList ∧
      s'.report.issues = [⟨"I don't see what this refers to.",
        [⟨some ⟨"\nx;", none⟩, some span, "'" ++ word ++ "' is not declared in any enclosing scope"⟩], []⟩]) ∧
    (∃ tokens e t span, scan "x x" = .ok tokens ∧ Grammar.parseProgram tokens = .error e ∧
      e.here.place < tokens.length ∧ e.token? = some t ∧ t.span = some span ∧ span.stop ≤ "x x".length) := by
  intro s
  constructor
  -- The state that the check leaves holds hashes of names and is never written out: only whether it fails is computed,
  -- and what the report says comes from the theorem.
  · have stuck : ((checkText "\nx;" none).run s).1.toOption.isNone = true := by decide +kernel
    have scanned : scan "\nx;" = .ok [⟨.identifier "x", some ⟨1, 2⟩⟩, ⟨.mark .semicolon, some ⟨2, 3⟩⟩] := by rfl
    have parsed : Grammar.parseProgram [⟨.identifier "x", some ⟨1, 2⟩⟩, ⟨.mark .semicolon, some ⟨2, 3⟩⟩] =
        .ok [.expression (.reference (.name "x" (some ⟨1, 2⟩)))] := by cbv
    rcases run : (checkText "\nx;" none).run s with ⟨result, s'⟩
    rw [run] at stuck
    cases result with
    | ok _ => cases stuck
    | error trouble =>
      obtain ⟨program, word, span, parses, -, member, -, covers, points⟩ :=
        (complaints_point_at_text "\nx;").2 s s' none trouble run (.inr ⟨_, _, scanned, parsed⟩)
      exact ⟨s', trouble, program, word, span, rfl, parses, member, covers, points⟩
  · have scanned : scan "x x" = .ok [⟨.identifier "x", some ⟨0, 1⟩⟩, ⟨.identifier "x", some ⟨2, 3⟩⟩] := by rfl
    have failed : Grammar.parseProgram [⟨.identifier "x", some ⟨0, 1⟩⟩, ⟨.identifier "x", some ⟨2, 3⟩⟩] =
        .error ⟨"';'", ⟨1, [⟨.identifier "x", some ⟨2, 3⟩⟩], 2⟩⟩ := by cbv
    obtain ⟨-, -, blames⟩ := (complaints_point_at_text "x x").1 _ scanned
    obtain ⟨-, before⟩ := blames _ (.inl failed)
    obtain ⟨t, span, blamed, -, placed, -, inside⟩ := before (by decide)
    exact ⟨_, _, t, span, scanned, failed, by decide, blamed, placed, inside⟩

end Culprit
end Lox
