import Lox.Proofs.Eval.Renamed
import Lox.Proofs.Session.Reports
import Lox.Proofs.Slots.Renamed

set_option autoImplicit false

namespace Lox

namespace Report

-- The report `b` after more has been written and noted.
def later (b : Report) (source : Option Source) (issues : List Issue) (new : Array Output) : Report :=
  { b with source, issues, written := b.written ++ new }

structure Alike (b b' r r' : Report) : Prop where
  verbose : b.verbose = b'.verbose
  maxIssues : b.maxIssues = b'.maxIssues
  since : ∃ source issues new, r = b.later source issues new ∧ r' = b'.later source issues new

variable {b b' r r' : Report} {α : Type}

namespace Alike

theorem same (h : Alike b b' r r') : r.verbose = r'.verbose ∧ r.maxIssues = r'.maxIssues ∧
    r.issues = r'.issues ∧ r.source = r'.source := by
  obtain ⟨verbose, maxIssues, source, issues, new, rfl, rfl⟩ := h
  exact ⟨verbose, maxIssues, rfl, rfl⟩

theorem facing (h : Alike b b' r r') (source : Option Source) :
    Alike b b' { r with source } { r' with source } := by
  obtain ⟨verbose, maxIssues, _, issues, new, rfl, rfl⟩ := h
  exact ⟨verbose, maxIssues, source, issues, new, rfl, rfl⟩

theorem noted (h : Alike b b' r r') (i : Issue) :
    Alike b b' { r with issues := r.issues ++ [i] } { r' with issues := r'.issues ++ [i] } := by
  obtain ⟨verbose, maxIssues, source, issues, new, rfl, rfl⟩ := h
  exact ⟨verbose, maxIssues, source, issues ++ [i], new, rfl, rfl⟩

theorem wrote (h : Alike b b' r r') (more : Array Output) :
    Alike b b' { r with written := r.written ++ more } { r' with written := r'.written ++ more } := by
  obtain ⟨verbose, maxIssues, source, issues, new, rfl, rfl⟩ := h
  refine ⟨verbose, maxIssues, source, issues, new ++ more, ?_, ?_⟩ <;>
    simp only [later, Array.append_assoc]

end Alike

abbrev InStep (b b' : Report) {α : Type} : Work α → Work α → Prop :=
  Lockstep (Alike b b') Eq Eq

theorem inStep_setSource (text : String) (path : Option String) :
    InStep b b' (setSource text path) (setSource text path) :=
  (Lockstep.modify fun _ _ h => h.facing _).imp fun _ _ _ => rfl

theorem inStep_write (o : Output) : InStep b b' (write o) (write o) := by
  refine (Lockstep.modify fun r r' h => ?_).imp fun _ _ _ => rfl
  rw [Array.push_eq_append, Array.push_eq_append]
  exact h.wrote #[o]

theorem inStep_info (words : List String) : InStep b b' (info words) (info words) := by
  refine Lockstep.get.bind fun r r' h => ?_
  rw [h.same.1]
  split
  · exact inStep_write _
  · exact .pure rfl

theorem inStep_issue (i : Issue) : InStep b b' (issue i) (issue i) := by
  refine (Lockstep.modify fun r r' h => h.noted i).bind fun _ _ _ => Lockstep.get.bind fun r r' h => ?_
  obtain ⟨-, maxIssues, issues, -⟩ := h.same
  rw [maxIssues, issues]
  split
  · exact .throw rfl
  · exact .pure rfl

theorem Records.inStep {record : Work Unit} (records : Records record) : InStep b b' record record := by
  obtain ⟨i, run⟩ := records
  intro r r' h
  obtain ⟨-, -, -, source⟩ := h.same
  rw [run, run, source]
  exact inStep_issue _ r r' h

end Report

structure Session.Alongside (K : Report → Report → Prop) (R : Renaming) (s t : Session) : Prop where
  slots : s.slots.Aligned R t.slots
  top : s.slots.depth = 1
  machine : s.machine.Renamed R t.machine
  limits : s.limits = t.limits
  report : K s.report t.report

namespace Session

variable {b b' : Report} {R : Renaming} {S : Session → Session → Prop} {α : Type} {Q : α → α → Prop}

structure Apart (b b' : Report) (S : Session → Session → Prop) : Prop where
  report : ∀ {s t}, S s t → Report.Alike b b' s.report t.report
  other : ∀ {s t r r'}, S s t → Report.Alike b b' r r' →
    S { s with report := r } { t with report := r' }

namespace Apart

theorem reporting {work : Report.Work α} (apart : Apart b b' S) (h : Report.InStep b b' work work) :
    Lockstep S Eq Eq (reporting work) (reporting work) := by
  intro s t related
  obtain ⟨report, both⟩ := h s.report t.report (apart.report related)
  exact ⟨apart.other related report, both⟩

theorem failIn (apart : Apart b b' S) (phase : Phase) {record : Report.Work Unit}
    (records : Report.Records record) : Lockstep S Eq Q (failIn phase record) (failIn phase record) :=
  (apart.reporting records.inStep).bind fun _ _ _ => .throw rfl

theorem parseText (apart : Apart b b' S) (text : String) (path : Option String) :
    Lockstep S Eq Eq (parseText text path) (parseText text path) := by
  refine (apart.reporting (Report.inStep_setSource text path)).bind fun _ _ _ => ?_
  cases scan text with
  | error place => exact apart.failIn .lex (Report.records_lexicalError place)
  | ok tokens =>
    refine (apart.reporting (Report.inStep_info _)).bind fun _ _ _ => ?_
    cases Grammar.parseProgram tokens with
    | error e => exact apart.failIn .parse (Report.records_parseError e)
    | ok program => exact .pure rfl

end Apart

theorem apart_alongside : Apart b b' (Alongside (Report.Alike b b') R) where
  report related := related.report
  other related alike := ⟨related.slots, related.top, related.machine, related.limits, alike⟩

abbrev InStep (b b' : Report) (R : Renaming) {α : Type} : (α → α → Prop) → Work α → Work α → Prop :=
  Lockstep (Alongside (Report.Alike b b') R) Eq

theorem unison_resolve (program : List Tree) :
    Unison (Alongside (Report.Alike b b')) Eq R Tree.RenamedAll (resolve program) (resolve program) := by
  have walked : Unison (Alongside (Report.Alike b b')) (Eq : Trouble → Trouble → Prop) R
      (fun R' => Both Eq (Tree.RenamedAll R'))
      (modifyGet fun s => ((s.slots.resolveProgram program).1,
        { s with slots := (s.slots.resolveProgram program).2 }))
      (modifyGet fun s => ((s.slots.resolveProgram program).1,
        { s with slots := (s.slots.resolveProgram program).2 })) := by
    intro s t related
    obtain ⟨R', le, aligned, both⟩ := related.slots.resolveProgram program
    obtain ⟨top, -⟩ := Slots.resolveProgram_outside program related.top
    exact ⟨R', le, ⟨aligned, top, related.machine.mono le, related.limits, related.report⟩, .ok both⟩
  refine walked.bind fun R' le result result' both => ?_
  cases both with
  | error same =>
    cases same
    exact Lockstep.unison (apart_alongside.failIn .resolve (Report.records_resolveError _))
  | ok both =>
    dsimp only
    rw [both.length_eq]
    exact Lockstep.unison ((apart_alongside.reporting (Report.inStep_info _)).bind fun _ _ _ => .pure both)

theorem inStep_execute {program program' : List Tree} (renamed : Tree.RenamedAll R program program') :
    InStep b b' R (Value.Renamed R) (execute program) (execute program') := by
  refine Lockstep.bind (Q := Both (Stop.Renamed R) (Value.Renamed R)) ?_ fun result result' both => ?_
  · refine .modifyGet fun s t related => ?_
    have ⟨slots, top, machine, limits, report⟩ := related
    obtain ⟨machine', both⟩ := Eval.inStep_interpret t.limits renamed { s.machine with printed := #[] }
      { t.machine with printed := #[] }
      ⟨machine.scopes, machine.instances, machine.nextTag, rfl, machine.clock, machine.readings⟩
    -- What has been printed is the same on both sides, so the same is added to both reports.
    dsimp only at machine' both ⊢
    rw [limits]
    generalize (interpret t.limits program).run _ = left at machine' both ⊢
    generalize (interpret t.limits program').run _ = right at machine' both ⊢
    obtain ⟨result, m⟩ := left
    obtain ⟨result', n⟩ := right
    have printed : m.printed = n.printed := machine'.printed
    dsimp only
    rw [printed]
    exact ⟨⟨slots, top, machine', rfl, report.wrote _⟩, both⟩
  · cases both with
    | ok both => exact .pure both
    | error stop =>
      cases stop with
      | returned both => exact .pure both
      | fault alike =>
        dsimp only
        rw [alike.message]
        exact apart_alongside.failIn .run (Report.records_runtimeError _)
      | scope e => exact .throw rfl
      | endless => exact .throw rfl

theorem inStep_tidy {v v' : Value} (both : v.Renamed R v') :
    InStep b b' R (fun _ _ => True) (tidy v) (tidy v') := by
  refine Lockstep.get.bind fun s t related => ?_
  have heap := related.machine.heap
  have scopes := related.machine.scopes
  generalize s.machine.scopes = left at scopes ⊢
  generalize t.machine.scopes = right at scopes ⊢
  cases scopes with
  | chain => exact .pure trivial
  | @arena a c arenas =>
    obtain ⟨tidied, outcome⟩ := ((Arena.inStep_collect heap (.cons (.value both) .nil)).bind fun _ _ _ =>
      Arena.inStep_compact) a c arenas
    dsimp only
    generalize (do let _ ← Arena.collect s.machine.heap [.value v]; Arena.compact).run a = left
      at tidied outcome ⊢
    generalize (do let _ ← Arena.collect t.machine.heap [.value v']; Arena.compact).run c = right
      at tidied outcome ⊢
    obtain ⟨result, a'⟩ := left
    obtain ⟨result', c'⟩ := right
    -- Ids are not renamed, so even the chatter about the arena is the same.
    rw [arenas.table.size, arenas.activeScopes]
    refine (apart_alongside.reporting (Report.inStep_info _)).bind fun _ _ _ => ?_
    refine (Lockstep.modify fun s t related => ?_).bind fun _ _ _ => ?_
    · have machine := related.machine
      exact ⟨related.slots, related.top, ⟨.arena tidied, machine.instances, machine.nextTag,
        machine.printed, machine.clock, machine.readings⟩, related.limits, related.report⟩
    · cases outcome with
      | ok => exact .pure trivial
      | error same =>
        cases same
        exact .throw rfl

theorem unison_runText (text : String) (path : Option String) :
    Unison (Alongside (Report.Alike b b')) Eq R Value.Renamed (runText text path)
      (runText text path) := by
  refine Unison.bind (Q := fun _ => Eq) (Lockstep.unison (apart_alongside.parseText text path)) ?_
  rintro R₁ - program _ rfl
  refine (unison_resolve program).bind fun R₂ le resolved resolved' renamed => Lockstep.unison ?_
  refine (inStep_execute renamed).bind fun v v' both => ?_
  exact (inStep_tidy both).bind fun _ _ _ => .pure both

theorem renamed_new (clock : Nat → Float) {machine : Machine}
    (kind : machine = .onChain clock ∨ machine = .onArena clock) : machine.Renamed R machine := by
  have scopes : machine.scopes.Renamed R (Value.Renamed R) machine.scopes := by
    rcases kind with rfl | rfl
    · exact .chain (Paired.push .empty ⟨rfl, .nil⟩)
    · exact .arena ⟨Paired.push .empty ⟨rfl, rfl, .nil, rfl⟩, rfl, rfl⟩
  have instances : machine.instances = #[] := by rcases kind with rfl | rfl <;> rfl
  exact ⟨scopes, instances ▸ .empty, rfl, rfl, rfl, rfl⟩

theorem renamed_install {slots slots' : Slots} (aligned : slots.Aligned R slots')
    (natives : List Native) {m n : Machine} (renamed : m.Renamed R n) :
    (install slots natives m).Renamed R (install slots' natives n) := by
  induction natives generalizing m n with
  | nil => exact renamed
  | cons f rest ih =>
    have found := aligned.globalSlot f.name
    unfold install
    generalize slots.globalSlot f.name = x at found ⊢
    generalize slots'.globalSlot f.name = y at found ⊢
    cases found with
    | error => exact ih renamed
    | ok slot => exact ih (Eval.inStep_define slot root (.native f) m n renamed).1

theorem alongside_start {K : Report → Report → Prop} {report : Report} (same : K report report)
    (clock : Nat → Float) {machine : Machine}
    (kind : machine = .onChain clock ∨ machine = .onArena clock) (limits : Limits) :
    ∃ R, Alongside K R (start report machine limits) (start report machine limits) := by
  have aligned : ∃ R, nativeSlots.Aligned R nativeSlots := Slots.aligned_ofNames _
  have top : nativeSlots.depth = 1 := congrArg Slots.depth (Slots.ofNames_one "clock")
  unfold start withNatives
  generalize nativeSlots = slots at aligned top ⊢
  obtain ⟨R, aligned⟩ := aligned
  exact ⟨R, aligned, top, renamed_install aligned Native.all (renamed_new clock kind), rfl, same⟩

end Session
end Lox
