import Lox.Proofs.Eval.Mirror
import Lox.Proofs.Machine.Collected
import Lox.Proofs.Session.Reports

set_option autoImplicit false

namespace Lox

/-- What can be seen of a series of runs: for each the result as it is displayed, or the trouble it
ended in, and the report as it stands then. -/
def Session.history : Session → List (String × Option String) → List (Except Trouble String × Report)
  | _, [] => []
  | s, (text, path) :: rest =>
    let (result, s') := (runText text path).run s
    (result.map Value.display, s'.report) :: s'.history rest

namespace Mirror

structure Matched (w : World) (s t : Session) : Prop where
  report : s.report = t.report
  quiet : t.report.verbose = false
  slots : s.slots = t.slots
  limits : s.limits = t.limits
  machine : w.States s.machine t.machine

inductive Ended {α : Type} (Q : α → α → Prop) : Except Trouble α → Except Trouble α → Prop
  | ok {x y : α} : Q x y → Ended Q (.ok x) (.ok y)
  | error {e : Trouble} : (∀ x, e ≠ .scope x) → Ended Q (.error e) (.error e)

def Together {α : Type} (Q : World → α → α → Prop) (w : World) (x y : Session.Work α) : Prop :=
  ∀ s t, Matched w s t →
    ∃ w', Matched w' (x.run s).2 (y.run t).2 ∧ Ended (Q w') (x.run s).1 (y.run t).1

namespace Together

variable {α β : Type} {Q : World → α → α → Prop} {R : World → β → β → Prop} {w : World}

theorem pure {a b : α} (h : Q w a b) : Together Q w (pure a) (pure b) :=
  fun _ _ matched => ⟨w, matched, .ok h⟩

theorem throw {e : Trouble} (safe : ∀ x, e ≠ .scope x) : Together Q w (throw e) (throw e) :=
  fun _ _ matched => ⟨w, matched, .error safe⟩

theorem bind {x y : Session.Work α} {f g : α → Session.Work β} (first : Together Q w x y)
    (next : ∀ w' a b, Q w' a b → Together R w' (f a) (g b)) : Together R w (x >>= f) (y >>= g) := by
  intro s t matched
  obtain ⟨w', matched', ended⟩ := first s t matched
  rw [run_bind, run_bind]
  rcases left : x.run s with ⟨r, s'⟩
  rcases right : y.run t with ⟨r', t'⟩
  rw [left, right] at matched' ended
  cases ended with
  | ok both => exact next w' _ _ both s' t' matched'
  | error safe => exact ⟨w', matched', .error safe⟩

end Together

def Calm {α : Type} (work : Report.Work α) : Prop :=
  ∀ r, (work.run r).2.verbose = r.verbose ∧ ∀ e, (work.run r).1 ≠ .error (.scope e)

namespace Calm

theorem setSource (text : String) (path : Option String) : Calm (Report.setSource text path) :=
  fun _ => ⟨rfl, nofun⟩

theorem info (words : List String) : Calm (Report.info words) := by
  intro r
  obtain ⟨written, run, -⟩ := Report.info_run words r
  rw [run]
  exact ⟨rfl, nofun⟩

theorem records {record : Report.Work Unit} (records : Report.Records record) : Calm record := by
  obtain ⟨i, run⟩ := records
  intro r
  rw [run, Report.issue_run]
  refine ⟨rfl, ?_⟩
  dsimp only
  split <;> nofun

end Calm

section Work

variable {α : Type} {Q : World → α → α → Prop} {w : World}

theorem together_reporting {work : Report.Work α} (calm : Calm work) :
    Together (fun _ a b => a = b) w (Session.reporting work) (Session.reporting work) := by
  intro s t matched
  obtain ⟨quiet, safe⟩ := calm t.report
  refine ⟨w, ?_⟩
  rw [Session.reporting_run, Session.reporting_run, matched.report]
  generalize work.run t.report = outcome at quiet safe ⊢
  obtain ⟨r, report⟩ := outcome
  refine ⟨⟨rfl, quiet.trans matched.quiet, matched.slots, matched.limits, matched.machine⟩, ?_⟩
  cases r with
  | ok a => exact .ok rfl
  | error e => exact .error fun x same => safe x (congrArg Except.error same)

theorem info_run {words : List String} {s : Session} (quiet : s.report.verbose = false) :
    (Session.reporting (Report.info words)).run s = (.ok (), s) := by
  rw [Session.reporting_run]
  unfold Report.info
  rw [run_bind, run_get]
  simp only [quiet]
  rfl

theorem together_failIn (phase : Phase) {record : Report.Work Unit} (records : Report.Records record) :
    Together Q w (Session.failIn phase record) (Session.failIn phase record) :=
  (together_reporting (.records records)).bind fun _ _ _ _ => .throw nofun

theorem together_parseText (text : String) (path : Option String) :
    Together (fun _ a b => a = b) w (Session.parseText text path) (Session.parseText text path) := by
  refine (together_reporting (.setSource text path)).bind fun _ _ _ _ => ?_
  cases scan text with
  | error place => exact together_failIn .lex (Report.records_lexicalError place)
  | ok tokens =>
    refine (together_reporting (.info _)).bind fun _ _ _ _ => ?_
    cases Grammar.parseProgram tokens with
    | error e => exact together_failIn .parse (Report.records_parseError e)
    | ok program => exact .pure rfl

theorem together_resolve (program : List Tree) :
    Together (fun _ a b => a = b) w (Session.resolve program) (Session.resolve program) := by
  have slots : Together (fun _ a b => a = b) w
      (modifyGet fun s => ((s.slots.resolveProgram program).1,
        { s with slots := (s.slots.resolveProgram program).2 }))
      (modifyGet fun s => ((s.slots.resolveProgram program).1,
        { s with slots := (s.slots.resolveProgram program).2 })) := by
    intro s t matched
    refine ⟨w, ⟨matched.report, matched.quiet, ?_, matched.limits, matched.machine⟩, .ok ?_⟩
    · exact congrArg (fun slots => (slots.resolveProgram program).2) matched.slots
    · exact congrArg (fun slots => (slots.resolveProgram program).1) matched.slots
  refine slots.bind fun w₁ result result' same => ?_
  subst same
  cases result with
  | error e => exact together_failIn .resolve (Report.records_resolveError e)
  | ok resolved => exact (together_reporting (.info _)).bind fun _ _ _ _ => .pure rfl

theorem together_execute (program : List Tree) :
    Together World.Values w (Session.execute program) (Session.execute program) := by
  refine Together.bind (Q := fun w' => link.Outcome link.values w') ?_ fun w₁ result result' outcome => ?_
  · rintro ⟨report, slots, m, limits⟩ ⟨_, _, n, _⟩ ⟨rfl, quiet, rfl, rfl, agree, a, c, left, right, holds⟩
    obtain ⟨w', -, states, outcome⟩ := sim_interpret limits program holds.mirrors.top
      { m with printed := #[] } { n with printed := #[] } ⟨agree.reset, a, c, left, right, holds⟩
    refine ⟨w', ⟨?_, quiet, rfl, rfl, states⟩, .ok outcome⟩
    exact congrArg (fun printed : Array String =>
      { report with written := report.written ++ printed.map Output.line }) states.agree.printed
  · cases outcome with
    | ok both => exact .pure both
    | returned both => exact .pure both
    | fault alike =>
      dsimp only
      rw [alike.message]
      exact together_failIn .run (Report.records_runtimeError _)
    | endless => exact .throw fun _ same => by cases same

theorem together_tidy {v v' : Value} (both : w.Values v v') :
    Together (fun w' _ _ => w'.Values v v') w (Session.tidy v) (Session.tidy v') := by
  intro s t matched
  obtain ⟨agree, a, c, left, right, holds⟩ := matched.machine
  obtain ⟨w', shrunk, a', run, agree', holds', both'⟩ := tidied agree holds both
  have quiet : s.report.verbose = false := matched.report ▸ matched.quiet
  unfold Session.tidy
  rw [run_bind, run_bind, run_get, run_get]
  dsimp only
  rw [left, right]
  dsimp only
  rw [run_bind, info_run quiet]
  dsimp only
  rw [run]
  refine ⟨w', ⟨matched.report, matched.quiet, matched.slots, matched.limits, ?_⟩, .ok both'⟩
  exact ⟨agree'.scopes _ _, a', c, rfl, right, holds'⟩

theorem together_runProgram (program : List Tree) :
    Together World.Values w (Session.runProgram program) (Session.runProgram program) := by
  refine (together_resolve program).bind fun w₁ resolved resolved' same => ?_
  subst same
  refine (together_execute resolved).bind fun w₂ v v' both => ?_
  exact (together_tidy both).bind fun w₃ _ _ both => .pure both

theorem together_runText (text : String) (path : Option String) :
    Together World.Values w (Session.runText text path) (Session.runText text path) := by
  refine (together_parseText text path).bind fun w₁ program program' same => ?_
  subst same
  exact together_runProgram program

end Work

theorem states_new (clock : Nat → Float) :
    World.States ⟨fun s => if s = root then some root else none, fun _ => False, fun _ => False⟩
      (.onArena clock) (.onChain clock) where
  agree := ⟨rfl, nofun, nofun, nofun, rfl, rfl, rfl, rfl⟩
  scopes := ⟨.new, .new, rfl, rfl, .new, fun _ => ⟨nofun, nofun⟩⟩

theorem states_install (slots : Slots) (natives : List Native) {w : World} {m n : Machine}
    (states : w.States m n) :
    ∃ w', World.States w' (Session.install slots natives m) (Session.install slots natives n) := by
  induction natives generalizing w m n with
  | nil => exact ⟨w, states⟩
  | cons f rest ih =>
    unfold Session.install
    cases slots.globalSlot f.name with
    | error e => exact ih states
    | ok slot =>
      have ⟨_, a, c, _, _, holds⟩ := states
      obtain ⟨w', -, states', -⟩ := (sure_defineName holds.mirrors.top slot (.native f)).sim m n states
      exact ih states'

theorem matched_start {report : Report} (quiet : report.verbose = false) (clock : Nat → Float)
    (limits : Limits) :
    ∃ w, Matched w (.start report (.onArena clock) limits) (.start report (.onChain clock) limits) := by
  unfold Session.start Session.withNatives
  generalize Session.nativeSlots = slots
  obtain ⟨w, states⟩ := states_install slots Native.all (states_new clock)
  exact ⟨w, rfl, quiet, rfl, rfl, states⟩

theorem history_eq {w : World} {s t : Session} (matched : Matched w s t)
    (texts : List (String × Option String)) :
    s.history texts = t.history texts ∧ ∀ e ∈ s.history texts, ∀ x, e.1 ≠ .error (.scope x) := by
  induction texts generalizing w s t with
  | nil => exact ⟨rfl, nofun⟩
  | cons input rest ih =>
    obtain ⟨text, path⟩ := input
    obtain ⟨w', matched', ended⟩ := together_runText text path s t matched
    unfold Session.history
    generalize (Session.runText text path).run s = left at matched' ended ⊢
    generalize (Session.runText text path).run t = right at matched' ended ⊢
    obtain ⟨r, s'⟩ := left
    obtain ⟨r', t'⟩ := right
    obtain ⟨same, safe⟩ := ih matched'
    have shown : r.map Value.display = r'.map Value.display ∧
        ∀ x, r.map Value.display ≠ .error (.scope x) := by
      cases ended with
      | ok both => exact ⟨congrArg Except.ok (World.Values.alike both).display, nofun⟩
      | error harmless => exact ⟨rfl, fun x same => harmless x (Except.error.inj same)⟩
    dsimp only at matched' same safe ⊢
    rw [shown.1, matched'.report, same]
    refine ⟨rfl, fun e member => ?_⟩
    rcases List.mem_cons.1 member with rfl | later
    · exact shown.1 ▸ shown.2
    · exact safe e (same ▸ later)

end Mirror

/-- Whether scopes are kept in an arena, where they are dropped, collected and their ids used again,
or in a chain, where nothing is ever given up, cannot be told from what a session shows; and the arena
never has a scope asked for that is gone. -/
theorem Session.history_onArena {report : Report} (quiet : report.verbose = false)
    (clock : Nat → Float) (limits : Limits) (texts : List (String × Option String)) :
    (Session.start report (.onArena clock) limits).history texts =
        (Session.start report (.onChain clock) limits).history texts ∧
      ∀ e ∈ (Session.start report (.onArena clock) limits).history texts,
        ∀ x, e.1 ≠ .error (.scope x) := by
  obtain ⟨w, matched⟩ := Mirror.matched_start quiet clock limits
  exact Mirror.history_eq matched texts

theorem Session.history_onArena_counter :
    (Report.new false 20).verbose = false ∧
      (Session.start (.new false 20) (.onArena fun _ => 0) .standard).history
          [("fun make() \x7b var n = 0; fun up() \x7b n = n + 1; return n; \x7d return up; \x7d", none),
            ("var up = make(); \x7b var gone = up; \x7d print up();", none), ("print up();", none)] =
        (Session.start (.new false 20) (.onChain fun _ => 0) .standard).history
          [("fun make() \x7b var n = 0; fun up() \x7b n = n + 1; return n; \x7d return up; \x7d", none),
            ("var up = make(); \x7b var gone = up; \x7d print up();", none), ("print up();", none)] :=
  ⟨rfl, (history_onArena rfl _ _ _).1⟩

end Lox
