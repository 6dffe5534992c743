import Lox.Proofs.Slots.Issued

set_option autoImplicit false

namespace Lox.Slots

inductive Call where
  | program (subjects : List Subject)
  | expression (subject : Subject)

namespace Call

def run : Call → Slots → Except ResolveError (List Tree) × Slots
  | program subjects, s => s.resolve subjects
  | expression subject, s =>
    let (result, s') := s.resolveExpression subject
    (result.map ([·]), s')

-- The trees that the call walks, if it does not refuse its subjects.
def walked : Call → List Tree
  | program subjects => (statements subjects).toOption.getD []
  | expression (.tree t) => if t.isExpression then [t] else []
  | expression (.ident _) => []

def events (call : Call) : List Event := Tree.eventsAll .walk call.walked

def WellFormed : Call → Prop
  | program subjects => ∀ t, .tree t ∈ subjects → t.WellFormed fun _ => true
  | expression (.tree t) => t.WellFormed fun _ => true
  | expression (.ident _) => True

end Call

def after (s : Slots) : List Call → Slots
  | [] => s
  | call :: calls => after (call.run s).2 calls

def givenOut (s : Slots) : List Call → List Ident
  | [] => []
  | call :: calls => issued call.events s ++ givenOut (call.run s).2 calls

def history (names : List String) (calls : List Call) : List Ident :=
  issued (names.map fun text => .declares (.name text none)) empty ++ givenOut (ofNames names) calls

structure Consistent (log : List Ident) (s : Slots) (call : Call) : Prop where
  depth : (call.run s).2.depth = 1
  counter : s.next ≤ (call.run s).2.next
  once : (log ++ issued call.events s).map Ident.key =
    (List.range (call.run s).2.next).map Int.ofNat
  placed : ∀ resolved, (call.run s).1 = .ok resolved →
    OneEach call.events (Tree.eventsAll .walk resolved) ∧
    ∀ x, .declares x ∈ Tree.eventsAll .walk resolved ∨ .uses x ∈ Tree.eventsAll .walk resolved →
      x ∈ log ++ issued call.events s
  global : ∀ calls key slot, (call.run s).2.globals.find? key = some slot →
    (after (call.run s).2 calls).globals.find? key = some slot
  restored : (∀ resolved, (call.run s).1 ≠ .ok resolved) ∨ (∃ subject, call = .expression subject) →
    (call.run s).2.globals = s.globals

variable {s s' s₁ : Slots} {log : List Ident} {E out : List Event} {err : ResolveError}

theorem inner_of_depth (top : s.depth = 1) : s.inner = [] := by simpa [depth] using top

structure Walked (log : List Ident) (s : Slots) (E : List Event) (s' : Slots) : Prop where
  depth : s'.depth = 1
  counter : s.next ≤ s'.next
  logged : Logged (log ++ issued E s) s'
  kept : ∀ key slot, s.globals.find? key = some slot → s'.globals.find? key = some slot
  still : Event.confined 0 E → s'.globals = s.globals

-- The log, with no scope but the global one open.
theorem Logged.outside (h : Logged log s₁) (top : s'.depth = 1) (next : s'.next = s₁.next)
    (globals : s'.globals = s₁.globals) : Logged log s' := by
  refine ⟨next ▸ h.indices, h.slots, ?_, globals ▸ h.apart⟩
  rw [frames_top top, List.forall_mem_singleton, globals]
  exact h.held _ (by simp [frames])

theorem Walked.restore (h : Walked log s E s') (logged : Logged log s) :
    Walked log s E { s' with globals := s.globals } := by
  refine ⟨h.depth, h.counter, ⟨h.logged.indices, h.logged.slots, ?_, logged.apart⟩, ?_, fun _ => rfl⟩
  · rw [frames_top (s := { s' with globals := s.globals }) h.depth, List.forall_mem_singleton]
    exact fun d member => List.mem_append_left _ (logged.held _ (by simp [frames]) d member)
  · exact fun key slot known => known

theorem walked_done (h : stepping.done s E out s') (top : s.depth = 1) (logged : Logged log s) :
    Walked log s E s' ∧ OneEach E out ∧
      ∀ x, .declares x ∈ out ∨ .uses x ∈ out → x ∈ log ++ issued E s := by
  obtain ⟨steps, inner⟩ := h
  obtain ⟨new, after, given, slots⟩ := steps.logged logged
  have all := given []
  rw [List.append_nil, issued, List.append_nil] at all
  rw [all]
  refine ⟨⟨?_, steps.next_le, all ▸ after, fun _ _ => steps.globals, ?_⟩, steps.oneEach top logged, slots⟩
  · rw [depth, inner, inner_of_depth top]
    rfl
  · intro within
    refine steps.confined [] ?_
    rwa [inner_of_depth top, List.append_nil]

theorem walked_failed (h : stepping.failed s E err s') (top : s.depth = 1) (logged : Logged log s) :
    Walked log s E s' := by
  obtain ⟨before, e, rest, out, s₁, rfl, steps, halts, globals, next, inner⟩ := h
  obtain ⟨new, after, given, -⟩ := steps.logged logged
  have all : issued (before ++ e :: rest) s = new := by rw [given, halts.issued, List.append_nil]
  have depth : s'.depth = 1 := by
    rw [Slots.depth, inner, inner_of_depth top]
    rfl
  refine ⟨depth, next ▸ steps.next_le, ?_, ?_, ?_⟩
  · rw [all]
    exact after.outside depth next globals
  · rw [globals]
    exact fun _ _ => steps.globals
  · intro within
    rw [globals]
    refine steps.confined (e :: rest) ?_
    rwa [inner_of_depth top]

theorem Walked.refl (top : s.depth = 1) (logged : Logged log s) : Walked log s [] s :=
  ⟨top, Nat.le_refl _, by simpa [issued] using logged, fun _ _ known => known, fun _ => rfl⟩

theorem Call.walked_run (call : Call) (top : s.depth = 1) (logged : Logged log s) :
    Walked log s call.events (call.run s).2 ∧
    (∀ resolved, (call.run s).1 = .ok resolved → OneEach call.events (Tree.eventsAll .walk resolved) ∧
      ∀ x, .declares x ∈ Tree.eventsAll .walk resolved ∨ .uses x ∈ Tree.eventsAll .walk resolved →
        x ∈ log ++ issued call.events s) ∧
    (call.WellFormed →
      (∀ resolved, (call.run s).1 ≠ .ok resolved) ∨ (∃ subject, call = .expression subject) →
      (call.run s).2.globals = s.globals) := by
  cases call with
  | program subjects =>
    simp only [Call.run, resolve, Call.events, Call.walked]
    cases statements subjects with
    | error e => exact ⟨.refl top logged, nofun, fun _ _ => rfl⟩
    | ok ts =>
      have told := stepping.tells_walkAll ts s
      simp only [Except.toOption, Option.getD_some]
      generalize (trees ts).run s = outcome at told ⊢
      obtain ⟨err | resolved, s₁⟩ := outcome
      · exact ⟨(walked_failed told top logged).restore logged, nofun, fun _ _ => rfl⟩
      · obtain ⟨_, rfl, done⟩ := told
        obtain ⟨walked, placed⟩ := walked_done done top logged
        refine ⟨walked, ?_, ?_⟩
        · rintro _ ⟨⟩
          exact placed
        · rintro - (failed | ⟨_, ⟨⟩⟩)
          exact absurd rfl (failed resolved)
  | expression subject =>
    cases subject with
    | ident i => exact ⟨.refl top logged, nofun, fun _ _ => rfl⟩
    | tree t =>
      simp only [Call.run, resolveExpression, Call.events, Call.walked]
      by_cases expression : t.isExpression
      · have told := stepping.tells_walk t s
        simp only [expression, if_true, Tree.eventsAll, List.append_nil]
        have level : t.WellFormed (fun _ => true) → Event.confined 0 (t.events .walk) := fun formed =>
          (Tree.within_events _ t (.inr ⟨expression, formed⟩)).confined
        generalize (tree t).run s = outcome at told ⊢
        obtain ⟨err | resolved, s₁⟩ := outcome
        · have walked := walked_failed told top logged
          exact ⟨walked, nofun, fun formed _ => walked.still (level formed)⟩
        · obtain ⟨_, rfl, done⟩ := told
          obtain ⟨walked, placed⟩ := walked_done done top logged
          refine ⟨walked, ?_, fun formed _ => walked.still (level formed)⟩
          rintro _ ⟨⟩
          simpa [Tree.eventsAll] using placed
      · simp only [expression]
        exact ⟨.refl top logged, nofun, fun _ _ => rfl⟩

theorem after_kept (calls : List Call) (top : s.depth = 1) (logged : Logged log s) {key : Int}
    {slot : Ident} (known : s.globals.find? key = some slot) :
    (after s calls).globals.find? key = some slot := by
  induction calls generalizing s log with
  | nil => exact known
  | cons call calls ih =>
    have walked := (call.walked_run top logged).1
    exact ih walked.depth walked.logged (walked.kept key slot known)

theorem logged_after (calls : List Call) (top : s.depth = 1) (logged : Logged log s) :
    (after s calls).depth = 1 ∧ Logged (log ++ givenOut s calls) (after s calls) := by
  induction calls generalizing s log with
  | nil => exact ⟨top, by simpa [givenOut, after] using logged⟩
  | cons call calls ih =>
    have walked := (call.walked_run top logged).1
    have rest := ih walked.depth walked.logged
    rwa [List.append_assoc] at rest

theorem steps_ofNames (names : List String) (s : Slots) :
    ∃ out, stepping.done s (names.map fun text => .declares (.name text none)) out
      (names.foldl (fun s text => ((declare (.name text none)).run s).2) s) := by
  induction names generalizing s with
  | nil => exact ⟨[], .nil, rfl⟩
  | cons text names ih =>
    rcases run : (declare (.name text none)).run s with ⟨err | slot, s₁⟩
    · cases (declare_failed run).1
    · obtain ⟨out, rest, inner⟩ := ih s₁
      refine ⟨.declares slot :: out, .cons (.declares run) ?_, ?_⟩
      · rw [List.foldl_cons, run]
        exact rest
      · rw [List.foldl_cons, run]
        exact inner.trans (declares_of_run run).meets.2

theorem logged_empty : Logged [] empty :=
  ⟨rfl, nofun, by simp [frames, empty], nofun⟩

/-- Whatever a resolver has been asked before, no slot is given out twice, declarations share a slot
just when they share key and scope, globals keep theirs, and neither failures nor expressions touch
the global scope. -/
theorem consistent_calls (names : List String) (calls : List Call) (call : Call)
    (formed : call.WellFormed) :
    Consistent (history names calls) (after (ofNames names) calls) call := by
  obtain ⟨out, predeclared⟩ := steps_ofNames names empty
  have start := (walked_done predeclared rfl logged_empty).1
  obtain ⟨top, logged⟩ := logged_after calls start.depth start.logged
  obtain ⟨walked, placed, restored⟩ := call.walked_run top logged
  exact {
    depth := walked.depth
    counter := walked.counter
    once := walked.logged.indices
    placed := placed
    global := fun calls _ _ known => after_kept calls walked.depth walked.logged known
    restored := restored formed }

-- A program that fails after a declaration, then `fun (a) {}` on its own.
theorem consistent_calls_after_failure :
    (Call.expression (.tree (.lambda [.hash 1] []))).WellFormed ∧
    Consistent
      (history [] [.program [.tree (.declare (.hash 0) (.literal .nil)),
        .tree (.print (.reference (.hash 9)))]])
      (after (ofNames []) [.program [.tree (.declare (.hash 0) (.literal .nil)),
        .tree (.print (.reference (.hash 9)))]])
      (.expression (.tree (.lambda [.hash 1] []))) := by
  have formed : (Call.expression (.tree (.lambda [.hash 1] []))).WellFormed := by
    simp [Call.WellFormed, Tree.WellFormed, Tree.WellFormedAll]
  exact ⟨formed, consistent_calls _ _ _ formed⟩

end Lox.Slots
