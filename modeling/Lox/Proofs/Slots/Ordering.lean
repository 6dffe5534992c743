import Lox.Proofs.Slots.Traces

set_option autoImplicit false

namespace Lox

def Tree.closed (t : Tree) : Bool := Event.confined 0 (t.events .source)

namespace Event

def unresolved : Event → Bool
  | .declares name | .uses name => !name.isResolved
  | _ => true

-- The innermost scope around a place that has a declaration of the key before it.
def Nearest (E : List Event) (key : Int) (place scope : Nat) : Prop :=
  ∃ inner outer, scopes E place = inner ++ scope :: outer ∧
    (∃ earlier < place, Binds E key scope earlier) ∧
    ∀ other ∈ inner, ∀ earlier < place, ¬ Binds E key other earlier

-- No scope around the place has a declaration of the key before it.
def Undeclared (E : List Event) (key : Int) (place : Nat) : Prop :=
  ∀ scope ∈ scopes E place, ∀ earlier < place, ¬ Binds E key scope earlier

end Event

namespace Slots

open Event (scopes Binds Nearest Undeclared)

/-- The uses have the slots of the nearest declarations before them, or else of declarations in
`globals`, which come from earlier programs. -/
def Scoped (globals : StaticScope) (E out : List Event) : Prop :=
  ∀ place name, E[place]? = some (.uses name) → ∃ slot, out[place]? = some (.uses slot) ∧
    ((∃ scope, Nearest E name.key place scope ∧
        ∀ earlier < place, Binds E name.key scope earlier → out[earlier]? = some (.declares slot)) ∨
      Undeclared E name.key place ∧ globals.find? name.key = some slot)

def Stray (globals : StaticScope) (E : List Event) (name : Ident) : Prop :=
  ∃ place, E[place]? = some (.uses name) ∧ Undeclared E name.key place ∧
    globals.find? name.key = none

variable {globals : StaticScope} {E out : List Event} {F F₁ : List StaticScope} {n : Nat} {key : Int}
  {lax : Bool}

theorem lookup_held {around : List Nat} {slot : Ident}
    (held : List.Forall₂ (Holds globals E out n) around F) (found : lookup F key = some slot) :
    ∃ inner scope outer f, around = inner ++ scope :: outer ∧ Holds globals E out n scope f ∧
      f.find? key = some slot ∧ ∀ other ∈ inner, ∀ earlier < n, ¬ Binds E key other earlier := by
  induction held with
  | nil => cases found
  | @cons scope f around F first rest ih =>
    unfold lookup at found
    rw [List.findSome?_cons] at found
    split at found
    next slot' here =>
      cases found
      exact ⟨[], scope, around, f, rfl, first, here, nofun⟩
    next absent =>
      obtain ⟨inner, scope', outer, f', rfl, holds, here, before⟩ := ih found
      refine ⟨scope :: inner, scope', outer, f', rfl, holds, here, ?_⟩
      intro other member earlier lt binds
      obtain rfl | member := List.mem_cons.1 member
      · obtain ⟨_, -, there⟩ := first.declared lt binds
        exact nomatch absent.symm.trans there
      · exact before other member earlier lt binds

theorem missing_held {around : List Nat} (held : List.Forall₂ (Holds globals E out n) around F)
    (absent : lookup F key = none) :
    ∀ scope ∈ around, ∃ f, Holds globals E out n scope f ∧ f.find? key = none := by
  induction held with
  | nil => simp
  | cons first rest ih =>
    simp only [lookup, List.findSome?_eq_none_iff, List.forall_mem_cons] at absent ih
    intro scope member
    obtain rfl | member := List.mem_cons.1 member
    · exact ⟨_, first, absent.1⟩
    · exact ih absent.2 scope member

theorem Fits.undeclared (fits : Fits globals E out n F) (absent : lookup F key = none) :
    Undeclared E key n ∧ globals.find? key = none := by
  have missing := missing_held fits.held absent
  constructor
  · intro scope member earlier lt binds
    obtain ⟨f, holds, none⟩ := missing scope member
    obtain ⟨_, -, there⟩ := holds.declared lt binds
    exact nomatch none.symm.trans there
  · obtain ⟨f, holds, none⟩ := missing 0 (List.mem_of_getLast? fits.bottom)
    cases known : globals.find? key with
    | none => rfl
    | some slot => exact nomatch none.symm.trans (holds.known rfl known)

theorem Fits.nearest {slot : Ident} (fits : Fits globals E out n F) (found : lookup F key = some slot) :
    (∃ scope, Nearest E key n scope ∧
      ∀ earlier < n, Binds E key scope earlier → out[earlier]? = some (.declares slot)) ∨
      Undeclared E key n ∧ globals.find? key = some slot := by
  obtain ⟨inner, scope, outer, f, around, holds, here, before⟩ := lookup_held fits.held found
  by_cases declared : ∃ earlier < n, Binds E key scope earlier
  · refine .inl ⟨scope, ⟨inner, outer, around, declared, before⟩, ?_⟩
    intro earlier lt binds
    obtain ⟨slot', placed, there⟩ := holds.declared lt binds
    cases here.symm.trans there
    exact placed
  · -- Nothing declares the key here, so it has been known from the start; no scope lies further out.
    obtain ⟨earlier, lt, binds, -⟩ | ⟨rfl, known⟩ := holds.source here
    · exact absurd ⟨earlier, lt, binds⟩ declared
    refine .inr ⟨?_, known⟩
    have sorted := Event.scopes_sorted E n
    rw [around, List.pairwise_append, List.pairwise_cons] at sorted
    intro scope member earlier lt binds
    rw [around, List.mem_append, List.mem_cons] at member
    obtain member | rfl | member := member
    · exact before scope member earlier lt binds
    · exact declared ⟨earlier, lt, binds⟩
    · exact absurd (sorted.2.1.1 scope member) (Nat.not_lt_zero scope)

def Lacks (F : List StaticScope) (E : List Event) (name : Ident) : Prop :=
  ∃ before after out F', E = before ++ .uses name :: after ∧ Traces true F before out F' ∧
    lookup F' name.key = none

theorem Traces.scoped (h : Traces false [globals] E out F) : Scoped globals E out := by
  intro place name here
  obtain ⟨e', F₁, F', placed, before, meets⟩ := h.at_place here
  have reached := Nat.le_of_lt (List.getElem?_eq_some_iff.1 here).1
  cases meets with
  | finds found =>
    refine ⟨_, placed, ((before.fits reached).nearest found).imp_left ?_⟩
    rintro ⟨scope, nearest, slots⟩
    refine ⟨scope, nearest, fun earlier lt binds => ?_⟩
    rw [← List.getElem?_take_of_lt lt]
    exact slots earlier lt binds
  | misses allowed => cases allowed

theorem Lacks.stray {name : Ident} (h : Lacks [globals] E name) : Stray globals E name := by
  obtain ⟨before, after, out, F', rfl, run, absent⟩ := h
  refine ⟨before.length, by simp, ?_⟩
  have run : Traces true [globals] ((before ++ .uses name :: after).take before.length) out F' := by
    simpa using run
  exact (run.fits (by simp)).undeclared absent

theorem Lacks.append {name : Ident} (h : Lacks F E name) (E' : List Event) : Lacks F (E ++ E') name := by
  obtain ⟨before, after, out, F', rfl, run, absent⟩ := h
  exact ⟨before, after ++ E', out, F', by simp, run, absent⟩

theorem Lacks.after {E' : List Event} {name : Ident} (run : Traces lax F E out F₁)
    (h : Lacks F₁ E' name) : Lacks F (E ++ E') name := by
  obtain ⟨before, after, out', F', rfl, run', absent⟩ := h
  exact ⟨E ++ before, after, out ++ out', F', by simp, run.relax.append run'.relax, absent⟩

def tracing : Account where
  done s E out s' := Traces false s.frames E out s'.frames ∧ s'.inner.length = s.inner.length
  failed s E err _ :=
    (∀ e ∈ E, e.unresolved) → ∃ name, err = .undefined name ∧ Lacks s.frames E name
  nil _ := ⟨.nil, rfl⟩
  trans h h' := ⟨h.1.append h'.1, h'.2.trans h.2⟩
  stop E' h plain := by
    obtain ⟨name, same, lacks⟩ := h fun e member => plain e (List.mem_append_left _ member)
    exact ⟨name, same, lacks.append E'⟩
  later h h' plain := by
    obtain ⟨name, same, lacks⟩ := h' fun e member => plain e (List.mem_append_right _ member)
    exact ⟨name, same, lacks.after h.1⟩
  scope {s s₁ E out} h := by
    obtain ⟨f, g, F, opened, left⟩ := leave_frames h.2
    constructor
    · rw [left]
      rw [opened] at h
      exact .cons .enter (h.1.append (.one .leave))
    · simp [leave, h.2, enter]
  inside {s s₁ E err} h plain := by
    obtain ⟨name, same, lacks⟩ := h fun e member => plain e (by simp [member])
    have entered : Traces false s.frames [.enter] [.enter] s.enter.frames := .one .enter
    exact ⟨name, same, (Lacks.after entered lacks).append [.leave]⟩
  declare_ok run := ⟨.one (declares_of_run run).meets.1, (declares_of_run run).meets.2⟩
  declare_error run plain := by
    simp [Event.unresolved, (declare_failed run).1] at plain
  use_ok run := by
    obtain ⟨found, rfl⟩ := Slots.use_ok run
    exact ⟨.one (.finds (by rwa [find?_eq] at found)), rfl⟩
  use_error {s s₁ name err} run plain := by
    have plain : name.isResolved = false := by simpa [Event.unresolved] using plain
    obtain ⟨rfl, resolved | ⟨rfl, absent⟩⟩ := use_failed run
    · cases plain.symm.trans resolved
    · exact ⟨name, rfl, [], [], [], _, rfl, .nil, by rwa [find?_eq] at absent⟩

theorem tracing_swaps : tracing.Swaps Tree.closed := by
  intro cond body other formed first second third s
  have still_cond := (Tree.within_events Tree.closed (o := .source) cond (.inr formed.1)).confined
  have still_body := formed.2.1.2.1
  have still_other := formed.2.2.2.1
  have parts : (Tree.ifElse cond body other).events .source =
      cond.events .source ++ (body.events .source ++ other.events .source) := rfl
  rw [tree, run_bind, parts]
  have walked := first s
  generalize (tree other).run s = outcome at walked ⊢
  obtain ⟨err | other', s₁⟩ := outcome
  · -- In source order the condition and the other branch come first; a use there may fail as well.
    intro plain
    simp only [List.forall_mem_append] at plain
    obtain ⟨name, same, lacks⟩ := walked plain.2.2
    obtain ⟨_, over_cond⟩ := exists_traces (G := []) s.frames_ne_nil still_cond rfl
    obtain ⟨_, over_body⟩ := exists_traces (G := []) s.frames_ne_nil still_body rfl
    exact ⟨name, same, .after over_cond (.after over_body lacks)⟩
  obtain ⟨_, rfl, over_other, depth⟩ := walked
  have level := over_other.still still_other
  have walked := second s₁
  dsimp only
  rw [run_bind]
  generalize (tree cond).run s₁ = outcome at walked ⊢
  obtain ⟨err | cond', s₂⟩ := outcome
  · intro plain
    simp only [List.forall_mem_append] at plain
    obtain ⟨name, same, lacks⟩ := walked plain.1
    rw [level] at lacks
    exact ⟨name, same, lacks.append _⟩
  obtain ⟨_, rfl, over_cond, depth'⟩ := walked
  have level' := over_cond.still still_cond
  rw [level] at over_cond
  have walked := third s₂
  dsimp only
  rw [run_bind]
  generalize (tree body).run s₂ = outcome at walked ⊢
  obtain ⟨err | body', s₃⟩ := outcome
  · intro plain
    simp only [List.forall_mem_append] at plain
    obtain ⟨name, same, lacks⟩ := walked plain.2.1
    exact ⟨name, same, .after over_cond (lacks.append _)⟩
  obtain ⟨_, rfl, over_body, depth''⟩ := walked
  have level'' := over_body.still still_body
  -- All three start with the scopes of `s`, so the runs over them can be joined in any order.
  refine ⟨_, rfl, ?_, (depth''.trans depth').trans depth⟩
  have back : s₃.frames = s.frames := level''.trans (level'.trans level)
  rw [level, ← back] at over_other
  exact over_cond.append (over_body.append over_other)

theorem statements_tree {program : List Tree} (formed : ∀ t ∈ program, t.isStatement) :
    statements (program.map .tree) = .ok program := by
  induction program with
  | nil => rfl
  | cons t program ih =>
    simp only [List.forall_mem_cons] at formed
    simp [statements, formed.1, ih formed.2, Except.map]

theorem Scoped.not_stray {name : Ident} (h : Scoped globals E out) : ¬ Stray globals E name := by
  rintro ⟨place, here, undeclared, unknown⟩
  obtain ⟨slot, -, ⟨scope, nearest, -⟩ | ⟨-, known⟩⟩ := h place name here
  · obtain ⟨inner, outer, around, ⟨earlier, lt, binds⟩, -⟩ := nearest
    exact undeclared scope (by simp [around]) earlier lt binds
  · exact nomatch unknown.symm.trans known

/-- A program of names is resolved by the order of its parts: in the order of the walk always, in
source order when every branch of a conditional with two keeps its declarations to itself. -/
theorem resolveProgram_by_order (o : Order) (s : Slots) (program : List Tree) (top : s.depth = 1)
    (formed : ∀ t ∈ program, t.isStatement)
    (ordered : o = .walk ∨ Tree.WellFormedAll Tree.closed program)
    (plain : ∀ e ∈ Tree.eventsAll o program, e.unresolved) :
    (∀ resolved s', s.resolveProgram program = (.ok resolved, s') →
      Scoped s.globals (Tree.eventsAll o program) (Tree.eventsAll o resolved)) ∧
    (∀ err s', s.resolveProgram program = (.error err, s') →
      ∃ name, err = .undefined name ∧ Stray s.globals (Tree.eventsAll o program) name) ∧
    ((∃ resolved s', s.resolveProgram program = (.ok resolved, s')) ↔
      ∀ name, ¬ Stray s.globals (Tree.eventsAll o program) name) := by
  have walked := Account.tells_trees (A := tracing) (fun _ => tracing_swaps) program ordered s
  rw [resolveProgram, resolve, statements_tree formed]
  dsimp only
  generalize (trees program).run s = outcome at walked ⊢
  obtain ⟨err | resolved, s₁⟩ := outcome
  · obtain ⟨name, same, lacks⟩ := walked plain
    rw [frames_top top] at lacks
    have stray := lacks.stray
    simp only [Prod.mk.injEq, reduceCtorEq, false_and, exists_false, false_iff, not_forall, not_not,
      false_implies, implies_true, true_and, Except.error.injEq]
    refine ⟨?_, name, stray⟩
    rintro _ _ ⟨rfl, -⟩
    exact ⟨name, same, stray⟩
  · obtain ⟨_, rfl, traces, -⟩ := walked
    rw [frames_top top] at traces
    have placed := traces.scoped
    refine ⟨?_, nofun, fun _ name => placed.not_stray, fun _ => ⟨resolved, s₁, rfl⟩⟩
    rintro _ _ ⟨⟩
    exact placed

-- `var a; if (a) { var b; b; } else print a;`
def branching : List Tree :=
  [.declare (.hash 0) (.literal .nil),
    .ifElse (.reference (.hash 0))
      (.block [.declare (.hash 1) (.literal .nil), .expression (.reference (.hash 1))])
      (.print (.reference (.hash 0)))]

theorem resolveProgram_by_order_branching :
    ∃ resolved s', Slots.empty.resolveProgram branching = (.ok resolved, s') ∧
      Scoped [] (Tree.eventsAll .source branching) (Tree.eventsAll .source resolved) := by
  have formed : Tree.WellFormedAll Tree.closed branching := by
    simp [branching, Tree.WellFormedAll, Tree.WellFormed, Tree.isExpression, Tree.isStatement,
      Tree.closed, Tree.events, Tree.eventsAll, Event.confined]
  have result :=
    resolveProgram_by_order .source .empty branching rfl (by decide) (.inr formed) (by decide)
  exact ⟨_, _, rfl, result.1 _ _ rfl⟩

-- `if (true) var x = 1; else print x;`
def elseFirst : List Tree :=
  [.ifElse (.literal (.bool true)) (.declare (.name "x" none) (.literal (.number 1)))
    (.print (.reference (.name "x" none)))]

/-- The `else` branch does not see a declaration that the other branch makes before it. -/
theorem resolveProgram_elseFirst :
    ((∀ t ∈ elseFirst, t.isStatement) ∧ Tree.WellFormedAll (fun _ => true) elseFirst ∧
      ∀ e ∈ Tree.eventsAll .source elseFirst, e.unresolved) ∧
    (∀ name, ¬ Stray [] (Tree.eventsAll .source elseFirst) name) ∧
    ∃ s', Slots.empty.resolveProgram elseFirst = (.error (.undefined (.name "x" none)), s') := by
  refine ⟨⟨by decide, ?_, by decide⟩, ?_, ?_⟩
  · simp [elseFirst, Tree.WellFormedAll, Tree.WellFormed, Tree.isExpression, Tree.isStatement]
  · rintro name ⟨place, here, undeclared, -⟩
    match place with
    | 0 => cases here
    | 1 =>
      cases here
      exact undeclared 0 (.head _) 0 Nat.zero_lt_one ⟨rfl, _, rfl, rfl⟩
    | _ + 2 => cases here
  · exact ⟨_, rfl⟩

end Slots
end Lox
