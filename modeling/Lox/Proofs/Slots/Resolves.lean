import Lox.Proofs.Run.Steps
import Lox.Slots

set_option autoImplicit false

namespace Lox.Slots

inductive Declares (s : Slots) (name : Ident) : Ident → Slots → Prop
  | again {slot : Ident} : s.current.find? name.key = some slot → Declares s name slot s
  | new : s.current.find? name.key = none →
      Declares s name (.slot s.next (some name.shown))
        { s.add name.key (.slot s.next (some name.shown)) with next := s.next + 1 }

inductive DeclaresAll : Slots → List Ident → List Ident → Slots → Prop
  | nil {s : Slots} : DeclaresAll s [] [] s
  | cons {s s' s'' : Slots} {name slot : Ident} {names slots : List Ident} :
      Declares s name slot s' → DeclaresAll s' names slots s'' →
      DeclaresAll s (name :: names) (slot :: slots) s''

mutual

inductive Resolves : Slots → Tree → Tree → Slots → Prop
  | assign {s s' : Slots} {target slot : Ident} {value value' : Tree} :
      Resolves s value value' s' → s'.find? target.key = some slot →
      Resolves s (.assign target value) (.assign slot value') s'
  | binary {s s' s'' : Slots} {op : BinaryOp} {lhs lhs' rhs rhs' : Tree} :
      Resolves s lhs lhs' s' → Resolves s' rhs rhs' s'' →
      Resolves s (.binary op lhs rhs) (.binary op lhs' rhs') s''
  | unary {s s' : Slots} {op : UnaryOp} {e e' : Tree} :
      Resolves s e e' s' → Resolves s (.unary op e) (.unary op e') s'
  | call {s s' s'' : Slots} {callee callee' : Tree} {args args' : List Tree} :
      Resolves s callee callee' s' → ResolvesAll s' args args' s'' →
      Resolves s (.call callee args) (.call callee' args') s''
  | literal {s : Slots} {value : Literal} : Resolves s (.literal value) (.literal value) s
  | grouping {s s' : Slots} {e e' : Tree} :
      Resolves s e e' s' → Resolves s (.grouping e) (.grouping e') s'
  | lambda {s s' s'' : Slots} {params params' : List Ident} {body body' : List Tree} :
      DeclaresAll s.enter params params' s' → ResolvesAll s' body body' s'' →
      Resolves s (.lambda params body) (.lambda params' body') s''.leave
  | reference {s : Slots} {name slot : Ident} :
      s.find? name.key = some slot → Resolves s (.reference name) (.reference slot) s
  | get {s s' : Slots} {object object' : Tree} {field : String} :
      Resolves s object object' s' → Resolves s (.get object field) (.get object' field) s'
  | set {s s' s'' : Slots} {object object' value value' : Tree} {field : String} :
      Resolves s object object' s' → Resolves s' value value' s'' →
      Resolves s (.set object field value) (.set object' field value') s''
  | expression {s s' : Slots} {e e' : Tree} :
      Resolves s e e' s' → Resolves s (.expression e) (.expression e') s'
  | ifThen {s s' s'' : Slots} {cond cond' body body' : Tree} :
      Resolves s cond cond' s' → Resolves s' body body' s'' →
      Resolves s (.ifThen cond body) (.ifThen cond' body') s''
  | ifElse {s s' s'' s''' : Slots} {cond cond' body body' other other' : Tree} :
      Resolves s other other' s' → Resolves s' cond cond' s'' → Resolves s'' body body' s''' →
      Resolves s (.ifElse cond body other) (.ifElse cond' body' other') s'''
  | whileLoop {s s' s'' : Slots} {cond cond' body body' : Tree} :
      Resolves s cond cond' s' → Resolves s' body body' s'' →
      Resolves s (.whileLoop cond body) (.whileLoop cond' body') s''
  | print {s s' : Slots} {e e' : Tree} :
      Resolves s e e' s' → Resolves s (.print e) (.print e') s'
  | declare {s s' s'' : Slots} {name slot : Ident} {e e' : Tree} :
      Resolves s e e' s' → Declares s' name slot s'' →
      Resolves s (.declare name e) (.declare slot e') s''
  | function {s s₁ s₂ s₃ : Slots} {name slot : Ident} {params params' : List Ident}
      {body body' : List Tree} :
      Declares s name slot s₁ → DeclaresAll s₁.enter params params' s₂ →
      ResolvesAll s₂ body body' s₃ →
      Resolves s (.function name params body) (.function slot params' body') s₃.leave
  | ret {s s' : Slots} {e e' : Tree} : Resolves s e e' s' → Resolves s (.ret e) (.ret e') s'
  | classDef {s s₁ s₂ : Slots} {name slot : Ident} {methods methods' : List Tree} :
      Declares s name slot s₁ → ResolvesAll s₁.enter methods methods' s₂ →
      Resolves s (.classDef name methods) (.classDef slot methods') s₂.leave
  | block {s s' : Slots} {body body' : List Tree} :
      ResolvesAll s.enter body body' s' → Resolves s (.block body) (.block body') s'.leave

inductive ResolvesAll : Slots → List Tree → List Tree → Slots → Prop
  | nil {s : Slots} : ResolvesAll s [] [] s
  | cons {s s' s'' : Slots} {t t' : Tree} {ts ts' : List Tree} :
      Resolves s t t' s' → ResolvesAll s' ts ts' s'' → ResolvesAll s (t :: ts) (t' :: ts') s''

end

theorem keyOf_ok {name : Ident} {key : Int} {s s' : Slots} (run : (keyOf name).run s = (.ok key, s')) :
    key = name.key ∧ s' = s := by
  unfold keyOf at run
  split at run
  · cases run
  · cases run
    exact ⟨rfl, rfl⟩

theorem declare_run {s : Slots} {name : Ident} (unresolved : name.isResolved = false)
    (absent : s.current.find? name.key = none) :
    (declare name).run s = (.ok (.slot s.next (some name.shown)),
      { s.add name.key (.slot s.next (some name.shown)) with next := s.next + 1 }) := by
  simp only [declare, keyOf, unresolved, Bool.false_eq_true, if_false, run_bind, run_get, run_set,
    run_pure, absent]

theorem ofNames_one (text : String) :
    ofNames [text] = ⟨[], [((Ident.name text none).key, .slot 0 (some text))], 1⟩ := by
  have run : ofNames [text] = ((declare (.name text none)).run empty).2 := rfl
  rw [run, declare_run rfl rfl]
  generalize (Ident.name text none).key = key
  rfl

theorem globalSlot_ofNames (text : String) :
    (ofNames [text]).globalSlot text = .ok (.slot 0 (some text)) := by
  rw [ofNames_one]
  simp [globalSlot, StaticScope.find?]

theorem declares_of_run {name slot : Ident} {s s' : Slots}
    (run : (declare name).run s = (.ok slot, s')) : Declares s name slot s' := by
  unfold declare at run
  obtain ⟨key, s₁, keyed, rest⟩ := run_bind_ok run
  obtain ⟨rfl, rfl⟩ := keyOf_ok keyed
  rw [run_bind, run_get] at rest
  dsimp only at rest
  split at rest
  next old found =>
    obtain ⟨rfl, rfl⟩ := run_pure_ok rest
    exact .again found
  next absent =>
    rw [run_bind, run_set] at rest
    obtain ⟨rfl, rfl⟩ := run_pure_ok rest
    exact .new absent

theorem use_ok {name slot : Ident} {s s' : Slots} (run : (use name).run s = (.ok slot, s')) :
    s.find? name.key = some slot ∧ s' = s := by
  unfold use at run
  obtain ⟨key, s₁, keyed, rest⟩ := run_bind_ok run
  obtain ⟨rfl, rfl⟩ := keyOf_ok keyed
  rw [run_bind, run_get] at rest
  dsimp only at rest
  split at rest
  next old found =>
    obtain ⟨rfl, rfl⟩ := run_pure_ok rest
    exact ⟨found, rfl⟩
  next => cases rest

theorem declaresAll_of_run {names slots : List Ident} {s s' : Slots}
    (run : (declareAll names).run s = (.ok slots, s')) : DeclaresAll s names slots s' := by
  induction names generalizing slots s s' with
  | nil =>
    obtain ⟨rfl, rfl⟩ := run_pure_ok run
    exact .nil
  | cons name names ih =>
    obtain ⟨slot, s₁, first, run⟩ := run_bind_ok run
    obtain ⟨rest, s₂, others, run⟩ := run_bind_ok run
    obtain ⟨rfl, rfl⟩ := run_pure_ok run
    exact .cons (declares_of_run first) (ih others)

theorem enclosed_run {α : Type} (walk : Walk α) (s : Slots) :
    (enclosed walk).run s = ((walk.run s.enter).1, (walk.run s.enter).2.leave) := rfl

theorem enclosed_ok {α : Type} {walk : Walk α} {a : α} {s s' : Slots}
    (run : (enclosed walk).run s = (.ok a, s')) :
    ∃ s₁, walk.run s.enter = (.ok a, s₁) ∧ s' = s₁.leave := by
  rw [enclosed_run] at run
  generalize walk.run s.enter = outcome at run ⊢
  obtain ⟨r, s₁⟩ := outcome
  cases run
  exact ⟨s₁, rfl, rfl⟩

theorem body_of_run {params params' : List Ident} {body body' : List Tree} {s s' : Slots}
    (sub : ∀ {s s'}, (trees body).run s = (.ok body', s') → ResolvesAll s body body' s')
    (run : (enclosed do return (← declareAll params, ← trees body)).run s = (.ok (params', body'), s')) :
    ∃ s₁ s₂, DeclaresAll s.enter params params' s₁ ∧ ResolvesAll s₁ body body' s₂ ∧ s' = s₂.leave := by
  obtain ⟨s₂, inner, rfl⟩ := enclosed_ok run
  obtain ⟨_, s₁, declared, rest⟩ := run_bind_ok inner
  obtain ⟨_, s₃, walked, rest⟩ := run_bind_ok rest
  obtain ⟨same, rfl⟩ := run_pure_ok rest
  cases same
  exact ⟨s₁, s₃, declaresAll_of_run declared, sub walked, rfl⟩

mutual

theorem resolves_of_run (t : Tree) {t' : Tree} {s s' : Slots} (run : (tree t).run s = (.ok t', s')) :
    Resolves s t t' s' := by
  cases t with
  | literal value =>
    obtain ⟨rfl, rfl⟩ := run_pure_ok run
    exact .literal
  | assign target value =>
    obtain ⟨value', s₁, first, rest⟩ := run_bind_ok run
    obtain ⟨slot, s₂, used, rest⟩ := run_bind_ok rest
    obtain ⟨rfl, rfl⟩ := run_pure_ok rest
    obtain ⟨found, rfl⟩ := use_ok used
    exact .assign (resolves_of_run value first) found
  | binary op lhs rhs =>
    obtain ⟨lhs', s₁, first, rest⟩ := run_bind_ok run
    obtain ⟨rhs', s₂, second, rest⟩ := run_bind_ok rest
    obtain ⟨rfl, rfl⟩ := run_pure_ok rest
    exact .binary (resolves_of_run lhs first) (resolves_of_run rhs second)
  | unary op e =>
    obtain ⟨e', s₁, first, rest⟩ := run_bind_ok run
    obtain ⟨rfl, rfl⟩ := run_pure_ok rest
    exact .unary (resolves_of_run e first)
  | call callee args =>
    obtain ⟨callee', s₁, first, rest⟩ := run_bind_ok run
    obtain ⟨args', s₂, second, rest⟩ := run_bind_ok rest
    obtain ⟨rfl, rfl⟩ := run_pure_ok rest
    exact .call (resolves_of_run callee first) (resolvesAll_of_run args second)
  | grouping e =>
    obtain ⟨e', s₁, first, rest⟩ := run_bind_ok run
    obtain ⟨rfl, rfl⟩ := run_pure_ok rest
    exact .grouping (resolves_of_run e first)
  | lambda params body =>
    obtain ⟨⟨params', body'⟩, s₁, first, rest⟩ := run_bind_ok run
    obtain ⟨rfl, rfl⟩ := run_pure_ok rest
    obtain ⟨s₂, s₃, declared, walked, rfl⟩ := body_of_run (resolvesAll_of_run body) first
    exact .lambda declared walked
  | reference name =>
    obtain ⟨slot, s₁, used, rest⟩ := run_bind_ok run
    obtain ⟨rfl, rfl⟩ := run_pure_ok rest
    obtain ⟨found, rfl⟩ := use_ok used
    exact .reference found
  | get object field =>
    obtain ⟨object', s₁, first, rest⟩ := run_bind_ok run
    obtain ⟨rfl, rfl⟩ := run_pure_ok rest
    exact .get (resolves_of_run object first)
  | set object field value =>
    obtain ⟨object', s₁, first, rest⟩ := run_bind_ok run
    obtain ⟨value', s₂, second, rest⟩ := run_bind_ok rest
    obtain ⟨rfl, rfl⟩ := run_pure_ok rest
    exact .set (resolves_of_run object first) (resolves_of_run value second)
  | expression e =>
    obtain ⟨e', s₁, first, rest⟩ := run_bind_ok run
    obtain ⟨rfl, rfl⟩ := run_pure_ok rest
    exact .expression (resolves_of_run e first)
  | ifThen cond body =>
    obtain ⟨cond', s₁, first, rest⟩ := run_bind_ok run
    obtain ⟨body', s₂, second, rest⟩ := run_bind_ok rest
    obtain ⟨rfl, rfl⟩ := run_pure_ok rest
    exact .ifThen (resolves_of_run cond first) (resolves_of_run body second)
  | ifElse cond body other =>
    obtain ⟨other', s₁, first, rest⟩ := run_bind_ok run
    obtain ⟨cond', s₂, second, rest⟩ := run_bind_ok rest
    obtain ⟨body', s₃, third, rest⟩ := run_bind_ok rest
    obtain ⟨rfl, rfl⟩ := run_pure_ok rest
    exact .ifElse (resolves_of_run other first) (resolves_of_run cond second)
      (resolves_of_run body third)
  | whileLoop cond body =>
    obtain ⟨cond', s₁, first, rest⟩ := run_bind_ok run
    obtain ⟨body', s₂, second, rest⟩ := run_bind_ok rest
    obtain ⟨rfl, rfl⟩ := run_pure_ok rest
    exact .whileLoop (resolves_of_run cond first) (resolves_of_run body second)
  | print e =>
    obtain ⟨e', s₁, first, rest⟩ := run_bind_ok run
    obtain ⟨rfl, rfl⟩ := run_pure_ok rest
    exact .print (resolves_of_run e first)
  | declare name initial =>
    obtain ⟨e', s₁, first, rest⟩ := run_bind_ok run
    obtain ⟨slot, s₂, declared, rest⟩ := run_bind_ok rest
    obtain ⟨rfl, rfl⟩ := run_pure_ok rest
    exact .declare (resolves_of_run initial first) (declares_of_run declared)
  | function name params body =>
    obtain ⟨slot, s₁, named, rest⟩ := run_bind_ok run
    obtain ⟨⟨params', body'⟩, s₂, first, rest⟩ := run_bind_ok rest
    obtain ⟨rfl, rfl⟩ := run_pure_ok rest
    obtain ⟨s₃, s₄, declared, walked, rfl⟩ := body_of_run (resolvesAll_of_run body) first
    exact .function (declares_of_run named) declared walked
  | ret e =>
    obtain ⟨e', s₁, first, rest⟩ := run_bind_ok run
    obtain ⟨rfl, rfl⟩ := run_pure_ok rest
    exact .ret (resolves_of_run e first)
  | classDef name methods =>
    obtain ⟨slot, s₁, named, rest⟩ := run_bind_ok run
    obtain ⟨methods', s₂, first, rest⟩ := run_bind_ok rest
    obtain ⟨rfl, rfl⟩ := run_pure_ok rest
    obtain ⟨s₃, walked, rfl⟩ := enclosed_ok first
    exact .classDef (declares_of_run named) (resolvesAll_of_run methods walked)
  | block body =>
    obtain ⟨body', s₁, first, rest⟩ := run_bind_ok run
    obtain ⟨rfl, rfl⟩ := run_pure_ok rest
    obtain ⟨s₂, walked, rfl⟩ := enclosed_ok first
    exact .block (resolvesAll_of_run body walked)

theorem resolvesAll_of_run (ts : List Tree) {ts' : List Tree} {s s' : Slots}
    (run : (trees ts).run s = (.ok ts', s')) : ResolvesAll s ts ts' s' := by
  cases ts with
  | nil =>
    obtain ⟨rfl, rfl⟩ := run_pure_ok run
    exact .nil
  | cons t ts =>
    obtain ⟨t', s₁, first, rest⟩ := run_bind_ok run
    obtain ⟨ts', s₂, others, rest⟩ := run_bind_ok rest
    obtain ⟨rfl, rfl⟩ := run_pure_ok rest
    exact .cons (resolves_of_run t first) (resolvesAll_of_run ts others)

end

theorem statements_ok {program ts : List Tree} (run : statements (program.map .tree) = .ok ts) :
    ts = program := by
  induction program generalizing ts with
  | nil =>
    cases run
    rfl
  | cons t rest ih =>
    simp only [List.map_cons, statements] at run
    split at run
    · cases others : statements (rest.map .tree) with
      | error e =>
        rw [others] at run
        cases run
      | ok us =>
        rw [others] at run
        cases run
        rw [ih others]
    · cases run

theorem resolvesAll_of_resolveProgram {program resolved : List Tree} {s s' : Slots}
    (run : s.resolveProgram program = (.ok resolved, s')) : ResolvesAll s program resolved s' := by
  unfold resolveProgram resolve at run
  split at run
  next => cases run
  next ts found =>
    cases statements_ok found
    split at run
    next ended =>
      cases run
      exact resolvesAll_of_run program ended
    next => cases run

end Lox.Slots
