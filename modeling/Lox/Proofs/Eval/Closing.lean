import Lox.Eval
import Lox.Proofs.Scope.Closing

set_option autoImplicit false

namespace Lox.Closing

open Eval

variable {α β : Type} {s p : Int} {a : Arena Int Value} {m : Machine}

def After (a : Arena Int Value) (m : Machine) : Prop :=
  ∃ a', m.scopes = .arena a' ∧ a'.Sound ∧ a.Later a'

def Closes (s : Int) (work : Run α) : Prop :=
  ∀ m a, m.scopes = .arena a → a.Sound → a.isActive s = true → After a (work.run m).2

def Completes (s : Int) (work : Run α) : Prop :=
  ∀ m a, m.scopes = .arena a → a.Sound → a.isActive s = true →
    ∃ x m', work.run m = (.ok x, m') ∧ After a m'

theorem After.trans {a₁ : Arena Int Value} (first : a.Later a₁) (next : After a₁ m) : After a m := by
  obtain ⟨a₂, here, sound, later⟩ := next
  exact ⟨a₂, here, sound, first.trans later⟩

namespace Completes

variable {x : Run α} {f : α → Run β}

theorem closes (h : Completes s x) : Closes s x := by
  intro m a here sound active
  obtain ⟨v, m', run, after⟩ := h m a here sound active
  rw [run]
  exact after

theorem pure (v : α) : Completes s (pure v) := fun m a here sound _ =>
  ⟨v, m, rfl, a, here, sound, .refl a⟩

theorem bind (first : Completes s x) (next : ∀ v, Completes s (f v)) : Completes s (x >>= f) := by
  intro m a here sound active
  obtain ⟨v, m₁, run, a₁, here₁, sound₁, later₁⟩ := first m a here sound active
  obtain ⟨w, m₂, run', after⟩ := next v m₁ a₁ here₁ sound₁ (later₁.active active)
  rw [run_bind, run]
  exact ⟨w, m₂, run', after.trans later₁⟩

end Completes

namespace Closes

variable {x : Run α} {f : α → Run β}

theorem of_scopes (same : ∀ m, (x.run m).2.scopes = m.scopes) : Closes s x :=
  fun m a here sound _ => ⟨a, (same m).trans here, sound, .refl a⟩

theorem pure (v : α) : Closes s (pure v) := .of_scopes fun _ => rfl

theorem throw (stop : Stop) : Closes s (throw stop : Run α) := .of_scopes fun _ => rfl

theorem bind (first : Closes s x) (next : ∀ v, Closes s (f v)) : Closes s (x >>= f) := by
  intro m a here sound active
  obtain ⟨a₁, here₁, sound₁, later₁⟩ := first m a here sound active
  rw [run_bind]
  generalize x.run m = outcome at here₁ ⊢
  obtain ⟨_ | v, m₁⟩ := outcome
  -- If the first part stops short there is no second one.
  · exact ⟨a₁, here₁, sound₁, later₁⟩
  · exact (next v m₁ a₁ here₁ sound₁ (later₁.active active)).trans later₁

theorem thenNil (h : Closes s x) : Closes s (do let _ ← x; return Value.nil) :=
  h.bind fun _ => .pure _

theorem onScopes {g : Chain Int Value → α × Chain Int Value} {work : Arena.Work Int Value α}
    (step : ∀ a, a.Sound → a.isActive s = true → (work.run a).2.Sound ∧ a.Later (work.run a).2) :
    Closes s (Run.onScopes (Scopes.either g work)) := by
  intro m a here sound active
  rw [onScopes_run_arena _ _ here]
  exact ⟨_, rfl, step a sound active⟩

theorem catchReturn {x : Run Value} (h : Closes s x) : Closes s (Run.catchReturn x) := by
  intro m a here sound active
  have after := h m a here sound active
  rw [catchReturn_run]
  generalize x.run m = outcome at after ⊢
  -- Catching a `return` changes the outcome and nothing else.
  obtain ⟨(_ | _ | _ | _) | _, _⟩ := outcome <;> exact after

theorem iterate {test body : Run Value} (tests : Closes s test) (bodies : Closes s body) (rounds : Nat) :
    Closes s (iterate test body rounds) := by
  induction rounds with
  | zero => exact .throw .endless
  | succ rounds ih =>
    refine tests.bind fun v => ?_
    split
    · exact bodies.bind fun _ => ih
    · exact .pure _

end Closes

section Opening

variable {work : ScopeId → Run α}

theorem child_run (here : m.scopes = .arena a) (sound : a.Sound) (p : Int) :
    (∃ stop, (Run.onScopes (Scopes.child p)).run m = (.error stop, m)) ∨
      ∃ inner m' a', (Run.onScopes (Scopes.child p)).run m = (.ok inner, m') ∧
        m'.scopes = .arena a' ∧ a'.Sound ∧ a.Opened a' inner := by
  have run := onScopes_run_arena (·.child p) (Arena.add p) here
  rcases sound.add_cases p with ⟨e, failed⟩ | ⟨inner, a', added, sound', opened⟩
  · rw [failed] at run
    refine .inl ⟨.scope e, run.trans ?_⟩
    rw [← here]
    rfl
  · rw [added] at run
    exact .inr ⟨inner, _, a', run, rfl, sound', opened⟩

theorem release_run {a₁ : Arena Int Value} (opened : a.Opened a₁ s) (sound : a.Sound)
    (after : After a₁ m) :
    ∃ m', (Run.onScopes (Scopes.release s)).run m = (.ok (), m') ∧ After a m' := by
  obtain ⟨a₂, here, sound₂, later⟩ := after
  obtain ⟨a', released, sound', later'⟩ := opened.release_run sound later sound₂
  have run := onScopes_run_arena (fun c => ((), c)) (Arena.release s) here
  rw [released] at run
  exact ⟨_, run, a', rfl, sound', later'⟩

theorem closes_enclosed (body : ∀ inner, Closes inner (work inner)) :
    Closes s (do let inner ← Run.onScopes (Scopes.child p); Run.releasing inner (work inner)) := by
  intro m a here sound active
  rw [run_bind]
  rcases child_run here sound p with ⟨stop, failed⟩ | ⟨inner, m₁, a₁, run, here₁, sound₁, opened⟩
  · rw [failed]
    exact ⟨a, here, sound, .refl a⟩
  · rw [run]
    -- The scope is released in whatever way the body ends.
    have ended := body inner m₁ a₁ here₁ sound₁ ((opened.active inner).2 (.inr rfl))
    obtain ⟨m', released, after⟩ := release_run opened sound ended
    dsimp only
    rw [releasing_run released]
    exact after

theorem closes_closing (body : ∀ inner, Completes inner (work inner)) {next : α → Run β}
    (rest : ∀ x, Closes s (next x)) :
    Closes s (do
      let inner ← Run.onScopes (Scopes.child p)
      let x ← work inner
      Run.onScopes (Scopes.release inner)
      next x) := by
  intro m a here sound active
  rw [run_bind]
  rcases child_run here sound p with ⟨stop, failed⟩ | ⟨inner, m₁, a₁, run, here₁, sound₁, opened⟩
  · rw [failed]
    exact ⟨a, here, sound, .refl a⟩
  · obtain ⟨x, m₂, ended, after₂⟩ := body inner m₁ a₁ here₁ sound₁ ((opened.active inner).2 (.inr rfl))
    obtain ⟨m₃, released, a₃, here₃, sound₃, later₃⟩ := release_run opened sound after₂
    simp only [run, run_bind, ended, released]
    exact (rest x m₃ a₃ here₃ sound₃ (later₃.active active)).trans later₃

end Opening

section Evaluation

variable {eval : Evaluator}

theorem completes_define (name : Ident) (v : Value) : Completes s (define s name v) := by
  refine Completes.bind (fun m a here sound active => ?_) fun _ => .pure ()
  obtain ⟨e, found⟩ := Arena.cell?_of_isActive active
  obtain ⟨a', defined, -⟩ := Arena.define_run found name.key v
  have after := sound.define_later s name.key v
  have run := onScopes_run_arena (·.define s name.key v) (Arena.define s name.key v) here
  rw [defined] at run after
  exact ⟨_, _, run, a', rfl, after⟩

theorem completes_close (name : Option String) (params : List Ident) (body : List Tree) :
    Completes s (close name params body s) := by
  refine Completes.bind (fun m a here sound active => ?_) fun _ => .bind ?_ fun _ => .pure _
  · obtain ⟨e, found⟩ := Arena.cell?_of_isActive active
    obtain ⟨a', retained, sound', seen, -, exited, -⟩ := sound.retain_run found
    have run := onScopes_run_arena (fun c => ((), c)) (Arena.retain s) here
    rw [retained] at run
    exact ⟨_, _, run, a', rfl, sound', .of_eq (Arena.isActive_of_seen seen) exited⟩
  · exact fun m a here sound _ => ⟨_, _, rfl, a, here, sound, .refl a⟩

theorem completes_makeMethods (trees : List Tree) (methods : Bindings (Option String) Closure) :
    Completes s (makeMethods s trees methods) := by
  induction trees generalizing methods with
  | nil => exact .pure methods
  | cons tree rest ih =>
    cases tree with
    | function name params body =>
      refine (completes_close name.text? params body).bind fun f => ?_
      exact (completes_define name (.function f)).bind fun _ => ih _
    | _ => exact ih methods

theorem closes_bindParams (params : List Ident) (values : List Value) :
    Closes s (bindParams s params values) := by
  induction params generalizing values with
  | nil => cases values <;> exact .pure ()
  | cons p ps ih =>
    cases values with
    | nil => exact .pure ()
    | cons v vs => exact (completes_define p v).closes.bind fun _ => ih vs

theorem closes_orFault {x : Except Fault α} : Closes s (orFault x) := by
  cases x with
  | ok v => exact .pure v
  | error f => exact .throw _

theorem closes_checkArity (callee : Value) (expected given : Nat) :
    Closes s (checkArity callee expected given) := by
  unfold checkArity
  split
  · exact .pure ()
  · exact .throw _

theorem closes_getField (object : Value) (name : String) : Closes s (getField object name) := by
  cases object with
  | instanceOf c ref =>
    refine Closes.bind (.of_scopes fun _ => rfl) fun found => ?_
    cases found with
    | some v => exact .pure v
    | none =>
      dsimp only
      split
      · exact .pure _
      · exact .throw _
  | _ => exact .throw _

def Tidy (eval : Evaluator) : Prop := ∀ tree s, Closes s (eval tree s)

theorem closes_evalAll (tidy : Tidy eval) (trees : List Tree) : Closes s (evalAll eval trees s) := by
  induction trees with
  | nil => exact .pure []
  | cons tree rest ih => exact (tidy tree s).bind fun _ => ih.bind fun _ => .pure _

theorem closes_runAll (tidy : Tidy eval) (trees : List Tree) : Closes s (runAll eval trees s) := by
  induction trees with
  | nil => exact .pure ()
  | cons tree rest ih => exact (tidy tree s).bind fun _ => ih

theorem closes_call (tidy : Tidy eval) (callee : Value) (arguments : List Value) :
    Closes s (call eval callee arguments) := by
  cases callee with
  | function f =>
    refine (closes_checkArity _ _ _).bind fun _ => closes_enclosed fun inner => ?_
    refine (closes_bindParams f.params arguments).bind fun _ => ?_
    exact (closes_runAll tidy f.body).thenNil.catchReturn
  | native f =>
    cases f
    refine (closes_checkArity _ _ _).bind fun _ => ?_
    exact Closes.bind (.of_scopes fun _ => rfl) fun _ => .pure _
  | classValue c =>
    exact (closes_checkArity _ _ _).bind fun _ => .of_scopes fun _ => rfl
  | _ => exact .throw _

theorem closes_get? (key : Int) : Closes s (Run.onScopes (Scopes.get? s key)) := by
  refine .onScopes fun a sound _ => ?_
  rw [Arena.get?_state]
  exact ⟨sound, .refl a⟩

theorem closes_assign (key : Int) (v : Value) : Closes s (Run.onScopes (Scopes.assign s key v)) :=
  .onScopes fun _ sound _ => sound.assign_later s key v

theorem tidy_evalNode (tidy : Tidy eval) (rounds : Nat) : Tidy (evalNode rounds eval) := by
  intro tree s
  cases tree with
  | literal value => exact .pure _
  | grouping inner => exact tidy inner s
  | reference name =>
    refine (closes_get? name.key).bind fun found => ?_
    cases found with
    | some v => exact .pure v
    | none => exact .throw _
  | assign target value =>
    refine (tidy value s).bind fun v => (closes_assign target.key v).bind fun found => ?_
    cases found with
    | some _ => exact .pure v
    | none => exact .throw _
  | binary op lhs rhs =>
    cases op with
    | or =>
      refine (tidy lhs s).bind fun v => ?_
      split
      · exact .pure v
      · exact tidy rhs s
    | and =>
      refine (tidy lhs s).bind fun v => ?_
      split
      · exact tidy rhs s
      · exact .pure v
    | _ => exact (tidy lhs s).bind fun _ => (tidy rhs s).bind fun _ => closes_orFault
  | unary op operand => exact (tidy operand s).bind fun _ => closes_orFault
  | call callee arguments =>
    refine (tidy callee s).bind fun c => (closes_evalAll tidy arguments).bind fun vs => ?_
    exact closes_call tidy c vs
  | lambda params body => exact (completes_close none params body).closes.bind fun _ => .pure _
  | get object field => exact (tidy object s).bind fun o => closes_getField o field
  | set object field value =>
    refine (tidy object s).bind fun o => ?_
    cases o with
    | instanceOf c ref =>
      refine (tidy value s).bind fun v => ?_
      exact Closes.bind (.of_scopes fun _ => rfl) fun _ => .pure v
    | _ => exact .throw _
  | expression e => exact (tidy e s).thenNil
  | print e => exact (tidy e s).bind fun _ => Closes.thenNil (.of_scopes fun _ => rfl)
  | ret value => exact (tidy value s).bind fun _ => .throw _
  | declare name initial =>
    exact (tidy initial s).bind fun v => (completes_define name v).closes.thenNil
  | ifThen cond body =>
    refine (tidy cond s).bind fun v => ?_
    split
    · exact (tidy body s).thenNil
    · exact .pure _
  | ifElse cond body other => exact (tidy cond s).bind fun v => (tidy _ s).thenNil
  | whileLoop cond body => exact (Closes.iterate (tidy cond s) (tidy body s) rounds).thenNil
  | block statements =>
    have body : Closes s (do
        let inner ← Run.onScopes (Scopes.child s)
        Run.releasing inner (runAll eval statements inner)) :=
      closes_enclosed fun inner => closes_runAll tidy statements
    simpa only [bind_assoc, evalNode] using body.thenNil
  | function name params body =>
    refine (completes_close name.text? params body).closes.bind fun f => ?_
    exact (completes_define name (.function f)).closes.thenNil
  | classDef name methods =>
    -- Between the opening of the members' scope and its release nothing can fail.
    refine closes_closing (fun inner => completes_makeMethods methods []) fun made => ?_
    refine Closes.bind (.of_scopes fun _ => rfl) fun tag => ?_
    exact (completes_define name _).closes.thenNil

theorem tidy_eval (rounds depth : Nat) : Tidy (Lox.eval rounds depth) := by
  induction depth with
  | zero => exact fun _ _ => .throw _
  | succ depth ih => exact tidy_evalNode ih rounds

theorem closes_interpret (limits : Limits) (program : List Tree) :
    Closes root (interpret limits program) :=
  (closes_runAll (tidy_eval limits.rounds limits.depth) program).thenNil.catchReturn

end Evaluation

end Lox.Closing
