import Lox.Proofs.Machine.Renamed

set_option autoImplicit false

namespace Lox.Eval

open Run (InStep)

variable {R : Renaming} {eval : Evaluator} {v v' : Value} {scope : ScopeId}

def Steady (R : Renaming) (eval : Evaluator) : Prop :=
  ∀ (t t' : Tree) (scope : ScopeId), t.Renamed R t' →
    InStep R (Value.Renamed R) (eval t scope) (eval t' scope)

theorem thenNil {α : Type} {Q : α → α → Prop} {x y : Run α} (h : InStep R Q x y) :
    InStep R (Value.Renamed R) (do let _ ← x; return .nil) (do let _ ← y; return .nil) :=
  h.bind fun _ _ _ => .pure .nil

theorem inStep_orFault {x x' : Except Fault Value} {f f' : Fault} (same : Applied f f' x x')
    (alike : f.Alike f') : InStep R (Value.Renamed R) (orFault x) (orFault x') := by
  cases same with
  | bool b => exact .pure (.bool b)
  | number x => exact .pure (.number x)
  | text s => exact .pure (.text s)
  | refused => exact Run.inStep_fail alike

theorem inStep_evalAll (steady : Steady R eval) (scope : ScopeId) (ts ts' : List Tree)
    (renamed : Tree.RenamedAll R ts ts') :
    InStep R (List.Forall₂ (Value.Renamed R)) (evalAll eval ts scope) (evalAll eval ts' scope) := by
  induction ts generalizing ts' with
  | nil =>
    cases renamed
    exact .pure .nil
  | cons t ts ih =>
    cases renamed with
    | cons first rest =>
      refine (steady _ _ scope first).bind fun x y value => ?_
      exact (ih _ rest).bind fun xs ys values => .pure (.cons value values)

theorem inStep_runAll (steady : Steady R eval) (scope : ScopeId) (ts ts' : List Tree)
    (renamed : Tree.RenamedAll R ts ts') :
    InStep R (fun _ _ => True) (runAll eval ts scope) (runAll eval ts' scope) := by
  induction ts generalizing ts' with
  | nil =>
    cases renamed
    exact .pure trivial
  | cons t ts ih =>
    cases renamed with
    | cons first rest => exact (steady _ _ scope first).bind fun _ _ _ => ih _ rest

theorem inStep_iterate {test test' body body' : Run Value}
    (tests : InStep R (Value.Renamed R) test test') (bodies : InStep R (Value.Renamed R) body body')
    (rounds : Nat) :
    InStep R (fun _ _ => True) (iterate test body rounds) (iterate test' body' rounds) := by
  induction rounds with
  | zero => exact .throw .endless
  | succ rounds ih =>
    refine tests.bind fun x y truth => ?_
    rw [truth.alike.isTruthy]
    split
    · exact bodies.bind fun _ _ _ => ih
    · exact .pure trivial

theorem inStep_define {i j : Ident} (name : i.Renamed R j) (scope : ScopeId) (value : v.Renamed R v') :
    InStep R (fun _ _ => True) (define scope i v) (define scope j v') :=
  (Run.inStep_onScopes (Scopes.inStep_define name.key scope value)).bind fun _ _ _ => .pure trivial

theorem inStep_close {name name' : Option String} {ps qs : List Ident} {body body' : List Tree}
    (same : name = name') (params : List.Forall₂ (Ident.Renamed R) ps qs)
    (renamed : Tree.RenamedAll R body body') (scope : ScopeId) :
    InStep R (Closure.Renamed R) (close name ps body scope) (close name' qs body' scope) := by
  refine (Run.inStep_onScopes (Scopes.inStep_retain scope)).bind fun _ _ _ => ?_
  refine Run.inStep_freshTag.bind fun i j tag => .pure ?_
  exact ⟨⟨tag, same⟩, params, renamed, rfl⟩

theorem inStep_bindParams (scope : ScopeId) {ps qs : List Ident} {vs vs' : List Value}
    (params : List.Forall₂ (Ident.Renamed R) ps qs) (values : List.Forall₂ (Value.Renamed R) vs vs') :
    InStep R (fun _ _ => True) (bindParams scope ps vs) (bindParams scope qs vs') := by
  induction params generalizing vs vs' with
  | nil => cases values <;> exact .pure trivial
  | cons name _ ih =>
    cases values with
    | nil => exact .pure trivial
    | cons value rest => exact (inStep_define name scope value).bind fun _ _ _ => ih rest

theorem inStep_callClosure (steady : Steady R eval) {f g : Closure} (same : f.Renamed R g)
    {vs vs' : List Value} (values : List.Forall₂ (Value.Renamed R) vs vs') :
    InStep R (Value.Renamed R) (callClosure eval f vs) (callClosure eval g vs') := by
  unfold callClosure
  rw [same.scope]
  refine (Run.inStep_onScopes (Scopes.inStep_child g.scope)).bind fun inner inner' equal => ?_
  cases equal
  apply Run.inStep_releasing
  refine (inStep_bindParams inner same.params values).bind fun _ _ _ => ?_
  exact Run.inStep_catchReturn (thenNil (inStep_runAll steady inner _ _ same.body))

theorem inStep_checkArity {c d : Value} (alike : c.Alike d) (expected given : Nat) :
    InStep R (fun _ _ => True) (checkArity c expected given) (checkArity d expected given) := by
  unfold checkArity
  split
  · exact .pure trivial
  · exact Run.inStep_fail (.arity expected given alike)

theorem inStep_call (steady : Steady R eval) {c d : Value} (callee : c.Renamed R d)
    {vs vs' : List Value} (values : List.Forall₂ (Value.Renamed R) vs vs') :
    InStep R (Value.Renamed R) (call eval c vs) (call eval d vs') := by
  have alike : c.Alike d := callee.alike
  have count := values.length_eq
  cases callee with
  | function same =>
    simp only [call, count, same.params.length_eq]
    exact (inStep_checkArity alike _ _).bind fun _ _ _ => inStep_callClosure steady same values
  | native f =>
    cases f
    simp only [call, count]
    refine (inStep_checkArity alike _ _).bind fun _ _ _ => ?_
    refine Run.inStep_readClock.bind fun x y reading => ?_
    cases reading
    exact .pure (.number x)
  | classValue same =>
    simp only [call, count]
    exact (inStep_checkArity alike _ _).bind fun _ _ _ => Run.inStep_newInstance same
  | _ => exact Run.inStep_fail (.notCallable alike)

theorem inStep_getField {o o' : Value} (object : o.Renamed R o') (name : String) :
    InStep R (Value.Renamed R) (getField o name) (getField o' name) := by
  have alike : o.Alike o' := object.alike
  cases object with
  | @instanceOf c d ref same _ =>
    refine (Run.inStep_field? ref name).bind fun x y found => ?_
    cases found with
    | some value => exact .pure value
    | none =>
      have method := same.methods.get? (some name)
      dsimp only
      generalize c.methods.get? (some name) = f at method ⊢
      generalize d.methods.get? (some name) = g at method ⊢
      cases method with
      | some both => exact .pure (.function both)
      | none => exact Run.inStep_fail (.undefinedProperty name alike)
  | _ => exact Run.inStep_fail (.notAnInstance name alike)

theorem inStep_makeMethods (members : ScopeId) (ts ts' : List Tree) (renamed : Tree.RenamedAll R ts ts')
    {ms ms' : Bindings (Option String) Closure} (same : Bindings.Related (Closure.Renamed R) ms ms') :
    InStep R (Bindings.Related (Closure.Renamed R)) (makeMethods members ts ms)
      (makeMethods members ts' ms') := by
  induction ts generalizing ts' ms ms' with
  | nil =>
    cases renamed
    exact .pure same
  | cons t ts ih =>
    cases renamed with
    | cons first rest =>
      cases first with
      | function name params body =>
        unfold makeMethods
        rw [name.text]
        refine (inStep_close rfl params body members).bind fun f g both => ?_
        refine (inStep_define name members (.function both)).bind fun _ _ _ => ?_
        exact ih _ rest (same.put _ both)
      | _ => exact ih _ rest same

theorem inStep_strict (steady : Steady R eval) (op : BinaryOp) {a b x y : Tree} (scope : ScopeId)
    (lhs : a.Renamed R b) (rhs : x.Renamed R y) :
    InStep R (Value.Renamed R)
      (do let l ← eval a scope; let r ← eval x scope; orFault (op.apply l r))
      (do let l ← eval b scope; let r ← eval y scope; orFault (op.apply l r)) := by
  refine (steady _ _ scope lhs).bind fun l l' left => ?_
  refine (steady _ _ scope rhs).bind fun r r' right => ?_
  exact inStep_orFault (op.apply_agree left.alike right.alike) (.operands op left.alike right.alike)

theorem steady_evalNode (steady : Steady R eval) (rounds : Nat) : Steady R (evalNode rounds eval) := by
  intro t t' scope renamed
  cases renamed with
  | literal => exact .pure (.ofLiteral _ _ _)
  | grouping x => exact steady _ _ scope x
  | reference name =>
    refine (Run.inStep_onScopes (Scopes.inStep_get? name.key scope)).bind fun x y found => ?_
    cases found with
    | some value => exact .pure value
    | none => exact Run.inStep_fail (.undefinedVariable name.shown)
  | assign name x =>
    refine (steady _ _ scope x).bind fun x y value => ?_
    refine (Run.inStep_onScopes (Scopes.inStep_assign name.key scope value)).bind fun x y found => ?_
    cases found with
    | some _ => exact .pure value
    | none => exact Run.inStep_fail (.undefinedVariable name.shown)
  | @binary op a b x y lhs rhs =>
    cases op with
    | or =>
      refine (steady _ _ scope lhs).bind fun l l' left => ?_
      rw [left.alike.isTruthy]
      split
      · exact .pure left
      · exact steady _ _ scope rhs
    | and =>
      refine (steady _ _ scope lhs).bind fun l l' left => ?_
      rw [left.alike.isTruthy]
      split
      · exact steady _ _ scope rhs
      · exact .pure left
    | _ => exact inStep_strict steady _ scope lhs rhs
  | unary x =>
    refine (steady _ _ scope x).bind fun x y value => ?_
    exact inStep_orFault (UnaryOp.apply_agree _ value.alike) (.operand _ value.alike)
  | call f xs =>
    refine (steady _ _ scope f).bind fun c d callee => ?_
    refine (inStep_evalAll steady scope _ _ xs).bind fun vs vs' values => ?_
    exact inStep_call steady callee values
  | lambda params body =>
    exact (inStep_close rfl params body scope).bind fun f g both => .pure (.function both)
  | get x => exact (steady _ _ scope x).bind fun o o' object => inStep_getField object _
  | set a x =>
    refine (steady _ _ scope a).bind fun o o' object => ?_
    have alike := object.alike
    cases object with
    | instanceOf _ _ =>
      refine (steady _ _ scope x).bind fun x y value => ?_
      exact (Run.inStep_setField _ _ value).bind fun _ _ _ => .pure value
    | _ => exact Run.inStep_fail (.notAnInstance _ alike)
  | expression x => exact thenNil (steady _ _ scope x)
  | print x =>
    refine (steady _ _ scope x).bind fun x y value => ?_
    rw [value.alike.display]
    exact thenNil (Run.inStep_print _)
  | ret x => exact (steady _ _ scope x).bind fun x y value => .throw (.returned value)
  | declare name x =>
    exact (steady _ _ scope x).bind fun x y value => thenNil (inStep_define name scope value)
  | ifThen a x =>
    refine (steady _ _ scope a).bind fun c d truth => ?_
    rw [truth.alike.isTruthy]
    split
    · exact thenNil (steady _ _ scope x)
    · exact .pure .nil
  | ifElse a x u =>
    refine (steady _ _ scope a).bind fun c d truth => ?_
    rw [truth.alike.isTruthy]
    split
    · exact thenNil (steady _ _ scope x)
    · exact thenNil (steady _ _ scope u)
  | whileLoop a x => exact thenNil (inStep_iterate (steady _ _ scope a) (steady _ _ scope x) rounds)
  | block xs =>
    refine (Run.inStep_onScopes (Scopes.inStep_child scope)).bind fun inner inner' equal => ?_
    cases equal
    exact thenNil (Run.inStep_releasing inner (inStep_runAll steady inner _ _ xs))
  | function name params body =>
    refine (inStep_close name.text params body scope).bind fun f g both => ?_
    exact thenNil (inStep_define name scope (.function both))
  | classDef name xs =>
    refine (Run.inStep_onScopes (Scopes.inStep_child scope)).bind fun members members' equal => ?_
    cases equal
    refine (inStep_makeMethods members _ _ xs .nil).bind fun ms ms' methods => ?_
    refine (Run.inStep_onScopes (Scopes.inStep_release members)).bind fun _ _ _ => ?_
    refine Run.inStep_freshTag.bind fun i j tag => ?_
    exact thenNil (inStep_define name scope (.classValue ⟨tag, name.text, methods⟩ trivial))

theorem steady_eval (rounds depth : Nat) : Steady R (Lox.eval rounds depth) := by
  induction depth with
  | zero => exact fun _ _ _ _ => Run.inStep_fail .stackOverflow
  | succ depth ih => exact steady_evalNode ih rounds

theorem inStep_interpret (limits : Limits) {program program' : List Tree}
    (renamed : Tree.RenamedAll R program program') :
    InStep R (Value.Renamed R) (interpret limits program) (interpret limits program') :=
  Run.inStep_catchReturn
    (thenNil (inStep_runAll (steady_eval limits.rounds limits.depth) root _ _ renamed))

end Lox.Eval
