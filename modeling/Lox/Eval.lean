import Lox.Machine

set_option autoImplicit false

namespace Lox

abbrev Evaluator := Tree → ScopeId → Run Value

def BinaryOp.apply (op : BinaryOp) (lhs rhs : Value) : Except Fault Value :=
  match op, lhs, rhs with
  | .less, .number a, .number b => .ok (.bool (a < b))
  | .lessEqual, .number a, .number b => .ok (.bool (a ≤ b))
  | .greater, .number a, .number b => .ok (.bool (b < a))
  | .greaterEqual, .number a, .number b => .ok (.bool (b ≤ a))
  | .add, .number a, .number b => .ok (.number (a + b))
  | .add, .text a, .text b => .ok (.text (a ++ b))
  | .subtract, .number a, .number b => .ok (.number (a - b))
  | .multiply, .number a, .number b => .ok (.number (a * b))
  | .divide, .number a, .number b => .ok (.number (a / b))
  | .equal, a, b =>
    match a.equal? b with
    | some same => .ok (.bool same)
    | none => .error (.operands .equal a b)
  | .notEqual, a, b =>
    match a.equal? b with
    | some same => .ok (.bool !same)
    | none => .error (.operands .notEqual a b)
  | op, a, b => .error (.operands op a b)

def UnaryOp.apply (op : UnaryOp) (value : Value) : Except Fault Value :=
  match op, value with
  | .not, v => .ok (.bool !v.isTruthy)
  | .negate, .number x => .ok (.number (-x))
  | .negate, v => .error (.operand .negate v)

namespace Eval

def orFault {α : Type} : Except Fault α → Run α
  | .ok x => pure x
  | .error f => Run.fail f

def evalAll (eval : Evaluator) : List Tree → ScopeId → Run (List Value)
  | [], _ => return []
  | t :: ts, scope => return (← eval t scope) :: (← evalAll eval ts scope)

def runAll (eval : Evaluator) : List Tree → ScopeId → Run Unit
  | [], _ => return
  | t :: ts, scope => do
    let _ ← eval t scope
    runAll eval ts scope

def iterate {σ : Type} (test body : ExceptT Stop (StateM σ) Value) : Nat → ExceptT Stop (StateM σ) Unit
  | 0 => throw .endless
  | rounds + 1 => do
    if (← test).isTruthy then
      let _ ← body
      iterate test body rounds

def define (scope : ScopeId) (name : Ident) (value : Value) : Run Unit := do
  let _ ← Run.onScopes (Scopes.define scope name.key value)

def close (name : Option String) (params : List Ident) (body : List Tree) (scope : ScopeId) :
    Run Closure := do
  Run.onScopes (Scopes.retain scope)
  return ⟨← Run.freshTag, name, params, body, scope⟩

def bindParams (scope : ScopeId) : List Ident → List Value → Run Unit
  | p :: ps, v :: vs => do
    define scope p v
    bindParams scope ps vs
  | _, _ => return

def callClosure (eval : Evaluator) (f : Closure) (arguments : List Value) : Run Value := do
  let scope ← Run.onScopes (Scopes.child f.scope)
  Run.releasing scope do
    bindParams scope f.params arguments
    Run.catchReturn do
      runAll eval f.body scope
      return .nil

def checkArity (callee : Value) (expected given : Nat) : Run Unit :=
  if given = expected then return else Run.fail (.arity callee expected given)

def call (eval : Evaluator) (callee : Value) (arguments : List Value) : Run Value :=
  match callee with
  | .function f => do
    checkArity callee f.params.length arguments.length
    callClosure eval f arguments
  | .native .clock => do
    checkArity callee Native.clock.arity arguments.length
    return .number (← Run.readClock)
  | .classValue c => do
    checkArity callee 0 arguments.length
    Run.newInstance c
  | v => Run.fail (.notCallable v)

def getField (object : Value) (name : String) : Run Value :=
  match object with
  | .instanceOf c ref => do
    match ← Run.field? ref name with
    | some value => return value
    | none =>
      match c.methods.get? (some name) with
      | some f => return .function f
      | none => Run.fail (.undefinedProperty object name)
  | v => Run.fail (.notAnInstance v name)

def makeMethods (members : ScopeId) :
    List Tree → Bindings (Option String) Closure → Run (Bindings (Option String) Closure)
  | .function name params body :: rest, methods => do
    let f ← close name.text? params body members
    define members name (.function f)
    makeMethods members rest (methods.put name.text? f)
  | _ :: rest, methods => makeMethods members rest methods
  | [], methods => return methods

def evalNode (rounds : Nat) (eval : Evaluator) : Evaluator
  | .literal value, _ => return .ofLiteral value
  | .grouping inner, scope => eval inner scope
  | .reference name, scope => do
    match ← Run.onScopes (Scopes.get? scope name.key) with
    | some value => return value
    | none => Run.fail (.undefinedVariable name)
  | .assign target value, scope => do
    let value ← eval value scope
    match ← Run.onScopes (Scopes.assign scope target.key value) with
    | some _ => return value
    | none => Run.fail (.undefinedVariable target)
  | .binary .or lhs rhs, scope => do
    let lhs ← eval lhs scope
    if lhs.isTruthy then return lhs else eval rhs scope
  | .binary .and lhs rhs, scope => do
    let lhs ← eval lhs scope
    if lhs.isTruthy then eval rhs scope else return lhs
  | .binary op lhs rhs, scope => do
    let lhs ← eval lhs scope
    let rhs ← eval rhs scope
    orFault (op.apply lhs rhs)
  | .unary op operand, scope => do orFault (op.apply (← eval operand scope))
  | .call callee arguments, scope => do
    let callee ← eval callee scope
    let arguments ← evalAll eval arguments scope
    call eval callee arguments
  | .lambda params body, scope => return .function (← close none params body scope)
  | .get object field, scope => do getField (← eval object scope) field
  | .set object field value, scope => do
    -- What is not an instance is refused before the value is evaluated.
    match ← eval object scope with
    | .instanceOf _ ref =>
      let value ← eval value scope
      Run.setField ref field value
      return value
    | v => Run.fail (.notAnInstance v field)
  | .expression e, scope => do
    let _ ← eval e scope
    return .nil
  | .print e, scope => do
    Run.print (← eval e scope).display
    return .nil
  | .ret value, scope => do throw (.returned (← eval value scope))
  | .declare name initial, scope => do
    define scope name (← eval initial scope)
    return .nil
  | .ifThen cond body, scope => do
    if (← eval cond scope).isTruthy then
      let _ ← eval body scope
    return .nil
  | .ifElse cond body other, scope => do
    let _ ← eval (if (← eval cond scope).isTruthy then body else other) scope
    return .nil
  | .whileLoop cond body, scope => do
    iterate (eval cond scope) (eval body scope) rounds
    return .nil
  | .block statements, scope => do
    let inner ← Run.onScopes (Scopes.child scope)
    Run.releasing inner (runAll eval statements inner)
    return .nil
  | .function name params body, scope => do
    define scope name (.function (← close name.text? params body scope))
    return .nil
  | .classDef name methods, scope => do
    let members ← Run.onScopes (Scopes.child scope)
    let methods ← makeMethods members methods []
    -- A class without methods gives its scope up here; otherwise the methods keep it.
    Run.onScopes (Scopes.release members)
    define scope name (.classValue ⟨← Run.freshTag, name.text?, methods⟩)
    return .nil

end Eval

/-- How deep nodes may nest while they are evaluated, and how often one loop may go round. -/
structure Limits where
  depth : Nat
  rounds : Nat

def Limits.standard : Limits := ⟨12500, 1000000000000000⟩

def eval (rounds : Nat) : Nat → Evaluator
  | 0 => fun _ _ => Run.fail .stackOverflow
  | depth + 1 => Eval.evalNode rounds (eval rounds depth)

def evaluate (limits : Limits) (e : Tree) : Run Value := eval limits.rounds limits.depth e root

def interpret (limits : Limits) (program : List Tree) : Run Value :=
  Run.catchReturn do
    Eval.runAll (eval limits.rounds limits.depth) program root
    return .nil

end Lox
