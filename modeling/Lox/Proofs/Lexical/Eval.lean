import Lox.Eval

set_option autoImplicit false

namespace Lox.Lexical

abbrev Frame := List (Ident × Nat)

abbrev Env := List Frame

structure State where
  machine : Machine
  store : Array Value
  /-- What closures have captured. The scope of a closure is a place here. -/
  captured : Array Env

abbrev Work := ExceptT Stop (StateM State)

abbrev Evaluator := Tree → Env → Work (Value × Env)

def lift {α : Type} (work : Run α) : Work α :=
  ExceptT.mk fun s =>
    let (result, machine) := work.run s.machine
    (result, { s with machine })

def fail {α : Type} (f : Fault) : Work α := throw (.fault f)

def read (location : Nat) : Work Value := return (← get).store.getD location .nil

def write (location : Nat) (value : Value) : Work Unit :=
  modify fun s => { s with store := s.store.setIfInBounds location value }

def capture (env : Env) : Work ScopeId :=
  modifyGet fun s => (s.captured.size, { s with captured := s.captured.push env })

def close (name : Option String) (params : List Ident) (body : List Tree) (env : Env) :
    Work Closure := do
  let scope ← capture env
  return ⟨← lift Run.freshTag, name, params, body, scope⟩

def part (eval : Evaluator) (t : Tree) (env : Env) : Work Value := return (← eval t env).1

def evalAll (eval : Evaluator) : List Tree → Env → Work (List Value)
  | [], _ => return []
  | t :: ts, env => return (← part eval t env) :: (← evalAll eval ts env)

def runAll (eval : Evaluator) : List Tree → Env → Work (Env)
  | [], env => return env
  | t :: ts, env => do
    let (_, env) ← eval t env
    runAll eval ts env

section Named

variable (same : Ident → Ident → Bool)

def Frame.find? (f : Frame) (name : Ident) : Option (Ident × Nat) := List.find? (same ·.1 name) f

def Env.find? (env : Env) (name : Ident) : Option (Ident × Nat) :=
  env.findSome? fun f => f.find? same name

def place (name : Ident) (env : Env) : Work ((Ident × Nat) × Env) :=
  match Frame.find? same (env.headD []) name with
  | some declared => return (declared, env)
  | none => do
    let location ← modifyGet fun s => (s.store.size, { s with store := s.store.push .nil })
    return ((name, location), (env.headD [] ++ [(name, location)]) :: env.tail)

def declare {α : Type} (name : Ident) (env : Env) (value : α → Value)
    (make : Ident → Env → Work α) : Work (α × Env) := do
  let ((declared, location), env) ← place same name env
  let made ← make declared env
  write location (value made)
  return (made, env)

def bindParams : List Ident → List Value → Env → Work (Env)
  | p :: ps, v :: vs, env => do
    let (_, env) ← declare same p env id fun _ _ => pure v
    bindParams ps vs env
  | _, _, env => return env

def callClosure (eval : Evaluator) (f : Closure) (arguments : List Value) : Work Value := do
  let env := (← get).captured.getD f.scope.toNat []
  let env ← bindParams same f.params arguments ([] :: env)
  Run.catchReturn do
    let _ ← runAll eval f.body env
    return .nil

def call (eval : Evaluator) (callee : Value) (arguments : List Value) : Work Value :=
  match callee with
  | .function f => do
    lift (Eval.checkArity callee f.params.length arguments.length)
    callClosure same eval f arguments
  | .native .clock => do
    lift (Eval.checkArity callee Native.clock.arity arguments.length)
    return .number (← lift Run.readClock)
  | .classValue c => do
    lift (Eval.checkArity callee 0 arguments.length)
    lift (Run.newInstance c)
  | v => fail (.notCallable v)

def makeMethods :
    List Tree → Env → Bindings (Option String) Closure → Work (Bindings (Option String) Closure)
  | .function name params body :: rest, env, methods => do
    let (f, env) ← declare same name env .function fun declared =>
      close (some declared.shown) params body
    makeMethods rest env (methods.put f.name f)
  | _ :: rest, env, methods => makeMethods rest env methods
  | [], _, methods => return methods

def evalPlain (rounds : Nat) (eval : Evaluator) : Tree → Env → Work Value
  | .literal value, _ => return .ofLiteral value
  | .grouping inner, env => part eval inner env
  | .reference name, env =>
    match env.find? same name with
    | some (_, location) => read location
    | none => fail (.undefinedVariable name)
  | .assign target value, env => do
    let value ← part eval value env
    match env.find? same target with
    | some (_, location) =>
      write location value
      return value
    | none => fail (.undefinedVariable target)
  | .binary .or lhs rhs, env => do
    let lhs ← part eval lhs env
    if lhs.isTruthy then return lhs else part eval rhs env
  | .binary .and lhs rhs, env => do
    let lhs ← part eval lhs env
    if lhs.isTruthy then part eval rhs env else return lhs
  | .binary op lhs rhs, env => do
    let lhs ← part eval lhs env
    let rhs ← part eval rhs env
    lift (Eval.orFault (op.apply lhs rhs))
  | .unary op operand, env => do lift (Eval.orFault (op.apply (← part eval operand env)))
  | .call callee arguments, env => do
    let callee ← part eval callee env
    let arguments ← evalAll eval arguments env
    call same eval callee arguments
  | .lambda params body, env => return .function (← close none params body env)
  | .get object field, env => do lift (Eval.getField (← part eval object env) field)
  | .set object field value, env => do
    match ← part eval object env with
    | .instanceOf _ ref =>
      let value ← part eval value env
      lift (Run.setField ref field value)
      return value
    | v => fail (.notAnInstance v field)
  | .expression e, env => do
    let _ ← part eval e env
    return .nil
  | .print e, env => do
    lift (Run.print (← part eval e env).display)
    return .nil
  | .ret value, env => do throw (.returned (← part eval value env))
  | .ifThen cond body, env => do
    if (← part eval cond env).isTruthy then
      let _ ← part eval body env
    return .nil
  | .ifElse cond body other, env => do
    let _ ← part eval (if (← part eval cond env).isTruthy then body else other) env
    return .nil
  | .whileLoop cond body, env => do
    Eval.iterate (part eval cond env) (part eval body env) rounds
    return .nil
  | .block statements, env => do
    let _ ← runAll eval statements ([] :: env)
    return .nil
  | _, _ => return .nil

def evalNode (rounds : Nat) (eval : Evaluator) : Evaluator
  | .declare name initial, env => do
    let value ← part eval initial env
    let (_, env) ← declare same name env id fun _ _ => pure value
    return (.nil, env)
  | .function name params body, env => do
    let (_, env) ← declare same name env .function fun declared =>
      close (some declared.shown) params body
    return (.nil, env)
  | .classDef name methods, env => do
    let (_, env) ← declare same name env .classValue fun declared env => do
      let methods ← makeMethods same methods ([] :: env) []
      return ⟨← lift Run.freshTag, some declared.shown, methods⟩
    return (.nil, env)
  | t, env => return (← evalPlain same rounds eval t env, env)

def eval (rounds : Nat) : Nat → Evaluator
  | 0 => fun _ _ => fail .stackOverflow
  | depth + 1 => evalNode same rounds (eval rounds depth)

end Named

def globals : Env := [(Native.all.map fun f => .name f.name none).zipIdx]

def interpret (same : Ident → Ident → Bool) (limits : Limits) (program : List Tree) : Work Value :=
  Run.catchReturn do
    let _ ← runAll (eval same limits.rounds limits.depth) program globals
    return .nil

def start (clock : Nat → Float) : State :=
  ⟨.onChain clock, (Native.all.map Value.native).toArray, #[]⟩

end Lox.Lexical
