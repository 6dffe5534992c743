import Lox.Tree.Render

set_option autoImplicit false

namespace Lox

inductive Subject where
  | tree (t : Tree)
  | ident (i : Ident)

def Subject.described : Subject → String
  | .tree t => t.render
  | .ident i => i.described

inductive ResolveError where
  | undefined (name : Ident)
  | mismatch (subject : Subject)

def ResolveError.message : ResolveError → String
  | .undefined name => "Undefined: " ++ name.shown
  | .mismatch subject => "TypeMismatch: " ++ subject.described

abbrev StaticScope := List (Int × Ident)

def StaticScope.find? (scope : StaticScope) (key : Int) : Option Ident :=
  scope.lookup key

structure Slots where
  inner : List StaticScope
  globals : StaticScope
  next : Nat

namespace Slots

def empty : Slots := ⟨[], [], 0⟩

def depth (s : Slots) : Nat := s.inner.length + 1

def current (s : Slots) : StaticScope := s.inner.headD s.globals

def enter (s : Slots) : Slots := { s with inner := [] :: s.inner }

def leave (s : Slots) : Slots := { s with inner := s.inner.tail }

def add (s : Slots) (key : Int) (slot : Ident) : Slots :=
  match s.inner with
  | [] => { s with globals := s.globals ++ [(key, slot)] }
  | scope :: outer => { s with inner := (scope ++ [(key, slot)]) :: outer }

def find? (s : Slots) (key : Int) : Option Ident :=
  (s.inner.findSome? (·.find? key)).or (s.globals.find? key)

abbrev Walk := ExceptT ResolveError (StateM Slots)

def keyOf (name : Ident) : Walk Int :=
  if name.isResolved then throw (.mismatch (.ident name)) else pure name.key

def declare (name : Ident) : Walk Ident := do
  let key ← keyOf name
  let s ← get
  match s.current.find? key with
  | some slot => return slot
  | none =>
    let slot := Ident.slot s.next (some name.shown)
    set { s.add key slot with next := s.next + 1 }
    return slot

def use (name : Ident) : Walk Ident := do
  let key ← keyOf name
  match (← get).find? key with
  | some slot => return slot
  | none => throw (.undefined name)

def enclosed {α : Type} (walk : Walk α) : Walk α :=
  ExceptT.mk fun s =>
    let (result, s') := walk.run s.enter
    (result, s'.leave)

def declareAll : List Ident → Walk (List Ident)
  | [] => return []
  | name :: names => return (← declare name) :: (← declareAll names)

mutual

def tree : Tree → Walk Tree
  | .assign target value => do
    let value ← tree value
    return .assign (← use target) value
  | .binary op lhs rhs => return .binary op (← tree lhs) (← tree rhs)
  | .unary op operand => return .unary op (← tree operand)
  | .call callee arguments => return .call (← tree callee) (← trees arguments)
  | .literal value => return .literal value
  | .grouping inner => return .grouping (← tree inner)
  | .lambda params body => do
    let (params, body) ← enclosed do return (← declareAll params, ← trees body)
    return .lambda params body
  | .reference name => return .reference (← use name)
  | .get object field => return .get (← tree object) field
  | .set object field value => return .set (← tree object) field (← tree value)
  | .expression e => return .expression (← tree e)
  | .ifThen cond body => return .ifThen (← tree cond) (← tree body)
  | .ifElse cond body other => do
    -- The `else` branch is walked before the condition, so it sees fewer declarations.
    let other ← tree other
    return .ifElse (← tree cond) (← tree body) other
  | .whileLoop cond body => return .whileLoop (← tree cond) (← tree body)
  | .print e => return .print (← tree e)
  | .declare name initial => do
    -- An initializer does not see the name that it is for.
    let initial ← tree initial
    return .declare (← declare name) initial
  | .function name params body => do
    -- The name comes first, so the body may recurse.
    let name ← declare name
    let (params, body) ← enclosed do return (← declareAll params, ← trees body)
    return .function name params body
  | .ret value => return .ret (← tree value)
  | .classDef name methods => do
    let name ← declare name
    return .classDef name (← enclosed (trees methods))
  | .block statements => return .block (← enclosed (trees statements))

def trees : List Tree → Walk (List Tree)
  | [] => return []
  | t :: ts => return (← tree t) :: (← trees ts)

end

def statements : List Subject → Except ResolveError (List Tree)
  | [] => .ok []
  | .tree t :: more =>
    if t.isStatement then (statements more).map (t :: ·) else .error (.mismatch (.tree t))
  | .ident i :: _ => .error (.mismatch (.ident i))

/-- Resolves a program. If it fails, the global scope is as it was before; the counter is not. -/
def resolve (subjects : List Subject) (s : Slots) : Except ResolveError (List Tree) × Slots :=
  match statements subjects with
  | .error e => (.error e, s)
  | .ok ts =>
    match (trees ts).run s with
    | (.ok resolved, s') => (.ok resolved, s')
    | (.error e, s') => (.error e, { s' with globals := s.globals })

def resolveProgram (program : List Tree) (s : Slots) : Except ResolveError (List Tree) × Slots :=
  resolve (program.map .tree) s

def resolveExpression (subject : Subject) (s : Slots) : Except ResolveError Tree × Slots :=
  match subject with
  | .tree t => if t.isExpression then (tree t).run s else (.error (.mismatch (.tree t)), s)
  | .ident i => (.error (.mismatch (.ident i)), s)

def ofNames (names : List String) : Slots :=
  names.foldl (fun s text => ((declare (.name text none)).run s).2) empty

def globalSlot (s : Slots) (text : String) : Except ResolveError Ident :=
  match s.globals.find? (Ident.name text none).key with
  | some slot => .ok slot
  | none => .error (.undefined (.name text none))

end Slots
end Lox
