import Lox.Scope.Chain

set_option autoImplicit false

namespace Lox

inductive ScopeError where
  | stale (scope : ScopeId)
  | dropRoot
  deriving DecidableEq, Repr

def ScopeError.message : ScopeError → String
  | .stale scope => "scope " ++ toString scope ++ " is no longer active"
  | .dropRoot => "The root scope cannot be dropped."

structure Arena.Entry (κ ν : Type) where
  parent : Option ScopeId
  children : List ScopeId
  bindings : Bindings κ ν
  active : Bool

/-- An entry's id is its place in the table. `retained` and `exited` may hold ids that are not
active. -/
structure Arena (κ ν : Type) where
  table : Array (Arena.Entry κ ν)
  retained : List ScopeId
  exited : List ScopeId

namespace Arena

variable {κ ν : Type}

def new : Arena κ ν := ⟨#[⟨none, [], [], true⟩], [], []⟩

def frame? (a : Arena κ ν) (scope : ScopeId) : Option (Entry κ ν) :=
  if 0 ≤ scope then (a.table[scope.toNat]?).filter Entry.active else none

def isActive (a : Arena κ ν) (scope : ScopeId) : Bool := (a.frame? scope).isSome

def activeScopes (a : Arena κ ν) : List ScopeId :=
  ((List.range a.table.size).map Int.ofNat).filter a.isActive

def update (a : Arena κ ν) (scope : ScopeId) (f : Entry κ ν → Entry κ ν) : Arena κ ν :=
  { a with table := a.table.modify scope.toNat f }

abbrev Work (κ ν : Type) := ExceptT ScopeError (StateM (Arena κ ν))

def frame (scope : ScopeId) : Work κ ν (Entry κ ν) := do
  match (← get).frame? scope with
  | some e => return e
  | none => throw (.stale scope)

def parent (scope : ScopeId) : Work κ ν (Option ScopeId) := return (← frame scope).parent

def children (scope : ScopeId) : Work κ ν (List ScopeId) := return (← frame scope).children

def add (parent : ScopeId) : Work κ ν ScopeId := do
  let _ ← frame parent
  let a ← get
  let scope : ScopeId := a.table.size
  let a := a.update parent fun e => { e with children := e.children ++ [scope] }
  set { a with table := a.table.push ⟨some parent, [], [], true⟩ }
  return scope

def drop (scope : ScopeId) : Work κ ν Unit := do
  if scope = root then throw .dropRoot
  let e ← frame scope
  modifyGet fun a =>
    let a := a.update scope fun e => { e with bindings := [], active := false }
    let a := { a with retained := a.retained.erase scope, exited := a.exited.erase scope }
    -- The parent may have been dropped before its child.
    match e.parent with
    | some p =>
      if a.isActive p then
        ((), a.update p fun e => { e with children := e.children.erase scope })
      else ((), a)
    | none => ((), a)

def compact : Work κ ν Bool := do
  let a ← get
  let target := 2 * ((a.activeScopes.getLastD root).toNat + 1)
  if a.table.size ≤ target then return false
  set { a with table := a.table.take target }
  return true

def retainFrom : Nat → ScopeId → Work κ ν Unit
  | 0, _ => return
  | steps + 1, scope => do
    if (← get).retained.contains scope then return
    -- The id counts as retained from here on, active or not.
    modify fun a => { a with retained := scope :: a.retained }
    match ← parent scope with
    | some p => retainFrom steps p
    | none => return

def retain (scope : ScopeId) : Work κ ν Unit := retainFrom (scope.toNat + 1) scope

def release (scope : ScopeId) : Work κ ν Unit := do
  if scope = root then return
  if (← get).retained.contains scope then
    modify fun a => { a with exited := a.exited.insert scope }
  else drop scope

variable [DecidableEq κ]

def define (scope : ScopeId) (key : κ) (value : ν) : Work κ ν (Option ν) := do
  let e ← frame scope
  modify fun a => a.update scope fun e => { e with bindings := e.bindings.put key value }
  return e.bindings.get? key

def findIn (key : κ) : Nat → ScopeId → Work κ ν (Option ScopeId)
  | 0, _ => return none
  | steps + 1, scope => do
    let e ← frame scope
    if e.bindings.holds key then return some scope
    match e.parent with
    | some p => findIn key steps p
    | none => return none

/-- Parents are older than their children, so the walk is no longer than the id. -/
def find (scope : ScopeId) (key : κ) : Work κ ν (Option ScopeId) :=
  findIn key (scope.toNat + 1) scope

def get? (scope : ScopeId) (key : κ) : Work κ ν (Option ν) := do
  match ← find scope key with
  | none => return none
  | some s => return (← frame s).bindings.get? key

def assign (scope : ScopeId) (key : κ) (value : ν) : Work κ ν (Option ν) := do
  match ← find scope key with
  | none => return none
  | some s => define s key value

def holds (scope : ScopeId) (key : κ) : Work κ ν Bool := return (← frame scope).bindings.holds key

end Arena
end Lox
