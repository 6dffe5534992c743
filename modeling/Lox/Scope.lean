import Lox.Scope.Collect

set_option autoImplicit false

namespace Lox

inductive Scopes (κ ν : Type) where
  | chain (c : Chain κ ν)
  | arena (a : Arena κ ν)

namespace Scopes

variable {κ ν : Type}

abbrev Work (κ ν : Type) := ExceptT ScopeError (StateM (Scopes κ ν))

def either {α : Type} (onChain : Chain κ ν → α × Chain κ ν) (onArena : Arena.Work κ ν α) :
    Work κ ν α :=
  ExceptT.mk fun
    | .chain c =>
      let (x, c) := onChain c
      (.ok x, .chain c)
    | .arena a =>
      let (x, a) := onArena.run a
      (x, .arena a)

def child (scope : ScopeId) : Work κ ν ScopeId :=
  either (·.child scope) (Arena.add scope)

def retain (scope : ScopeId) : Work κ ν Unit :=
  either (fun c => ((), c)) (Arena.retain scope)

def release (scope : ScopeId) : Work κ ν Unit :=
  either (fun c => ((), c)) (Arena.release scope)

variable [DecidableEq κ]

def define (scope : ScopeId) (key : κ) (value : ν) : Work κ ν (Option ν) :=
  either (·.define scope key value) (Arena.define scope key value)

def get? (scope : ScopeId) (key : κ) : Work κ ν (Option ν) :=
  either (fun c => (c.get? scope key, c)) (Arena.get? scope key)

def assign (scope : ScopeId) (key : κ) (value : ν) : Work κ ν (Option ν) :=
  either (·.assign scope key value) (Arena.assign scope key value)

def holds (scope : ScopeId) (key : κ) : Work κ ν Bool :=
  either (fun c => ((c.bindingsOf scope).holds key, c)) (Arena.holds scope key)

def globals : Scopes κ ν → Bindings κ ν
  | .chain c => c.bindingsOf root
  | .arena a => (a.frame? root).elim [] Arena.Entry.bindings

end Scopes
end Lox
