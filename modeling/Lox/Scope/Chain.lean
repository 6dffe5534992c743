import Lox.Scope.Bindings

set_option autoImplicit false

namespace Lox

abbrev ScopeId := Int

def root : ScopeId := 0

structure Chain.Entry (κ ν : Type) where
  parent : Option ScopeId
  bindings : Bindings κ ν

structure Chain (κ ν : Type) where
  table : Array (Chain.Entry κ ν)

namespace Chain

variable {κ ν : Type} [DecidableEq κ]

def new : Chain κ ν := ⟨#[⟨none, []⟩]⟩

def frame? (c : Chain κ ν) (scope : ScopeId) : Option (Entry κ ν) := c.table[scope.toNat]?

def bindingsOf (c : Chain κ ν) (scope : ScopeId) : Bindings κ ν :=
  (c.frame? scope).elim [] Entry.bindings

def child (c : Chain κ ν) (parent : ScopeId) : ScopeId × Chain κ ν :=
  (c.table.size, ⟨c.table.push ⟨some parent, []⟩⟩)

def bind (c : Chain κ ν) (scope : ScopeId) (key : κ) (value : ν) : Chain κ ν :=
  ⟨c.table.modify scope.toNat fun e => { e with bindings := e.bindings.put key value }⟩

def findIn (c : Chain κ ν) (key : κ) : Nat → ScopeId → Option ScopeId
  | 0, _ => none
  | steps + 1, scope =>
    match c.frame? scope with
    | none => none
    | some e => if e.bindings.holds key then some scope else e.parent.bind (findIn c key steps)

def find? (c : Chain κ ν) (scope : ScopeId) (key : κ) : Option ScopeId :=
  c.findIn key (scope.toNat + 1) scope

def define (c : Chain κ ν) (scope : ScopeId) (key : κ) (value : ν) : Option ν × Chain κ ν :=
  ((c.bindingsOf scope).get? key, c.bind scope key value)

def get? (c : Chain κ ν) (scope : ScopeId) (key : κ) : Option ν :=
  (c.find? scope key).bind fun s => (c.bindingsOf s).get? key

def assign (c : Chain κ ν) (scope : ScopeId) (key : κ) (value : ν) : Option ν × Chain κ ν :=
  match c.find? scope key with
  | none => (none, c)
  | some s => c.define s key value

end Chain
end Lox
