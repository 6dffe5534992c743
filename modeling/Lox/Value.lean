import Lox.Number
import Lox.Scope.Chain
import Lox.Tree

set_option autoImplicit false

namespace Lox

structure Closure where
  tag : Nat
  name : Option String
  params : List Ident
  body : List Tree
  scope : ScopeId

structure ClassValue where
  tag : Nat
  name : Option String
  methods : Bindings (Option String) Closure

inductive Native where
  | clock
  deriving DecidableEq, Repr

namespace Native

def all : List Native := [clock]

def name : Native → String
  | clock => "clock"

def arity : Native → Nat
  | clock => 0

end Native

inductive Value where
  | nil
  | bool (b : Bool)
  | text (s : String)
  | number (x : Float)
  | function (f : Closure)
  | native (f : Native)
  | classValue (c : ClassValue)
  | instanceOf (c : ClassValue) (ref : Nat)

inductive Identity where
  | tag (tag : Nat)
  | place (ref : Nat)

namespace Value

def identity : Value → Option Identity
  | function f => some (.tag f.tag)
  | classValue c => some (.tag c.tag)
  | instanceOf _ ref => some (.place ref)
  | _ => none

def ofLiteral : Literal → Value
  | .nil => nil
  | .bool b => bool b
  | .number x => number x
  | .text s => text s

def isTruthy : Value → Bool
  | nil => false
  | bool b => b
  | _ => true

def nameOfClass (c : ClassValue) : String := c.name.getD "None"

def display : Value → String
  | nil => "nil"
  | bool true => "true"
  | bool false => "false"
  | text s => s
  | number x => Number.shown x
  | function f =>
    match f.name with
    | none | some "" => "<fn>"
    | some name => "<fn " ++ name ++ ">"
  | native f => "<native fn " ++ f.name ++ ">"
  | classValue c => "<class " ++ nameOfClass c ++ ">"
  | instanceOf c _ => "<" ++ nameOfClass c ++ " instance>"

def quoted : Value → String
  | text s => "\"" ++ s ++ "\""
  | v => v.display

def equal? : Value → Value → Option Bool
  | nil, nil => some true
  | bool a, bool b => some (a == b)
  | text a, text b => some (a == b)
  | number a, number b => some (Number.same a b)
  | function f, function g => some (f.tag == g.tag)
  | native f, native g => some (f == g)
  | classValue c, classValue d => some (c.tag == d.tag)
  | instanceOf _ a, instanceOf _ b => some (a == b)
  | _, _ => none

end Value
end Lox
