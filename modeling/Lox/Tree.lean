import Lox.Ident

set_option autoImplicit false

namespace Lox

inductive BinaryOp where
  | or | and
  | equal | notEqual
  | less | lessEqual | greater | greaterEqual
  | add | subtract
  | multiply | divide
  deriving DecidableEq, Repr

inductive Family where
  | logical | equality | comparison | addition | multiplication
  deriving DecidableEq, Repr

namespace BinaryOp

def all : List BinaryOp :=
  [or, and, equal, notEqual, less, lessEqual, greater, greaterEqual, add, subtract, multiply, divide]

def family : BinaryOp → Family
  | or | and => .logical
  | equal | notEqual => .equality
  | less | lessEqual | greater | greaterEqual => .comparison
  | add | subtract => .addition
  | multiply | divide => .multiplication

def glyph : BinaryOp → String
  | or => "or" | and => "and" | equal => "==" | notEqual => "!=" | less => "<" | lessEqual => "<="
  | greater => ">" | greaterEqual => ">=" | add => "+" | subtract => "-" | multiply => "*"
  | divide => "/"

end BinaryOp

inductive UnaryOp where
  | not | negate
  deriving DecidableEq, Repr

def UnaryOp.glyph : UnaryOp → String
  | not => "!"
  | negate => "-"

inductive Literal where
  | nil
  | bool (b : Bool)
  | number (x : Float)
  | text (s : String)
  deriving Repr

def Literal.same : Literal → Literal → Bool
  | .nil, .nil => true
  | .bool a, .bool b => a == b
  | .number a, .number b => a == b
  | .text a, .text b => a == b
  | _, _ => false

/-- Bodies of functions and of lambdas are blocks that share the scope of the parameters. -/
inductive Tree where
  | assign (target : Ident) (value : Tree)
  | binary (op : BinaryOp) (lhs rhs : Tree)
  | unary (op : UnaryOp) (operand : Tree)
  | call (callee : Tree) (arguments : List Tree)
  | literal (value : Literal)
  | grouping (inner : Tree)
  | lambda (params : List Ident) (body : List Tree)
  | reference (name : Ident)
  | get (object : Tree) (field : String)
  | set (object : Tree) (field : String) (value : Tree)
  | expression (e : Tree)
  | ifThen (cond body : Tree)
  | ifElse (cond body other : Tree)
  | whileLoop (cond body : Tree)
  | print (e : Tree)
  | declare (name : Ident) (initial : Tree)
  | function (name : Ident) (params : List Ident) (body : List Tree)
  | ret (value : Tree)
  | classDef (name : Ident) (methods : List Tree)
  | block (statements : List Tree)
  deriving Repr

namespace Tree

def isExpression : Tree → Bool
  | assign .. | binary .. | unary .. | call .. | literal .. | grouping .. | lambda .. | reference ..
  | get .. | set .. => true
  | _ => false

def isStatement (t : Tree) : Bool := !t.isExpression

def sameIdents : List Ident → List Ident → Bool
  | [], [] => true
  | a :: as, b :: bs => a.same b && sameIdents as bs
  | _, _ => false

mutual

def same : Tree → Tree → Bool
  | assign a x, assign b y => a.same b && same x y
  | binary p a x, binary q b y => p == q && same a b && same x y
  | unary p a, unary q b => p == q && same a b
  | call f xs, call g ys => same f g && sameAll xs ys
  | literal a, literal b => a.same b
  | grouping a, grouping b => same a b
  | lambda ps xs, lambda qs ys => sameIdents ps qs && sameAll xs ys
  | reference a, reference b => a.same b
  | get a f, get b g => same a b && f == g
  | set a f x, set b g y => same a b && f == g && same x y
  | expression a, expression b => same a b
  | ifThen a x, ifThen b y => same a b && same x y
  | ifElse a x u, ifElse b y v => same a b && same x y && same u v
  | whileLoop a x, whileLoop b y => same a b && same x y
  | print a, print b => same a b
  | declare a x, declare b y => a.same b && same x y
  | function a ps xs, function b qs ys => a.same b && sameIdents ps qs && sameAll xs ys
  | ret a, ret b => same a b
  | classDef a xs, classDef b ys => a.same b && sameAll xs ys
  | block xs, block ys => sameAll xs ys
  | _, _ => false

def sameAll : List Tree → List Tree → Bool
  | [], [] => true
  | x :: xs, y :: ys => same x y && sameAll xs ys
  | _, _ => false

end

end Tree
end Lox
