import Lox.Value

set_option autoImplicit false

namespace Lox

inductive Fault where
  | operands (op : BinaryOp) (lhs rhs : Value)
  | operand (op : UnaryOp) (value : Value)
  | undefinedVariable (name : Ident)
  | undefinedProperty (object : Value) (field : String)
  | notAnInstance (value : Value) (field : String)
  | notCallable (value : Value)
  | arity (callee : Value) (expected given : Nat)
  | stackOverflow

def Fault.message : Fault → String
  | .operands op lhs rhs =>
    "invalid operands for operator: " ++ lhs.quoted ++ " " ++ op.glyph ++ " " ++ rhs.quoted
  | .operand op value => "invalid operand for operator: " ++ op.glyph ++ value.quoted
  | .undefinedVariable name => "undefined variable '" ++ name.shown ++ "'"
  | .undefinedProperty object field => object.display ++ " has no property '" ++ field ++ "'"
  | .notAnInstance value field =>
    "only instances have properties, so " ++ value.quoted ++ " has no '" ++ field ++ "'"
  | .notCallable value => "can only call functions and classes, not " ++ value.quoted
  | .arity callee expected given =>
    callee.display ++ " expected " ++ toString expected ++ " argument(s) but got " ++ toString given
  | .stackOverflow => "stack overflow"

end Lox
