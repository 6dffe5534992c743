import Lox.Number
import Lox.Tree

set_option autoImplicit false

namespace Lox

def Literal.render : Literal → String
  | .nil => "nil"
  | .bool true => "true"
  | .bool false => "false"
  | .number x => Number.shown x
  | .text s => "\"" ++ s ++ "\""

namespace Tree

def form (parts : List String) : String :=
  "(" ++ " ".intercalate parts ++ ")"

def renderParams (params : List Ident) : String :=
  "(" ++ ", ".intercalate (params.map Ident.shown) ++ ")"

mutual

def render : Tree → String
  | assign target value => form ["=", target.shown, value.render]
  | binary op lhs rhs => form [op.glyph, lhs.render, rhs.render]
  | unary op operand => form [op.glyph, operand.render]
  | call callee arguments => callee.render ++ "(" ++ ", ".intercalate (renderAll arguments) ++ ")"
  | literal value => value.render
  | grouping inner => form ["Grouping", inner.render]
  | lambda params body => form ["Lambda", renderParams params, form ("Block" :: renderAll body)]
  | reference name => form ["Var", name.shown]
  | get object field => form [".", object.render, field]
  | set object field value => form [".=", object.render, field, value.render]
  | expression e => form ["Expression", e.render]
  | ifThen cond body => form ["if", cond.render, body.render]
  | ifElse cond body other => form ["if", cond.render, body.render, other.render]
  | whileLoop cond body => form ["while", cond.render, body.render]
  | print e => form ["Print", e.render]
  | declare name initial => form ["Declaration", name.shown, initial.render]
  | function name params body =>
    form ["Function", name.shown, renderParams params, form ("Block" :: renderAll body)]
  | ret value => form ["Return", value.render]
  | classDef name methods => form ("Class" :: name.shown :: renderAll methods)
  | block statements => form ("Block" :: renderAll statements)

def renderAll : List Tree → List String
  | [] => []
  | t :: ts => t.render :: renderAll ts

end

end Tree
end Lox
