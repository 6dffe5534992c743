import Lox.Parser.Run
import Lox.Tree

set_option autoImplicit false

namespace Lox.Grammar

inductive Rule : Type → Type where
  | expression : Rule Tree
  | unary : Rule Tree
  | statement : Rule Tree

abbrev P (α : Type) := Parser Rule α

open Lox.Parser

def mark (m : Mark) : P Token := kind (.mark m)

def expect (k : Kind) (what : String) : P Token := commit (kind k) what

def expectMark (m : Mark) (what : String) : P Token := expect (.mark m) what

def expression : P Tree := ref .expression "expression"

def statement : P Tree := ref .statement "statement"

def literalOf (t : Token) : Literal :=
  match t.lexeme with
  | .mark .trueWord => .bool true
  | .mark .falseWord => .bool false
  | .number x => .number x
  | .string s => .text s
  | _ => .nil

def literal : P Tree :=
  let one (k : Kind) : P Tree := (kind k).map fun t => .literal (literalOf t)
  choice [one (.mark .trueWord), one (.mark .falseWord), one (.mark .nilWord), one .number, one .string]

def reference : P Tree := (kind .identifier).map fun t => .reference t.name

def grouping : P Tree :=
  (right (mark .leftParen)
    (left (commit expression "an expression after '('")
      (expectMark .rightParen "')' to close the group"))).map .grouping

def parameters : P (List Ident) :=
  left (separated ((kind .identifier).map Token.name) (mark .comma))
    (expectMark .rightParen "')' after parameters")

def braced : P (List Tree) :=
  right (mark .leftBrace)
    (left (zeroOrMore statement) (expectMark .rightBrace "'\x7d' to close the block"))

def block : P Tree := braced.map .block

def functionBody : P (List Tree) := commit braced "'\x7b' to begin the function body"

def lambda : P Tree :=
  (right (pair (mark .funWord) (mark .leftParen)) (pair parameters functionBody)).map
    fun (params, body) => .lambda params body

def primary : P Tree := choice [literal, reference, grouping, lambda]

def arguments : P (Tree → Tree) :=
  (right (mark .leftParen)
    (left (separated expression (mark .comma)) (expectMark .rightParen "')' after arguments"))).map
    fun args callee => .call callee args

def property : P (Tree → Tree) :=
  (right (mark .dot) (expect .identifier "a property name after '.'")).map
    fun t object => .get object t.lexeme.text

def call : P Tree :=
  (pair primary (zeroOrMore (choice [arguments, property]))).map
    fun (first, wraps) => wraps.foldl (fun tree wrap => wrap tree) first

def unaryOf (t : Token) : UnaryOp :=
  if t.kind = .mark .bang then .not else .negate

def unary : P Tree :=
  choice [
    (pair (oneOf [.mark .bang, .mark .minus]) (commit (ref .unary "unary") "an operand")).map
      fun (t, operand) => .unary (unaryOf t) operand,
    call]

def signOf : BinaryOp → Mark
  | .or => .orWord | .and => .andWord | .equal => .equalEqual | .notEqual => .bangEqual
  | .less => .less | .lessEqual => .lessEqual | .greater => .greater
  | .greaterEqual => .greaterEqual | .add => .plus | .subtract => .minus | .multiply => .star
  | .divide => .slash

def operatorOf (ops : List BinaryOp) (t : Token) : Option BinaryOp :=
  ops.find? fun op => t.kind = .mark (signOf op)

def foldLeft (ops : List BinaryOp) (first : Tree) (more : List (Token × Tree)) : Tree :=
  more.foldl (fun lhs (t, rhs) =>
    match operatorOf ops t with
    | some op => .binary op lhs rhs
    | none => lhs) first

def level (operand : P Tree) (ops : List BinaryOp) : P Tree :=
  let more := pair (oneOf (ops.map fun op => .mark (signOf op)))
    (commit operand "an operand after the operator")
  (pair operand (zeroOrMore more)).map fun (first, rest) => foldLeft ops first rest

def multiplication : P Tree := level unary [.multiply, .divide]
def addition : P Tree := level multiplication [.add, .subtract]
def comparison : P Tree := level addition [.less, .lessEqual, .greater, .greaterEqual]
def equality : P Tree := level comparison [.equal, .notEqual]
def logicalAnd : P Tree := level equality [.and]
def logicalOr : P Tree := level logicalAnd [.or]

def assignTo : Tree → Option (Tree → Tree)
  | .reference name => some (.assign name)
  | .get object field => some (.set object field)
  | _ => none

def assignment : P Tree :=
  update logicalOr (.mark .equal) assignTo "an assignable target before '='"
    (commit expression "an expression after '='")

def semicolon : P Token := expectMark .semicolon "';'"

def expressionStatement : P Tree := (left expression semicolon).map .expression

def printStatement : P Tree :=
  (right (mark .printWord) (left (commit expression "an expression after 'print'") semicolon)).map .print

def varStatement : P Tree :=
  (right (mark .varWord)
    (left
      (pair (expect .identifier "a variable name after 'var'")
        (optional (right (mark .equal) (commit expression "an initializer after '='"))
          (.literal .nil)))
      semicolon)).map
    fun (t, initial) => .declare t.name initial

def functionOf : Token × List Ident × List Tree → Tree
  | (t, params, body) => .function t.name params body

def method : P Tree :=
  (pair (kind .identifier) (pair (right (mark .leftParen) parameters) functionBody)).map functionOf

def funStatement : P Tree :=
  (right (mark .funWord)
    (pair (kind .identifier)
      (pair (right (expectMark .leftParen "'(' after the function name") parameters)
        functionBody))).map functionOf

def classStatement : P Tree :=
  (right (mark .classWord)
    (pair (expect .identifier "a class name after 'class'")
      (right (expectMark .leftBrace "'\x7b' to begin the class body")
        (left (zeroOrMore method) (expectMark .rightBrace "'\x7d' to close the class body"))))).map
    fun (t, methods) => .classDef t.name methods

def body : P Tree := commit statement "a statement"

def condition : P Tree :=
  right (expectMark .leftParen "'(' before the condition")
    (left (commit expression "a condition") (expectMark .rightParen "')' after the condition"))

def ifStatement : P Tree :=
  (right (mark .ifWord)
    (pair condition (pair body (optional ((right (mark .elseWord) body).map some) none)))).map
    fun
      | (cond, yes, none) => .ifThen cond yes
      | (cond, yes, some no) => .ifElse cond yes no

def whileStatement : P Tree :=
  (right (mark .whileWord) (pair condition body)).map fun (cond, body) => .whileLoop cond body

def forInitializer : P (Option Tree) :=
  commit
    (choice [(mark .semicolon).map fun _ => none, varStatement.map some, expressionStatement.map some])
    "a loop initializer"

/-- A `for` loop is a `while` loop with the increment at the end of its body, in a block of its own
if it has an initializer. -/
def forLoop (initial cond increment : Option Tree) (body : Tree) : Tree :=
  let body :=
    match increment with
    | none => body
    | some e => .block [body, .expression e]
  let loop := .whileLoop (cond.getD (.literal (.bool true))) body
  match initial with
  | none => loop
  | some first => .block [first, loop]

def forStatement : P Tree :=
  (right (mark .forWord)
    (pair (right (expectMark .leftParen "'(' after 'for'") forInitializer)
      (pair
        (left (optional (expression.map some) none)
          (expectMark .semicolon "';' after the loop condition"))
        (pair
          (left (optional (expression.map some) none)
            (expectMark .rightParen "')' after the for-clauses"))
          body)))).map
    fun (initial, cond, increment, body) => forLoop initial cond increment body

def returnStatement : P Tree :=
  (right (mark .returnWord) (left (optional expression (.literal .nil)) semicolon)).map .ret

def anyStatement : P Tree :=
  choice [varStatement, classStatement, funStatement, ifStatement, whileStatement, forStatement,
    returnStatement, printStatement, block, expressionStatement]

def statements : P (List Tree) := zeroOrMore statement

def rules : Rules Rule
  | _, .expression => assignment
  | _, .unary => unary
  | _, .statement => anyStatement

/-- A statement may begin with an expression; any other reference comes after a token. -/
def depthFor (tokens : Nat) : Nat := 2 * tokens + 2

def parse {α : Type} (p : P α) (c : Cursor) : Reply α :=
  rules.parse (depthFor c.rest.length) p c

def complete {α : Type} (expected : String) : Reply α → Except ParseError α
  | .found value next => if next.rest.isEmpty then .ok value else .error ⟨expected, next⟩
  | .noMatch here => .error ⟨expected, here⟩
  | .failed e => .error e
  -- `depthFor` leaves room for everything, so no program comes here.
  | .tooDeep => .error ⟨"a shallower nesting", .start [] 0⟩

def parseProgram (tokens : List Token) : Except ParseError (List Tree) :=
  complete "a statement" (parse statements (.start tokens 0))

def parseExpression (tokens : List Token) : Except ParseError Tree :=
  complete "an expression" (parse expression (.start tokens 0))

end Lox.Grammar
