import Lox.Token
import Lox.Tree

set_option autoImplicit false

namespace Lox.Surface

structure Word where
  text : String
  span : Option Span

mutual

inductive Expr where
  | literal (value : Literal)
  | reference (name : Word)
  | grouping (inner : Expr)
  | lambda (params : List Word) (body : List Stmt)
  | call (callee : Expr) (arguments : List Expr)
  | get (object : Expr) (field : Word)
  | unary (op : UnaryOp) (operand : Expr)
  | binary (op : BinaryOp) (lhs rhs : Expr)
  | assign (target : Word) (value : Expr)
  | set (object : Expr) (field : Word) (value : Expr)

inductive Clause where
  | expression (e : Expr)
  | declare (name : Word) (initial : Option Expr)

inductive Stmt where
  | clause (c : Clause)
  | print (e : Expr)
  | ret (value : Option Expr)
  | block (body : List Stmt)
  | ifThen (cond : Expr) (body : Stmt)
  | ifElse (cond : Expr) (body other : Stmt)
  | whileLoop (cond : Expr) (body : Stmt)
  | forLoop (initial : Option Clause) (cond increment : Option Expr) (body : Stmt)
  | function (f : Function)
  | classDef (name : Word) (methods : List Function)

inductive Function where
  | mk (name : Word) (params : List Word) (body : List Stmt)

end

def Word.token (w : Word) : Token := ⟨.identifier w.text, w.span⟩

def Word.ident (w : Word) : Ident := .name w.text w.span

def markToken (m : Mark) : Token := ⟨.mark m, none⟩

def literalToken : Literal → Token
  | .nil => markToken .nilWord
  | .bool true => markToken .trueWord
  | .bool false => markToken .falseWord
  | .number x => ⟨.number x, none⟩
  | .text s => ⟨.string s, none⟩

def unaryMark : UnaryOp → Mark
  | .not => .bang
  | .negate => .minus

def binaryMark : BinaryOp → Mark
  | .or => .orWord
  | .and => .andWord
  | .equal => .equalEqual
  | .notEqual => .bangEqual
  | .less => .less
  | .lessEqual => .lessEqual
  | .greater => .greater
  | .greaterEqual => .greaterEqual
  | .add => .plus
  | .subtract => .minus
  | .multiply => .star
  | .divide => .slash

def writeMoreWords : List Word → List Token → List Token
  | [], rest => rest
  | w :: ws, rest => markToken .comma :: w.token :: writeMoreWords ws rest

def writeWords : List Word → List Token → List Token
  | [], rest => rest
  | w :: ws, rest => w.token :: writeMoreWords ws rest

def writeParams (params : List Word) (rest : List Token) : List Token :=
  markToken .leftParen :: writeWords params (markToken .rightParen :: rest)

mutual

@[simp] def Expr.write : Expr → List Token → List Token
  | .literal value, rest => literalToken value :: rest
  | .reference name, rest => name.token :: rest
  | .grouping inner, rest => markToken .leftParen :: inner.write (markToken .rightParen :: rest)
  | .lambda params body, rest =>
    markToken .funWord :: writeParams params
      (markToken .leftBrace :: writeBody body (markToken .rightBrace :: rest))
  | .call callee arguments, rest =>
    callee.write (markToken .leftParen :: writeArguments arguments (markToken .rightParen :: rest))
  | .get object field, rest => object.write (markToken .dot :: field.token :: rest)
  | .unary op operand, rest => markToken (unaryMark op) :: operand.write rest
  | .binary op lhs rhs, rest => lhs.write (markToken (binaryMark op) :: rhs.write rest)
  | .assign target value, rest => target.token :: markToken .equal :: value.write rest
  | .set object field value, rest =>
    object.write (markToken .dot :: field.token :: markToken .equal :: value.write rest)

@[simp] def writeArguments : List Expr → List Token → List Token
  | [], rest => rest
  | e :: es, rest => e.write (writeMore es rest)

@[simp] def writeMore : List Expr → List Token → List Token
  | [], rest => rest
  | e :: es, rest => markToken .comma :: e.write (writeMore es rest)

@[simp] def writeOption : Option Expr → List Token → List Token
  | none, rest => rest
  | some e, rest => e.write rest

@[simp] def Clause.write : Clause → List Token → List Token
  | .expression e, rest => e.write (markToken .semicolon :: rest)
  | .declare name none, rest => markToken .varWord :: name.token :: markToken .semicolon :: rest
  | .declare name (some e), rest =>
    markToken .varWord :: name.token :: markToken .equal :: e.write (markToken .semicolon :: rest)

@[simp] def writeInitial : Option Clause → List Token → List Token
  | none, rest => markToken .semicolon :: rest
  | some c, rest => c.write rest

@[simp] def Stmt.write : Stmt → List Token → List Token
  | .clause c, rest => c.write rest
  | .print e, rest => markToken .printWord :: e.write (markToken .semicolon :: rest)
  | .ret value, rest => markToken .returnWord :: writeOption value (markToken .semicolon :: rest)
  | .block body, rest => markToken .leftBrace :: writeBody body (markToken .rightBrace :: rest)
  | .ifThen cond body, rest =>
    markToken .ifWord :: markToken .leftParen :: cond.write (markToken .rightParen :: body.write rest)
  | .ifElse cond body other, rest =>
    markToken .ifWord :: markToken .leftParen ::
      cond.write (markToken .rightParen :: body.write (markToken .elseWord :: other.write rest))
  | .whileLoop cond body, rest =>
    markToken .whileWord :: markToken .leftParen :: cond.write (markToken .rightParen :: body.write rest)
  | .forLoop initial cond increment body, rest =>
    markToken .forWord :: markToken .leftParen :: writeInitial initial (writeOption cond
      (markToken .semicolon :: writeOption increment (markToken .rightParen :: body.write rest)))
  | .function f, rest => markToken .funWord :: f.write rest
  | .classDef name methods, rest =>
    markToken .classWord :: name.token :: markToken .leftBrace ::
      writeMethods methods (markToken .rightBrace :: rest)

@[simp] def writeBody : List Stmt → List Token → List Token
  | [], rest => rest
  | s :: ss, rest => s.write (writeBody ss rest)

@[simp] def Function.write : Function → List Token → List Token
  | .mk name params body, rest =>
    name.token :: writeParams params
      (markToken .leftBrace :: writeBody body (markToken .rightBrace :: rest))

@[simp] def writeMethods : List Function → List Token → List Token
  | [], rest => rest
  | f :: fs, rest => f.write (writeMethods fs rest)

end

def print (program : List Stmt) : List Token := writeBody program []

def loopOf (initial cond increment : Option Tree) (body : Tree) : Tree :=
  let test := cond.getD (.literal (.bool true))
  let round :=
    match increment with
    | none => body
    | some e => .block [body, .expression e]
  match initial with
  | none => .whileLoop test round
  | some first => .block [first, .whileLoop test round]

mutual

@[simp] def Expr.desugar : Expr → Tree
  | .literal value => .literal value
  | .reference name => .reference name.ident
  | .grouping inner => .grouping inner.desugar
  | .lambda params body => .lambda (params.map Word.ident) (desugarBody body)
  | .call callee arguments => .call callee.desugar (desugarArguments arguments)
  | .get object field => .get object.desugar field.text
  | .unary op operand => .unary op operand.desugar
  | .binary op lhs rhs => .binary op lhs.desugar rhs.desugar
  | .assign target value => .assign target.ident value.desugar
  | .set object field value => .set object.desugar field.text value.desugar

@[simp] def desugarArguments : List Expr → List Tree
  | [] => []
  | e :: es => e.desugar :: desugarArguments es

@[simp] def desugarOption : Option Expr → Option Tree
  | none => none
  | some e => some e.desugar

@[simp] def Clause.desugar : Clause → Tree
  | .expression e => .expression e.desugar
  | .declare name none => .declare name.ident (.literal .nil)
  | .declare name (some e) => .declare name.ident e.desugar

@[simp] def desugarInitial : Option Clause → Option Tree
  | none => none
  | some c => some c.desugar

@[simp] def Stmt.desugar : Stmt → Tree
  | .clause c => c.desugar
  | .print e => .print e.desugar
  | .ret value => .ret ((desugarOption value).getD (.literal .nil))
  | .block body => .block (desugarBody body)
  | .ifThen cond body => .ifThen cond.desugar body.desugar
  | .ifElse cond body other => .ifElse cond.desugar body.desugar other.desugar
  | .whileLoop cond body => .whileLoop cond.desugar body.desugar
  | .forLoop initial cond increment body =>
    loopOf (desugarInitial initial) (desugarOption cond) (desugarOption increment) body.desugar
  | .function f => f.desugar
  | .classDef name methods => .classDef name.ident (desugarMethods methods)

@[simp] def desugarBody : List Stmt → List Tree
  | [] => []
  | s :: ss => s.desugar :: desugarBody ss

@[simp] def Function.desugar : Function → Tree
  | .mk name params body => .function name.ident (params.map Word.ident) (desugarBody body)

@[simp] def desugarMethods : List Function → List Tree
  | [] => []
  | f :: fs => f.desugar :: desugarMethods fs

end

def precedence : BinaryOp → Nat
  | .or => 1
  | .and => 2
  | .equal | .notEqual => 3
  | .less | .lessEqual | .greater | .greaterEqual => 4
  | .add | .subtract => 5
  | .multiply | .divide => 6

@[simp] def Expr.level : Expr → Nat
  | .assign .. | .set .. => 0
  | .binary op .. => precedence op
  | .unary .. => 7
  | .call .. | .get .. => 8
  | .literal _ | .reference _ | .grouping _ | .lambda .. => 9

/-- Whether an `else` right after the statement would belong to an `if` at its end. -/
def Stmt.endsOpen : Stmt → Bool
  | .ifThen .. => true
  | .ifElse _ _ other => other.endsOpen
  | .whileLoop _ body | .forLoop _ _ _ body => body.endsOpen
  | _ => false

mutual

@[simp] def Expr.Grammatical : Expr → Prop
  | .literal _ | .reference _ => True
  | .grouping inner => inner.Grammatical
  | .lambda _ body => GrammaticalBody body
  | .call callee arguments => callee.Grammatical ∧ 8 ≤ callee.level ∧ GrammaticalArguments arguments
  | .get object _ => object.Grammatical ∧ 8 ≤ object.level
  | .unary _ operand => operand.Grammatical ∧ 7 ≤ operand.level
  | .binary op lhs rhs =>
    lhs.Grammatical ∧ precedence op ≤ lhs.level ∧ rhs.Grammatical ∧ precedence op < rhs.level
  | .assign _ value => value.Grammatical
  | .set object _ value => object.Grammatical ∧ 8 ≤ object.level ∧ value.Grammatical

@[simp] def GrammaticalArguments : List Expr → Prop
  | [] => True
  | e :: es => e.Grammatical ∧ GrammaticalArguments es

@[simp] def GrammaticalOption : Option Expr → Prop
  | none => True
  | some e => e.Grammatical

@[simp] def Clause.Grammatical : Clause → Prop
  | .expression e => e.Grammatical
  | .declare _ initial => GrammaticalOption initial

@[simp] def GrammaticalInitial : Option Clause → Prop
  | none => True
  | some c => c.Grammatical

@[simp] def Stmt.Grammatical : Stmt → Prop
  | .clause c => c.Grammatical
  | .print e => e.Grammatical
  | .ret value => GrammaticalOption value
  | .block body => GrammaticalBody body
  | .ifThen cond body => cond.Grammatical ∧ body.Grammatical
  | .ifElse cond body other =>
    cond.Grammatical ∧ body.Grammatical ∧ body.endsOpen = false ∧ other.Grammatical
  | .whileLoop cond body => cond.Grammatical ∧ body.Grammatical
  | .forLoop initial cond increment body =>
    GrammaticalInitial initial ∧ GrammaticalOption cond ∧ GrammaticalOption increment ∧
    body.Grammatical
  | .function f => f.Grammatical
  | .classDef _ methods => GrammaticalMethods methods

@[simp] def GrammaticalBody : List Stmt → Prop
  | [] => True
  | s :: ss => s.Grammatical ∧ GrammaticalBody ss

@[simp] def Function.Grammatical : Function → Prop
  | .mk _ _ body => GrammaticalBody body

@[simp] def GrammaticalMethods : List Function → Prop
  | [] => True
  | f :: fs => f.Grammatical ∧ GrammaticalMethods fs

end

theorem length_writeMoreWords (ws : List Word) (rest : List Token) :
    rest.length ≤ (writeMoreWords ws rest).length := by
  induction ws with
  | nil => exact Nat.le_refl _
  | cons w ws ih =>
    simp only [writeMoreWords, List.length_cons]
    omega

theorem length_writeParams (ws : List Word) (rest : List Token) :
    rest.length < (writeParams ws rest).length := by
  cases ws with
  | nil =>
    simp only [writeParams, writeWords, List.length_cons]
    omega
  | cons w ws =>
    have := length_writeMoreWords ws (markToken .rightParen :: rest)
    simp only [writeParams, writeWords, List.length_cons] at this ⊢
    omega

mutual

theorem Expr.length_write (e : Expr) (rest : List Token) : rest.length < (e.write rest).length := by
  cases e with
  | literal _ | reference _ => exact Nat.lt_succ_self _
  | grouping inner =>
    have := inner.length_write (markToken .rightParen :: rest)
    simp only [Expr.write, List.length_cons] at this ⊢
    omega
  | lambda params body =>
    have := length_writeBody body (markToken .rightBrace :: rest)
    have := length_writeParams params
      (markToken .leftBrace :: writeBody body (markToken .rightBrace :: rest))
    simp only [Expr.write, List.length_cons] at *
    omega
  | call callee arguments =>
    have := length_writeArguments arguments (markToken .rightParen :: rest)
    have := callee.length_write (markToken .leftParen ::
      writeArguments arguments (markToken .rightParen :: rest))
    simp only [Expr.write, List.length_cons] at *
    omega
  | get object field =>
    have := object.length_write (markToken .dot :: field.token :: rest)
    simp only [Expr.write, List.length_cons] at this ⊢
    omega
  | unary op operand =>
    have := operand.length_write rest
    simp only [Expr.write, List.length_cons]
    omega
  | binary op lhs rhs =>
    have := rhs.length_write rest
    have := lhs.length_write (markToken (binaryMark op) :: rhs.write rest)
    simp only [Expr.write, List.length_cons] at *
    omega
  | assign target value =>
    have := value.length_write rest
    simp only [Expr.write, List.length_cons]
    omega
  | set object field value =>
    have := value.length_write rest
    have := object.length_write (markToken .dot :: field.token :: markToken .equal :: value.write rest)
    simp only [Expr.write, List.length_cons] at *
    omega

theorem length_writeArguments (es : List Expr) (rest : List Token) :
    rest.length ≤ (writeArguments es rest).length := by
  cases es with
  | nil => exact Nat.le_refl _
  | cons e es =>
    have := length_writeMore es rest
    have := e.length_write (writeMore es rest)
    simp only [writeArguments]
    omega

theorem length_writeMore (es : List Expr) (rest : List Token) :
    rest.length ≤ (writeMore es rest).length := by
  cases es with
  | nil => exact Nat.le_refl _
  | cons e es =>
    have := length_writeMore es rest
    have := e.length_write (writeMore es rest)
    simp only [writeMore, List.length_cons]
    omega

theorem length_writeOption (o : Option Expr) (rest : List Token) :
    rest.length ≤ (writeOption o rest).length := by
  cases o with
  | none => exact Nat.le_refl _
  | some e => exact Nat.le_of_lt (e.length_write rest)

theorem Clause.length_write (c : Clause) (rest : List Token) : rest.length < (c.write rest).length := by
  cases c with
  | expression e =>
    have := e.length_write (markToken .semicolon :: rest)
    simp only [Clause.write, List.length_cons] at this ⊢
    omega
  | declare name initial =>
    cases initial with
    | none =>
      simp only [Clause.write, List.length_cons]
      omega
    | some e =>
      have := e.length_write (markToken .semicolon :: rest)
      simp only [Clause.write, List.length_cons] at this ⊢
      omega

theorem length_writeInitial (o : Option Clause) (rest : List Token) :
    rest.length < (writeInitial o rest).length := by
  cases o with
  | none => exact Nat.lt_succ_self _
  | some c => exact c.length_write rest

theorem Stmt.length_write (s : Stmt) (rest : List Token) : rest.length < (s.write rest).length := by
  cases s with
  | clause c => exact c.length_write rest
  | print e =>
    have := e.length_write (markToken .semicolon :: rest)
    simp only [Stmt.write, List.length_cons] at this ⊢
    omega
  | ret value =>
    have := length_writeOption value (markToken .semicolon :: rest)
    simp only [Stmt.write, List.length_cons] at this ⊢
    omega
  | block body =>
    have := length_writeBody body (markToken .rightBrace :: rest)
    simp only [Stmt.write, List.length_cons] at this ⊢
    omega
  | ifThen cond body | whileLoop cond body =>
    have := body.length_write rest
    have := cond.length_write (markToken .rightParen :: body.write rest)
    simp only [Stmt.write, List.length_cons] at this ⊢
    omega
  | ifElse cond body other =>
    have := other.length_write rest
    have := body.length_write (markToken .elseWord :: other.write rest)
    have := cond.length_write (markToken .rightParen :: body.write (markToken .elseWord :: other.write rest))
    simp only [Stmt.write, List.length_cons] at *
    omega
  | forLoop initial cond increment body =>
    have := body.length_write rest
    have := length_writeOption increment (markToken .rightParen :: body.write rest)
    have := length_writeOption cond
      (markToken .semicolon :: writeOption increment (markToken .rightParen :: body.write rest))
    have := length_writeInitial initial (writeOption cond
      (markToken .semicolon :: writeOption increment (markToken .rightParen :: body.write rest)))
    simp only [Stmt.write, List.length_cons] at *
    omega
  | function f =>
    have := f.length_write rest
    simp only [Stmt.write, List.length_cons]
    omega
  | classDef name methods =>
    have := length_writeMethods methods (markToken .rightBrace :: rest)
    simp only [Stmt.write, List.length_cons] at this ⊢
    omega

theorem length_writeBody (body : List Stmt) (rest : List Token) :
    rest.length ≤ (writeBody body rest).length := by
  cases body with
  | nil => exact Nat.le_refl _
  | cons s ss =>
    have := length_writeBody ss rest
    have := s.length_write (writeBody ss rest)
    simp only [writeBody]
    omega

theorem Function.length_write (f : Function) (rest : List Token) :
    rest.length < (f.write rest).length := by
  obtain ⟨name, params, body⟩ := f
  have := length_writeBody body (markToken .rightBrace :: rest)
  have := length_writeParams params
    (markToken .leftBrace :: writeBody body (markToken .rightBrace :: rest))
  simp only [Function.write, List.length_cons] at *
  omega

theorem length_writeMethods (fs : List Function) (rest : List Token) :
    rest.length ≤ (writeMethods fs rest).length := by
  cases fs with
  | nil => exact Nat.le_refl _
  | cons f fs =>
    have := length_writeMethods fs rest
    have := f.length_write (writeMethods fs rest)
    simp only [writeMethods]
    omega

end

end Lox.Surface
