import Lox.Grammar
import Lox.Proofs.Parser.Nesting

set_option autoImplicit false

namespace Lox.Grammar

open Lox.Parser

inductive Form where
  | tree
  | trees
  | names
  | wrap
  | word
  | clause

def Form.Carrier : Form → Type
  | tree => Tree
  | trees => List Tree
  | names => List Ident
  | wrap => Tree → Tree
  | word => Token
  | clause => Option Tree

inductive Production : Form → Type where
  | expression : Production .tree
  | literal : Production .tree
  | reference : Production .tree
  | grouping : Production .tree
  | parameters : Production .names
  | block : Production .tree
  | functionBody : Production .trees
  | lambda : Production .tree
  | primary : Production .tree
  | arguments : Production .wrap
  | property : Production .wrap
  | call : Production .tree
  | unary : Production .tree
  | multiplication : Production .tree
  | addition : Production .tree
  | comparison : Production .tree
  | equality : Production .tree
  | logicalAnd : Production .tree
  | logicalOr : Production .tree
  | assignment : Production .tree
  | semicolon : Production .word
  | expressionStatement : Production .tree
  | printStatement : Production .tree
  | varStatement : Production .tree
  | method : Production .tree
  | funStatement : Production .tree
  | classStatement : Production .tree
  | statement : Production .tree
  | body : Production .tree
  | condition : Production .tree
  | ifStatement : Production .tree
  | whileStatement : Production .tree
  | forInitializer : Production .clause
  | forStatement : Production .tree
  | returnStatement : Production .tree
  | anyStatement : Production .tree
  | statements : Production .trees

def Production.parser : {form : Form} → Production form → P form.Carrier
  | _, expression => Grammar.expression
  | _, literal => Grammar.literal
  | _, reference => Grammar.reference
  | _, grouping => Grammar.grouping
  | _, parameters => Grammar.parameters
  | _, block => Grammar.block
  | _, functionBody => Grammar.functionBody
  | _, lambda => Grammar.lambda
  | _, primary => Grammar.primary
  | _, arguments => Grammar.arguments
  | _, property => Grammar.property
  | _, call => Grammar.call
  | _, unary => Grammar.unary
  | _, multiplication => Grammar.multiplication
  | _, addition => Grammar.addition
  | _, comparison => Grammar.comparison
  | _, equality => Grammar.equality
  | _, logicalAnd => Grammar.logicalAnd
  | _, logicalOr => Grammar.logicalOr
  | _, assignment => Grammar.assignment
  | _, semicolon => Grammar.semicolon
  | _, expressionStatement => Grammar.expressionStatement
  | _, printStatement => Grammar.printStatement
  | _, varStatement => Grammar.varStatement
  | _, method => Grammar.method
  | _, funStatement => Grammar.funStatement
  | _, classStatement => Grammar.classStatement
  | _, statement => Grammar.statement
  | _, body => Grammar.body
  | _, condition => Grammar.condition
  | _, ifStatement => Grammar.ifStatement
  | _, whileStatement => Grammar.whileStatement
  | _, forInitializer => Grammar.forInitializer
  | _, forStatement => Grammar.forStatement
  | _, returnStatement => Grammar.returnStatement
  | _, anyStatement => Grammar.anyStatement
  | _, statements => Grammar.statements

def Rule.rank : {β : Type} → Rule β → Nat
  | _, expression => 0
  | _, unary => 0
  | _, statement => 1

theorem ranked : rules.Ranked Rule.rank 1 where
  takes := by
    intro β r
    cases r <;> decide
  lead_le := by
    intro β r
    cases r <;> decide
  level_le := by
    intro β r
    cases r <;> decide

def tallest : Nat := 50

theorem bounded : rules.Bounded tallest := by
  intro β r
  cases r <;> decide

theorem Production.height_le {form : Form} (q : Production form) : q.parser.height ≤ tallest := by
  cases q <;> decide

theorem parse_settled {α : Type} (p : P α) (c : Cursor) {depth : Nat} (enough : depthFor c.rest.length ≤ depth) :
    (parse p c).Settled (rules.parse depth p c) := by
  have low : p.lead Rule.rank ≤ 2 := Parser.lead_le ranked.level_le p
  unfold depthFor at enough
  exact ranked.parse_settled p (by unfold depthFor; omega) (by omega)

theorem parse_ne_tooDeep {α : Type} (p : P α) (c : Cursor) : parse p c ≠ .tooDeep :=
  (parse_settled p c (Nat.le_refl _)).2

/-- Every parser of the grammar answers at every place of every list of tokens, by calls that are nested no deeper
than the tokens ahead allow; more depth changes nothing. A parser that comes to be called inside itself has taken
a token, and a program is answered for like everything else. -/
theorem production_answers {form : Form} (q : Production form) (tokens : List Token) (place : Nat) :
    (∃ reply, reply ≠ .tooDeep ∧ ∀ depth, 2 * (tokens.length - place) + 2 ≤ depth →
      rules.parse depth q.parser (.start tokens place) = reply) ∧
    (∀ (depth n : Nat) (inner : Call Rule),
      Nested rules (rules.look depth) n ⟨q.parser, .start tokens place⟩ inner →
        n < 153 * (tokens.length - place + 1)) ∧
    (∀ (depth n k : Nat) {α : Type} (p : P α) (c c' : Cursor),
      Nested rules (rules.look depth) k ⟨q.parser, .start tokens place⟩ ⟨p, c⟩ →
      Nested rules (rules.look depth) (n + 1) ⟨p, c⟩ ⟨p, c'⟩ → c.place < c'.place) ∧
    (∃ reply, reply ≠ .tooDeep ∧ parseProgram tokens = complete "a statement" reply ∧
      ∀ depth, 2 * tokens.length + 2 ≤ depth → rules.parse depth statements (.start tokens 0) = reply) := by
  have ahead : (Cursor.start tokens place).rest.length = tokens.length - place := List.length_drop
  refine ⟨⟨parse q.parser (.start tokens place), parse_ne_tooDeep _ _, ?_⟩, ?_, ?_, ?_⟩
  · intro depth enough
    rw [← ahead] at enough
    exact (parse_settled q.parser _ enough).1.symm
  · intro depth n inner nested
    have room := ranked.nested_le bounded nested q.height_le
    rw [← ahead]
    exact room
  · intro depth n k α p c c' _ nested
    exact ranked.reentry_lt nested
  · refine ⟨parse statements (.start tokens 0), parse_ne_tooDeep _ _, rfl, ?_⟩
    intro depth enough
    exact (parse_settled statements (.start tokens 0) enough).1.symm

theorem unary_answers :
    let tokens : List Token := [⟨.mark .minus, none⟩, ⟨.mark .minus, none⟩, ⟨.mark .nilWord, none⟩]
    Nested rules (rules.look 8) 5 ⟨unary, .start tokens 0⟩ ⟨unary, .start tokens 1⟩ ∧ 5 < 153 * (3 - 0 + 1) ∧
      (Cursor.start tokens 0).place < (Cursor.start tokens 1).place ∧
      ∃ reply, reply ≠ .tooDeep ∧ ∀ depth, 8 ≤ depth → rules.parse depth unary (.start tokens 0) = reply := by
  intro tokens
  have nested : Nested rules (rules.look 8) 5 ⟨unary, .start tokens 0⟩ ⟨unary, .start tokens 1⟩ := by
    have sign : (oneOf [.mark .bang, .mark .minus] : P Token).run (rules.look 8) (.start tokens 0) =
        .found ⟨.mark .minus, none⟩ (.start tokens 1) := rfl
    exact .within .attempt (.within .map (.within (.second sign) (.within .commit (.within .rule (.here _)))))
  obtain ⟨answer, deep, moves, -⟩ := production_answers .unary tokens 0
  exact ⟨nested, deep 8 5 _ nested, moves 8 4 0 unary _ _ (.here _) nested, answer⟩

/-- Whatever a parser refers to, what it finds ends between the place where it was put and the end of the tokens,
it gives up nowhere but at that place, and it fails between the two; where a parser gives up, a commitment to it
fails. So it is with every parser of the grammar, which does answer. -/
theorem answers_placed {R : Type → Type} (rules : Rules R) (depth : Nat) {α : Type} (p : Parser R α) {form : Form}
    (q : Production form) {tokens : List Token} {place : Nat} (inside : place ≤ tokens.length) :
    (rules.parse depth p (.start tokens place)).Placed tokens place ∧
      (∀ (expected : String) (here : Cursor), rules.parse depth p (.start tokens place) = .noMatch here →
        rules.parse depth (commit p expected) (.start tokens place) = .failed ⟨expected, .start tokens place⟩) ∧
      parse q.parser (.start tokens place) ≠ .tooDeep ∧
      (parse q.parser (.start tokens place)).Placed tokens place := by
  have onward := rules.parse_onward depth p (.start tokens place)
  refine ⟨onward.placed inside, fun expected here missed => ?_, parse_ne_tooDeep _ _, ?_⟩
  · rw [missed] at onward
    have committed : rules.parse depth (commit p expected) (.start tokens place) =
        (rules.parse depth p (.start tokens place)).orTry fun here => .failed ⟨expected, here⟩ := rfl
    have here' : here = .start tokens place := onward
    rw [committed, missed, here']
    rfl
  · exact (Grammar.rules.parse_onward _ q.parser _).placed inside

theorem answers_placed_unnamed :
    let tokens : List Token := [⟨.mark .dot, none⟩, ⟨.mark .nilWord, none⟩]
    let answer : Reply (Tree → Tree) := .failed ⟨"a property name after '.'", .start tokens 1⟩
    0 ≤ tokens.length ∧ 2 ≤ tokens.length ∧ parse property (.start tokens 0) = answer ∧ answer.Placed tokens 0 ∧
      rules.parse 0 (mark .comma) (.start tokens 2) = .noMatch (.start tokens 2) ∧
      rules.parse 0 (expectMark .comma "','") (.start tokens 2) = .failed ⟨"','", .start tokens 2⟩ := by
  intro tokens answer
  have unnamed : parse Production.property.parser (.start tokens 0) = answer := rfl
  have missed : rules.parse 0 (mark .comma) (.start tokens 2) = .noMatch (.start tokens 2) := rfl
  have first : 0 ≤ tokens.length := by decide
  have last : 2 ≤ tokens.length := by decide
  obtain ⟨-, -, -, placed⟩ := answers_placed rules 0 (mark .comma) .property first
  obtain ⟨-, committed, -⟩ := answers_placed rules 0 (mark .comma) .property last
  rw [unnamed] at placed
  exact ⟨first, last, unnamed, placed, missed, committed "','" _ missed⟩

end Lox.Grammar
