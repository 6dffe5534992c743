import Lox.Proofs.Grammar.Soundness
import Lox.Proofs.Slots.Events

set_option autoImplicit false

namespace Lox.Grammar

open Surface

abbrev WellFormed (t : Tree) : Prop := t.WellFormed fun _ => true

abbrev WellFormedAll (ts : List Tree) : Prop := Tree.WellFormedAll (fun _ => true) ts

mutual

theorem formed_expr (e : Expr) : e.desugar.isExpression = true ∧ WellFormed e.desugar := by
  cases e with
  | literal | reference => exact ⟨rfl, trivial⟩
  | grouping e | unary _ e | get e _ => exact ⟨rfl, formed_expr e⟩
  | assign _ e => exact ⟨rfl, formed_expr e⟩
  | binary _ a b | set a _ b => exact ⟨rfl, formed_expr a, formed_expr b⟩
  | lambda _ body => exact ⟨rfl, formed_body body⟩
  | call callee arguments => exact ⟨rfl, formed_expr callee, formed_arguments arguments⟩

theorem formed_arguments (es : List Expr) :
    (∀ a ∈ desugarArguments es, a.isExpression = true) ∧ WellFormedAll (desugarArguments es) := by
  cases es with
  | nil => exact ⟨nofun, trivial⟩
  | cons e es =>
    obtain ⟨expression, formed⟩ := formed_expr e
    obtain ⟨expressions, others⟩ := formed_arguments es
    exact ⟨List.forall_mem_cons.2 ⟨expression, expressions⟩, formed, others⟩

theorem formed_option (o : Option Expr) (default : Literal) :
    ((desugarOption o).getD (.literal default)).isExpression = true ∧
      WellFormed ((desugarOption o).getD (.literal default)) := by
  cases o with
  | none => exact ⟨rfl, trivial⟩
  | some e => exact formed_expr e

theorem formed_clause (c : Clause) : c.desugar.isStatement = true ∧ WellFormed c.desugar := by
  cases c with
  | expression e => exact ⟨rfl, formed_expr e⟩
  | declare _ initial =>
    cases initial with
    | none => exact ⟨rfl, rfl, trivial⟩
    | some e => exact ⟨rfl, formed_expr e⟩

theorem formed_stmt (s : Stmt) : s.desugar.isStatement = true ∧ WellFormed s.desugar := by
  cases s with
  | clause c => exact formed_clause c
  | print e => exact ⟨rfl, formed_expr e⟩
  | ret value => exact ⟨rfl, formed_option value .nil⟩
  | block body => exact ⟨rfl, formed_body body⟩
  | ifThen cond body => exact ⟨rfl, formed_expr cond, formed_stmt body⟩
  | ifElse cond body other =>
    obtain ⟨yes, first⟩ := formed_stmt body
    obtain ⟨no, second⟩ := formed_stmt other
    exact ⟨rfl, formed_expr cond, ⟨yes, rfl, first⟩, no, rfl, second⟩
  | whileLoop cond body => exact ⟨rfl, formed_expr cond, formed_stmt body⟩
  | forLoop initial cond increment body =>
    have test := formed_option cond (.bool true)
    obtain ⟨statement, formed⟩ := formed_stmt body
    -- With an increment the loop goes round a block of two, which is a statement like the body itself.
    have round : ∃ round, round.isStatement = true ∧ WellFormed round ∧
        loopOf (desugarInitial initial) (desugarOption cond) (desugarOption increment) body.desugar =
          loopOf (desugarInitial initial) (desugarOption cond) none round := by
      cases increment with
      | none => exact ⟨_, statement, formed, rfl⟩
      | some e =>
        refine ⟨.block [body.desugar, .expression e.desugar], rfl, ⟨?_, formed, formed_expr e, trivial⟩, rfl⟩
        exact List.forall_mem_cons.2 ⟨statement, List.forall_mem_singleton.2 rfl⟩
    obtain ⟨round, inside, whole, same⟩ := round
    rw [Stmt.desugar, same]
    have loop : WellFormed (.whileLoop ((desugarOption cond).getD (.literal (.bool true))) round) :=
      ⟨test, inside, whole⟩
    cases initial with
    | none => exact ⟨rfl, loop⟩
    | some c =>
      obtain ⟨first, before⟩ := formed_clause c
      exact ⟨rfl, List.forall_mem_cons.2 ⟨first, List.forall_mem_singleton.2 rfl⟩, before, loop, trivial⟩
  | function f => exact ⟨by cases f; rfl, (formed_function f).2⟩
  | classDef _ methods => exact ⟨rfl, formed_methods methods⟩

theorem formed_body (body : List Stmt) :
    (∀ t ∈ desugarBody body, t.isStatement = true) ∧ WellFormedAll (desugarBody body) := by
  cases body with
  | nil => exact ⟨nofun, trivial⟩
  | cons s body =>
    obtain ⟨statement, formed⟩ := formed_stmt s
    obtain ⟨statements, others⟩ := formed_body body
    exact ⟨List.forall_mem_cons.2 ⟨statement, statements⟩, formed, others⟩

theorem formed_function (f : Function) : f.desugar.isFunction = true ∧ WellFormed f.desugar := by
  cases f with
  | mk _ _ body => exact ⟨rfl, formed_body body⟩

theorem formed_methods (fs : List Function) :
    (∀ m ∈ desugarMethods fs, m.isFunction = true) ∧ WellFormedAll (desugarMethods fs) := by
  cases fs with
  | nil => exact ⟨nofun, trivial⟩
  | cons f fs =>
    obtain ⟨function, formed⟩ := formed_function f
    obtain ⟨functions, others⟩ := formed_methods fs
    exact ⟨List.forall_mem_cons.2 ⟨function, functions⟩, formed, others⟩

end

theorem wellFormed_of_program {tokens : List Token} {program : List Tree}
    (parsed : parseProgram tokens = .ok program) : WellFormedAll program := by
  obtain ⟨s, -, -, rfl⟩ := stands_of_parsed parsed
  exact (formed_body s).2

theorem isStatement_of_program {tokens : List Token} {program : List Tree}
    (parsed : parseProgram tokens = .ok program) : ∀ t ∈ program, t.isStatement = true := by
  obtain ⟨s, -, -, rfl⟩ := stands_of_parsed parsed
  exact (formed_body s).1

end Lox.Grammar
