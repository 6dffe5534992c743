import Mathlib.Data.List.Permutation
import Lox.Proofs.Grammar.Parallel
import Lox.Proofs.Grammar.Productions
import Lox.Proofs.Parser.Ensures
import Lox.Proofs.Parser.Shifted

set_option autoImplicit false

namespace Lox

def Token.SameLexeme (t u : Token) : Prop := t.lexeme = u.lexeme

/-- The same lexeme, and each of the two stands at the place in its own list, with its own span. -/
structure Token.Stands (tokens tokens' : List Token) (i : Nat) (t u : Token) : Prop where
  lexeme : t.SameLexeme u
  left : tokens[i]? = some t
  right : tokens'[i]? = some u

def Ident.Respanned (i j : Ident) : Prop := ∃ text span span', i = .name text span ∧ j = .name text span'

namespace Grammar

open Lox.Parser

def Form.Alike (W : Token → Token → Prop) (N : Ident → Ident → Prop) : (form : Form) → form.Carrier → form.Carrier → Prop
  | tree => Tree.Alike N
  | trees => Tree.AlikeAll N
  | names => List.Forall₂ N
  | wrap => WrapAlike N
  | word => W
  | clause => Option.Rel (Tree.Alike N)

section Levels

variable {N : Ident → Ident → Prop} {k d : Nat} (steady : Steady N k d)

include steady

theorem agrees_multiplication : Agrees N k d (Tree.Alike N) multiplication := agrees_level (agrees_unary steady) _

theorem agrees_addition : Agrees N k d (Tree.Alike N) addition := agrees_level (agrees_multiplication steady) _

theorem agrees_comparison : Agrees N k d (Tree.Alike N) comparison := agrees_level (agrees_addition steady) _

theorem agrees_equality : Agrees N k d (Tree.Alike N) equality := agrees_level (agrees_comparison steady) _

theorem agrees_logicalAnd : Agrees N k d (Tree.Alike N) logicalAnd := agrees_level (agrees_equality steady) _

theorem agrees_production {form : Form} (q : Production form) :
    Agrees N k d (form.Alike Token.SameLexeme N) q.parser := by
  cases q with
  | expression => exact steady.expression
  | literal => exact agrees_literal
  | reference => exact agrees_reference
  | grouping => exact agrees_grouping steady
  | parameters => exact agrees_parameters
  | block => exact (agrees_braced steady).map fun _ _ => .block
  | functionBody => exact (agrees_braced steady).commit _
  | lambda => exact agrees_lambda steady
  | primary => exact agrees_primary steady
  | arguments => exact agrees_arguments steady
  | property => exact agrees_property
  | call => exact agrees_call steady
  | unary => exact agrees_unary steady
  | multiplication => exact agrees_multiplication steady
  | addition => exact agrees_addition steady
  | comparison => exact agrees_comparison steady
  | equality => exact agrees_equality steady
  | logicalAnd => exact agrees_logicalAnd steady
  | logicalOr => exact agrees_level (agrees_logicalAnd steady) _
  | assignment => exact agrees_assignment steady
  | semicolon => exact ((abreast_kind kind_of_alike _).imp fun _ _ both => both.1.lexeme).commit _
  | expressionStatement => exact agrees_expressionStatement steady
  | printStatement => exact agrees_print steady
  | varStatement => exact agrees_var steady
  | method => exact agrees_named steady (agrees_mark .leftParen)
  | funStatement => exact agrees_function steady
  | classStatement => exact agrees_class steady
  | statement => exact steady.statement
  | body => exact steady.statement.commit _
  | condition => exact agrees_condition steady
  | ifStatement => exact agrees_if steady
  | whileStatement => exact agrees_while steady
  | forInitializer => exact agrees_initial steady
  | forStatement => exact agrees_for steady
  | returnStatement => exact agrees_return steady
  | anyStatement => exact agrees_anyStatement steady
  | statements => exact agrees_body steady

end Levels

theorem parse_beside {N : Ident → Ident → Prop} {k : Nat} {form : Form} (q : Production form) {c c' : Cursor}
    (beside : c.Beside (Token.Alike N) k c') :
    (parse q.parser c).Beside (Token.Alike N) k (form.Alike Token.SameLexeme N) (parse q.parser c') := by
  unfold parse
  rw [← beside.rest.length_eq]
  exact agrees_production (steady _) q c c' beside

theorem alike_respanned : Token.Alike Ident.Respanned = Token.SameLexeme := by
  funext t u
  refine propext ⟨Token.Alike.lexeme, fun same => ⟨same, fun _ => ⟨t.lexeme.text, t.span, u.span, rfl, ?_⟩⟩⟩
  unfold Token.SameLexeme at same
  rw [Token.name, same]

theorem semicolon_found {tokens : List Token} {i : Nat} {t : Token} {next : Cursor}
    (found : parse Production.semicolon.parser (.start tokens i) = .found t next) : tokens[i]? = some t := by
  obtain ⟨here, -⟩ := (ensures_kind (.mark .semicolon)).commit "';'" _ _ _ found
  rw [← List.head?_drop]
  exact (congrArg List.head? here).trans rfl

/-- Nothing before the place where a parser is put bears on its answer, and where the tokens stand in the text
shows in the spans of names only; or if the answer is a token, in the span of that token, which is the one at
the place. -/
theorem production_context {form : Form} (q : Production form) :
    (∀ (u tokens : List Token) (i : Nat),
      parse q.parser (.start (u ++ tokens) (u.length + i)) = (parse q.parser (.start tokens i)).shift u.length) ∧
    (∀ (tokens tokens' : List Token) (i : Nat), List.Forall₂ Token.SameLexeme tokens tokens' →
      (parse q.parser (.start tokens i)).Beside Token.SameLexeme 0
        (form.Alike (Token.Stands tokens tokens' i) Ident.Respanned) (parse q.parser (.start tokens' i))) := by
  constructor
  · intro u tokens i
    rw [Cursor.start_append]
    exact rules.parse_shift _ q.parser _
  · intro tokens tokens' i same
    have start : (Cursor.start tokens i).Beside Token.SameLexeme 0 (.start tokens' i) :=
      ⟨rfl, same.length_eq.symm, List.forall₂_drop i same⟩
    rw [← alike_respanned] at start
    have replies := parse_beside q start
    rw [alike_respanned] at replies
    cases q with
    | semicolon =>
      exact replies.imp_found fun found found' lexeme =>
        ⟨lexeme, semicolon_found found, semicolon_found found'⟩
    | _ => exact replies

theorem assignment_context :
    let tokens : List Token := [⟨.identifier "x", some ⟨0, 1⟩⟩, ⟨.mark .equal, none⟩, ⟨.identifier "y", some ⟨4, 5⟩⟩]
    let tokens' : List Token := [⟨.identifier "x", some ⟨7, 8⟩⟩, ⟨.mark .equal, none⟩, ⟨.identifier "y", none⟩]
    let answer : Reply Tree :=
      .found (.assign (.name "x" (some ⟨0, 1⟩)) (.reference (.name "y" (some ⟨4, 5⟩)))) ⟨3, [], 3⟩
    parse assignment (.start tokens 0) = answer ∧
      parse assignment (.start ([⟨.mark .leftParen, none⟩] ++ tokens) (1 + 0)) = answer.shift 1 ∧
      List.Forall₂ Token.SameLexeme tokens tokens' ∧
      answer.Beside Token.SameLexeme 0 (Tree.Alike Ident.Respanned) (parse assignment (.start tokens' 0)) := by
  intro tokens tokens' answer
  have found : parse assignment (.start tokens 0) = answer := by cbv
  have same : List.Forall₂ Token.SameLexeme tokens tokens' := .cons rfl (.cons rfl (.cons rfl .nil))
  obtain ⟨behind, respanned⟩ := production_context .assignment
  refine ⟨found, ?_, same, ?_⟩
  · rw [← found]
    exact behind [⟨.mark .leftParen, none⟩] tokens 0
  · rw [← found]
    exact respanned tokens tokens' 0 same

theorem semicolon_shows_span :
    let tokens : List Token := [⟨.mark .semicolon, none⟩]
    let tokens' : List Token := [⟨.mark .semicolon, some ⟨1, 2⟩⟩]
    List.Forall₂ Token.SameLexeme tokens tokens' ∧
      ¬ (parse Production.semicolon.parser (.start tokens 0)).Beside Token.SameLexeme 0
        (Form.word.Alike Eq Ident.Respanned) (parse Production.semicolon.parser (.start tokens' 0)) := by
  intro tokens tokens'
  refine ⟨.cons rfl .nil, fun same => ?_⟩
  have same : (Reply.found (Token.mk (.mark .semicolon) none) ⟨1, [], 1⟩).Beside Token.SameLexeme 0 Eq
      (.found (Token.mk (.mark .semicolon) (some ⟨1, 2⟩)) ⟨1, [], 1⟩) := same
  cases same with
  | found same _ => cases same

end Grammar
end Lox
