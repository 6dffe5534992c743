import Mathlib.Data.List.Permutation
import Lox.Proofs.Grammar.Productions
import Lox.Proofs.Grammar.Reading
import Lox.Proofs.Parser.Openings

set_option autoImplicit false

namespace Lox.Grammar

open Lox.Parser Opening

inductive Choice : Form → Type where
  | literal : Choice .tree
  | primary : Choice .tree
  | suffix : Choice .wrap
  | unary : Choice .tree
  | forInitializer : Choice .clause
  | anyStatement : Choice .tree

def signed : P Tree :=
  (pair (oneOf [.mark .bang, .mark .minus]) (commit (ref .unary "unary") "an operand")).map
    fun (t, operand) => .unary (unaryOf t) operand

def Choice.branches : {form : Form} → Choice form → List (P form.Carrier)
  | _, literal => literalKinds.map fun k => (kind k).map fun t => Tree.literal (literalOf t)
  | _, primary => [Grammar.literal, reference, grouping, lambda]
  | _, suffix => [arguments, property]
  | _, unary => [signed, call]
  | _, forInitializer =>
    [(mark .semicolon).map fun _ => none, varStatement.map some, expressionStatement.map some]
  | _, anyStatement =>
    [varStatement, classStatement, funStatement, ifStatement, whileStatement, forStatement, returnStatement,
      printStatement, block, expressionStatement]

def primaryOpenings : List Opening :=
  literalKinds.map only ++ [only .identifier, only (.mark .leftParen), ⟨.mark .funWord, some (.mark .leftParen)⟩]

def expressionOpenings : List Opening := [only (.mark .bang), only (.mark .minus)] ++ primaryOpenings

def Choice.openings : {form : Form} → Choice form → List (List Opening)
  | _, literal => literalKinds.map fun k => [only k]
  | _, primary =>
    [literalKinds.map only, [only .identifier], [only (.mark .leftParen)],
      [⟨.mark .funWord, some (.mark .leftParen)⟩]]
  | _, suffix => [[only (.mark .leftParen)], [only (.mark .dot)]]
  | _, unary => [[only (.mark .bang), only (.mark .minus)], primaryOpenings]
  | _, forInitializer => [[only (.mark .semicolon)], [only (.mark .varWord)], expressionOpenings]
  | _, anyStatement =>
    [[only (.mark .varWord)], [only (.mark .classWord)], [⟨.mark .funWord, some .identifier⟩],
      [only (.mark .ifWord)], [only (.mark .whileWord)], [only (.mark .forWord)], [only (.mark .returnWord)],
      [only (.mark .printWord)], [only (.mark .leftBrace)], expressionOpenings]

theorem Choice.openings_exclusive {form : Form} (which : Choice form) :
    which.openings.Pairwise fun os os' => excludeAll os os' = true := by
  cases which <;> decide

abbrev answer {β : Type} (r : Rule β) (c : Cursor) : Reply β := rules.answer Rule.rank 1 r c

theorem parse_eq_run {α : Type} (p : P α) (c : Cursor) : parse p c = p.run answer c := by
  have low : p.lead Rule.rank ≤ 2 := Parser.lead_le ranked.level_le p
  exact (ranked.parse_eq ranked.run_answer p (by unfold depthFor; omega)).1

abbrev Begun {α : Type} (p : P α) (os : List Opening) : Prop := Opens (p.run answer) os

theorem begun_mark {α : Type} (m : Mark) (p : P α) : Begun (right (mark m) p) [only (.mark m)] :=
  (opens_kind _).right p

theorem begun_literals : List.Forall₂ Begun Choice.literal.branches Choice.literal.openings := by
  refine List.forall₂_map_left_iff.2 (List.forall₂_map_right_iff.2 (List.forall₂_same.2 fun k _ => ?_))
  exact (opens_kind k).map _

theorem begun_primaries : List.Forall₂ Begun Choice.primary.branches Choice.primary.openings := by
  have lambdas : Begun lambda [⟨.mark .funWord, some (.mark .leftParen)⟩] :=
    ((opens_kind (.mark .leftParen)).behind.right _).map _
  exact .cons (opens_choice begun_literals) <| .cons ((opens_kind _).map _) <|
    .cons ((begun_mark .leftParen _).map _) <| .cons lambdas .nil

theorem begun_suffixes : List.Forall₂ Begun Choice.suffix.branches Choice.suffix.openings :=
  .cons ((begun_mark .leftParen _).map _) <| .cons ((begun_mark .dot _).map _) .nil

theorem begun_unaries : List.Forall₂ Begun Choice.unary.branches Choice.unary.openings :=
  .cons (((opens_oneOf _).pair _).map _) <| .cons (((opens_choice begun_primaries).pair _).map _) .nil

theorem begun_level {operand : P Tree} {os : List Opening} (h : Begun operand os) (ops : List BinaryOp) :
    Begun (level operand ops) os :=
  (h.pair _).map _

theorem begun_expression : Begun expression expressionOpenings := by
  have operands : Begun unary expressionOpenings := opens_choice begun_unaries
  have levels : Begun logicalOr expressionOpenings :=
    begun_level (begun_level (begun_level (begun_level (begun_level (begun_level operands _) _) _) _) _) _
  intro c
  have rule : expression.run answer c = assignment.run answer c := (ranked.run_answer Rule.expression c).symm
  rw [rule]
  exact levels.update _ _ _ _ c

theorem begun_initializers : List.Forall₂ Begun Choice.forInitializer.branches Choice.forInitializer.openings :=
  .cons ((opens_kind _).map _) <| .cons (((begun_mark .varWord _).map _).map _) <|
    .cons (((begun_expression.left _).map _).map _) .nil

theorem begun_statements : List.Forall₂ Begun Choice.anyStatement.branches Choice.anyStatement.openings := by
  have functions : Begun funStatement [⟨.mark .funWord, some .identifier⟩] :=
    (((opens_kind .identifier).pair _).behind.map _).map _
  exact .cons ((begun_mark .varWord _).map _) <| .cons ((begun_mark .classWord _).map _) <| .cons functions <|
    .cons ((begun_mark .ifWord _).map _) <| .cons ((begun_mark .whileWord _).map _) <|
    .cons ((begun_mark .forWord _).map _) <| .cons ((begun_mark .returnWord _).map _) <|
    .cons ((begun_mark .printWord _).map _) <| .cons ((begun_mark .leftBrace _).map _) <|
    .cons ((begun_expression.left _).map _) .nil

theorem Choice.begun {form : Form} (which : Choice form) : List.Forall₂ Begun which.branches which.openings := by
  cases which with
  | literal => exact begun_literals
  | primary => exact begun_primaries
  | suffix => exact begun_suffixes
  | unary => exact begun_unaries
  | forInitializer => exact begun_initializers
  | anyStatement => exact begun_statements

theorem Choice.apart {form : Form} (which : Choice form) : which.branches.Pairwise (Apart answer) :=
  pairwise_apart which.begun which.openings_exclusive

abbrev Clear {α : Type} (p : P α) : Prop := p.Unambiguous answer

theorem clear_choice {form : Form} (which : Choice form) (each : ∀ p ∈ which.branches, Clear p) :
    Clear (choice which.branches) :=
  unambiguous_choice which.apart each

theorem clear_literal : Clear literal := by
  refine clear_choice .literal fun p member => ?_
  obtain ⟨k, -, rfl⟩ := List.mem_map.1 member
  trivial

theorem clear_primary : Clear primary :=
  clear_choice .primary (List.forall_mem_cons.2 ⟨clear_literal, unambiguous_of_all rfl⟩)

theorem clear_call : Clear call :=
  ⟨clear_primary, clear_choice .suffix (unambiguous_of_all rfl)⟩

theorem clear_unary : Clear unary :=
  clear_choice .unary (List.forall_mem_cons.2 ⟨unambiguous_of_plain rfl, List.forall_mem_singleton.2 clear_call⟩)

theorem clear_level {operand : P Tree} (h : Clear operand) (ops : List BinaryOp) : Clear (level operand ops) :=
  ⟨h, trivial, h⟩

theorem clear_multiplication : Clear multiplication := clear_level clear_unary _

theorem clear_addition : Clear addition := clear_level clear_multiplication _

theorem clear_comparison : Clear comparison := clear_level clear_addition _

theorem clear_equality : Clear equality := clear_level clear_comparison _

theorem clear_logicalAnd : Clear logicalAnd := clear_level clear_equality _

theorem clear_logicalOr : Clear logicalOr := clear_level clear_logicalAnd _

theorem clear_forInitializer : Clear forInitializer :=
  clear_choice .forInitializer (unambiguous_of_all rfl)

theorem clear_for : Clear forStatement :=
  ⟨trivial, ⟨trivial, clear_forInitializer⟩, unambiguous_of_plain rfl⟩

theorem clear_anyStatement : Clear anyStatement := by
  have before : ∀ p ∈ [varStatement, classStatement, funStatement, ifStatement, whileStatement], Clear p :=
    unambiguous_of_all rfl
  have after : ∀ p ∈ [returnStatement, printStatement, block, expressionStatement], Clear p :=
    unambiguous_of_all rfl
  exact clear_choice .anyStatement (List.forall_mem_append.2 ⟨before, List.forall_mem_cons.2 ⟨clear_for, after⟩⟩)

theorem Choice.clear {form : Form} (which : Choice form) : Clear (choice which.branches) := by
  cases which with
  | literal => exact clear_literal
  | primary => exact clear_primary
  | suffix => exact clear_call.2
  | unary => exact clear_unary
  | forInitializer => exact clear_forInitializer
  | anyStatement => exact clear_anyStatement

theorem clear_rules {β : Type} (r : Rule β) : Clear (rules r) := by
  cases r with
  | expression => exact ⟨clear_logicalOr, trivial⟩
  | unary => exact clear_unary
  | statement => exact clear_anyStatement

theorem clear_production {form : Form} (q : Production form) : Clear q.parser := by
  cases q with
  | literal => exact clear_literal
  | primary => exact clear_primary
  | call => exact clear_call
  | unary => exact clear_unary
  | multiplication => exact clear_multiplication
  | addition => exact clear_addition
  | comparison => exact clear_comparison
  | equality => exact clear_equality
  | logicalAnd => exact clear_logicalAnd
  | logicalOr => exact clear_logicalOr
  | assignment => exact clear_rules .expression
  | forInitializer => exact clear_forInitializer
  | forStatement => exact clear_for
  | anyStatement => exact clear_anyStatement
  | _ => exact unambiguous_of_plain rfl

/-- At every place at most one branch of a choice does anything but give up. So the branches of one choice may be
tried in any order, and those of all choices of the grammar at once: no parser answers anything else, wherever it
is put, its failures included. -/
theorem choices_exclusive :
    (literal = choice Choice.literal.branches ∧ primary = choice Choice.primary.branches ∧
      unary = choice Choice.unary.branches ∧ anyStatement = choice Choice.anyStatement.branches ∧
      forInitializer = commit (choice Choice.forInitializer.branches) "a loop initializer" ∧
      call = (pair primary (zeroOrMore (choice Choice.suffix.branches))).map
        fun (first, wraps) => wraps.foldl (fun tree wrap => wrap tree) first) ∧
    (∀ {form : Form} (which : Choice form) (tokens : List Token) (place : Nat),
      which.branches.Pairwise fun p q =>
        (parse p (.start tokens place)).GivesUp ∨ (parse q (.start tokens place)).GivesUp) ∧
    (∀ {form : Form} (which : Choice form) (others : List (P form.Carrier)), which.branches.Perm others →
      ∀ (tokens : List Token) (place : Nat),
        parse (choice others) (.start tokens place) = parse (choice which.branches) (.start tokens place)) ∧
    ∀ rules' : Rules Rule, (∀ {β : Type} (r : Rule β), Reordered (rules r) (rules' r)) →
      ∀ {form : Form} (q : Production form) (p' : P form.Carrier), Reordered q.parser p' →
        ∀ (tokens : List Token) (place depth : Nat), 2 * (tokens.length - place) + 2 ≤ depth →
          rules'.parse depth p' (.start tokens place) = parse q.parser (.start tokens place) := by
  refine ⟨⟨rfl, rfl, rfl, rfl, rfl, rfl⟩, ?_, ?_, ?_⟩
  · intro form which tokens place
    refine which.apart.imp fun {p q} apart => ?_
    rw [parse_eq_run, parse_eq_run]
    exact apart _
  · intro form which others perm tokens place
    rw [parse_eq_run, parse_eq_run, (choice_perm perm which.clear).2]
  · intro rules' reordered form q p' other tokens place depth enough
    have ahead : (Cursor.start tokens place).rest.length = tokens.length - place := List.length_drop
    have low : q.parser.lead Rule.rank ≤ 2 := Parser.lead_le ranked.level_le q.parser
    exact ranked.parse_reordered clear_rules reordered (clear_production q) other
      (by unfold depthFor; omega) (by omega)

def backwards : Rules Rule
  | _, .expression => assignment
  | _, .unary => choice Choice.unary.branches.reverse
  | _, .statement => choice Choice.anyStatement.branches.reverse

theorem choices_exclusive_lambda :
    let tokens : List Token :=
      [.bang, .funWord, .leftParen, .rightParen, .leftBrace, .rightBrace, .semicolon].map fun m => ⟨.mark m, none⟩
    let answer : Reply Tree := .found (.expression (.unary .not (.lambda [] []))) (.start tokens 7)
    Choice.anyStatement.branches.Perm Choice.anyStatement.branches.reverse ∧
      (∀ {β : Type} (r : Rule β), Reordered (rules r) (backwards r)) ∧
      Reordered Production.statement.parser statement ∧ 2 * (tokens.length - 0) + 2 ≤ 16 ∧
      parse (choice Choice.anyStatement.branches.reverse) (.start tokens 0) = answer ∧
      backwards.parse 16 statement (.start tokens 0) = answer := by
  intro tokens answer
  have perm : Choice.anyStatement.branches.Perm Choice.anyStatement.branches.reverse := (List.reverse_perm _).symm
  have reordered {β : Type} (r : Rule β) : Reordered (rules r) (backwards r) := by
    cases r with
    | expression => exact .same _
    | unary => exact .choice (List.reverse_perm Choice.unary.branches).symm
    | statement => exact .choice perm
  have enough : 2 * (tokens.length - 0) + 2 ≤ 16 := by decide
  have found : parse (choice Choice.anyStatement.branches) (.start tokens 0) = answer := by cbv
  have found' : parse Production.statement.parser (.start tokens 0) = answer := by cbv
  obtain ⟨-, -, single, whole⟩ := choices_exclusive
  refine ⟨perm, reordered, .same _, enough, ?_, ?_⟩
  · rw [← found]
    exact single .anyStatement _ perm tokens 0
  · rw [← found']
    exact whole backwards reordered .statement statement (.same _) tokens 0 16 enough

end Lox.Grammar
