import Lox.Grammar
import Lox.Proofs.Parser.Parallel
import Lox.Proofs.Tree.Alike

set_option autoImplicit false

namespace Lox

structure Token.Alike (N : Ident → Ident → Prop) (t u : Token) : Prop where
  lexeme : t.lexeme = u.lexeme
  name : t.kind = .identifier → N t.name u.name

namespace Grammar

open Lox.Parser

variable {N : Ident → Ident → Prop} {k d : Nat}

theorem kind_of_alike (t u : Token) (same : t.Alike N u) : t.kind = u.kind := congrArg Lexeme.kind same.lexeme

abbrev Agrees (N : Ident → Ident → Prop) (k d : Nat) {α : Type} (V : α → α → Prop) (p : P α) : Prop :=
  Abreast (Token.Alike N) k V (p.run (rules.look d))

structure Steady (N : Ident → Ident → Prop) (k d : Nat) : Prop where
  expression : Agrees N k d (Tree.Alike N) expression
  unary : Agrees N k d (Tree.Alike N) (ref .unary "unary")
  statement : Agrees N k d (Tree.Alike N) statement

section Words

theorem agrees_mark (m : Mark) : Agrees N k d (fun _ _ => True) (mark m) :=
  (abreast_kind kind_of_alike _).imp fun _ _ _ => trivial

theorem agrees_expectMark (m : Mark) (what : String) : Agrees N k d (fun _ _ => True) (expectMark m what) :=
  (agrees_mark m).commit what

def Named (N : Ident → Ident → Prop) (t u : Token) : Prop := t.lexeme = u.lexeme ∧ N t.name u.name

theorem agrees_identifier : Agrees N k d (Named N) (kind .identifier) :=
  (abreast_kind kind_of_alike _).imp fun _ _ both => ⟨both.1.lexeme, both.1.name both.2⟩

theorem agrees_parameters : Agrees N k d (List.Forall₂ N) parameters := by
  have word : Agrees N k d N ((kind .identifier).map Token.name) := agrees_identifier.map fun _ _ same => same.2
  exact (word.separated (agrees_mark .comma)).left (agrees_expectMark _ _)

theorem agrees_literal : Agrees N k d (Tree.Alike N) literal := by
  refine abreast_choice fun p member => ?_
  obtain ⟨which, rfl⟩ : ∃ which, p = (kind which).map fun t => Tree.literal (literalOf t) := by
    simp only [List.mem_cons, List.not_mem_nil, or_false] at member
    rcases member with rfl | rfl | rfl | rfl | rfl <;> exact ⟨_, rfl⟩
  refine (abreast_kind kind_of_alike which).map fun t u same => ?_
  simp only [literalOf, same.1.lexeme]
  exact .literal

theorem agrees_reference : Agrees N k d (Tree.Alike N) reference :=
  agrees_identifier.map fun _ _ same => .reference same.2

end Words

section Expressions

variable (steady : Steady N k d)

include steady

theorem agrees_body : Agrees N k d (Tree.AlikeAll N) (zeroOrMore statement) :=
  steady.statement.zeroOrMore.imp fun _ _ => Tree.alikeAll_iff.2

theorem agrees_braced : Agrees N k d (Tree.AlikeAll N) braced :=
  (agrees_mark .leftBrace).right ((agrees_body steady).left (agrees_expectMark _ _))

theorem agrees_callable : Agrees N k d (fun x y => List.Forall₂ N x.1 y.1 ∧ Tree.AlikeAll N x.2 y.2)
    (pair parameters functionBody) :=
  agrees_parameters.pair ((agrees_braced steady).commit _)

theorem agrees_grouping : Agrees N k d (Tree.Alike N) grouping :=
  ((agrees_mark .leftParen).right ((steady.expression.commit _).left (agrees_expectMark _ _))).map
    fun _ _ => .grouping

theorem agrees_lambda : Agrees N k d (Tree.Alike N) lambda :=
  (((agrees_mark .funWord).pair (agrees_mark .leftParen)).right (agrees_callable steady)).map
    fun _ _ both => .lambda both.1 both.2

theorem agrees_primary : Agrees N k d (Tree.Alike N) primary := by
  refine abreast_choice fun p member => ?_
  simp only [List.mem_cons, List.not_mem_nil, or_false] at member
  rcases member with rfl | rfl | rfl | rfl
  · exact agrees_literal
  · exact agrees_reference
  · exact agrees_grouping steady
  · exact agrees_lambda steady

def WrapAlike (N : Ident → Ident → Prop) (f g : Tree → Tree) : Prop := ∀ x y, x.Alike N y → (f x).Alike N (g y)

theorem agrees_arguments : Agrees N k d (WrapAlike N) arguments := by
  have listed := (steady.expression.separated (agrees_mark .comma)).left
    (agrees_expectMark (N := N) (k := k) .rightParen "')' after arguments")
  exact ((agrees_mark .leftParen).right listed).map fun _ _ all _ _ callee =>
    .call callee (Tree.alikeAll_iff.2 all)

omit steady in
theorem agrees_property : Agrees N k d (WrapAlike N) property := by
  refine ((agrees_mark .dot).right (agrees_identifier.commit _)).map fun t u same x y object => ?_
  rw [same.1]
  exact .get object

theorem agrees_call : Agrees N k d (Tree.Alike N) call := by
  have suffix : Agrees N k d (WrapAlike N) (choice [arguments, property]) :=
    (agrees_arguments steady).orElse (agrees_property.orElse fun _ _ beside => .noMatch beside)
  refine ((agrees_primary steady).pair suffix.zeroOrMore).map ?_
  rintro ⟨x, fs⟩ ⟨y, gs⟩ ⟨first, wraps⟩
  dsimp only at first wraps ⊢
  induction wraps generalizing x y with
  | nil => exact first
  | cons wrap _ ih => exact ih _ _ (wrap _ _ first)

theorem agrees_unary : Agrees N k d (Tree.Alike N) unary := by
  refine Abreast.orElse ?_ ((agrees_call steady).orElse fun _ _ beside => .noMatch beside)
  refine ((abreast_oneOf kind_of_alike _).pair (steady.unary.commit _)).map ?_
  rintro ⟨t, x⟩ ⟨u, y⟩ ⟨sign, operand⟩
  simp only [unaryOf, kind_of_alike t u sign]
  exact .unary operand

omit steady in
theorem alike_foldLeft (ops : List BinaryOp) {x y : Tree} (first : x.Alike N y) {xs ys : List (Token × Tree)}
    (more : List.Forall₂ (fun p q => p.1.Alike N q.1 ∧ p.2.Alike N q.2) xs ys) :
    (foldLeft ops x xs).Alike N (foldLeft ops y ys) := by
  induction more generalizing x y with
  | nil => exact first
  | @cons p q _ _ round _ ih =>
    apply ih
    simp only [operatorOf, kind_of_alike _ _ round.1]
    split
    · exact .binary first round.2
    · exact first

omit steady in
theorem agrees_level {operand : P Tree} (h : Agrees N k d (Tree.Alike N) operand) (ops : List BinaryOp) :
    Agrees N k d (Tree.Alike N) (level operand ops) := by
  have round := (abreast_oneOf (R := Token.Alike N) (k := k) kind_of_alike
    (ops.map fun op => .mark (signOf op))).pair (h.commit "an operand after the operator")
  exact (h.pair round.zeroOrMore).map fun _ _ both => alike_foldLeft ops both.1 both.2

omit steady in
theorem alike_assignTo {x y : Tree} (h : x.Alike N y) :
    Option.Rel (fun f g => ∀ z z', z.Alike N z' → (f z).Alike N (g z')) (assignTo x) (assignTo y) := by
  cases h with
  | reference name => exact .some fun _ _ value => .assign name value
  | get object => exact .some fun _ _ value => .set object value
  | _ => exact .none

theorem agrees_assignment : Agrees N k d (Tree.Alike N) assignment := by
  have factor := agrees_level (agrees_unary steady) [.multiply, .divide]
  have term := agrees_level factor [.add, .subtract]
  have compared := agrees_level term [.less, .lessEqual, .greater, .greaterEqual]
  have equated := agrees_level compared [.equal, .notEqual]
  have joined := agrees_level (agrees_level equated [.and]) [.or]
  exact joined.update kind_of_alike (steady.expression.commit _) fun _ _ => alike_assignTo

end Expressions

section Statements

variable (steady : Steady N k d)

include steady

theorem agrees_expressionStatement : Agrees N k d (Tree.Alike N) expressionStatement :=
  (steady.expression.left (agrees_expectMark _ _)).map fun _ _ => .expression

theorem agrees_print : Agrees N k d (Tree.Alike N) printStatement :=
  ((agrees_mark .printWord).right ((steady.expression.commit _).left (agrees_expectMark _ _))).map
    fun _ _ => .print

theorem agrees_var : Agrees N k d (Tree.Alike N) varStatement := by
  have initial : Agrees N k d (Tree.Alike N)
      (optional (right (mark .equal) (commit expression "an initializer after '='")) (.literal .nil)) :=
    ((agrees_mark .equal).right (steady.expression.commit _)).optional .literal
  exact ((agrees_mark .varWord).right (((agrees_identifier.commit _).pair initial).left
    (agrees_expectMark _ _))).map fun _ _ both => .declare both.1.2 both.2

theorem agrees_named {opening : P Token} (opens : Agrees N k d (fun _ _ => True) opening) :
    Agrees N k d (Tree.Alike N)
      ((pair (kind .identifier) (pair (right opening parameters) functionBody)).map functionOf) :=
  (agrees_identifier.pair ((opens.right agrees_parameters).pair ((agrees_braced steady).commit _))).map
    fun _ _ all => .function all.1.2 all.2.1 all.2.2

theorem agrees_function : Agrees N k d (Tree.Alike N) funStatement := by
  have whole := (agrees_mark (N := N) (k := k) (d := d) .funWord).right
    (agrees_identifier.pair (((agrees_expectMark .leftParen "'(' after the function name").right
      agrees_parameters).pair ((agrees_braced steady).commit "'\x7b' to begin the function body")))
  exact whole.map fun _ _ all => .function all.1.2 all.2.1 all.2.2

theorem agrees_class : Agrees N k d (Tree.Alike N) classStatement := by
  have methods := (agrees_named steady (agrees_mark .leftParen)).zeroOrMore.left
    (agrees_expectMark .rightBrace "'\x7d' to close the class body")
  exact ((agrees_mark .classWord).right ((agrees_identifier.commit _).pair
    ((agrees_expectMark _ _).right methods))).map fun _ _ all => .classDef all.1.2 (Tree.alikeAll_iff.2 all.2)

theorem agrees_condition : Agrees N k d (Tree.Alike N) condition :=
  (agrees_expectMark _ _).right ((steady.expression.commit _).left (agrees_expectMark _ _))

theorem agrees_if : Agrees N k d (Tree.Alike N) ifStatement := by
  have other : Agrees N k d (Option.Rel (Tree.Alike N))
      (optional ((right (mark .elseWord) body).map some) none) :=
    (((agrees_mark .elseWord).right (steady.statement.commit _)).map fun _ _ => .some).optional .none
  refine ((agrees_mark .ifWord).right ((agrees_condition steady).pair
    ((steady.statement.commit _).pair other))).map ?_
  rintro ⟨_, _, _⟩ ⟨_, _, _⟩ ⟨cond, yes, no | _⟩
  · exact .ifElse cond yes no
  · exact .ifThen cond yes

theorem agrees_while : Agrees N k d (Tree.Alike N) whileStatement :=
  ((agrees_mark .whileWord).right ((agrees_condition steady).pair (steady.statement.commit _))).map
    fun _ _ both => .whileLoop both.1 both.2

theorem agrees_initial : Agrees N k d (Option.Rel (Tree.Alike N)) forInitializer := by
  refine Abreast.commit (abreast_choice fun p member => ?_) _
  simp only [List.mem_cons, List.not_mem_nil, or_false] at member
  rcases member with rfl | rfl | rfl
  · exact (agrees_mark .semicolon).map fun _ _ _ => .none
  · exact (agrees_var steady).map fun _ _ => .some
  · exact (agrees_expressionStatement steady).map fun _ _ => .some

omit steady in
theorem alike_forLoop {initial initial' cond cond' increment increment' : Option Tree} {body body' : Tree}
    (first : Option.Rel (Tree.Alike N) initial initial') (test : Option.Rel (Tree.Alike N) cond cond')
    (next : Option.Rel (Tree.Alike N) increment increment') (round : body.Alike N body') :
    (forLoop initial cond increment body).Alike N (forLoop initial' cond' increment' body') := by
  have condition : (cond.getD (.literal (.bool true))).Alike N (cond'.getD (.literal (.bool true))) := by
    cases test with
    | none => exact .literal
    | some test => exact test
  cases next with
  | none =>
    have loop := Tree.Alike.whileLoop condition round
    cases first with
    | none => exact loop
    | some first => exact .block (.cons first (.cons loop .nil))
  | some next =>
    have loop := Tree.Alike.whileLoop condition (.block (.cons round (.cons (.expression next) .nil)))
    cases first with
    | none => exact loop
    | some first => exact .block (.cons first (.cons loop .nil))

theorem agrees_for : Agrees N k d (Tree.Alike N) forStatement := by
  have clause : Agrees N k d (Option.Rel (Tree.Alike N)) (optional (expression.map some) none) :=
    (steady.expression.map fun _ _ => .some).optional .none
  exact ((agrees_mark .forWord).right (((agrees_expectMark _ _).right (agrees_initial steady)).pair
    ((clause.left (agrees_expectMark _ _)).pair ((clause.left (agrees_expectMark _ _)).pair
      (steady.statement.commit _))))).map
    fun _ _ all => alike_forLoop all.1 all.2.1 all.2.2.1 all.2.2.2

theorem agrees_return : Agrees N k d (Tree.Alike N) returnStatement :=
  ((agrees_mark .returnWord).right ((steady.expression.optional .literal).left (agrees_expectMark _ _))).map
    fun _ _ => .ret

theorem agrees_anyStatement : Agrees N k d (Tree.Alike N) anyStatement := by
  refine abreast_choice fun p member => ?_
  simp only [List.mem_cons, List.not_mem_nil, or_false] at member
  rcases member with rfl | rfl | rfl | rfl | rfl | rfl | rfl | rfl | rfl | rfl
  · exact agrees_var steady
  · exact agrees_class steady
  · exact agrees_function steady
  · exact agrees_if steady
  · exact agrees_while steady
  · exact agrees_for steady
  · exact agrees_return steady
  · exact agrees_print steady
  · exact (agrees_braced steady).map fun _ _ => .block
  · exact agrees_expressionStatement steady

end Statements

theorem steady (d : Nat) : Steady N k d := by
  induction d with
  | zero => exact ⟨fun _ _ _ => .tooDeep, fun _ _ _ => .tooDeep, fun _ _ _ => .tooDeep⟩
  | succ d ih => exact ⟨agrees_assignment ih, agrees_unary ih, agrees_anyStatement ih⟩

theorem complete_beside {R : Token → Token → Prop} {α : Type} {V : α → α → Prop} {r r' : Reply α}
    (h : r.Beside R k V r') {expected : String} {x : α} (parsed : complete expected r = .ok x) :
    ∃ y, complete expected r' = .ok y ∧ V x y := by
  cases h with
  | noMatch _ => cases parsed
  | failed _ => cases parsed
  | tooDeep => cases parsed
  | @found x y next next' same after =>
    simp only [complete] at parsed ⊢
    split at parsed
    next ended =>
      cases parsed
      have rest := after.rest
      rw [List.isEmpty_iff.1 ended] at rest
      refine ⟨y, if_pos ?_, same⟩
      rw [List.forall₂_nil_left_iff.1 rest]
      rfl
    next => cases parsed

theorem parseProgram_alike {tokens tokens' : List Token} (alike : List.Forall₂ (Token.Alike N) tokens tokens')
    {program : List Tree} (parsed : parseProgram tokens = .ok program) :
    ∃ program', parseProgram tokens' = .ok program' ∧ Tree.AlikeAll N program program' := by
  have start : (Cursor.start tokens 0).Beside (Token.Alike N) 0 (.start tokens' 0) :=
    ⟨rfl, alike.length_eq.symm, alike⟩
  have replies := agrees_body (steady (depthFor tokens.length)) _ _ start
  obtain ⟨program', parsed', same⟩ := complete_beside replies parsed
  refine ⟨program', ?_, same⟩
  rw [alike.length_eq] at parsed'
  exact parsed'

end Grammar
end Lox
