import Lox.Proofs.Grammar.Statements
import Lox.Proofs.Parser.Ensures

set_option autoImplicit false

namespace Lox.Grammar

open Lox.Parser Surface

def Like (a b : List Token) : Prop := a.map Token.lexeme = b.map Token.lexeme

def Spells (write : List Token → List Token) (a b : List Token) : Prop :=
  ∀ rest, Like rest b → Like (write rest) a

def Stands {σ τ : Type} (Good : σ → Prop) (write : σ → List Token → List Token) (meaning : σ → τ)
    (a b : List Token) (x : τ) : Prop :=
  ∃ s, Good s ∧ Spells (write s) a b ∧ meaning s = x

abbrev StandsExpr (k : Nat) : List Token → List Token → Tree → Prop :=
  Stands (fun e : Expr => e.Grammatical ∧ k ≤ e.level) Expr.write Expr.desugar

abbrev StandsBody : List Token → List Token → List Tree → Prop :=
  Stands GrammaticalBody writeBody desugarBody

abbrev StandsClause : List Token → List Token → Tree → Prop :=
  Stands Clause.Grammatical Clause.write Clause.desugar

abbrev StandsFunction : List Token → List Token → Tree → Prop :=
  Stands Function.Grammatical Function.write Function.desugar

/-- As `Stands`, for statements. An `else` after one would have been taken by it. -/
def StandsStmt (a b : List Token) (x : Tree) : Prop :=
  ∃ s : Stmt, s.Grammatical ∧ Spells s.write a b ∧ s.desugar = x ∧
    (s.endsOpen = true → ahead b ≠ some (.mark .elseWord))

abbrev Gives (d : Nat) {α : Type} (p : P α) (Q : List Token → List Token → α → Prop) : Prop :=
  Ensures (p.run (rules.look d)) Q

structure Sound (d : Nat) : Prop where
  expression : Gives d expression (StandsExpr 0)
  unary : Gives d (ref .unary "unary") (StandsExpr 7)
  statement : Gives d statement StandsStmt

variable {d k : Nat} {a b c : List Token} {t : Token} {m : Mark} {x : Tree}

section Spelling

variable {v w : List Token → List Token}

theorem Spells.nothing : Spells (fun rest => rest) a a := fun _ like => like

theorem Spells.trans (first : Spells v a b) (next : Spells w b c) : Spells (fun rest => v (w rest)) a c :=
  fun rest like => first _ (next rest like)

theorem spells_token {u : Token} (same : u.lexeme = t.lexeme) : Spells (u :: ·) (t :: b) b := by
  intro rest like
  simp only [Like, List.map_cons, same] at like ⊢
  rw [like]

theorem Spells.ahead {u : Token} (h : Spells (u :: ·) a b) : ahead a = some u.kind := by
  have like := h b rfl
  cases a with
  | nil => cases like
  | cons t a =>
    simp only [Like, List.map_cons, List.cons.injEq] at like
    simp only [Parser.ahead, List.head?_cons, Option.map_some, Token.kind, like.1]

theorem gives_mark (m : Mark) : Gives d (mark m) fun a b _ => Spells (markToken m :: ·) a b := by
  refine (ensures_kind (.mark m)).imp ?_
  rintro _ b ⟨lexeme, span⟩ ⟨rfl, kind⟩
  apply spells_token
  cases lexeme <;> cases kind
  rfl

theorem gives_expectMark (m : Mark) (what : String) :
    Gives d (expectMark m what) fun a b _ => Spells (markToken m :: ·) a b :=
  (gives_mark m).commit what

theorem gives_word :
    Gives d (kind .identifier) fun a b t => ∃ w : Word, t = w.token ∧ Spells (w.token :: ·) a b := by
  refine (ensures_kind .identifier).imp ?_
  rintro _ b ⟨lexeme, span⟩ ⟨rfl, kind⟩
  cases lexeme <;> cases kind
  exact ⟨⟨_, span⟩, rfl, spells_token rfl⟩

theorem StandsExpr.mono {j : Nat} (h : StandsExpr k a b x) (le : j ≤ k) : StandsExpr j a b x := by
  obtain ⟨e, ⟨formed, level⟩, spells, same⟩ := h
  exact ⟨e, ⟨formed, Nat.le_trans le level⟩, spells, same⟩

end Spelling

section Pieces

variable (sound : Sound d)

include sound

theorem gives_body : Gives d (zeroOrMore statement) StandsBody := by
  refine sound.statement.zeroOrMore.imp fun a b xs rounds => ?_
  induction rounds with
  | nil a => exact ⟨[], trivial, .nothing, rfl⟩
  | cons first _ ih =>
    obtain ⟨s, formed, spells, rfl, -⟩ := first
    obtain ⟨ss, others, more, rfl⟩ := ih
    exact ⟨s :: ss, ⟨formed, others⟩, spells.trans more, rfl⟩

theorem gives_braced : Gives d braced
    (Stands GrammaticalBody
      (fun body rest => markToken .leftBrace :: writeBody body (markToken .rightBrace :: rest))
      desugarBody) := by
  have inner := (gives_body sound).left (gives_expectMark .rightBrace "'\x7d' to close the block")
  refine ((gives_mark .leftBrace).right inner).imp ?_
  rintro a c xs ⟨b, -, opening, b', -, ⟨body, formed, spells, same⟩, closing⟩
  exact ⟨body, formed, opening.trans (spells.trans closing), same⟩

omit sound in
theorem gives_parameters : Gives d parameters
    (Stands (fun _ => True) (fun ws rest => writeWords ws (markToken .rightParen :: rest))
      (List.map Word.ident)) := by
  have word : Gives d ((kind .identifier).map Token.name) fun a b i =>
      ∃ w : Word, i = w.ident ∧ Spells (w.token :: ·) a b := by
    refine gives_word.map _ ?_
    rintro a b _ ⟨w, rfl, spells⟩
    exact ⟨w, rfl, spells⟩
  refine ((word.separated (gives_mark .comma)).left (gives_expectMark .rightParen _)).imp ?_
  rintro a c is ⟨b, -, words, closing⟩
  rcases words with ⟨rfl, rfl⟩ | ⟨b', _, more, ⟨w, rfl, spells⟩, rounds, rfl⟩
  · exact ⟨[], trivial, closing, rfl⟩
  · have rest : ∃ ws : List Word, Spells (writeMoreWords ws) b' b ∧
        ws.map Word.ident = more.map Prod.snd := by
      clear spells closing
      induction rounds with
      | nil a => exact ⟨[], .nothing, rfl⟩
      | cons first _ ih =>
        obtain ⟨b, comma, w, same, spells⟩ := first
        obtain ⟨ws, others, rest⟩ := ih
        refine ⟨w :: ws, comma.trans (spells.trans others), ?_⟩
        rw [List.map_cons, List.map_cons, rest, same]
    obtain ⟨ws, others, same⟩ := rest
    refine ⟨w :: ws, trivial, spells.trans (others.trans closing), ?_⟩
    rw [List.map_cons, same]

theorem gives_callable : Gives d (pair parameters functionBody) fun a b z =>
    ∃ (ws : List Word) (body : List Stmt), GrammaticalBody body ∧
      Spells (fun rest => writeWords ws (markToken .rightParen :: markToken .leftBrace ::
        writeBody body (markToken .rightBrace :: rest))) a b ∧
      z = (ws.map Word.ident, desugarBody body) := by
  refine (gives_parameters.pair ((gives_braced sound).commit _)).imp ?_
  rintro a c ⟨is, xs⟩ ⟨b, ⟨ws, -, params, rfl⟩, body, formed, spells, rfl⟩
  exact ⟨ws, body, formed, params.trans spells, rfl⟩

end Pieces

section Expressions

variable (sound : Sound d)

theorem gives_literal : Gives d literal (StandsExpr 9) := by
  refine ensures_choice fun p member => ?_
  obtain ⟨kind, inside, rfl⟩ : ∃ kind ∈ literalKinds,
      p = (Parser.kind kind).map fun t => Tree.literal (literalOf t) := by
    simpa [literalKinds] using member
  refine (ensures_kind kind).map _ ?_
  rintro _ b ⟨lexeme, span⟩ ⟨rfl, same⟩
  refine ⟨.literal (literalOf ⟨lexeme, span⟩), ⟨trivial, Nat.le_refl 9⟩, spells_token ?_, rfl⟩
  subst same
  cases lexeme with
  | mark m =>
    simp [literalKinds, Token.kind, Lexeme.kind] at inside
    rcases inside with rfl | rfl | rfl <;> rfl
  | identifier text => simp [literalKinds, Token.kind, Lexeme.kind] at inside
  | string text | number value => rfl

theorem gives_reference : Gives d reference (StandsExpr 9) := by
  refine gives_word.map _ ?_
  rintro a b _ ⟨w, rfl, spells⟩
  exact ⟨.reference w, ⟨trivial, Nat.le_refl 9⟩, spells, rfl⟩

include sound

theorem gives_grouping : Gives d grouping (StandsExpr 9) := by
  have inner := (sound.expression.commit "an expression after '('").left
    (gives_expectMark .rightParen "')' to close the group")
  refine ((gives_mark .leftParen).right inner).map _ ?_
  rintro a c x ⟨b, -, opening, b', -, ⟨e, ⟨formed, -⟩, spells, rfl⟩, closing⟩
  exact ⟨.grouping e, ⟨formed, Nat.le_refl 9⟩, opening.trans (spells.trans closing), rfl⟩

theorem gives_lambda : Gives d lambda (StandsExpr 9) := by
  have opening := (gives_mark (d := d) .funWord).pair (gives_mark .leftParen)
  refine (opening.right (gives_callable sound)).map _ ?_
  rintro a c _ ⟨b, -, ⟨b', word, paren⟩, ws, body, formed, spells, rfl⟩
  exact ⟨.lambda ws body, ⟨formed, Nat.le_refl 9⟩, word.trans (paren.trans spells), rfl⟩

theorem gives_primary : Gives d primary (StandsExpr 9) :=
  gives_literal.orElse <| gives_reference.orElse <| (gives_grouping sound).orElse <|
    (gives_lambda sound).orElse ensures_never

def Wraps (a b : List Token) (f : Tree → Tree) : Prop :=
  ∀ {z : List Token} {x : Tree}, StandsExpr 8 z a x → StandsExpr 8 z b (f x)

theorem gives_listed : Gives d (separated expression (mark .comma))
    (Stands GrammaticalArguments writeArguments desugarArguments) := by
  refine (sound.expression.separated (gives_mark .comma)).imp ?_
  rintro a c xs (⟨rfl, rfl⟩ | ⟨b, _, more, ⟨e, ⟨formed, -⟩, spells, rfl⟩, rounds, rfl⟩)
  · exact ⟨[], trivial, .nothing, rfl⟩
  · have rest : Stands GrammaticalArguments writeMore desugarArguments b c (more.map Prod.snd) := by
      clear spells
      induction rounds with
      | nil a => exact ⟨[], trivial, .nothing, rfl⟩
      | cons first _ ih =>
        obtain ⟨b, comma, e, ⟨formed, -⟩, spells, same⟩ := first
        obtain ⟨es, others, more, rest⟩ := ih
        refine ⟨e :: es, ⟨formed, others⟩, comma.trans (spells.trans more), ?_⟩
        rw [desugarArguments, List.map_cons, rest, same]
    obtain ⟨es, others, more, same⟩ := rest
    refine ⟨e :: es, ⟨formed, others⟩, spells.trans more, ?_⟩
    rw [desugarArguments, same]

theorem gives_arguments : Gives d arguments Wraps := by
  have inner := (gives_listed sound).left (gives_expectMark .rightParen "')' after arguments")
  refine ((gives_mark .leftParen).right inner).map _ ?_
  rintro a c _ ⟨b, -, opening, b', -, ⟨es, formed, listed, rfl⟩, closing⟩ z x
    ⟨e, ⟨formedCallee, level⟩, callee, rfl⟩
  exact ⟨.call e es, ⟨⟨formedCallee, level, formed⟩, Nat.le_refl 8⟩,
    callee.trans (opening.trans (listed.trans closing)), rfl⟩

omit sound in
theorem gives_property : Gives d property Wraps := by
  refine ((gives_mark .dot).right (gives_word.commit _)).map _ ?_
  rintro a c _ ⟨b, -, dot, w, rfl, field⟩ z x ⟨e, ⟨formed, level⟩, object, rfl⟩
  exact ⟨.get e w, ⟨⟨formed, level⟩, Nat.le_refl 8⟩, object.trans (dot.trans field), rfl⟩

theorem gives_call : Gives d call (StandsExpr 8) := by
  have wrap : Gives d (choice [arguments, property]) Wraps :=
    (gives_arguments sound).orElse (gives_property.orElse ensures_never)
  refine ((gives_primary sound).pair wrap.zeroOrMore).map _ ?_
  rintro a c ⟨x, wraps⟩ ⟨b, first, rounds⟩
  replace first := StandsExpr.mono first (Nat.le_succ 8)
  dsimp only at first rounds ⊢
  -- What has been read so far is the callee of the next round.
  induction rounds generalizing x with
  | nil => exact first
  | cons wrap _ ih => exact ih _ (wrap first)

theorem gives_unary : Gives d unary (StandsExpr 7) := by
  have called : Gives d call (StandsExpr 7) := (gives_call sound).imp fun _ _ _ h => h.mono (by decide)
  refine Ensures.orElse ?_ (called.orElse ensures_never)
  refine ((ensures_oneOf _).pair (sound.unary.commit _)).map _ ?_
  rintro a c ⟨⟨lexeme, span⟩, x⟩ ⟨b, ⟨rfl, sign⟩, e, ⟨formed, level⟩, spells, rfl⟩
  refine ⟨.unary (unaryOf ⟨lexeme, span⟩) e, ⟨⟨formed, level⟩, Nat.le_refl 7⟩, ?_, rfl⟩
  refine Spells.trans (v := (markToken (unaryMark (unaryOf ⟨lexeme, span⟩)) :: ·)) (spells_token ?_) spells
  cases lexeme with
  | mark m =>
    simp [Token.kind, Lexeme.kind] at sign
    rcases sign with rfl | rfl <;> rfl
  | _ => simp [Token.kind, Lexeme.kind] at sign

omit sound in
theorem operatorOf_sign {ops : List BinaryOp}
    (sign : t.kind ∈ ops.map fun op => Kind.mark (signOf op)) :
    ∃ op ∈ ops, operatorOf ops t = some op ∧ (markToken (binaryMark op)).lexeme = t.lexeme := by
  obtain ⟨op, member, same⟩ := List.mem_map.1 sign
  rw [signOf_eq] at same
  have found : operatorOf ops t = operatorOf ops (markToken (binaryMark op)) := by
    unfold operatorOf
    rw [← same]
    rfl
  refine ⟨op, member, found.trans (operatorOf_mark member), ?_⟩
  obtain ⟨lexeme, span⟩ := t
  cases lexeme <;> cases same
  rfl

omit sound in
theorem gives_level {operand : P Tree} {ops : List BinaryOp} (tight : Gives d operand (StandsExpr (k + 1)))
    (own : ∀ op ∈ ops, precedence op = k) : Gives d (level operand ops) (StandsExpr k) := by
  have round : Gives d (further operand ops) fun a c z =>
      ∃ b, (a = z.1 :: b ∧ z.1.kind ∈ ops.map fun op => Kind.mark (signOf op)) ∧
        StandsExpr (k + 1) b c z.2 :=
    (ensures_oneOf _).pair (tight.commit _)
  refine (tight.pair round.zeroOrMore).map _ ?_
  rintro a c ⟨x, more⟩ ⟨b, first, rounds⟩
  replace first := StandsExpr.mono first (Nat.le_succ k)
  dsimp only [foldLeft] at first rounds ⊢
  -- What has been read so far is the left operand of the next operator.
  induction rounds generalizing x with
  | nil => exact first
  | @cons b b' c z _ round _ ih =>
    obtain ⟨t, y⟩ := z
    obtain ⟨rest, ⟨rfl, sign⟩, e, ⟨formed, level⟩, spells, rfl⟩ := round
    obtain ⟨op, member, same, lexeme⟩ := operatorOf_sign sign
    obtain ⟨lhs, ⟨formedLeft, levelLeft⟩, left, rfl⟩ := first
    have here := own op member
    refine ih _ ?_
    simp only [same]
    refine ⟨.binary op lhs e, ⟨⟨formedLeft, by omega, formed, by omega⟩, by simp [here]⟩, ?_, rfl⟩
    exact left.trans (Spells.trans (v := (markToken (binaryMark op) :: ·)) (spells_token lexeme) spells)

theorem gives_logicalOr : Gives d logicalOr (StandsExpr 1) := by
  have products : Gives d multiplication (StandsExpr 6) := gives_level (gives_unary sound) (by decide)
  have sums : Gives d addition (StandsExpr 5) := gives_level products (by decide)
  have comparisons : Gives d comparison (StandsExpr 4) := gives_level sums (by decide)
  have equalities : Gives d equality (StandsExpr 3) := gives_level comparisons (by decide)
  have conjunctions : Gives d logicalAnd (StandsExpr 2) := gives_level equalities (by decide)
  exact gives_level conjunctions (by decide)

theorem gives_assignment : Gives d assignment (StandsExpr 0) := by
  refine ((gives_logicalOr sound).update (sound.expression.commit _)).imp ?_
  rintro a c x (plain | ⟨t, b, y, build, z, ⟨e, ⟨formed, -⟩, target, rfl⟩, sign, accepted,
    ⟨value, ⟨formedValue, -⟩, spells, rfl⟩, rfl⟩)
  · exact StandsExpr.mono plain (Nat.zero_le 1)
  · obtain ⟨lexeme, span⟩ := t
    cases lexeme <;> cases sign
    have equal : Spells (markToken .equal :: ·) (⟨.mark .equal, span⟩ :: b) b := spells_token rfl
    -- Only two kinds of tree are accepted as targets, and each is written in one way only.
    cases e with
    | reference w =>
      cases accepted
      exact ⟨.assign w value, ⟨formedValue, Nat.zero_le _⟩, target.trans (equal.trans spells), rfl⟩
    | get object field =>
      cases accepted
      exact ⟨.set object field value, ⟨⟨formed.1, formed.2, formedValue⟩, Nat.zero_le _⟩,
        target.trans (equal.trans spells), rfl⟩
    | _ => cases accepted

end Expressions

section Clauses

variable (sound : Sound d)

include sound

theorem gives_expressionStatement : Gives d expressionStatement StandsClause := by
  refine (sound.expression.left (gives_expectMark .semicolon "';'")).map _ ?_
  rintro a c x ⟨b, -, ⟨e, ⟨formed, -⟩, spells, rfl⟩, closing⟩
  exact ⟨.expression e, formed, spells.trans closing, rfl⟩

theorem gives_varStatement : Gives d varStatement StandsClause := by
  have initial := ((gives_mark .equal).right (sound.expression.commit "an initializer after '='")).optional
    (.literal .nil)
  have declared := ((gives_word.commit "a variable name after 'var'").pair initial).left
    (gives_expectMark .semicolon "';'")
  refine ((gives_mark .varWord).right declared).map _ ?_
  rintro a c ⟨_, x⟩ ⟨b, -, word, b', -, ⟨b'', ⟨w, rfl, name⟩, value⟩, closing⟩
  rcases value with ⟨b₁, -, equal, e, ⟨formed, -⟩, spells, rfl⟩ | ⟨rfl, rfl, -⟩
  · exact ⟨.declare w (some e), formed, word.trans (name.trans (equal.trans (spells.trans closing))), rfl⟩
  · exact ⟨.declare w none, trivial, word.trans (name.trans closing), rfl⟩

theorem gives_initial : Gives d forInitializer (Stands GrammaticalInitial writeInitial desugarInitial) := by
  have none : Gives d ((mark .semicolon).map fun _ => none)
      (Stands GrammaticalInitial writeInitial desugarInitial) :=
    (gives_mark .semicolon).map _ fun _ _ _ spells => ⟨none, trivial, spells, rfl⟩
  have some : ∀ {a b : List Token} {x : Tree}, StandsClause a b x →
      Stands GrammaticalInitial writeInitial desugarInitial a b (some x) := by
    rintro a b _ ⟨c, formed, spells, rfl⟩
    exact ⟨some c, formed, spells, rfl⟩
  exact (none.orElse (((gives_varStatement sound).map _ fun _ _ _ => some).orElse
    (((gives_expressionStatement sound).map _ fun _ _ _ => some).orElse ensures_never))).commit _

theorem gives_option : Gives d (optional (expression.map some) none)
    (Stands GrammaticalOption writeOption desugarOption) := by
  have some : Gives d (expression.map some) (Stands GrammaticalOption writeOption desugarOption) := by
    refine sound.expression.map _ ?_
    rintro a b _ ⟨e, ⟨formed, -⟩, spells, rfl⟩
    exact ⟨some e, formed, spells, rfl⟩
  refine (some.optional none).imp ?_
  rintro a b x (found | ⟨rfl, rfl, -⟩)
  · exact found
  · exact ⟨none, trivial, .nothing, rfl⟩

theorem gives_condition : Gives d condition
    (Stands Expr.Grammatical
      (fun e rest => markToken .leftParen :: e.write (markToken .rightParen :: rest)) Expr.desugar) := by
  have inner := (sound.expression.commit "a condition").left
    (gives_expectMark .rightParen "')' after the condition")
  refine ((gives_expectMark .leftParen _).right inner).imp ?_
  rintro a c x ⟨b, -, opening, b', -, ⟨e, ⟨formed, -⟩, spells, rfl⟩, closing⟩
  exact ⟨e, formed, opening.trans (spells.trans closing), rfl⟩

theorem gives_named {opening : P Token}
    (opens : Gives d opening fun a b _ => Spells (markToken .leftParen :: ·) a b) :
    Gives d (pair (kind .identifier) (pair (right opening parameters) functionBody))
      fun a b z => StandsFunction a b (functionOf z) := by
  have inner := (gives_braced sound).commit "'\x7b' to begin the function body"
  refine (gives_word.pair ((opens.right gives_parameters).pair inner)).imp ?_
  rintro a c ⟨_, _, _⟩ ⟨b, ⟨w, rfl, name⟩, b', ⟨b'', -, paren, ws, -, params, rfl⟩, body, formed, spells, rfl⟩
  exact ⟨.mk w ws body, formed, name.trans (paren.trans (params.trans spells)), rfl⟩

theorem gives_methods :
    Gives d (zeroOrMore method) (Stands GrammaticalMethods writeMethods desugarMethods) := by
  have one : Gives d method StandsFunction :=
    (gives_named sound (gives_mark .leftParen)).map _ fun _ _ _ h => h
  refine one.zeroOrMore.imp fun a b xs rounds => ?_
  induction rounds with
  | nil a => exact ⟨[], trivial, .nothing, rfl⟩
  | cons first _ ih =>
    obtain ⟨f, formed, spells, rfl⟩ := first
    obtain ⟨fs, others, more, rfl⟩ := ih
    exact ⟨f :: fs, ⟨formed, others⟩, spells.trans more, rfl⟩

end Clauses

section Statements

theorem standsStmt {s : Stmt} (formed : s.Grammatical) (spells : Spells s.write a b)
    (closed : s.endsOpen = false) : StandsStmt a b s.desugar :=
  ⟨s, formed, spells, rfl, fun isOpen => by simp [closed] at isOpen⟩

theorem StandsClause.stmt (h : StandsClause a b x) : StandsStmt a b x := by
  obtain ⟨clause, formed, spells, rfl⟩ := h
  exact standsStmt (s := .clause clause) formed spells rfl

variable (sound : Sound d)

include sound

theorem gives_print : Gives d printStatement StandsStmt := by
  have inner := (sound.expression.commit "an expression after 'print'").left
    (gives_expectMark .semicolon "';'")
  refine ((gives_mark .printWord).right inner).map _ ?_
  rintro a c x ⟨b, -, word, b', -, ⟨e, ⟨formed, -⟩, spells, rfl⟩, closing⟩
  exact standsStmt (s := .print e) formed (word.trans (spells.trans closing)) rfl

theorem gives_return : Gives d returnStatement StandsStmt := by
  have inner := (sound.expression.optional (.literal .nil)).left (gives_expectMark .semicolon "';'")
  refine ((gives_mark .returnWord).right inner).map _ ?_
  rintro a c x ⟨b, -, word, b', -, value, closing⟩
  rcases value with ⟨e, ⟨formed, -⟩, spells, rfl⟩ | ⟨rfl, rfl, -⟩
  · exact standsStmt (s := .ret (some e)) formed (word.trans (spells.trans closing)) rfl
  · exact standsStmt (s := .ret none) trivial (word.trans closing) rfl

theorem gives_block : Gives d block StandsStmt := by
  refine (gives_braced sound).map _ ?_
  rintro a b _ ⟨body, formed, spells, rfl⟩
  exact standsStmt (s := .block body) formed spells rfl

theorem gives_if : Gives d ifStatement StandsStmt := by
  have yes := sound.statement.commit "a statement"
  have no : Gives d ((right (mark .elseWord) body).map some) fun a b x =>
      ∃ b' y, Spells (markToken .elseWord :: ·) a b' ∧ StandsStmt b' b y ∧ x = some y := by
    refine ((gives_mark .elseWord).right yes).map _ ?_
    rintro a b y ⟨b', -, word, other⟩
    exact ⟨b', y, word, other, rfl⟩
  refine ((gives_mark .ifWord).right ((gives_condition sound).pair (yes.pair (no.optional none)))).map _ ?_
  rintro a c ⟨_, _, _⟩ ⟨b, -, word, b₁, ⟨cond, formedCond, test, rfl⟩, b₂,
    ⟨s, formedBody, spells, rfl, closed⟩, branch⟩
  rcases branch with ⟨b₃, _, elseWord, ⟨s', formedOther, spells', rfl, closed'⟩, rfl⟩ |
    ⟨rfl, rfl, cursor, here, rfl, missed⟩
  · -- The branch would have taken the `else` for itself if it had been open to one.
    have complete : s.endsOpen = false := by
      rw [← Bool.not_eq_true]
      exact fun isOpen => closed isOpen elseWord.ahead
    exact ⟨.ifElse cond s s', ⟨formedCond, formedBody, complete, formedOther⟩,
      word.trans (test.trans (spells.trans (elseWord.trans spells'))), rfl, closed'⟩
  · exact ⟨.ifThen cond s, ⟨formedCond, formedBody⟩, word.trans (test.trans spells), rfl,
      fun _ => ahead_of_missed missed⟩

theorem gives_while : Gives d whileStatement StandsStmt := by
  refine ((gives_mark .whileWord).right ((gives_condition sound).pair (sound.statement.commit _))).map _ ?_
  rintro a c ⟨_, _⟩ ⟨b, -, word, b', ⟨cond, formedCond, test, rfl⟩, s, formed, spells, rfl, closed⟩
  exact ⟨.whileLoop cond s, ⟨formedCond, formed⟩, word.trans (test.trans spells), rfl, closed⟩

theorem gives_for : Gives d forStatement StandsStmt := by
  have first := (gives_expectMark .leftParen "'(' after 'for'").right (gives_initial sound)
  have test := (gives_option sound).left (gives_expectMark .semicolon "';' after the loop condition")
  have next := (gives_option sound).left (gives_expectMark .rightParen "')' after the for-clauses")
  refine ((gives_mark .forWord).right
    (first.pair (test.pair (next.pair (sound.statement.commit "a statement"))))).map _ ?_
  rintro a c ⟨_, _, _, _⟩ ⟨b, -, word, b₁, ⟨b₂, -, paren, initial, formedInitial, spells₁, rfl⟩, b₃,
    ⟨b₄, -, ⟨cond, formedCond, spells₂, rfl⟩, semicolon⟩, b₅,
    ⟨b₆, -, ⟨increment, formedIncrement, spells₃, rfl⟩, closing⟩, s, formed, spells₄, rfl, closed⟩
  refine ⟨.forLoop initial cond increment s, ⟨formedInitial, formedCond, formedIncrement, formed⟩, ?_,
    (forLoop_eq _ _ _ _).symm, closed⟩
  exact word.trans (paren.trans (spells₁.trans (spells₂.trans (semicolon.trans
    (spells₃.trans (closing.trans spells₄))))))

theorem gives_function : Gives d funStatement StandsStmt := by
  have named := gives_named sound (gives_expectMark .leftParen "'(' after the function name")
  refine ((gives_mark .funWord).right named).map _ ?_
  rintro a c z ⟨b, -, word, f, formed, spells, same⟩
  exact same ▸ standsStmt (s := .function f) formed (word.trans spells) rfl

theorem gives_class : Gives d classStatement StandsStmt := by
  have inner := (gives_methods sound).left (gives_expectMark .rightBrace "'\x7d' to close the class body")
  refine ((gives_mark .classWord).right ((gives_word.commit "a class name after 'class'").pair
    ((gives_expectMark .leftBrace "'\x7b' to begin the class body").right inner))).map _ ?_
  rintro a c ⟨_, _⟩ ⟨b, -, word, b₁, ⟨w, rfl, name⟩, b₂, -, opening, b₃, -,
    ⟨methods, formed, spells, rfl⟩, closing⟩
  exact standsStmt (s := .classDef w methods) formed
    (word.trans (name.trans (opening.trans (spells.trans closing)))) rfl

theorem gives_anyStatement : Gives d anyStatement StandsStmt := by
  have declared : Gives d varStatement StandsStmt :=
    (gives_varStatement sound).imp fun _ _ _ h => StandsClause.stmt h
  have evaluated : Gives d expressionStatement StandsStmt :=
    (gives_expressionStatement sound).imp fun _ _ _ h => StandsClause.stmt h
  refine ensures_choice fun p member => ?_
  simp only [List.mem_cons, List.not_mem_nil, or_false] at member
  rcases member with rfl | rfl | rfl | rfl | rfl | rfl | rfl | rfl | rfl | rfl
  · exact declared
  · exact gives_class sound
  · exact gives_function sound
  · exact gives_if sound
  · exact gives_while sound
  · exact gives_for sound
  · exact gives_return sound
  · exact gives_print sound
  · exact gives_block sound
  · exact evaluated

end Statements

theorem sound (d : Nat) : Sound d := by
  induction d with
  | zero => exact ⟨nofun, nofun, nofun⟩
  | succ d ih => exact ⟨gives_assignment ih, gives_unary ih, gives_anyStatement ih⟩

theorem stands_of_parsed {tokens : List Token} {program : List Tree}
    (parsed : parseProgram tokens = .ok program) :
    ∃ s, GrammaticalBody s ∧ Like (print s) tokens ∧ desugarBody s = program := by
  unfold parseProgram at parsed
  generalize reply : parse statements (.start tokens 0) = outcome at parsed
  cases outcome with
  | found value next =>
    obtain ⟨s, formed, spells, rfl⟩ := gives_body (sound _) _ _ _ reply
    simp only [complete] at parsed
    split at parsed
    next empty =>
      cases parsed
      exact ⟨s, formed, spells [] (congrArg (List.map Token.lexeme) (List.isEmpty_iff.1 empty).symm), rfl⟩
    next => cases parsed
  | noMatch _ | failed _ | tooDeep => cases parsed

end Lox.Grammar
