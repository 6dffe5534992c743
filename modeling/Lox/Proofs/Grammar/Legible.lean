import Lox.Proofs.Grammar.Soundness
import Lox.Proofs.Scan.Tokens
import Lox.Proofs.Tree.Rendered

set_option autoImplicit false

namespace Lox

def Lexeme.Legible : Lexeme → Prop
  | .mark _ => True
  | .identifier text => Piece.Unbroken text
  | .string s => '"' ∉ s.toList
  | .number x => Number.Proper x

def LegibleTokens (tokens : List Token) : Prop := ∀ t ∈ tokens, t.lexeme.Legible

@[simp] theorem legibleTokens_cons {t : Token} {rest : List Token} :
    LegibleTokens (t :: rest) ↔ t.lexeme.Legible ∧ LegibleTokens rest :=
  List.forall_mem_cons

namespace Surface

@[simp] theorem legible_mark (m : Mark) : (markToken m).lexeme.Legible := trivial

theorem legible_word {w : Word} (h : w.token.lexeme.Legible) : w.ident.Legible := ⟨w.text, w.span, rfl, h⟩

theorem legible_literal {value : Literal} (h : (literalToken value).lexeme.Legible) : value.Legible := by
  cases value with
  | nil | bool _ => trivial
  | number x => exact h
  | text s => exact h

theorem legible_moreWords (ws : List Word) {rest : List Token} (h : LegibleTokens (writeMoreWords ws rest)) :
    (∀ w ∈ ws, w.ident.Legible) ∧ LegibleTokens rest := by
  induction ws with
  | nil => exact ⟨nofun, h⟩
  | cons w ws ih =>
    simp only [writeMoreWords, legibleTokens_cons] at h
    obtain ⟨words, after⟩ := ih h.2.2
    exact ⟨List.forall_mem_cons.2 ⟨legible_word h.2.1, words⟩, after⟩

theorem legible_params (ws : List Word) {rest : List Token} (h : LegibleTokens (writeParams ws rest)) :
    (∀ p ∈ ws.map Word.ident, p.Legible) ∧ LegibleTokens rest := by
  rw [List.forall_mem_map]
  cases ws with
  | nil =>
    simp only [writeParams, writeWords, legibleTokens_cons] at h
    exact ⟨by simp, h.2.2⟩
  | cons w ws =>
    simp only [writeParams, writeWords, legibleTokens_cons] at h
    obtain ⟨words, after⟩ := legible_moreWords ws h.2.2
    exact ⟨List.forall_mem_cons.2 ⟨legible_word h.2.1, words⟩, (legibleTokens_cons.1 after).2⟩

theorem legible_getD {o : Option Tree} (h : ∀ t ∈ o, t.Legible) {other : Tree} (good : other.Legible) :
    (o.getD other).Legible := by
  cases o with
  | none => exact good
  | some t => exact h t rfl

theorem legible_loopOf {initial cond increment : Option Tree} {body : Tree} (first : ∀ t ∈ initial, t.Legible)
    (test : ∀ t ∈ cond, t.Legible) (step : ∀ t ∈ increment, t.Legible) (good : body.Legible) :
    (loopOf initial cond increment body).Legible := by
  have always : (Tree.literal (.bool true)).Legible := trivial
  have tested := legible_getD test always
  cases initial <;> cases increment <;> simp_all [loopOf]

mutual

theorem Expr.legible (e : Expr) {rest : List Token} (h : LegibleTokens (e.write rest)) :
    e.desugar.Legible ∧ LegibleTokens rest := by
  cases e with
  | literal value =>
    obtain ⟨first, after⟩ := legibleTokens_cons.1 h
    exact ⟨legible_literal first, after⟩
  | reference name =>
    obtain ⟨first, after⟩ := legibleTokens_cons.1 h
    exact ⟨legible_word first, after⟩
  | grouping inner =>
    obtain ⟨good, after⟩ := inner.legible (legibleTokens_cons.1 h).2
    exact ⟨good, (legibleTokens_cons.1 after).2⟩
  | lambda params body =>
    obtain ⟨names, inside⟩ := legible_params params (legibleTokens_cons.1 h).2
    obtain ⟨good, after⟩ := legible_body body (legibleTokens_cons.1 inside).2
    exact ⟨⟨names, good⟩, (legibleTokens_cons.1 after).2⟩
  | call callee arguments =>
    obtain ⟨good, inside⟩ := callee.legible h
    obtain ⟨more, after⟩ := legible_arguments arguments (legibleTokens_cons.1 inside).2
    exact ⟨⟨good, more⟩, (legibleTokens_cons.1 after).2⟩
  | get object field =>
    obtain ⟨good, after⟩ := object.legible h
    simp only [legibleTokens_cons] at after
    exact ⟨⟨good, after.2.1⟩, after.2.2⟩
  | unary op operand => exact operand.legible (legibleTokens_cons.1 h).2
  | binary op lhs rhs =>
    obtain ⟨left, inside⟩ := lhs.legible h
    obtain ⟨right, after⟩ := rhs.legible (legibleTokens_cons.1 inside).2
    exact ⟨⟨left, right⟩, after⟩
  | assign target value =>
    simp only [Expr.write, legibleTokens_cons] at h
    obtain ⟨good, after⟩ := value.legible h.2.2
    exact ⟨⟨legible_word h.1, good⟩, after⟩
  | set object field value =>
    obtain ⟨left, inside⟩ := object.legible h
    simp only [legibleTokens_cons] at inside
    obtain ⟨right, after⟩ := value.legible inside.2.2.2
    exact ⟨⟨left, inside.2.1, right⟩, after⟩

theorem legible_arguments (es : List Expr) {rest : List Token} (h : LegibleTokens (writeArguments es rest)) :
    Tree.LegibleAll (desugarArguments es) ∧ LegibleTokens rest := by
  cases es with
  | nil => exact ⟨trivial, h⟩
  | cons e es =>
    obtain ⟨good, more⟩ := e.legible h
    obtain ⟨others, after⟩ := legible_more es more
    exact ⟨⟨good, others⟩, after⟩

theorem legible_more (es : List Expr) {rest : List Token} (h : LegibleTokens (writeMore es rest)) :
    Tree.LegibleAll (desugarArguments es) ∧ LegibleTokens rest := by
  cases es with
  | nil => exact ⟨trivial, h⟩
  | cons e es =>
    obtain ⟨good, more⟩ := e.legible (legibleTokens_cons.1 h).2
    obtain ⟨others, after⟩ := legible_more es more
    exact ⟨⟨good, others⟩, after⟩

theorem legible_option (o : Option Expr) {rest : List Token} (h : LegibleTokens (writeOption o rest)) :
    (∀ t ∈ desugarOption o, t.Legible) ∧ LegibleTokens rest := by
  cases o with
  | none => exact ⟨nofun, h⟩
  | some e =>
    obtain ⟨good, after⟩ := e.legible h
    exact ⟨by simpa using good, after⟩

theorem Clause.legible (c : Clause) {rest : List Token} (h : LegibleTokens (c.write rest)) :
    c.desugar.Legible ∧ LegibleTokens rest := by
  cases c with
  | expression e =>
    obtain ⟨good, after⟩ := e.legible h
    exact ⟨good, (legibleTokens_cons.1 after).2⟩
  | declare name initial =>
    cases initial with
    | none =>
      simp only [Clause.write, legibleTokens_cons] at h
      exact ⟨⟨legible_word h.2.1, trivial⟩, h.2.2.2⟩
    | some e =>
      simp only [Clause.write, legibleTokens_cons] at h
      obtain ⟨good, after⟩ := e.legible h.2.2.2
      exact ⟨⟨legible_word h.2.1, good⟩, (legibleTokens_cons.1 after).2⟩

theorem legible_initial (o : Option Clause) {rest : List Token} (h : LegibleTokens (writeInitial o rest)) :
    (∀ t ∈ desugarInitial o, t.Legible) ∧ LegibleTokens rest := by
  cases o with
  | none => exact ⟨nofun, (legibleTokens_cons.1 h).2⟩
  | some c =>
    obtain ⟨good, after⟩ := c.legible h
    exact ⟨by simpa using good, after⟩

theorem Stmt.legible (s : Stmt) {rest : List Token} (h : LegibleTokens (s.write rest)) :
    s.desugar.Legible ∧ LegibleTokens rest := by
  cases s with
  | clause c => exact c.legible h
  | print e =>
    obtain ⟨good, after⟩ := e.legible (legibleTokens_cons.1 h).2
    exact ⟨good, (legibleTokens_cons.1 after).2⟩
  | ret value =>
    obtain ⟨good, after⟩ := legible_option value (legibleTokens_cons.1 h).2
    have nothing : (Tree.literal .nil).Legible := trivial
    exact ⟨legible_getD good nothing, (legibleTokens_cons.1 after).2⟩
  | block body =>
    obtain ⟨good, after⟩ := legible_body body (legibleTokens_cons.1 h).2
    exact ⟨good, (legibleTokens_cons.1 after).2⟩
  | ifThen cond body =>
    simp only [Stmt.write, legibleTokens_cons] at h
    obtain ⟨test, inside⟩ := cond.legible h.2.2
    obtain ⟨good, after⟩ := body.legible (legibleTokens_cons.1 inside).2
    exact ⟨⟨test, good⟩, after⟩
  | ifElse cond body other =>
    simp only [Stmt.write, legibleTokens_cons] at h
    obtain ⟨test, inside⟩ := cond.legible h.2.2
    obtain ⟨left, between⟩ := body.legible (legibleTokens_cons.1 inside).2
    obtain ⟨right, after⟩ := other.legible (legibleTokens_cons.1 between).2
    exact ⟨⟨test, left, right⟩, after⟩
  | whileLoop cond body =>
    simp only [Stmt.write, legibleTokens_cons] at h
    obtain ⟨test, inside⟩ := cond.legible h.2.2
    obtain ⟨good, after⟩ := body.legible (legibleTokens_cons.1 inside).2
    exact ⟨⟨test, good⟩, after⟩
  | forLoop initial cond increment body =>
    simp only [Stmt.write, legibleTokens_cons] at h
    obtain ⟨first, header⟩ := legible_initial initial h.2.2
    obtain ⟨test, header⟩ := legible_option cond header
    obtain ⟨step, inside⟩ := legible_option increment (legibleTokens_cons.1 header).2
    obtain ⟨good, after⟩ := body.legible (legibleTokens_cons.1 inside).2
    exact ⟨legible_loopOf first test step good, after⟩
  | function f => exact f.legible (legibleTokens_cons.1 h).2
  | classDef name methods =>
    simp only [Stmt.write, legibleTokens_cons] at h
    obtain ⟨good, after⟩ := legible_methods methods h.2.2.2
    exact ⟨⟨legible_word h.2.1, good⟩, (legibleTokens_cons.1 after).2⟩

theorem legible_body (body : List Stmt) {rest : List Token} (h : LegibleTokens (writeBody body rest)) :
    Tree.LegibleAll (desugarBody body) ∧ LegibleTokens rest := by
  cases body with
  | nil => exact ⟨trivial, h⟩
  | cons s ss =>
    obtain ⟨good, more⟩ := s.legible h
    obtain ⟨others, after⟩ := legible_body ss more
    exact ⟨⟨good, others⟩, after⟩

theorem Function.legible (f : Function) {rest : List Token} (h : LegibleTokens (f.write rest)) :
    f.desugar.Legible ∧ LegibleTokens rest := by
  obtain ⟨name, params, body⟩ := f
  simp only [Function.write, legibleTokens_cons] at h
  obtain ⟨names, inside⟩ := legible_params params h.2
  obtain ⟨good, after⟩ := legible_body body (legibleTokens_cons.1 inside).2
  exact ⟨⟨legible_word h.1, names, good⟩, (legibleTokens_cons.1 after).2⟩

theorem legible_methods (fs : List Function) {rest : List Token} (h : LegibleTokens (writeMethods fs rest)) :
    Tree.LegibleAll (desugarMethods fs) ∧ LegibleTokens rest := by
  cases fs with
  | nil => exact ⟨trivial, h⟩
  | cons f fs =>
    obtain ⟨good, more⟩ := f.legible h
    obtain ⟨others, after⟩ := legible_methods fs more
    exact ⟨⟨good, others⟩, after⟩

end

end Surface

namespace Scan

theorem unbroken_word {w : List Char} (word : Rule.word.Matches w) : Piece.Unbroken (.ofList w) := by
  have parts : ∀ c ∈ w, isWordPart c = true := by
    obtain ⟨c, rest, rfl, start, others⟩ := word
    exact List.forall_mem_cons.2 ⟨by simp [isWordPart, start], others⟩
  have apart : ∀ c ∈ [' ', ',', '(', ')', '"'], isWordPart c = false := by
    simp [isWordPart, isWordStart, isDigit]
  refine ⟨by simpa using word.ne_nil, fun c member breaks => ?_⟩
  have part := parts c (by simpa using member)
  rw [apart c breaks] at part
  cases part

theorem proper_ofDigits (whole fraction : List Char) : Number.Proper (Decimal.ofDigits whole fraction) := by
  refine Number.proper_ofBits ?_
  unfold Decimal.nearestBits
  split
  · exact Nat.zero_le _
  · exact Nat.min_le_left _ _

theorem Spelled.legible {w : List Char} {a : Lexeme} (spelled : Spelled w a) : a.Legible := by
  cases spelled with
  | punctuation _ | keyword _ => trivial
  | identifier word _ => exact unbroken_word word
  | string free => simpa [Lexeme.Legible] using free
  | whole _ | fraction _ _ => exact proper_ofDigits _ _

theorem Reads.legible {place : Nat} {front rest : List Char} {tokens : List Token}
    (reads : Reads place front tokens rest) : LegibleTokens tokens := by
  induction reads with
  | done => nofun
  | silent _ _ _ ih => exact ih
  | token _ spelled _ ih => exact legibleTokens_cons.2 ⟨spelled.legible, ih⟩

theorem legible_of_scan {text : String} {tokens : List Token} (scanned : scan text = .ok tokens) :
    LegibleTokens tokens :=
  (scan_ok_iff.1 scanned).legible

end Scan

namespace Grammar

theorem Like.legible {a b : List Token} (like : Like a b) (legible : LegibleTokens b) : LegibleTokens a := by
  intro t member
  have listed : t.lexeme ∈ b.map Token.lexeme := like ▸ List.mem_map_of_mem member
  obtain ⟨u, listed, same⟩ := List.mem_map.1 listed
  exact same ▸ legible u listed

theorem legible_program {tokens : List Token} {program : List Tree} (legible : LegibleTokens tokens)
    (parsed : parseProgram tokens = .ok program) : Tree.LegibleAll program := by
  obtain ⟨s, -, like, rfl⟩ := stands_of_parsed parsed
  exact (Surface.legible_body s (like.legible legible)).1

theorem legible_expression {tokens : List Token} {t : Tree} (legible : LegibleTokens tokens)
    (parsed : parseExpression tokens = .ok t) : t.Legible := by
  unfold parseExpression at parsed
  generalize reply : parse expression (.start tokens 0) = outcome at parsed
  cases outcome with
  | found value next =>
    obtain ⟨e, -, spells, rfl⟩ := (sound _).expression _ _ _ reply
    simp only [complete] at parsed
    split at parsed
    next empty =>
      cases parsed
      have like := spells [] (congrArg (List.map Token.lexeme) (List.isEmpty_iff.1 empty).symm)
      exact (e.legible (like.legible legible)).1
    next => cases parsed
  | noMatch _ | failed _ | tooDeep => cases parsed

inductive Read (text : String) : Tree → Prop
  | expression {tokens : List Token} {t : Tree} (scanned : scan text = .ok tokens)
      (parsed : parseExpression tokens = .ok t) : Read text t
  | statement {tokens : List Token} {program : List Tree} {t : Tree} (scanned : scan text = .ok tokens)
      (parsed : parseProgram tokens = .ok program) (listed : t ∈ program) : Read text t

theorem Read.legible {text : String} {t : Tree} (read : Read text t) : t.Legible := by
  cases read with
  | expression scanned parsed => exact legible_expression (Scan.legible_of_scan scanned) parsed
  | statement scanned parsed listed =>
    exact Tree.legibleAll_iff.1 (legible_program (Scan.legible_of_scan scanned) parsed) _ listed

/-- A rendering tells what was read. -/
theorem render_eq_iff {first second : String} {t u : Tree} (read : Read first t) (read' : Read second u) :
    t.render = u.render ↔ Tree.same t u = true :=
  Tree.render_inj read.legible read'.legible

theorem render_eq_iff_quoted :
    (Tree.call (.reference (.name "f" (some ⟨0, 1⟩)))
        [.literal (.number (Decimal.ofDigits ['2'] ['5', '0'])), .literal (.text "a, b")]).render =
      (Tree.call (.reference (.name "f" (some ⟨1, 2⟩)))
        [.literal (.number (Decimal.ofDigits ['2'] ['5'])), .literal (.text "a, b")]).render ∧
    (Tree.call (.reference (.name "f" (some ⟨0, 1⟩)))
        [.literal (.number (Decimal.ofDigits ['2'] ['5', '0'])), .literal (.text "a, b")]).render ≠
      (Tree.call (.reference (.name "f" (some ⟨0, 1⟩)))
        [.literal (.number (Decimal.ofDigits ['2'] ['5'])), .literal (.text "a"), .literal (.text "b")]).render := by
  have first : Read "f(2.50, \"a, b\")" _ := @Read.expression _
    [⟨.identifier "f", some ⟨0, 1⟩⟩, ⟨.mark .leftParen, some ⟨1, 2⟩⟩,
      ⟨.number (Decimal.ofDigits ['2'] ['5', '0']), some ⟨2, 6⟩⟩, ⟨.mark .comma, some ⟨6, 7⟩⟩,
      ⟨.string "a, b", some ⟨8, 14⟩⟩, ⟨.mark .rightParen, some ⟨14, 15⟩⟩] _ rfl rfl
  have second : Read " f(2.5, \"a, b\") // c" _ := @Read.expression _
    [⟨.identifier "f", some ⟨1, 2⟩⟩, ⟨.mark .leftParen, some ⟨2, 3⟩⟩,
      ⟨.number (Decimal.ofDigits ['2'] ['5']), some ⟨3, 6⟩⟩, ⟨.mark .comma, some ⟨6, 7⟩⟩,
      ⟨.string "a, b", some ⟨8, 14⟩⟩, ⟨.mark .rightParen, some ⟨14, 15⟩⟩] _ rfl rfl
  have third : Read "f(2.5, \"a\", \"b\")" _ := @Read.expression _
    [⟨.identifier "f", some ⟨0, 1⟩⟩, ⟨.mark .leftParen, some ⟨1, 2⟩⟩,
      ⟨.number (Decimal.ofDigits ['2'] ['5']), some ⟨2, 5⟩⟩, ⟨.mark .comma, some ⟨5, 6⟩⟩,
      ⟨.string "a", some ⟨7, 10⟩⟩, ⟨.mark .comma, some ⟨10, 11⟩⟩, ⟨.string "b", some ⟨12, 15⟩⟩,
      ⟨.mark .rightParen, some ⟨15, 16⟩⟩] _ rfl rfl
  exact ⟨(render_eq_iff first second).2 (by decide +kernel),
    (render_eq_iff first third).not.2 (by decide +kernel)⟩

end Grammar
end Lox
