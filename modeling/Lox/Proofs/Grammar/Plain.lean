import Mathlib.Data.List.Forall2
import Lox.Proofs.Grammar.Soundness

set_option autoImplicit false

namespace Lox

namespace Surface

def plainLoop (initial : Option Clause) (cond increment : Option Expr) (body : Stmt) : Stmt :=
  let round :=
    match increment with
    | none => body
    | some e => .block [body, .clause (.expression e)]
  let loop := .whileLoop (cond.getD (.literal (.bool true))) round
  match initial with
  | none => loop
  | some c => .block [.clause c, loop]

mutual

@[simp] def Expr.plain : Expr → Expr
  | .literal value => .literal value
  | .reference name => .reference name
  | .grouping inner => .grouping inner.plain
  | .lambda params body => .lambda params (plainBody body)
  | .call callee arguments => .call callee.plain (plainArguments arguments)
  | .get object field => .get object.plain field
  | .unary op operand => .unary op operand.plain
  | .binary op lhs rhs => .binary op lhs.plain rhs.plain
  | .assign target value => .assign target value.plain
  | .set object field value => .set object.plain field value.plain

@[simp] def plainArguments : List Expr → List Expr
  | [] => []
  | e :: es => e.plain :: plainArguments es

@[simp] def plainOption : Option Expr → Option Expr
  | none => none
  | some e => some e.plain

@[simp] def Clause.plain : Clause → Clause
  | .expression e => .expression e.plain
  | .declare name initial => .declare name (some ((plainOption initial).getD (.literal .nil)))

@[simp] def plainInitial : Option Clause → Option Clause
  | none => none
  | some c => some c.plain

@[simp] def Stmt.plain : Stmt → Stmt
  | .clause c => .clause c.plain
  | .print e => .print e.plain
  | .ret value => .ret (some ((plainOption value).getD (.literal .nil)))
  | .block body => .block (plainBody body)
  | .ifThen cond body => .ifThen cond.plain body.plain
  | .ifElse cond body other => .ifElse cond.plain body.plain other.plain
  | .whileLoop cond body => .whileLoop cond.plain body.plain
  | .forLoop initial cond increment body =>
    plainLoop (plainInitial initial) (plainOption cond) (plainOption increment) body.plain
  | .function f => .function f.plain
  | .classDef name methods => .classDef name (plainMethods methods)

@[simp] def plainBody : List Stmt → List Stmt
  | [] => []
  | s :: ss => s.plain :: plainBody ss

@[simp] def Function.plain : Function → Function
  | .mk name params body => .mk name params (plainBody body)

@[simp] def plainMethods : List Function → List Function
  | [] => []
  | f :: fs => f.plain :: plainMethods fs

end

end Surface

namespace Grammar

open Surface

@[simp] def nameWord : Ident → Lexeme
  | .name text _ => .identifier text
  | _ => .identifier ""

@[simp] def spellMoreNames : List Ident → List Lexeme → List Lexeme
  | [], rest => rest
  | i :: is, rest => .mark .comma :: nameWord i :: spellMoreNames is rest

@[simp] def spellNames : List Ident → List Lexeme → List Lexeme
  | [], rest => rest
  | i :: is, rest => nameWord i :: spellMoreNames is rest

mutual

@[simp] def spell : Tree → List Lexeme → List Lexeme
  | .assign target value, rest => nameWord target :: .mark .equal :: spell value rest
  | .binary op lhs rhs, rest => spell lhs (.mark (binaryMark op) :: spell rhs rest)
  | .unary op operand, rest => .mark (unaryMark op) :: spell operand rest
  | .call callee arguments, rest =>
    spell callee (.mark .leftParen :: spellArguments arguments (.mark .rightParen :: rest))
  | .literal value, rest => (literalToken value).lexeme :: rest
  | .grouping inner, rest => .mark .leftParen :: spell inner (.mark .rightParen :: rest)
  | .lambda params body, rest =>
    .mark .funWord :: .mark .leftParen :: spellNames params (.mark .rightParen :: .mark .leftBrace ::
      spellBody body (.mark .rightBrace :: rest))
  | .reference name, rest => nameWord name :: rest
  | .get object field, rest => spell object (.mark .dot :: .identifier field :: rest)
  | .set object field value, rest =>
    spell object (.mark .dot :: .identifier field :: .mark .equal :: spell value rest)
  | .expression e, rest => spell e (.mark .semicolon :: rest)
  | .ifThen cond body, rest =>
    .mark .ifWord :: .mark .leftParen :: spell cond (.mark .rightParen :: spell body rest)
  | .ifElse cond body other, rest =>
    .mark .ifWord :: .mark .leftParen ::
      spell cond (.mark .rightParen :: spell body (.mark .elseWord :: spell other rest))
  | .whileLoop cond body, rest =>
    .mark .whileWord :: .mark .leftParen :: spell cond (.mark .rightParen :: spell body rest)
  | .print e, rest => .mark .printWord :: spell e (.mark .semicolon :: rest)
  | .declare name initial, rest =>
    .mark .varWord :: nameWord name :: .mark .equal :: spell initial (.mark .semicolon :: rest)
  | .function name params body, rest =>
    .mark .funWord :: nameWord name :: .mark .leftParen :: spellNames params (.mark .rightParen ::
      .mark .leftBrace :: spellBody body (.mark .rightBrace :: rest))
  | .ret value, rest => .mark .returnWord :: spell value (.mark .semicolon :: rest)
  | .classDef name methods, rest =>
    .mark .classWord :: nameWord name :: .mark .leftBrace :: spellMethods methods (.mark .rightBrace :: rest)
  | .block statements, rest => .mark .leftBrace :: spellBody statements (.mark .rightBrace :: rest)

@[simp] def spellArguments : List Tree → List Lexeme → List Lexeme
  | [], rest => rest
  | t :: ts, rest => spell t (spellMore ts rest)

@[simp] def spellMore : List Tree → List Lexeme → List Lexeme
  | [], rest => rest
  | t :: ts, rest => .mark .comma :: spell t (spellMore ts rest)

@[simp] def spellBody : List Tree → List Lexeme → List Lexeme
  | [], rest => rest
  | t :: ts, rest => spell t (spellBody ts rest)

@[simp] def spellMethods : List Tree → List Lexeme → List Lexeme
  | [], rest => rest
  | t :: ts, rest => (spell t (spellMethods ts rest)).tail

end

section Words

theorem lexeme_mark (m : Mark) : (markToken m).lexeme = .mark m := rfl

theorem lexeme_word (w : Word) : w.token.lexeme = nameWord w.ident := rfl

theorem lexemes_writeMoreWords (ws : List Word) (rest : List Token) :
    (writeMoreWords ws rest).map Token.lexeme =
      spellMoreNames (ws.map Word.ident) (rest.map Token.lexeme) := by
  induction ws with
  | nil => rfl
  | cons w ws ih => simp [writeMoreWords, lexeme_mark, lexeme_word, ih]

theorem lexemes_writeWords (ws : List Word) (rest : List Token) :
    (writeWords ws rest).map Token.lexeme = spellNames (ws.map Word.ident) (rest.map Token.lexeme) := by
  cases ws with
  | nil => rfl
  | cons w ws => simp [writeWords, lexeme_word, lexemes_writeMoreWords]

mutual

theorem lexemes_expr (e : Expr) (rest : List Token) :
    (e.plain.write rest).map Token.lexeme = spell e.desugar (rest.map Token.lexeme) := by
  cases e with
  | literal value => rfl
  | reference name => rfl
  | grouping inner => simp [lexeme_mark, lexemes_expr inner]
  | lambda params body => simp [writeParams, lexeme_mark, lexemes_writeWords, lexemes_body body]
  | call callee arguments => simp [lexeme_mark, lexemes_expr callee, lexemes_arguments arguments]
  | get object field => simp [lexeme_mark, lexeme_word, Word.ident, lexemes_expr object]
  | unary op operand => simp [lexeme_mark, lexemes_expr operand]
  | binary op lhs rhs => simp [lexeme_mark, lexemes_expr lhs, lexemes_expr rhs]
  | assign target value => simp [lexeme_mark, lexeme_word, lexemes_expr value]
  | set object field value =>
    simp [lexeme_mark, lexeme_word, Word.ident, lexemes_expr object, lexemes_expr value]

theorem lexemes_arguments (es : List Expr) (rest : List Token) :
    (writeArguments (plainArguments es) rest).map Token.lexeme =
      spellArguments (desugarArguments es) (rest.map Token.lexeme) := by
  cases es with
  | nil => rfl
  | cons e es => simp [lexemes_expr e, lexemes_more es]

theorem lexemes_more (es : List Expr) (rest : List Token) :
    (writeMore (plainArguments es) rest).map Token.lexeme =
      spellMore (desugarArguments es) (rest.map Token.lexeme) := by
  cases es with
  | nil => rfl
  | cons e es => simp [lexeme_mark, lexemes_expr e, lexemes_more es]

theorem lexemes_clause (c : Clause) (rest : List Token) :
    (c.plain.write rest).map Token.lexeme = spell c.desugar (rest.map Token.lexeme) := by
  cases c with
  | expression e => simp [lexeme_mark, lexemes_expr e]
  | declare name initial =>
    cases initial with
    | none => rfl
    | some e => simp [lexeme_mark, lexeme_word, lexemes_expr e]

theorem lexemes_stmt (s : Stmt) (rest : List Token) :
    (s.plain.write rest).map Token.lexeme = spell s.desugar (rest.map Token.lexeme) := by
  cases s with
  | clause c => exact lexemes_clause c rest
  | print e => simp [lexeme_mark, lexemes_expr e]
  | ret value =>
    cases value with
    | none => rfl
    | some e => simp [lexeme_mark, lexemes_expr e]
  | block body => simp [lexeme_mark, lexemes_body body]
  | ifThen cond body => simp [lexeme_mark, lexemes_expr cond, lexemes_stmt body]
  | ifElse cond body other =>
    simp [lexeme_mark, lexemes_expr cond, lexemes_stmt body, lexemes_stmt other]
  | whileLoop cond body => simp [lexeme_mark, lexemes_expr cond, lexemes_stmt body]
  | forLoop initial cond increment body =>
    have test : ∀ rest : List Token,
        (((plainOption cond).getD (.literal (.bool true))).write rest).map Token.lexeme =
          spell ((desugarOption cond).getD (.literal (.bool true))) (rest.map Token.lexeme) := by
      intro rest
      cases cond with
      | none => rfl
      | some e => exact lexemes_expr e rest
    -- The loop itself, which is all of it or the last statement of a block.
    have loop : ∀ rest : List Token,
        ((plainLoop none (plainOption cond) (plainOption increment) body.plain).write rest).map Token.lexeme =
          spell (loopOf none (desugarOption cond) (desugarOption increment) body.desugar)
            (rest.map Token.lexeme) := by
      intro rest
      cases increment with
      | none => simp [plainLoop, loopOf, lexeme_mark, test, lexemes_stmt body]
      | some e => simp [plainLoop, loopOf, lexeme_mark, test, lexemes_stmt body, lexemes_expr e]
    cases initial with
    | none => exact loop rest
    | some c =>
      change (markToken .leftBrace :: c.plain.write ((plainLoop none (plainOption cond)
          (plainOption increment) body.plain).write (markToken .rightBrace :: rest))).map Token.lexeme =
        .mark .leftBrace :: spell c.desugar (spell (loopOf none (desugarOption cond)
          (desugarOption increment) body.desugar) (.mark .rightBrace :: rest.map Token.lexeme))
      rw [List.map_cons, lexemes_clause c, loop]
      rfl
  | function f => exact lexemes_function f rest
  | classDef name methods => simp [lexeme_mark, lexeme_word, lexemes_methods methods]

theorem lexemes_body (body : List Stmt) (rest : List Token) :
    (writeBody (plainBody body) rest).map Token.lexeme =
      spellBody (desugarBody body) (rest.map Token.lexeme) := by
  cases body with
  | nil => rfl
  | cons s ss => simp [lexemes_stmt s, lexemes_body ss]

theorem lexemes_function (f : Function) (rest : List Token) :
    ((Stmt.function f.plain).write rest).map Token.lexeme = spell f.desugar (rest.map Token.lexeme) := by
  obtain ⟨name, params, body⟩ := f
  simp [writeParams, lexeme_mark, lexeme_word, lexemes_writeWords, lexemes_body body]

theorem lexemes_methods (fs : List Function) (rest : List Token) :
    (writeMethods (plainMethods fs) rest).map Token.lexeme =
      spellMethods (desugarMethods fs) (rest.map Token.lexeme) := by
  cases fs with
  | nil => rfl
  | cons f fs =>
    have whole := lexemes_function f (writeMethods (plainMethods fs) rest)
    simp only [Stmt.write, List.map_cons, lexemes_methods fs] at whole
    simp [← whole]

end

end Words

section Sameness

def SameWord (l l' : Lexeme) : Prop :=
  l = l' ∨ ∃ x y : Float, l = .number x ∧ l' = .number y ∧ (x == y) = true

abbrev SameWords : List Lexeme → List Lexeme → Prop := List.Forall₂ SameWord

variable {r r' : List Lexeme}

theorem SameWords.next (h : SameWords r r') (l : Lexeme) : SameWords (l :: r) (l :: r') :=
  .cons (.inl rfl) h

theorem SameWords.refl (r : List Lexeme) : SameWords r r := by
  induction r with
  | nil => exact .nil
  | cons l r ih => exact ih.next l

theorem nameWord_same {i i' : Ident} (same : i.same i' = true) : nameWord i = nameWord i' := by
  cases i <;> cases i' <;> simp_all [Ident.same]

theorem sameWords_names {is is' : List Ident} (same : Tree.sameIdents is is' = true)
    (rest : SameWords r r') : SameWords (spellNames is r) (spellNames is' r') := by
  have more : ∀ {is is' : List Ident}, Tree.sameIdents is is' = true →
      SameWords (spellMoreNames is r) (spellMoreNames is' r') := by
    intro is is'
    fun_induction Tree.sameIdents is is' with
    | case1 => exact fun _ => rest
    | case2 i is i' is' ih =>
      intro same
      obtain ⟨first, others⟩ := Bool.and_eq_true_iff.1 same
      simp only [spellMoreNames, nameWord_same first]
      exact ((ih others).next _).next _
    | case3 => nofun
  cases is <;> cases is' <;> simp only [Tree.sameIdents, Bool.and_eq_true, Bool.false_eq_true] at same
  · exact rest
  · simp only [spellNames, nameWord_same same.1]
    exact (more same.2).next _

theorem sameWords_literal {l l' : Literal} (same : l.same l' = true) (rest : SameWords r r') :
    SameWords ((literalToken l).lexeme :: r) ((literalToken l').lexeme :: r') := by
  refine .cons ?_ rest
  cases l <;> cases l' <;> simp only [Literal.same, Bool.false_eq_true, beq_iff_eq] at same
  · exact .inl rfl
  · exact .inl (same ▸ rfl)
  · exact .inr ⟨_, _, rfl, rfl, same⟩
  · exact .inl (same ▸ rfl)

theorem SameWords.tail (h : SameWords r r') : SameWords r.tail r'.tail := by
  cases h with
  | nil => exact .nil
  | cons _ rest => exact rest

def SpelledAlike (t t' : Tree) : Prop :=
  ∀ ⦃r r' : List Lexeme⦄, SameWords r r' → SameWords (spell t r) (spell t' r')

structure AllAlike (ts ts' : List Tree) : Prop where
  arguments : ∀ {r r'}, SameWords r r' → SameWords (spellArguments ts r) (spellArguments ts' r')
  more : ∀ {r r'}, SameWords r r' → SameWords (spellMore ts r) (spellMore ts' r')
  body : ∀ {r r'}, SameWords r r' → SameWords (spellBody ts r) (spellBody ts' r')
  methods : ∀ {r r'}, SameWords r r' → SameWords (spellMethods ts r) (spellMethods ts' r')

theorem AllAlike.nil : AllAlike [] [] := ⟨id, id, id, id⟩

theorem AllAlike.cons {t t' : Tree} {ts ts' : List Tree} (first : SpelledAlike t t')
    (others : AllAlike ts ts') : AllAlike (t :: ts) (t' :: ts') where
  arguments rest := first (others.more rest)
  more rest := (first (others.more rest)).next _
  body rest := first (others.body rest)
  methods rest := (first (others.methods rest)).tail

theorem spelled_alike : (∀ t t', Tree.same t t' = true → SpelledAlike t t') ∧
    ∀ ts ts', Tree.sameAll ts ts' = true → AllAlike ts ts' := by
  -- One case for each kind of tree compared with its like, in the order in which they are compared; all
  -- other trees are different.
  apply Tree.same.mutual_induct (fun t t' => Tree.same t t' = true → SpelledAlike t t')
    fun ts ts' => Tree.sameAll ts ts' = true → AllAlike ts ts'
  case case1 =>
    intro i x i' y value same r r' rest
    simp only [Tree.same, Bool.and_eq_true] at same
    simp only [spell, nameWord_same same.1]
    exact ((value same.2 rest).next _).next _
  case case2 =>
    intro op x y op' x' y' left right same r r' rest
    simp only [Tree.same, Bool.and_eq_true, beq_iff_eq] at same
    simp only [spell, same.1.1]
    exact left same.1.2 ((right same.2 rest).next _)
  case case3 =>
    intro op x op' x' operand same r r' rest
    simp only [Tree.same, Bool.and_eq_true, beq_iff_eq] at same
    simp only [spell, same.1]
    exact (operand same.2 rest).next _
  case case4 =>
    intro f xs f' xs' callee arguments same r r' rest
    simp only [Tree.same, Bool.and_eq_true] at same
    exact callee same.1 (((arguments same.2).arguments (rest.next _)).next _)
  case case5 => exact fun l l' same r r' rest => sameWords_literal same rest
  case case6 => exact fun x x' inner same r r' rest => (inner same (rest.next _)).next _
  case case7 =>
    intro is xs is' xs' body same r r' rest
    simp only [Tree.same, Bool.and_eq_true] at same
    exact ((sameWords_names same.1 ((((body same.2).body (rest.next _)).next _).next _)).next _).next _
  case case8 =>
    intro i i' same r r' rest
    simp only [Tree.same] at same
    simp only [spell, nameWord_same same]
    exact rest.next _
  case case9 =>
    intro x f x' f' object same r r' rest
    simp only [Tree.same, Bool.and_eq_true, beq_iff_eq] at same
    simp only [spell, same.2]
    exact object same.1 ((rest.next _).next _)
  case case10 =>
    intro x f y x' f' y' object value same r r' rest
    simp only [Tree.same, Bool.and_eq_true, beq_iff_eq] at same
    simp only [spell, same.1.2]
    exact object same.1.1 ((((value same.2 rest).next _).next _).next _)
  case case11 => exact fun x x' inner same r r' rest => inner same (rest.next _)
  case case12 | case14 =>
    intro x y x' y' cond body same r r' rest
    simp only [Tree.same, Bool.and_eq_true] at same
    exact ((cond same.1 ((body same.2 rest).next _)).next _).next _
  case case13 =>
    intro x y z x' y' z' cond body other same r r' rest
    simp only [Tree.same, Bool.and_eq_true] at same
    exact ((cond same.1.1 ((body same.1.2 ((other same.2 rest).next _)).next _)).next _).next _
  case case15 | case18 => exact fun x x' inner same r r' rest => (inner same (rest.next _)).next _
  case case16 =>
    intro i x i' x' initial same r r' rest
    simp only [Tree.same, Bool.and_eq_true] at same
    simp only [spell, nameWord_same same.1]
    exact (((initial same.2 (rest.next _)).next _).next _).next _
  case case17 =>
    intro i is xs i' is' xs' body same r r' rest
    simp only [Tree.same, Bool.and_eq_true] at same
    simp only [spell, nameWord_same same.1.1]
    exact (((sameWords_names same.1.2
      ((((body same.2).body (rest.next _)).next _).next _)).next _).next _).next _
  case case19 =>
    intro i xs i' xs' methods same r r' rest
    simp only [Tree.same, Bool.and_eq_true] at same
    simp only [spell, nameWord_same same.1]
    exact ((((methods same.2).methods (rest.next _)).next _).next _).next _
  case case20 => exact fun xs xs' body same r r' rest => ((body same).body (rest.next _)).next _
  case case21 =>
    intros
    simp_all [Tree.same]
  case case22 => exact fun _ => .nil
  case case23 =>
    intro x xs x' xs' first others same
    simp only [Tree.sameAll, Bool.and_eq_true] at same
    exact .cons (first same.1) (others same.2)
  case case24 =>
    intros
    simp_all [Tree.sameAll]

end Sameness

/-- The tokens are those of a grammatical program, which stands for the trees. -/
structure Writes (s : List Stmt) (tokens : List Token) (program : List Tree) : Prop where
  formed : GrammaticalBody s
  print : Like (print s) tokens
  desugar : desugarBody s = program

/-- Whatever is parsed was written as a grammatical program, token by token. And if what is parsed from
other tokens is the same program, these differ from the first in nothing but what is written short. -/
theorem parseProgram_sound {tokens : List Token} {program : List Tree}
    (parsed : parseProgram tokens = .ok program) :
    (∃ s, Writes s tokens program) ∧
      ∀ tokens' program', parseProgram tokens' = .ok program' →
        program = program' ∨ Tree.sameAll program program' = true →
        ∃ s s', Writes s tokens program ∧ Writes s' tokens' program' ∧
          SameWords ((print (plainBody s)).map Token.lexeme) ((print (plainBody s')).map Token.lexeme) := by
  obtain ⟨s, formed, printed, meaning⟩ := stands_of_parsed parsed
  refine ⟨⟨s, formed, printed, meaning⟩, fun tokens' program' parsed' same => ?_⟩
  obtain ⟨s', formed', printed', meaning'⟩ := stands_of_parsed parsed'
  refine ⟨s, s', ⟨formed, printed, meaning⟩, ⟨formed', printed', meaning'⟩, ?_⟩
  have words : ∀ body, (print (plainBody body)).map Token.lexeme = spellBody (desugarBody body) [] :=
    fun body => lexemes_body body []
  rw [words, words, meaning, meaning']
  rcases same with rfl | same
  · exact .refl _
  · exact (spelled_alike.2 _ _ same).body .nil

theorem parseProgram_sound_return :
    parseProgram [markToken .returnWord, markToken .semicolon] = .ok [.ret (.literal .nil)] ∧
      ∃ s s', Writes s [markToken .returnWord, markToken .semicolon] [.ret (.literal .nil)] ∧
        Writes s' [markToken .returnWord, markToken .nilWord, markToken .semicolon]
          [.ret (.literal .nil)] ∧
        SameWords ((print (plainBody s)).map Token.lexeme) ((print (plainBody s')).map Token.lexeme) := by
  have short : parseProgram [markToken .returnWord, markToken .semicolon] = .ok [.ret (.literal .nil)] := by
    rfl
  have long : parseProgram [markToken .returnWord, markToken .nilWord, markToken .semicolon] =
      .ok [.ret (.literal .nil)] := by
    rfl
  exact ⟨short, (parseProgram_sound short).2 _ _ long (.inl rfl)⟩

end Grammar
end Lox
