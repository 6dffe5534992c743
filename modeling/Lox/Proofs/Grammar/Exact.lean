import Lox.Proofs.Grammar.Parallel
import Lox.Proofs.Grammar.Soundness
import Lox.Proofs.Scan.Joined

set_option autoImplicit false

namespace Lox.Grammar

open Surface

abbrev Same : List Token → List Token → Prop := List.Forall₂ (Token.Alike (· = ·))

def Yields (write : List Token → List Token) (front : List Token) : Prop :=
  ∀ rest b, Same rest b → Same (write rest) (front ++ b)

theorem Yields.trans {v w : List Token → List Token} {front back : List Token} (first : Yields v front)
    (next : Yields w back) : Yields (fun rest => v (w rest)) (front ++ back) := by
  intro rest b same
  rw [List.append_assoc]
  exact first _ _ (next rest b same)

/-- Wherever `write` spells tokens, a piece that is `Good` can be found which is written with their spans. -/
def Placing {σ : Type} (Good : σ → Prop) (written : σ → List Token → List Token)
    (write : List Token → List Token) : Prop :=
  ∀ rest a, Like (write rest) a → ∃ x front b, Good x ∧ a = front ++ b ∧ Like rest b ∧ Yields (written x) front

section Pieces

variable {σ τ υ : Type} {Good : σ → Prop} {Fine : τ → Prop} {Right : υ → Prop}
  {written : σ → List Token → List Token} {written' : τ → List Token → List Token}
  {written'' : υ → List Token → List Token} {v w : List Token → List Token}

theorem placing_nothing {x : σ} (good : Good x) (same : written x = fun rest => rest) :
    Placing Good written fun rest => rest := by
  intro rest a like
  refine ⟨x, [], a, good, rfl, like, ?_⟩
  rw [same]
  exact fun _ _ same => same

theorem Placing.trans (first : Placing Good written v) (next : Placing Fine written' w) :
    Placing (fun x : σ × τ => Good x.1 ∧ Fine x.2) (fun x rest => written x.1 (written' x.2 rest))
      fun rest => v (w rest) := by
  intro rest a like
  obtain ⟨x, front, b, good, rfl, more, writes⟩ := first _ _ like
  obtain ⟨y, back, c, fine, rfl, others, writes'⟩ := next _ _ more
  exact ⟨(x, y), front ++ back, c, ⟨good, fine⟩, by simp, others, writes.trans writes'⟩

theorem Placing.build (h : Placing Good written v) (f : σ → υ) (same : ∀ x, written'' (f x) = written x)
    (right : ∀ x, Good x → Right (f x)) : Placing Right written'' v := by
  intro rest a like
  obtain ⟨x, front, b, good, split, others, writes⟩ := h rest a like
  exact ⟨f x, front, b, right x good, split, others, same x ▸ writes⟩

theorem like_cons {t : Token} {rest a : List Token} (like : Like (t :: rest) a) :
    ∃ u b, a = u :: b ∧ t.lexeme = u.lexeme ∧ Like rest b := by
  cases a with
  | nil => cases like
  | cons u b =>
    obtain ⟨first, others⟩ := List.cons.inj like
    exact ⟨u, b, rfl, first, others⟩

theorem Placing.after {t : Token} (other : t.kind ≠ .identifier) (h : Placing Good written v) :
    Placing Good (fun x rest => t :: written x rest) fun rest => t :: v rest := by
  intro rest a like
  obtain ⟨u, a, rfl, lexeme, like⟩ := like_cons like
  obtain ⟨x, front, b, good, rfl, others, writes⟩ := h _ _ like
  refine ⟨x, u :: front, b, good, rfl, others, fun rest b same => ?_⟩
  exact .cons ⟨lexeme, fun named => absurd named other⟩ (writes rest b same)

theorem Placing.afterMark (m : Mark) (h : Placing Good written v) :
    Placing Good (fun x rest => markToken m :: written x rest) fun rest => markToken m :: v rest :=
  h.after nofun

theorem Placing.afterWord (w : Word) (h : Placing Good written v) :
    Placing (fun x : Word × σ => Good x.2) (fun x rest => x.1.token :: written x.2 rest)
      fun rest => w.token :: v rest := by
  intro rest a like
  obtain ⟨u, a, rfl, lexeme, like⟩ := like_cons like
  obtain ⟨x, front, b, good, rfl, others, writes⟩ := h _ _ like
  refine ⟨(⟨w.text, u.span⟩, x), u :: front, b, good, rfl, others, fun rest b same => ?_⟩
  refine .cons ⟨lexeme, fun _ => ?_⟩ (writes rest b same)
  simp only [Token.name, ← lexeme, Word.token, Lexeme.text]

theorem placing_end : Placing (fun _ : Unit => True) (fun _ rest => rest) fun rest => rest :=
  placing_nothing (x := ()) trivial rfl

end Pieces

theorem placing_moreWords (ws : List Word) : Placing (fun _ => True) writeMoreWords (writeMoreWords ws) := by
  induction ws with
  | nil => exact placing_nothing (x := []) trivial rfl
  | cons w ws ih =>
    exact ((ih.afterWord w).afterMark .comma).build (fun x => x.1 :: x.2) (fun _ => rfl) fun _ _ => trivial

theorem placing_words (ws : List Word) : Placing (fun _ => True) writeWords (writeWords ws) := by
  cases ws with
  | nil => exact placing_nothing (x := []) trivial rfl
  | cons w ws =>
    exact ((placing_moreWords ws).afterWord w).build (fun x => x.1 :: x.2) (fun _ => rfl) fun _ _ => trivial

structure InPlaceOf (e e' : Expr) : Prop where
  level : e'.level = e.level
  formed : e.Grammatical → e'.Grammatical

structure InPlaceOfStmt (s s' : Stmt) : Prop where
  endsOpen : s'.endsOpen = s.endsOpen
  formed : s.Grammatical → s'.Grammatical

abbrev PlacingBody (body : List Stmt) : Prop :=
  Placing (fun body' => GrammaticalBody body → GrammaticalBody body') writeBody (writeBody body)

theorem placing_callable (params : List Word) {body : List Stmt} (h : PlacingBody body) :
    Placing (fun x : List Word × List Stmt => GrammaticalBody body → GrammaticalBody x.2)
      (fun x rest => writeParams x.1 (markToken .leftBrace :: writeBody x.2 (markToken .rightBrace :: rest)))
      (fun rest => writeParams params (markToken .leftBrace :: writeBody body (markToken .rightBrace :: rest))) := by
  have braces := (h.trans (placing_end.afterMark .rightBrace)).afterMark .leftBrace
  exact (((placing_words params).trans (braces.afterMark .rightParen)).afterMark .leftParen).build
    (fun x => (x.1, x.2.1)) (fun _ => rfl) fun _ good => good.2.1

mutual

theorem placing_expr (e : Expr) : Placing (InPlaceOf e) Expr.write e.write := by
  cases e with
  | literal value =>
    have other : (literalToken value).kind ≠ .identifier := by
      rcases value with _ | (_ | _) | _ | _ <;> nofun
    exact (placing_end.after other).build (fun _ => .literal value) (fun _ => rfl) fun _ _ => ⟨rfl, id⟩
  | reference name =>
    exact (placing_end.afterWord name).build (fun x => .reference x.1) (fun _ => rfl) fun _ _ => ⟨rfl, id⟩
  | grouping inner =>
    have closed := (placing_expr inner).trans (placing_end.afterMark .rightParen)
    exact (closed.afterMark .leftParen).build (fun x => .grouping x.1) (fun _ => rfl)
      fun _ good => ⟨rfl, good.1.formed⟩
  | lambda params body =>
    exact ((placing_callable params (placing_body body)).afterMark .funWord).build (fun x => .lambda x.1 x.2)
      (fun _ => rfl) fun _ good => ⟨rfl, good⟩
  | call callee arguments =>
    have listed := (placing_arguments arguments).trans (placing_end.afterMark .rightParen)
    refine ((placing_expr callee).trans (listed.afterMark .leftParen)).build (fun x => .call x.1 x.2.1)
      (fun _ => rfl) fun x good => ⟨rfl, fun formed => ?_⟩
    exact ⟨good.1.formed formed.1, good.1.level ▸ formed.2.1, good.2.1 formed.2.2⟩
  | get object field =>
    refine ((placing_expr object).trans ((placing_end.afterWord field).afterMark .dot)).build
      (fun x => .get x.1 x.2.1) (fun _ => rfl) fun x good => ⟨rfl, fun formed => ?_⟩
    exact ⟨good.1.formed formed.1, good.1.level ▸ formed.2⟩
  | unary op operand =>
    exact ((placing_expr operand).afterMark (unaryMark op)).build (.unary op) (fun _ => rfl)
      fun x good => ⟨rfl, fun formed => ⟨good.formed formed.1, good.level ▸ formed.2⟩⟩
  | binary op lhs rhs =>
    refine ((placing_expr lhs).trans ((placing_expr rhs).afterMark (binaryMark op))).build
      (fun x => .binary op x.1 x.2) (fun _ => rfl) fun x good => ⟨rfl, fun formed => ?_⟩
    exact ⟨good.1.formed formed.1, good.1.level ▸ formed.2.1, good.2.formed formed.2.2.1,
      good.2.level ▸ formed.2.2.2⟩
  | assign target value =>
    exact (((placing_expr value).afterMark .equal).afterWord target).build (fun x => .assign x.1 x.2)
      (fun _ => rfl) fun x good => ⟨rfl, good.formed⟩
  | set object field value =>
    refine ((placing_expr object).trans ((((placing_expr value).afterMark .equal).afterWord field).afterMark
      .dot)).build (fun x => .set x.1 x.2.1 x.2.2) (fun _ => rfl) fun x good => ⟨rfl, fun formed => ?_⟩
    exact ⟨good.1.formed formed.1, good.1.level ▸ formed.2.1, good.2.formed formed.2.2⟩

theorem placing_arguments (es : List Expr) :
    Placing (fun es' => GrammaticalArguments es → GrammaticalArguments es') writeArguments (writeArguments es) := by
  cases es with
  | nil => exact placing_nothing (x := []) id rfl
  | cons e es =>
    exact ((placing_expr e).trans (placing_more es)).build (fun x => x.1 :: x.2) (fun _ => rfl)
      fun x good formed => ⟨good.1.formed formed.1, good.2 formed.2⟩

theorem placing_more (es : List Expr) :
    Placing (fun es' => GrammaticalArguments es → GrammaticalArguments es') writeMore (writeMore es) := by
  cases es with
  | nil => exact placing_nothing (x := []) id rfl
  | cons e es =>
    exact (((placing_expr e).trans (placing_more es)).afterMark .comma).build (fun x => x.1 :: x.2) (fun _ => rfl)
      fun x good formed => ⟨good.1.formed formed.1, good.2 formed.2⟩

theorem placing_option (o : Option Expr) :
    Placing (fun o' => GrammaticalOption o → GrammaticalOption o') writeOption (writeOption o) := by
  cases o with
  | none => exact placing_nothing (x := none) id rfl
  | some e => exact (placing_expr e).build some (fun _ => rfl) fun x good => good.formed

theorem placing_clause (c : Clause) :
    Placing (fun c' => c.Grammatical → c'.Grammatical) Clause.write c.write := by
  cases c with
  | expression e =>
    exact ((placing_expr e).trans (placing_end.afterMark .semicolon)).build (fun x => .expression x.1)
      (fun _ => rfl) fun x good => good.1.formed
  | declare name initial =>
    cases initial with
    | none =>
      exact (((placing_end.afterMark .semicolon).afterWord name).afterMark .varWord).build
        (fun x => .declare x.1 none) (fun _ => rfl) fun _ _ => id
    | some e =>
      have valued := ((placing_expr e).trans (placing_end.afterMark .semicolon)).afterMark .equal
      exact ((valued.afterWord name).afterMark .varWord).build (fun x => .declare x.1 (some x.2.1))
        (fun _ => rfl) fun x good => good.1.formed

theorem placing_initial (o : Option Clause) :
    Placing (fun o' => GrammaticalInitial o → GrammaticalInitial o') writeInitial (writeInitial o) := by
  cases o with
  | none => exact (placing_end.afterMark .semicolon).build (fun _ => none) (fun _ => rfl) fun _ _ => id
  | some c => exact (placing_clause c).build some (fun _ => rfl) fun x good => good

theorem placing_stmt (s : Stmt) : Placing (InPlaceOfStmt s) Stmt.write s.write := by
  cases s with
  | clause c => exact (placing_clause c).build .clause (fun _ => rfl) fun _ good => ⟨rfl, good⟩
  | print e =>
    have ended := (placing_expr e).trans (placing_end.afterMark .semicolon)
    exact (ended.afterMark .printWord).build (fun x => .print x.1) (fun _ => rfl)
      fun _ good => ⟨rfl, good.1.formed⟩
  | ret value =>
    have ended := (placing_option value).trans (placing_end.afterMark .semicolon)
    exact (ended.afterMark .returnWord).build (fun x => .ret x.1) (fun _ => rfl) fun _ good => ⟨rfl, good.1⟩
  | block body =>
    have closed := (placing_body body).trans (placing_end.afterMark .rightBrace)
    exact (closed.afterMark .leftBrace).build (fun x => .block x.1) (fun _ => rfl) fun _ good => ⟨rfl, good.1⟩
  | ifThen cond body =>
    have test := (placing_expr cond).trans ((placing_stmt body).afterMark .rightParen)
    refine ((test.afterMark .leftParen).afterMark .ifWord).build (fun x => .ifThen x.1 x.2) (fun _ => rfl)
      fun x good => ⟨rfl, fun formed => ?_⟩
    exact ⟨good.1.formed formed.1, good.2.formed formed.2⟩
  | ifElse cond body other =>
    have branches := (placing_stmt body).trans ((placing_stmt other).afterMark .elseWord)
    have test := (placing_expr cond).trans (branches.afterMark .rightParen)
    refine ((test.afterMark .leftParen).afterMark .ifWord).build (fun x => .ifElse x.1 x.2.1 x.2.2)
      (fun _ => rfl) fun x good => ⟨good.2.2.endsOpen, fun formed => ?_⟩
    exact ⟨good.1.formed formed.1, good.2.1.formed formed.2.1, good.2.1.endsOpen.trans formed.2.2.1,
      good.2.2.formed formed.2.2.2⟩
  | whileLoop cond body =>
    have test := (placing_expr cond).trans ((placing_stmt body).afterMark .rightParen)
    refine ((test.afterMark .leftParen).afterMark .whileWord).build (fun x => .whileLoop x.1 x.2)
      (fun _ => rfl) fun x good => ⟨good.2.endsOpen, fun formed => ?_⟩
    exact ⟨good.1.formed formed.1, good.2.formed formed.2⟩
  | forLoop initial cond increment body =>
    have next := (placing_option increment).trans ((placing_stmt body).afterMark .rightParen)
    have test := (placing_option cond).trans (next.afterMark .semicolon)
    have header := ((placing_initial initial).trans test).afterMark .leftParen
    refine (header.afterMark .forWord).build (fun x => .forLoop x.1 x.2.1 x.2.2.1 x.2.2.2) (fun _ => rfl)
      fun x good => ⟨good.2.2.2.endsOpen, fun formed => ?_⟩
    exact ⟨good.1 formed.1, good.2.1 formed.2.1, good.2.2.1 formed.2.2.1, good.2.2.2.formed formed.2.2.2⟩
  | function f =>
    exact ((placing_function f).afterMark .funWord).build .function (fun _ => rfl) fun _ good => ⟨rfl, good⟩
  | classDef name methods =>
    have closed := ((placing_methods methods).trans (placing_end.afterMark .rightBrace)).afterMark .leftBrace
    exact ((closed.afterWord name).afterMark .classWord).build (fun x => .classDef x.1 x.2.1) (fun _ => rfl)
      fun _ good => ⟨rfl, good.1⟩

theorem placing_body (body : List Stmt) : PlacingBody body := by
  cases body with
  | nil => exact placing_nothing (x := []) id rfl
  | cons s ss =>
    exact ((placing_stmt s).trans (placing_body ss)).build (fun x => x.1 :: x.2) (fun _ => rfl)
      fun x good formed => ⟨good.1.formed formed.1, good.2 formed.2⟩

theorem placing_function (f : Function) :
    Placing (fun f' => f.Grammatical → f'.Grammatical) Function.write f.write := by
  obtain ⟨name, params, body⟩ := f
  exact ((placing_callable params (placing_body body)).afterWord name).build (fun x => .mk x.1 x.2.1 x.2.2)
    (fun _ => rfl) fun x good => good

theorem placing_methods (fs : List Function) :
    Placing (fun fs' => GrammaticalMethods fs → GrammaticalMethods fs') writeMethods (writeMethods fs) := by
  cases fs with
  | nil => exact placing_nothing (x := []) id rfl
  | cons f fs =>
    exact ((placing_function f).trans (placing_methods fs)).build (fun x => x.1 :: x.2) (fun _ => rfl)
      fun x good formed => ⟨good.1 formed.1, good.2 formed.2⟩

end

theorem parseProgram_same {tokens tokens' : List Token} (same : Same tokens tokens') {program : List Tree}
    (parsed : parseProgram tokens = .ok program) : parseProgram tokens' = .ok program := by
  obtain ⟨program', parsed', alike⟩ := parseProgram_alike same parsed
  have own : program' = Tree.mapIdentsAll id program := (alike.imp fun _ _ => Eq.symm).eq_mapIdents
  rw [parsed', own, Tree.mapIdentsAll_id]

theorem writes_of_parsed {tokens : List Token} {program : List Tree} (parsed : parseProgram tokens = .ok program) :
    ∃ s, GrammaticalBody s ∧ Yields (writeBody s) tokens ∧ desugarBody s = program := by
  obtain ⟨s₀, formed₀, like, -⟩ := stands_of_parsed parsed
  obtain ⟨s, front, b, formed, split, ended, writes⟩ := placing_body s₀ [] tokens like
  obtain rfl : b = [] := by simpa [Like] using ended.symm
  obtain rfl : tokens = front := by simpa using split
  refine ⟨s, formed formed₀, writes, ?_⟩
  -- The tokens of `s` parse as these do, names included.
  have same : Same (print s) tokens := by simpa [print] using writes [] [] .nil
  rw [parseProgram_same same (parseProgram_print s (formed formed₀))] at parsed
  exact Except.ok.inj parsed

theorem writeBody_append (s t : List Stmt) (rest : List Token) :
    writeBody (s ++ t) rest = writeBody s (writeBody t rest) := by
  induction s with
  | nil => rfl
  | cons x s ih => simp only [List.cons_append, writeBody, ih]

theorem desugarBody_append (s t : List Stmt) : desugarBody (s ++ t) = desugarBody s ++ desugarBody t := by
  induction s with
  | nil => rfl
  | cons x s ih => simp only [List.cons_append, desugarBody, ih]

theorem grammaticalBody_append {s t : List Stmt} (first : GrammaticalBody s) (next : GrammaticalBody t) :
    GrammaticalBody (s ++ t) := by
  induction s with
  | nil => exact next
  | cons x s ih => exact ⟨first.1, ih first.2⟩

theorem parseProgram_append {tokens more : List Token} {program rest : List Tree}
    (first : parseProgram tokens = .ok program) (next : parseProgram more = .ok rest) :
    parseProgram (tokens ++ more) = .ok (program ++ rest) := by
  obtain ⟨s, formed, writes, rfl⟩ := writes_of_parsed first
  obtain ⟨t, formed', writes', rfl⟩ := writes_of_parsed next
  have parsed := parseProgram_print (s ++ t) (grammaticalBody_append formed formed')
  have same : Same (print (s ++ t)) (tokens ++ more) := by
    have both := writes.trans writes' [] [] .nil
    rw [List.append_nil] at both
    rwa [print, writeBody_append]
  rw [parseProgram_same same parsed, desugarBody_append]

theorem parseProgram_shift {tokens : List Token} {program : List Tree} (parsed : parseProgram tokens = .ok program)
    (n : Nat) :
    parseProgram (tokens.map (Token.shift n)) = .ok (Tree.mapIdentsAll (Ident.shift n) program) := by
  have alike : List.Forall₂ (Token.Alike fun i j => j = i.shift n) tokens (tokens.map (Token.shift n)) := by
    rw [List.forall₂_map_right_iff, List.forall₂_same]
    exact fun t _ => ⟨rfl, fun _ => rfl⟩
  obtain ⟨program', parsed', alike⟩ := parseProgram_alike alike parsed
  rw [parsed', alike.eq_mapIdents]

/-- Two texts that are programs make one program, with a line feed between them: the statements of the
first, then those of the second, whose names stand so much further on. -/
theorem parse_joined {first second : String} {tokens more : List Token} {program rest : List Tree}
    (scanned : scan first = .ok tokens) (parsed : parseProgram tokens = .ok program)
    (scanned' : scan second = .ok more) (parsed' : parseProgram more = .ok rest) :
    ∃ all, scan (first ++ "\n" ++ second) = .ok all ∧
      parseProgram all = .ok (program ++ Tree.mapIdentsAll (Ident.shift (first.length + 1)) rest) :=
  ⟨_, Scan.scan_joined scanned scanned', parseProgram_append parsed (parseProgram_shift parsed' _)⟩

theorem parse_joined_open :
    ∃ all, scan ("if (a) b; // c" ++ "\n" ++ "a = b;") = .ok all ∧
      parseProgram all = .ok [
        .ifThen (.reference (.name "a" (some ⟨4, 5⟩))) (.expression (.reference (.name "b" (some ⟨7, 8⟩)))),
        .expression (.assign (.name "a" (some ⟨15, 16⟩)) (.reference (.name "b" (some ⟨19, 20⟩))))] :=
  @parse_joined "if (a) b; // c" "a = b;"
    [⟨.mark .ifWord, some ⟨0, 2⟩⟩, ⟨.mark .leftParen, some ⟨3, 4⟩⟩, ⟨.identifier "a", some ⟨4, 5⟩⟩,
      ⟨.mark .rightParen, some ⟨5, 6⟩⟩, ⟨.identifier "b", some ⟨7, 8⟩⟩, ⟨.mark .semicolon, some ⟨8, 9⟩⟩]
    [⟨.identifier "a", some ⟨0, 1⟩⟩, ⟨.mark .equal, some ⟨2, 3⟩⟩, ⟨.identifier "b", some ⟨4, 5⟩⟩,
      ⟨.mark .semicolon, some ⟨5, 6⟩⟩]
    [.ifThen (.reference (.name "a" (some ⟨4, 5⟩))) (.expression (.reference (.name "b" (some ⟨7, 8⟩))))]
    [.expression (.assign (.name "a" (some ⟨0, 1⟩)) (.reference (.name "b" (some ⟨4, 5⟩))))]
    rfl rfl rfl rfl

end Lox.Grammar
