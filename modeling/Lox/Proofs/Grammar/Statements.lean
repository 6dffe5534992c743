import Lox.Proofs.Grammar.Expressions

set_option autoImplicit false

namespace Lox.Grammar

open Lox.Parser Surface

structure Fits (n d : Nat) (a : List Token) : Prop where
  short : a.length ≤ n
  deep : 2 * a.length + 1 ≤ d

variable {n d : Nat} {a b rest : List Token}

theorem Fits.inside (h : Fits n d a) (shorter : b.length < a.length) : Inside n d b := by
  obtain ⟨short, deep⟩ := h
  exact ⟨by omega, by omega⟩

theorem Fits.tail {t : Token} (h : Fits n d (t :: a)) : Inside n d a := h.inside (Nat.lt_succ_self _)

theorem Inside.fits (h : Inside n d a) : Fits n d a := by
  obtain ⟨short, deep⟩ := h
  exact ⟨by omega, by omega⟩

section Choice

theorem reads_headed {m : Mark} {p : P Tree} {x : Tree} (member : (m, p) ∈ headed)
    (found : Reads d p (markToken m :: a) b x) : Reads d anyStatement (markToken m :: a) b x := by
  obtain ⟨before, after, split⟩ := List.append_of_mem member
  have missed : ∀ q ∈ before.map Prod.snd, Refuses d q (markToken m :: a) := by
    intro q inside
    obtain ⟨s, early, rfl⟩ := List.mem_map.1 inside
    have apart : s.1 ≠ m := by
      have distinct : (headed.map Prod.fst).Nodup := by decide
      rw [split, List.map_append, List.nodup_append] at distinct
      exact distinct.2.2 s.1 (List.mem_map_of_mem early) m List.mem_cons_self
    refine refuses_headed (split ▸ List.mem_append_left _ early) fun here => ?_
    exact apart (Kind.mark.inj (Option.some.inj here)).symm
  rw [anyStatement_eq, split, List.map_append, List.append_assoc]
  exact found.choice missed

theorem refuses_function {t : Token} (isFun : t.kind = .mark .funWord) (other : ahead a ≠ some .identifier) :
    Refuses d funStatement (t :: a) := by
  have sign : Reads d (mark .funWord) (t :: a) a t := finds_kind isFun
  have unnamed : Refuses d (kind .identifier) a := misses_kind other
  exact ((Misses.pair_right sign (unnamed.pair _)).map Prod.snd).map functionOf

theorem refuses_others (begins : Begins a) {s : Mark × P Tree} (member : s ∈ headed) :
    Refuses d s.2 a := by
  obtain ⟨t, b, rfl, start, lambda⟩ := begins
  have functions : ∀ s ∈ headed, s.1 = .funWord → s.2 = funStatement := by
    simp [headed]
  have starting : ∀ m ∈ headed.map Prod.fst, starts (.mark m) = true → m = .funWord := by decide
  by_cases here : t.kind = .mark s.1
  · -- Only `fun` begins both, and then the parenthesis tells a lambda from a function.
    have isFun := starting s.1 (List.mem_map_of_mem member) (here ▸ start)
    rw [functions s member isFun]
    rw [isFun] at here
    refine refuses_function here fun same => ?_
    rw [lambda here] at same
    cases same
  · exact refuses_headed member fun same => here (Option.some.inj same)

end Choice

section Clauses

theorem reads_expressionStatement (known : Known n) {e : Expr} (formed : e.Grammatical)
    (fits : Fits n d (e.write (markToken .semicolon :: rest))) :
    Reads d expressionStatement (e.write (markToken .semicolon :: rest)) rest (.expression e.desugar) := by
  obtain ⟨short, deep⟩ := fits
  cases d with
  | zero => omega
  | succ d =>
    have inner : Reads (d + 1) expression (e.write (markToken .semicolon :: rest)) _ e.desugar :=
      reads_assignment known formed (follow_mark .semicolon rfl 0 rest) ⟨short, by omega⟩
    exact (inner.left (reads_expectMark _ _ _ _)).map _

theorem reads_varStatement (known : Known n) (name : Word) {initial : Option Expr}
    (formed : GrammaticalOption initial) (fits : Fits n d ((Clause.declare name initial).write rest)) :
    Reads d varStatement ((Clause.declare name initial).write rest) rest
      (Clause.declare name initial).desugar := by
  have named : ∀ a, Reads d (expect .identifier "a variable name after 'var'") (name.token :: a) a name.token :=
    fun a => (reads_word name d a).commit _
  cases initial with
  | none =>
    have absent : Refuses d (right (mark .equal) (commit expression "an initializer after '='"))
        (markToken .semicolon :: rest) := by
      refine refuses_mark (fun here => ?_) _
      cases here
    exact ((reads_mark .varWord d _).right
      (((named _).pair absent.absent).left (reads_expectMark _ _ _ _))).map _
  | some e =>
    simp only [Clause.write, Clause.desugar, GrammaticalOption] at formed fits ⊢
    have inner := reads_expression known formed (follow_mark .semicolon rfl 0 rest)
      fits.tail.tail.tail
    have present := (reads_mark .equal d _).right (inner.commit "an initializer after '='")
    exact ((reads_mark .varWord d _).right
      (((named _).pair present.present).left (reads_expectMark _ _ _ _))).map _

theorem reads_clause (known : Known n) (c : Clause) (formed : c.Grammatical)
    (fits : Fits n d (c.write rest)) : Reads d anyStatement (c.write rest) rest c.desugar := by
  cases c with
  | expression e =>
    have refused : ∀ p ∈ headed.map Prod.snd, Refuses d p (e.write (markToken .semicolon :: rest)) := by
      intro p inside
      obtain ⟨s, member, rfl⟩ := List.mem_map.1 inside
      exact refuses_others (begins_write e _) member
    rw [anyStatement_eq]
    exact (reads_expressionStatement known formed fits).choice refused
  | declare name initial =>
    have whole := reads_varStatement known name formed fits
    cases initial with
    | none => exact reads_headed (.head _) whole
    | some e => exact reads_headed (.head _) whole

end Clauses

section Pieces

theorem reads_optional (known : Known n) {o : Option Expr} (formed : GrammaticalOption o) {m : Mark}
    (closes : continues (.mark m) = none) (unstarted : starts (.mark m) = false)
    (inside : Inside n d (writeOption o (markToken m :: rest))) :
    Reads d (optional (expression.map some) none) (writeOption o (markToken m :: rest))
      (markToken m :: rest) (desugarOption o) := by
  cases o with
  | none => exact ((refuses_closing unstarted inside).map some).absent
  | some e =>
    have found := reads_expression known formed (follow_mark m closes 0 rest) inside
    exact (found.map some).present

theorem reads_condition (known : Known n) {e : Expr} (formed : e.Grammatical)
    (inside : Inside n d (e.write (markToken .rightParen :: rest))) :
    Reads d condition (markToken .leftParen :: e.write (markToken .rightParen :: rest)) rest e.desugar := by
  have inner := reads_expression known formed (follow_mark .rightParen rfl 0 rest) inside
  exact (reads_expectMark _ _ _ _).right ((inner.commit _).left (reads_expectMark _ _ _ _))

theorem reads_initial (known : Known n) (initial : Option Clause) (formed : GrammaticalInitial initial)
    (inside : Inside n d (writeInitial initial rest)) :
    Reads d forInitializer (writeInitial initial rest) rest (desugarInitial initial) := by
  refine Finds.commit ?_ _
  cases initial with
  | none => exact ((reads_mark .semicolon d rest).map fun _ => none).first
  | some c =>
    cases c with
    | expression e =>
      have whole := reads_expressionStatement known formed inside.fits
      have others := begins_write e (markToken .semicolon :: rest)
      obtain ⟨k, here, start⟩ := others.ahead
      have noSemicolon : Refuses d (mark .semicolon) (e.write (markToken .semicolon :: rest)) := by
        refine misses_kind fun same => ?_
        rw [here] at same
        cases same
        cases start
      have noVar : Refuses d varStatement (e.write (markToken .semicolon :: rest)) :=
        refuses_others others (.head _)
      exact ((whole.map some).first.later (noVar.map some)).later (noSemicolon.map _)
    | declare name initial =>
      have whole := reads_varStatement known name formed inside.fits
      have noSemicolon : Refuses d (mark .semicolon) ((Clause.declare name initial).write rest) := by
        refine misses_kind fun same => ?_
        cases initial with
        | none => cases same
        | some e => cases same
      exact (whole.map some).first.later (noSemicolon.map _)

theorem reads_named (known : Known n) {opening : P Token}
    (opens : ∀ a, Reads d opening (markToken .leftParen :: a) a (markToken .leftParen)) (name : Word)
    (params : List Word) {body : List Stmt} (formed : GrammaticalBody body)
    (inside : Inside n d ((Function.mk name params body).write rest)) :
    Reads d (pair (kind .identifier) (pair (right opening parameters) functionBody))
      ((Function.mk name params body).write rest) rest
      (name.token, params.map Word.ident, desugarBody body) := by
  simp only [Function.write] at inside ⊢
  have inner := reads_braced known formed inside.tail.pastParams.tail
  exact (reads_word name d _).pair (((opens _).right (reads_parameters params)).pair (inner.commit _))

theorem repeats_methods (known : Known n) {methods : List Function} (formed : GrammaticalMethods methods)
    (inside : Inside n d (writeMethods methods (markToken .rightBrace :: rest))) :
    Repeats (method.run (rules.look d)) (writeMethods methods (markToken .rightBrace :: rest))
      (markToken .rightBrace :: rest) (desugarMethods methods) := by
  induction methods with
  | nil =>
    have none : Refuses d (kind .identifier) (markToken .rightBrace :: rest) := misses_kind nofun
    exact .nil ((none.pair _).map _)
  | cons f fs ih =>
    obtain ⟨name, params, body⟩ := f
    simp only [writeMethods, desugarMethods, GrammaticalMethods] at formed inside ⊢
    have first : Reads d method _ _ _ :=
      (reads_named known (reads_mark .leftParen d) name params formed.1 inside).map functionOf
    exact .cons first (Function.length_write _ _) (ih formed.2 inside.pastFunction)

end Pieces

section Statements

variable (known : Known n)

include known

theorem reads_print {e : Expr} (formed : e.Grammatical) (fits : Fits n d ((Stmt.print e).write rest)) :
    Reads d printStatement ((Stmt.print e).write rest) rest (Stmt.print e).desugar := by
  simp only [Stmt.write, Stmt.desugar] at fits ⊢
  have inner := reads_expression known formed (follow_mark .semicolon rfl 0 rest) fits.tail
  exact ((reads_mark .printWord d _).right ((inner.commit _).left (reads_expectMark _ _ _ _))).map _

theorem reads_return {value : Option Expr} (formed : GrammaticalOption value)
    (fits : Fits n d ((Stmt.ret value).write rest)) :
    Reads d returnStatement ((Stmt.ret value).write rest) rest (Stmt.ret value).desugar := by
  simp only [Stmt.write, Stmt.desugar] at fits ⊢
  have inside := fits.tail
  have result : Reads d (optional expression (.literal .nil))
      (writeOption value (markToken .semicolon :: rest)) (markToken .semicolon :: rest)
      ((desugarOption value).getD (.literal .nil)) := by
    cases value with
    | none => exact (refuses_closing rfl inside).absent
    | some e => exact (reads_expression known formed (follow_mark .semicolon rfl 0 rest) inside).present
  exact ((reads_mark .returnWord d _).right (result.left (reads_expectMark _ _ _ _))).map _

theorem reads_ifThen {cond : Expr} {body : Stmt} (formed : (Stmt.ifThen cond body).Grammatical)
    (closed : ahead rest ≠ some (.mark .elseWord)) (fits : Fits n d ((Stmt.ifThen cond body).write rest)) :
    Reads d ifStatement ((Stmt.ifThen cond body).write rest) rest (Stmt.ifThen cond body).desugar := by
  simp only [Stmt.write, Stmt.desugar, Stmt.Grammatical] at formed fits ⊢
  have inside := fits.tail.tail
  have test := reads_condition known formed.1 inside
  have yes := reads_statement known formed.2 (fun _ => closed) inside.pastExpr.tail
  have no : Refuses d ((right (mark .elseWord) Grammar.body).map some) rest :=
    (refuses_mark closed _).map some
  exact ((reads_mark .ifWord d _).right (test.pair ((yes.commit _).pair no.absent))).map _

theorem reads_ifElse {cond : Expr} {body other : Stmt}
    (formed : (Stmt.ifElse cond body other).Grammatical)
    (closed : other.endsOpen = true → ahead rest ≠ some (.mark .elseWord))
    (fits : Fits n d ((Stmt.ifElse cond body other).write rest)) :
    Reads d ifStatement ((Stmt.ifElse cond body other).write rest) rest
      (Stmt.ifElse cond body other).desugar := by
  simp only [Stmt.write, Stmt.desugar, Stmt.Grammatical] at formed fits ⊢
  obtain ⟨formedCond, formedBody, complete, formedOther⟩ := formed
  have inside := fits.tail.tail
  have inside' := inside.pastExpr.tail
  have test := reads_condition known formedCond inside
  -- The branch takes no `else` for itself, so that it is left for the statement around it.
  have yes := reads_statement known formedBody (fun isOpen => by simp [complete] at isOpen) inside'
  have no := reads_statement known formedOther closed inside'.pastStmt.tail
  have branch := ((reads_mark .elseWord d _).right (no.commit "a statement")).map some
  exact ((reads_mark .ifWord d _).right (test.pair ((yes.commit _).pair branch.present))).map _

theorem reads_while {cond : Expr} {body : Stmt} (formed : (Stmt.whileLoop cond body).Grammatical)
    (closed : body.endsOpen = true → ahead rest ≠ some (.mark .elseWord))
    (fits : Fits n d ((Stmt.whileLoop cond body).write rest)) :
    Reads d whileStatement ((Stmt.whileLoop cond body).write rest) rest
      (Stmt.whileLoop cond body).desugar := by
  simp only [Stmt.write, Stmt.desugar, Stmt.Grammatical] at formed fits ⊢
  have inside := fits.tail.tail
  have test := reads_condition known formed.1 inside
  have round := reads_statement known formed.2 closed inside.pastExpr.tail
  exact ((reads_mark .whileWord d _).right (test.pair (round.commit _))).map _

omit known in
theorem forLoop_eq (initial cond increment : Option Tree) (body : Tree) :
    forLoop initial cond increment body = loopOf initial cond increment body := by
  cases initial <;> cases increment <;> rfl

theorem reads_for {initial : Option Clause} {cond increment : Option Expr} {body : Stmt}
    (formed : (Stmt.forLoop initial cond increment body).Grammatical)
    (closed : body.endsOpen = true → ahead rest ≠ some (.mark .elseWord))
    (fits : Fits n d ((Stmt.forLoop initial cond increment body).write rest)) :
    Reads d forStatement ((Stmt.forLoop initial cond increment body).write rest) rest
      (Stmt.forLoop initial cond increment body).desugar := by
  simp only [Stmt.write, Stmt.desugar, Stmt.Grammatical, ← forLoop_eq] at formed fits ⊢
  obtain ⟨formedInitial, formedCond, formedIncrement, formedBody⟩ := formed
  have inside := fits.tail.tail
  have inside' := inside.pastInitial
  have inside'' := inside'.pastOption.tail
  have first := reads_initial known initial formedInitial inside
  have test := reads_optional known formedCond rfl rfl inside'
  have next := reads_optional known formedIncrement rfl rfl inside''
  have round := reads_statement known formedBody closed inside''.pastOption.tail
  exact ((reads_mark .forWord d _).right (((reads_expectMark _ _ _ _).right first).pair
    ((test.left (reads_expectMark _ _ _ _)).pair
      ((next.left (reads_expectMark _ _ _ _)).pair (round.commit _))))).map _

theorem reads_function {f : Function} (formed : f.Grammatical)
    (fits : Fits n d ((Stmt.function f).write rest)) :
    Reads d funStatement ((Stmt.function f).write rest) rest f.desugar := by
  obtain ⟨name, params, body⟩ := f
  simp only [Stmt.write] at fits ⊢
  have whole := reads_named known (reads_expectMark .leftParen "'(' after the function name" d) name params
    formed fits.tail
  exact ((reads_mark .funWord d _).right whole).map functionOf

theorem reads_class {name : Word} {methods : List Function} (formed : GrammaticalMethods methods)
    (fits : Fits n d ((Stmt.classDef name methods).write rest)) :
    Reads d classStatement ((Stmt.classDef name methods).write rest) rest
      (Stmt.classDef name methods).desugar := by
  simp only [Stmt.write, Stmt.desugar] at fits ⊢
  have inner := (repeats_methods known formed fits.tail.tail.tail).zeroOrMore
  exact ((reads_mark .classWord d _).right (((reads_word name d _).commit _).pair
    ((reads_expectMark _ _ _ _).right (inner.left (reads_expectMark _ _ _ _))))).map _

theorem reads_anyStatement (s : Stmt) (formed : s.Grammatical)
    (closed : s.endsOpen = true → ahead rest ≠ some (.mark .elseWord)) (fits : Fits n d (s.write rest)) :
    Reads d anyStatement (s.write rest) rest s.desugar := by
  cases s with
  | clause c => exact reads_clause known c formed fits
  | print e => exact reads_headed (by simp [headed]) (reads_print known formed fits)
  | ret value => exact reads_headed (by simp [headed]) (reads_return known formed fits)
  | block body =>
    simp only [Stmt.write] at fits ⊢
    have whole : Reads d block _ rest (.block (desugarBody body)) :=
      (reads_braced known formed fits.tail).map Tree.block
    exact reads_headed (by simp [headed]) whole
  | ifThen cond body => exact reads_headed (by simp [headed]) (reads_ifThen known formed (closed rfl) fits)
  | ifElse cond body other =>
    exact reads_headed (by simp [headed]) (reads_ifElse known formed closed fits)
  | whileLoop cond body => exact reads_headed (by simp [headed]) (reads_while known formed closed fits)
  | forLoop initial cond increment body =>
    exact reads_headed (by simp [headed]) (reads_for known formed closed fits)
  | function f => exact reads_headed (by simp [headed]) (reads_function known formed fits)
  | classDef name methods => exact reads_headed (by simp [headed]) (reads_class known formed fits)

end Statements

theorem known : (n : Nat) → Known n
  | 0 => ⟨nofun, nofun, nofun⟩
  | n + 1 =>
    { expression := fun formed follow short deep =>
        reads_assignment (known n) formed follow ⟨Nat.le_of_lt_succ short, deep⟩
      unary := fun formed level follow short deep =>
        reads_unary (known n) formed level follow ⟨Nat.le_of_lt_succ short, deep⟩
      statement := fun formed closed short deep =>
        reads_anyStatement (known n) _ formed closed ⟨Nat.le_of_lt_succ short, deep⟩ }

/-- Every grammatical program is read back from its tokens, as the trees that it stands for. -/
theorem parseProgram_print (program : List Stmt) (formed : GrammaticalBody program) :
    parseProgram (print program) = .ok (desugarBody program) := by
  have inside : Inside ((print program).length + 1) (depthFor (print program).length)
      (writeBody program []) := ⟨Nat.lt_succ_self _, Nat.le_refl _⟩
  have all := (reads_body (known _) formed inside (refuses_statement (.inl rfl)) nofun).zeroOrMore
  have start : Cursor.start (print program) 0 = .before (print program).length (print program) := by
    simp [Cursor.start, Cursor.before]
  unfold parseProgram parse Rules.parse statements
  rw [start]
  dsimp only [Cursor.before]
  exact congrArg (complete "a statement") (all.run (print program).length (Nat.le_refl _))

/-- `for (var i; i < n and a or b;) if (a) o.f = i = n - i - (a); else while (b) if (a) return;` and then
`fun (a) {};` -/
def tangled : List Stmt :=
  let word (text : String) : Word := ⟨text, none⟩
  let name (text : String) : Expr := .reference (word text)
  let test : Expr := .binary .or (.binary .and (.binary .less (name "i") (name "n")) (name "a")) (name "b")
  let rest : Expr := .binary .subtract (.binary .subtract (name "n") (name "i")) (.grouping (name "a"))
  let update : Stmt := .clause (.expression (.set (name "o") (word "f") (.assign (word "i") rest)))
  let search : Stmt := .whileLoop (name "b") (.ifThen (name "a") (.ret none))
  [.forLoop (some (.declare (word "i") none)) (some test) none (.ifElse (name "a") update search),
    .clause (.expression (.lambda [word "a"] []))]

theorem parseProgram_print_tangled : GrammaticalBody tangled ∧
    parseProgram (print tangled) = .ok (desugarBody tangled) := by
  have formed : GrammaticalBody tangled := by
    simp [tangled, GrammaticalBody, Stmt.Grammatical, Clause.Grammatical, GrammaticalInitial,
      GrammaticalOption, Expr.Grammatical, Expr.level, precedence, Stmt.endsOpen]
  exact ⟨formed, parseProgram_print tangled formed⟩

end Lox.Grammar
