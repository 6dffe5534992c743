import Lox.Proofs.Grammar.Reading

set_option autoImplicit false

namespace Lox.Grammar

open Lox.Parser Surface

variable {n d : Nat} {a b rest : List Token} {e : Expr}

theorem precedence_le (op : BinaryOp) : precedence op ≤ 6 := by
  cases op <;> decide

theorem precedence_pos (op : BinaryOp) : 1 ≤ precedence op := by
  cases op <;> decide

def ReadsLevel (n d k : Nat) (p : P Tree) : Prop :=
  ∀ ⦃e : Expr⦄ ⦃rest : List Token⦄, e.Grammatical → k ≤ e.level → Follow k rest →
    Within n d (e.write rest) → Reads d p (e.write rest) rest e.desugar

theorem reads_primary (known : Known n) (formed : e.Grammatical) (level : 9 ≤ e.level)
    (within : Within n d (e.write rest)) : Reads d primary (e.write rest) rest e.desugar := by
  cases e with
  | literal value => exact (reads_literal value d rest).first
  | reference name =>
    have named : Reads d reference (name.token :: rest) rest (.reference name.ident) :=
      (reads_word name d rest).map _
    exact named.first.later (refuses_literal rfl (by decide : Kind.identifier ∉ literalKinds))
  | grouping inner =>
    simp only [Expr.write, Expr.desugar, Expr.Grammatical] at formed within ⊢
    have body := reads_expression known formed (follow_mark .rightParen rfl 0 rest)
      within.tail
    have whole := (reads_mark .leftParen d _).right ((body.commit "an expression after '('").left
      (reads_expectMark .rightParen "')' to close the group" d rest))
    exact ((whole.map Tree.grouping).first.later (refuses_reference (k := .mark .leftParen) rfl nofun)).later
      (refuses_literal rfl (by decide : Kind.mark .leftParen ∉ literalKinds))
  | lambda params body =>
    simp only [Expr.write, Expr.desugar, Expr.Grammatical] at formed within ⊢
    have inner := reads_callable known params formed within.tail.pastParams.tail
    have whole : Reads d lambda _ rest (.lambda (params.map Word.ident) (desugarBody body)) :=
      (((reads_mark .funWord d _).pair (reads_mark .leftParen d _)).right inner).map _
    exact ((whole.first.later (refuses_grouping (k := .mark .funWord) rfl nofun)).later
      (refuses_reference (k := .mark .funWord) rfl nofun)).later
      (refuses_literal rfl (by decide : Kind.mark .funWord ∉ literalKinds))
  | binary op lhs rhs =>
    have := precedence_le op
    simp only [Expr.level] at level
    omega
  | _ => simp [Expr.level] at level

section Calls

theorem follow_more (es : List Expr) (rest : List Token) :
    Follow 0 (writeMore es (markToken .rightParen :: rest)) := by
  cases es with
  | nil => exact follow_mark .rightParen rfl 0 _
  | cons e es => exact follow_mark .comma rfl 0 _

theorem repeats_arguments (known : Known n) {es : List Expr} (formed : GrammaticalArguments es)
    (inside : Inside n d (writeMore es (markToken .rightParen :: rest))) :
    Repeats (both ((mark .comma).run (rules.look d)) (expression.run (rules.look d)))
      (writeMore es (markToken .rightParen :: rest)) (markToken .rightParen :: rest)
      ((desugarArguments es).map fun t => (markToken .comma, t)) := by
  induction es with
  | nil =>
    have none : Refuses d (mark .comma) (markToken .rightParen :: rest) := misses_kind nofun
    exact .nil (none.both_left _)
  | cons e es ih =>
    simp only [writeMore, desugarArguments, GrammaticalArguments] at formed inside ⊢
    have shorter := e.length_write (writeMore es (markToken .rightParen :: rest))
    have next := (reads_mark .comma d _).both
      (reads_expression known formed.1 (follow_more es rest) inside.tail)
    exact .cons next (Nat.lt_succ_of_lt shorter) (ih formed.2 inside.tail.pastExpr)

theorem reads_arguments (known : Known n) {es : List Expr} (formed : GrammaticalArguments es)
    (inside : Inside n d (writeArguments es (markToken .rightParen :: rest))) :
    Reads d arguments (markToken .leftParen :: writeArguments es (markToken .rightParen :: rest)) rest
      (fun callee => .call callee (desugarArguments es)) := by
  have listed : Reads d (separated expression (mark .comma))
      (writeArguments es (markToken .rightParen :: rest)) (markToken .rightParen :: rest)
      (desugarArguments es) := by
    cases es with
    | nil => exact (refuses_closing rfl inside).separated _
    | cons e es =>
      simp only [writeArguments, desugarArguments, GrammaticalArguments] at formed inside ⊢
      have first := reads_expression known formed.1 (follow_more es rest) inside
      have all := first.separated (repeats_arguments known formed.2 inside.pastExpr)
      simpa only [List.map_map, Function.comp_def, List.map_id'] using all
  exact ((reads_mark .leftParen d _).right (listed.left (reads_expectMark .rightParen _ d rest))).map _

theorem reads_property (field : Word) :
    Reads d property (markToken .dot :: field.token :: rest) rest
      (fun object => .get object field.text) :=
  ((reads_mark .dot d _).right ((reads_word field d rest).commit _)).map _

theorem reads_wrapped (known : Known n) (e : Expr) (formed : e.Grammatical) (level : 8 ≤ e.level)
    {mid : List Token} (within : Within n d (e.write mid)) {wraps : List (Tree → Tree)}
    (more : Repeats ((choice [arguments, property]).run (rules.look d)) mid rest wraps) :
    ∃ first wraps', Reads d (pair primary (zeroOrMore (choice [arguments, property]))) (e.write mid) rest
        (first, wraps') ∧
      wraps'.foldl (fun tree wrap => wrap tree) first =
        wraps.foldl (fun tree wrap => wrap tree) e.desugar := by
  cases e with
  | call callee args =>
    simp only [Expr.write, Expr.desugar, Expr.Grammatical] at formed within ⊢
    have shorter := callee.length_write
      (markToken .leftParen :: writeArguments args (markToken .rightParen :: mid))
    have shorter' := length_writeArguments args (markToken .rightParen :: mid)
    simp only [List.length_cons] at shorter shorter'
    have wrap : Reads d (choice [arguments, property]) _ mid _ :=
      (reads_arguments known formed.2.2 (within.inside (Nat.lt_of_succ_lt shorter))).first
    have more' := Repeats.cons wrap (by rw [List.length_cons]; omega) more
    exact reads_wrapped known callee formed.1 formed.2.1 within more'
  | get object field =>
    simp only [Expr.write, Expr.desugar, Expr.Grammatical] at formed within ⊢
    have other : Refuses d arguments (markToken .dot :: field.token :: mid) := by
      refine (refuses_mark (fun here => ?_) _).map _
      cases here
    have wrap : Reads d (choice [arguments, property]) _ mid _ :=
      (reads_property field).first.later other
    have more' := Repeats.cons wrap (by simp only [List.length_cons]; omega) more
    exact reads_wrapped known object formed.1 formed.2 within more'
  | literal _ | reference _ | grouping _ | lambda _ _ =>
    exact ⟨_, wraps, (reads_primary known formed (Nat.le_refl _) within).pair more.zeroOrMore, rfl⟩
  | binary op lhs rhs =>
    have := precedence_le op
    simp only [Expr.level] at level
    omega
  | _ => simp [Expr.level] at level

theorem reads_call (known : Known n) : ReadsLevel n d 8 call := by
  intro e rest formed level follow within
  have other : Refuses d arguments rest :=
    (refuses_mark (follow.ne rfl (Nat.le_refl 8)) _).map _
  have other' : Refuses d property rest :=
    (refuses_mark (follow.ne rfl (Nat.le_refl 8)) _).map _
  have stop : Refuses d (choice [arguments, property]) rest := other.orElse (other'.orElse misses_never)
  obtain ⟨first, wraps, whole, same⟩ := reads_wrapped known e formed level within (.nil stop)
  have called := whole.map fun p => p.2.foldl (fun tree wrap => wrap tree) p.1
  dsimp only at called
  rw [same] at called
  exact called

theorem ahead_call (e : Expr) (formed : e.Grammatical) (level : 8 ≤ e.level) (rest : List Token) (k : Kind)
    (here : ahead (e.write rest) = some k) : k ∉ [Kind.mark .bang, .mark .minus] := by
  cases e with
  | literal value =>
    cases here
    rcases value with _ | b | _ | _
    · decide
    · cases b <;> decide
    · simp [literalToken, Token.kind, Lexeme.kind]
    · simp [literalToken, Token.kind, Lexeme.kind]
  | reference name =>
    cases here
    simp [Word.token, Token.kind, Lexeme.kind]
  | grouping inner | lambda params body =>
    cases here
    decide
  | call callee args => exact ahead_call callee formed.1 formed.2.1 _ k here
  | get object field => exact ahead_call object formed.1 formed.2 _ k here
  | binary op lhs rhs =>
    have := precedence_le op
    simp only [Expr.level] at level
    omega
  | _ => simp [Expr.level] at level

theorem reads_unary (known : Known n) : ReadsLevel n d 7 unary := by
  intro e rest formed level follow within
  by_cases called : 8 ≤ e.level
  · have whole := reads_call known formed called (follow.mono (by omega)) within
    have other : Refuses d (oneOf [.mark .bang, .mark .minus]) (e.write rest) :=
      misses_oneOf (ahead_call e formed called rest)
    exact whole.first.later ((other.pair _).map _)
  · cases e with
    | unary op operand =>
      simp only [Expr.write, Expr.desugar, Expr.Grammatical] at formed within ⊢
      have inner := reads_operand known formed.1 formed.2 follow within.tail
      have sign : (markToken (unaryMark op)).kind ∈ [Kind.mark .bang, .mark .minus] := by
        cases op <;> decide
      have same : unaryOf (markToken (unaryMark op)) = op := by
        cases op <;> rfl
      have whole := ((finds_oneOf sign).pair (inner.commit "an operand")).map
        fun p => Tree.unary (unaryOf p.1) p.2
      dsimp only at whole
      rw [same] at whole
      exact whole.first
    | binary op lhs rhs =>
      have := precedence_le op
      simp only [Expr.level] at level
      omega
    | _ => simp [Expr.level] at level called

end Calls

section Operators

theorem signOf_eq (op : BinaryOp) : signOf op = binaryMark op := by
  cases op <;> rfl

theorem binaryMark_inj {op op' : BinaryOp} (h : binaryMark op = binaryMark op') : op = op' := by
  cases op <;> cases op' <;> first | rfl | cases h

theorem continues_operator (op : BinaryOp) : continues (.mark (binaryMark op)) = some (precedence op) := by
  cases op <;> rfl

theorem operatorOf_mark {ops : List BinaryOp} {op : BinaryOp} (member : op ∈ ops) :
    operatorOf ops (markToken (binaryMark op)) = some op := by
  unfold operatorOf
  induction ops with
  | nil => cases member
  | cons first ops ih =>
    have kind : (markToken (binaryMark op)).kind = .mark (binaryMark op) := rfl
    rw [kind] at ih ⊢
    rw [List.find?_cons, signOf_eq]
    by_cases same : op = first
    · simp [same]
    · have other : ¬ Kind.mark (binaryMark op) = .mark (binaryMark first) := fun h =>
        same (binaryMark_inj (Kind.mark.inj h))
      simp only [other, decide_false]
      exact ih ((List.mem_cons.1 member).resolve_left same)

def further (operand : P Tree) (ops : List BinaryOp) : P (Token × Tree) :=
  pair (oneOf (ops.map fun op => .mark (signOf op))) (commit operand "an operand after the operator")

variable {operand : P Tree} {ops : List BinaryOp} {k : Nat}

/-- The operators of one level are taken off from the right, and wait in `more`. -/
theorem reads_operators (tight : ReadsLevel n d (k + 1) operand)
    (own : ∀ op, precedence op = k → op ∈ ops) (low : 1 ≤ k) (high : k ≤ 6) (e : Expr)
    (formed : e.Grammatical) (level : k ≤ e.level) {mid : List Token} (follow : Follow (k + 1) mid)
    (within : Within n d (e.write mid)) {more : List (Token × Tree)}
    (repeats : Repeats ((further operand ops).run (rules.look d)) mid rest more) :
    ∃ first more', Reads d (pair operand (zeroOrMore (further operand ops))) (e.write mid) rest
        (first, more') ∧ foldLeft ops first more' = foldLeft ops e.desugar more := by
  by_cases tighter : k < e.level
  · exact ⟨_, more, (tight formed tighter follow within).pair repeats.zeroOrMore, rfl⟩
  · have here : e.level = k := by omega
    cases e with
    | binary op lhs rhs =>
      simp only [Expr.write, Expr.desugar, Expr.Grammatical, Expr.level] at formed here within ⊢
      have member := own op here
      have shorter := lhs.length_write (markToken (binaryMark op) :: rhs.write mid)
      have shorter' := rhs.length_write mid
      rw [List.length_cons] at shorter
      have right := tight formed.2.2.1 (here ▸ formed.2.2.2) follow
        (within.inside (Nat.lt_of_succ_lt shorter)).within
      have sign : (markToken (binaryMark op)).kind ∈ ops.map fun op => Kind.mark (signOf op) :=
        List.mem_map.2 ⟨op, member, congrArg Kind.mark (signOf_eq op)⟩
      have next : Reads d (further operand ops) (markToken (binaryMark op) :: rhs.write mid) mid _ :=
        (finds_oneOf sign).pair (right.commit _)
      have repeats' := Repeats.cons next (by rw [List.length_cons]; omega) repeats
      have follow' : Follow (k + 1) (markToken (binaryMark op) :: rhs.write mid) := by
        intro j same
        cases (continues_operator op).symm.trans same
        omega
      obtain ⟨first, more', whole, same⟩ := reads_operators tight own low high lhs formed.1
        (here ▸ formed.2.1) follow' within repeats'
      refine ⟨first, more', whole, same.trans ?_⟩
      simp only [foldLeft, List.foldl_cons, operatorOf_mark member]
    | _ =>
      simp only [Expr.level] at here
      omega

theorem reads_level (tight : ReadsLevel n d (k + 1) operand)
    (own : ∀ op, precedence op = k ↔ op ∈ ops) (low : 1 ≤ k) (high : k ≤ 6) :
    ReadsLevel n d k (Grammar.level operand ops) := by
  intro e rest formed level follow within
  have other : ∀ kind, ahead rest = some kind → kind ∉ ops.map fun op => Kind.mark (signOf op) := by
    intro kind here member
    obtain ⟨op, inside, rfl⟩ := List.mem_map.1 member
    rw [signOf_eq] at here
    have := follow _ (by rw [here]; exact continues_operator op)
    have := (own op).2 inside
    omega
  have stop : Refuses d (further operand ops) rest := (misses_oneOf other).pair _
  obtain ⟨first, more, whole, same⟩ := reads_operators tight (fun op => (own op).1) low high e formed
    level (follow.mono (Nat.le_succ k)) within (.nil stop)
  have folded := whole.map fun p => foldLeft ops p.1 p.2
  dsimp only at folded
  rw [same] at folded
  exact folded

theorem reads_logicalOr (known : Known n) : ReadsLevel n d 1 logicalOr := by
  have products : ReadsLevel n d 6 multiplication :=
    reads_level (reads_unary known) (by intro op; cases op <;> decide) (by decide) (by decide)
  have sums : ReadsLevel n d 5 addition :=
    reads_level products (by intro op; cases op <;> decide) (by decide) (by decide)
  have comparisons : ReadsLevel n d 4 comparison :=
    reads_level sums (by intro op; cases op <;> decide) (by decide) (by decide)
  have equalities : ReadsLevel n d 3 equality :=
    reads_level comparisons (by intro op; cases op <;> decide) (by decide) (by decide)
  have conjunctions : ReadsLevel n d 2 logicalAnd :=
    reads_level equalities (by intro op; cases op <;> decide) (by decide) (by decide)
  exact reads_level conjunctions (by intro op; cases op <;> decide) (by decide) (by decide)

end Operators

theorem follow_equal (a : List Token) : Follow 1 (markToken .equal :: a) := by
  intro j here
  cases here
  exact Nat.lt_succ_self 0

theorem reads_assignment (known : Known n) (formed : e.Grammatical) (follow : Follow 0 rest)
    (within : Within n d (e.write rest)) : Reads d assignment (e.write rest) rest e.desugar := by
  by_cases operators : 1 ≤ e.level
  · exact (reads_logicalOr known formed operators (follow.mono (Nat.zero_le 1)) within).keep
      (follow.ne rfl (Nat.le_refl 0))
  -- What stands before the sign is read as an expression of its own, and then turned into a target.
  · cases e with
    | assign target value =>
      simp only [Expr.write, Expr.desugar, Expr.Grammatical] at formed within ⊢
      have inner := reads_expression known formed follow within.tail.tail
      have name : Reads d logicalOr (target.token :: markToken .equal :: value.write rest) _
          (.reference target.ident) :=
        reads_logicalOr known (e := .reference target) trivial (Nat.le_add_left 1 8)
          (follow_equal (value.write rest)) within
      exact name.update rfl rfl (inner.commit _)
    | set object field value =>
      simp only [Expr.write, Expr.desugar, Expr.Grammatical] at formed within ⊢
      have shorter := object.length_write
        (markToken .dot :: field.token :: markToken .equal :: value.write rest)
      simp only [List.length_cons] at shorter
      have inner := reads_expression known formed.2.2 follow (within.inside (by omega))
      have place : Reads d logicalOr
          (object.write (markToken .dot :: field.token :: markToken .equal :: value.write rest)) _
          (.get object.desugar field.text) :=
        reads_logicalOr known (e := .get object field) ⟨formed.1, formed.2.1⟩ (Nat.le_add_left 1 7)
          (follow_equal (value.write rest)) within
      exact place.update rfl rfl (inner.commit _)
    | binary op lhs rhs => exact absurd (precedence_pos op) operators
    | _ => simp [Expr.level] at operators

end Lox.Grammar
