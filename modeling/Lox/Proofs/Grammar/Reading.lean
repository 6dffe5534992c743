import Lox.Grammar
import Lox.Proofs.Grammar.Surface
import Lox.Proofs.Parser.Reads

set_option autoImplicit false

namespace Lox.Grammar

open Lox.Parser Surface

def continues : Kind → Option Nat
  | .mark .equal => some 0
  | .mark .orWord => some 1
  | .mark .andWord => some 2
  | .mark .equalEqual | .mark .bangEqual => some 3
  | .mark .less | .mark .lessEqual | .mark .greater | .mark .greaterEqual => some 4
  | .mark .plus | .mark .minus => some 5
  | .mark .star | .mark .slash => some 6
  | .mark .leftParen | .mark .dot => some 8
  | _ => none

def Follow (k : Nat) (a : List Token) : Prop := ∀ j, (ahead a).bind continues = some j → j < k

theorem Follow.mono {j k : Nat} {a : List Token} (h : Follow j a) (le : j ≤ k) : Follow k a :=
  fun i here => Nat.lt_of_lt_of_le (h i here) le

theorem Follow.ne {k j : Nat} {a : List Token} (h : Follow k a) {m : Mark}
    (level : continues (.mark m) = some j) (le : k ≤ j) : ahead a ≠ some (.mark m) := by
  intro here
  have := h j (by rw [here]; exact level)
  omega

theorem follow_mark (m : Mark) (closes : continues (.mark m) = none) (k : Nat) (a : List Token) :
    Follow k (markToken m :: a) := by
  intro j here
  cases closes.symm.trans here

abbrev Reads (d : Nat) {α : Type} (p : P α) (a b : List Token) (x : α) : Prop :=
  Finds (p.run (rules.look d)) a b x

abbrev Refuses (d : Nat) {α : Type} (p : P α) (a : List Token) : Prop :=
  Misses (p.run (rules.look d)) a

section Marks

variable {d : Nat} {α : Type} {a b : List Token} {x : α} {m : Mark}

theorem reads_mark (m : Mark) (d : Nat) (a : List Token) :
    Reads d (mark m) (markToken m :: a) a (markToken m) :=
  finds_kind rfl

theorem reads_expectMark (m : Mark) (what : String) (d : Nat) (a : List Token) :
    Reads d (expectMark m what) (markToken m :: a) a (markToken m) :=
  (reads_mark m d a).commit what

theorem reads_word (w : Word) (d : Nat) (a : List Token) :
    Reads d (kind .identifier) (w.token :: a) a w.token :=
  finds_kind rfl

theorem refuses_mark (h : ahead a ≠ some (.mark m)) (p : P α) : Refuses d (right (mark m) p) a :=
  ((misses_kind h).pair p).map Prod.snd

end Marks

/-- What has been established so far: all that is shorter than `n` tokens, with what follows, is read
back. -/
structure Known (n : Nat) : Prop where
  expression : ∀ {e : Expr} {rest : List Token} {d : Nat}, e.Grammatical → Follow 0 rest →
    (e.write rest).length < n → 2 * (e.write rest).length ≤ d →
    Reads d assignment (e.write rest) rest e.desugar
  unary : ∀ {e : Expr} {rest : List Token} {d : Nat}, e.Grammatical → 7 ≤ e.level → Follow 7 rest →
    (e.write rest).length < n → 2 * (e.write rest).length ≤ d →
    Reads d unary (e.write rest) rest e.desugar
  statement : ∀ {s : Stmt} {rest : List Token} {d : Nat}, s.Grammatical →
    (s.endsOpen = true → ahead rest ≠ some (.mark .elseWord)) →
    (s.write rest).length < n → 2 * (s.write rest).length + 1 ≤ d →
    Reads d anyStatement (s.write rest) rest s.desugar

structure Within (n d : Nat) (a : List Token) : Prop where
  short : a.length ≤ n
  deep : 2 * a.length ≤ d

structure Inside (n d : Nat) (a : List Token) : Prop where
  short : a.length < n
  deep : 2 * a.length + 2 ≤ d

variable {n d : Nat} {a b rest : List Token} {e : Expr}

theorem Within.inside (h : Within n d a) (shorter : b.length < a.length) : Inside n d b := by
  obtain ⟨short, deep⟩ := h
  exact ⟨by omega, by omega⟩

theorem Inside.inside (h : Inside n d a) (shorter : b.length ≤ a.length) : Inside n d b := by
  obtain ⟨short, deep⟩ := h
  exact ⟨by omega, by omega⟩

theorem Inside.within (h : Inside n d a) : Within n d a := by
  obtain ⟨short, deep⟩ := h
  exact ⟨by omega, by omega⟩

section Past

variable {t : Token}

theorem Within.tail (h : Within n d (t :: a)) : Inside n d a := h.inside (Nat.lt_succ_self _)

theorem Inside.tail (h : Inside n d (t :: a)) : Inside n d a := h.inside (Nat.le_succ _)

theorem Inside.pastExpr (h : Inside n d (e.write a)) : Inside n d a :=
  h.inside (Nat.le_of_lt (e.length_write a))

theorem Inside.pastOption {o : Option Expr} (h : Inside n d (writeOption o a)) : Inside n d a :=
  h.inside (length_writeOption o a)

theorem Inside.pastInitial {o : Option Clause} (h : Inside n d (writeInitial o a)) : Inside n d a :=
  h.inside (Nat.le_of_lt (length_writeInitial o a))

theorem Inside.pastStmt {s : Stmt} (h : Inside n d (s.write a)) : Inside n d a :=
  h.inside (Nat.le_of_lt (s.length_write a))

theorem Inside.pastParams {params : List Word} (h : Inside n d (writeParams params a)) : Inside n d a :=
  h.inside (Nat.le_of_lt (length_writeParams params a))

theorem Inside.pastFunction {f : Function} (h : Inside n d (f.write a)) : Inside n d a :=
  h.inside (Nat.le_of_lt (f.length_write a))

end Past

theorem reads_expression (known : Known n) (formed : e.Grammatical) (follow : Follow 0 rest)
    (inside : Inside n d (e.write rest)) : Reads d expression (e.write rest) rest e.desugar := by
  obtain ⟨short, deep⟩ := inside
  cases d with
  | zero => omega
  | succ d => exact known.expression formed follow short (by omega)

theorem reads_operand (known : Known n) (formed : e.Grammatical) (level : 7 ≤ e.level)
    (follow : Follow 7 rest) (inside : Inside n d (e.write rest)) :
    Reads d (ref .unary "unary") (e.write rest) rest e.desugar := by
  obtain ⟨short, deep⟩ := inside
  cases d with
  | zero => omega
  | succ d => exact known.unary formed level follow short (by omega)

theorem reads_statement (known : Known n) {s : Stmt} (formed : s.Grammatical)
    (closed : s.endsOpen = true → ahead rest ≠ some (.mark .elseWord))
    (inside : Inside n d (s.write rest)) : Reads d statement (s.write rest) rest s.desugar := by
  obtain ⟨short, deep⟩ := inside
  cases d with
  | zero => omega
  | succ d => exact known.statement formed closed short (by omega)

def starts : Kind → Bool
  | .identifier | .string | .number => true
  | .mark m => m ∈ [.trueWord, .falseWord, .nilWord, .leftParen, .funWord, .bang, .minus]

def Unstarted (a : List Token) : Prop := ∀ k, ahead a = some k → starts k = false

theorem Unstarted.ne (h : Unstarted a) {k : Kind} (start : starts k = true) : ahead a ≠ some k := by
  intro here
  rw [h k here] at start
  cases start

def literalKinds : List Kind := [.mark .trueWord, .mark .falseWord, .mark .nilWord, .number, .string]

theorem reads_literal (value : Literal) (d : Nat) (a : List Token) :
    Reads d literal (literalToken value :: a) a (Tree.literal value) := by
  have same : literalOf (literalToken value) = value ∧ (literalToken value).kind ∈ literalKinds := by
    rcases value with _ | b | _ | _
    · exact ⟨rfl, by decide⟩
    · cases b
      · exact ⟨rfl, by decide⟩
      · exact ⟨rfl, by decide⟩
    · exact ⟨rfl, .tail _ (.tail _ (.tail _ (.head _)))⟩
    · exact ⟨rfl, .tail _ (.tail _ (.tail _ (.tail _ (.head _))))⟩
  have found : Reads d literal (literalToken value :: a) a
      (Tree.literal (literalOf (literalToken value))) := finds_kinds same.2 _
  rw [same.1] at found
  exact found

theorem refuses_literals (h : ∀ k, ahead a = some k → k ∉ literalKinds) : Refuses d literal a :=
  misses_kinds h _

theorem refuses_literal {k : Kind} (here : ahead a = some k) (other : k ∉ literalKinds) :
    Refuses d literal a := by
  refine refuses_literals fun k' here' => ?_
  rw [here] at here'
  cases here'
  exact other

theorem refuses_reference {k : Kind} (here : ahead a = some k) (other : k ≠ .identifier) :
    Refuses d reference a := by
  have names : Refuses d (kind .identifier) a := misses_kind fun same =>
    other (Option.some.inj (here.symm.trans same))
  exact names.map _

theorem refuses_grouping {k : Kind} (here : ahead a = some k) (other : k ≠ .mark .leftParen) :
    Refuses d grouping a := by
  refine (refuses_mark (fun same => ?_) _).map _
  exact other (Option.some.inj (here.symm.trans same))

theorem refuses_primary (h : Unstarted a) : Refuses d primary a := by
  have literals : Refuses d literal a := by
    refine refuses_literals fun k here member => ?_
    have all : ∀ k ∈ literalKinds, starts k = true := by decide
    exact h.ne (all k member) here
  have names : Refuses d reference a := (misses_kind (h.ne rfl)).map _
  have groups : Refuses d grouping a := (refuses_mark (h.ne rfl) _).map _
  have lambdas : Refuses d lambda a :=
    ((((misses_kind (h.ne rfl)).pair _).pair _).map _).map _
  exact literals.orElse <| names.orElse <| groups.orElse <| lambdas.orElse misses_never

theorem refuses_unary (h : Unstarted a) : Refuses d unary a := by
  have calls : Refuses d call a := ((refuses_primary h).pair _).map _
  have signs : ∀ k, ahead a = some k → k ∉ [Kind.mark .bang, .mark .minus] := by
    intro k here member
    have unstarted := h k here
    simp only [List.mem_cons, List.not_mem_nil, or_false] at member
    rcases member with rfl | rfl
    · cases unstarted
    · cases unstarted
  exact (((misses_oneOf signs).pair _).map _).orElse <| calls.orElse misses_never

theorem refuses_level {operand : P Tree} (h : Refuses d operand a) (ops : List BinaryOp) :
    Refuses d (level operand ops) a :=
  (h.pair _).map _

theorem refuses_expression (h : Unstarted a) : Refuses (d + 1) expression a := by
  have levels : Refuses d logicalOr a :=
    refuses_level (refuses_level (refuses_level (refuses_level (refuses_level (refuses_level
      (refuses_unary h) _) _) _) _) _) _
  exact levels.update _ _ _ _

theorem refuses_closing {m : Mark} (unstarted : starts (.mark m) = false) (inside : Inside n d b) :
    Refuses d expression (markToken m :: a) := by
  obtain ⟨-, deep⟩ := inside
  obtain ⟨d, rfl⟩ := Nat.exists_eq_succ_of_ne_zero (show d ≠ 0 by omega)
  refine refuses_expression ?_
  rintro _ ⟨⟩
  exact unstarted

def headed : List (Mark × P Tree) :=
  [(.varWord, varStatement), (.classWord, classStatement), (.funWord, funStatement),
    (.ifWord, ifStatement), (.whileWord, whileStatement), (.forWord, forStatement),
    (.returnWord, returnStatement), (.printWord, printStatement), (.leftBrace, block)]

theorem anyStatement_eq : anyStatement = choice (headed.map Prod.snd ++ [expressionStatement]) := rfl

theorem refuses_headed {h : Mark × P Tree} (member : h ∈ headed) (other : ahead a ≠ some (.mark h.1)) :
    Refuses d h.2 a := by
  have each : ∀ h ∈ headed, ∃ (α : Type) (p : P α) (f : α → Tree), h.2 = (right (mark h.1) p).map f := by
    simp only [headed, List.forall_mem_cons]
    refine ⟨⟨_, _, _, rfl⟩, ⟨_, _, _, rfl⟩, ⟨_, _, _, rfl⟩, ⟨_, _, _, rfl⟩, ⟨_, _, _, rfl⟩,
      ⟨_, _, _, rfl⟩, ⟨_, _, _, rfl⟩, ⟨_, _, _, rfl⟩, ⟨_, _, _, rfl⟩, nofun⟩
  obtain ⟨α, p, f, same⟩ := each h member
  rw [same]
  exact (refuses_mark other p).map f

theorem refuses_statement (h : ahead a = none ∨ ahead a = some (.mark .rightBrace)) :
    Refuses (d + 2) statement a := by
  have only : ∀ k, ahead a = some k → k = .mark .rightBrace := by
    intro k here
    rcases h with none | brace
    · rw [none] at here
      cases here
    · rw [brace] at here
      cases here
      rfl
  have unstarted : Unstarted a := fun k here => only k here ▸ rfl
  have choices : Refuses (d + 1) anyStatement a := by
    rw [anyStatement_eq]
    refine misses_choice fun p member => ?_
    rcases List.mem_append.1 member with first | last
    · obtain ⟨s, inside, rfl⟩ := List.mem_map.1 first
      refine refuses_headed inside fun here => ?_
      have marks : Mark.rightBrace ∉ headed.map Prod.fst := by decide
      exact marks (List.mem_map.2 ⟨s, inside, Kind.mark.inj (only _ here)⟩)
    · cases List.mem_singleton.1 last
      exact (((refuses_expression unstarted).pair _).map _).map _
  exact choices

def Begins (a : List Token) : Prop :=
  ∃ t b, a = t :: b ∧ starts t.kind = true ∧
    (t.kind = .mark .funWord → ahead b = some (.mark .leftParen))

theorem begins_write : (e : Expr) → (rest : List Token) → Begins (e.write rest)
  | .literal value, rest => by
    refine ⟨literalToken value, rest, rfl, ?_, ?_⟩
    · rcases value with _ | b | _ | _
      · rfl
      · cases b <;> rfl
      · rfl
      · rfl
    · intro same
      rcases value with _ | b | _ | _
      · cases same
      · cases b <;> cases same
      · cases same
      · cases same
  | .reference _, _ | .assign _ _, _ => ⟨_, _, rfl, rfl, nofun⟩
  | .grouping _, _ => ⟨_, _, rfl, rfl, nofun⟩
  | .lambda _ _, _ => ⟨_, _, rfl, rfl, fun _ => rfl⟩
  | .unary op _, _ => by
    cases op with
    | not => exact ⟨_, _, rfl, rfl, nofun⟩
    | negate => exact ⟨_, _, rfl, rfl, nofun⟩
  | .call callee _, _ => begins_write callee _
  | .get object _, _ => begins_write object _
  | .binary _ lhs _, _ => begins_write lhs _
  | .set object _ _, _ => begins_write object _

theorem Begins.ahead (h : Begins a) : ∃ k, ahead a = some k ∧ starts k = true := by
  obtain ⟨t, b, rfl, start, -⟩ := h
  exact ⟨t.kind, rfl, start⟩

theorem ahead_statement (s : Stmt) (rest : List Token) :
    ahead (s.write rest) ≠ some (.mark .elseWord) := by
  cases s with
  | clause c =>
    cases c with
    | expression e =>
      obtain ⟨k, here, start⟩ := (begins_write e (markToken .semicolon :: rest)).ahead
      simp only [Stmt.write, Clause.write, here]
      rintro ⟨⟩
      cases start
    | declare name initial => cases initial <;> nofun
  | _ => nofun

theorem ahead_body (body : List Stmt) {rest : List Token} (h : ahead rest ≠ some (.mark .elseWord)) :
    ahead (writeBody body rest) ≠ some (.mark .elseWord) := by
  cases body with
  | nil => exact h
  | cons s ss => exact ahead_statement s _

section Bodies

theorem reads_body (known : Known n) {body : List Stmt} (formed : GrammaticalBody body)
    (inside : Inside n d (writeBody body rest)) (stop : Refuses d statement rest)
    (other : ahead rest ≠ some (.mark .elseWord)) :
    Repeats (statement.run (rules.look d)) (writeBody body rest) rest (desugarBody body) := by
  induction body with
  | nil => exact .nil stop
  | cons s ss ih =>
    have shorter := s.length_write (writeBody ss rest)
    have first := reads_statement known formed.1 (fun _ => ahead_body ss other) inside
    exact .cons first shorter (ih formed.2 inside.pastStmt)

theorem reads_braced (known : Known n) {body : List Stmt} (formed : GrammaticalBody body)
    (inside : Inside n d (writeBody body (markToken .rightBrace :: rest))) :
    Reads d braced (markToken .leftBrace :: writeBody body (markToken .rightBrace :: rest)) rest
      (desugarBody body) := by
  have stop : Refuses d statement (markToken .rightBrace :: rest) := by
    obtain ⟨-, deep⟩ := inside
    obtain ⟨d, rfl⟩ := Nat.exists_eq_add_of_le (show 2 ≤ d by omega)
    rw [Nat.add_comm]
    exact refuses_statement (.inr rfl)
  have statements := (reads_body known formed inside stop nofun).zeroOrMore
  exact (reads_mark _ _ _).right (statements.left (reads_expectMark _ _ _ _))

theorem repeats_words (ws : List Word) (h : ahead rest ≠ some (.mark .comma)) :
    Repeats (both ((mark .comma).run (rules.look d)) (((kind .identifier).map Token.name).run (rules.look d)))
      (writeMoreWords ws rest) rest (ws.map fun w => (markToken .comma, w.ident)) := by
  induction ws with
  | nil => exact .nil ((misses_kind h).both_left _)
  | cons w ws ih =>
    have next := (reads_mark .comma d _).both ((reads_word w d (writeMoreWords ws rest)).map Token.name)
    refine .cons next ?_ ih
    simp only [writeMoreWords, List.length_cons]
    omega

theorem reads_parameters (ws : List Word) :
    Reads d parameters (writeWords ws (markToken .rightParen :: rest)) rest (ws.map Word.ident) := by
  refine Finds.left (b := markToken .rightParen :: rest) ?_ (reads_expectMark _ _ _ _)
  cases ws with
  | nil =>
    have none : Refuses d (kind .identifier) (markToken .rightParen :: rest) := misses_kind nofun
    exact (none.map _).separated _
  | cons w ws =>
    have first := (reads_word w d (writeMoreWords ws (markToken .rightParen :: rest))).map Token.name
    have all := first.separated (repeats_words ws nofun)
    rw [List.map_map] at all
    exact all

theorem reads_callable (known : Known n) (params : List Word) {body : List Stmt}
    (formed : GrammaticalBody body)
    (inside : Inside n d (writeBody body (markToken .rightBrace :: rest))) :
    Reads d (pair parameters functionBody)
      (writeWords params (markToken .rightParen :: markToken .leftBrace ::
        writeBody body (markToken .rightBrace :: rest))) rest
      (params.map Word.ident, desugarBody body) :=
  (reads_parameters params).pair ((reads_braced known formed inside).commit _)

end Bodies

end Lox.Grammar
