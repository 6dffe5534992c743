import Lox.Parser.Run

set_option autoImplicit false

namespace Lox

def Cursor.shift (k : Nat) (c : Cursor) : Cursor := ⟨c.place + k, c.rest, c.size + k⟩

theorem Cursor.start_append (u tokens : List Token) (i : Nat) :
    Cursor.start (u ++ tokens) (u.length + i) = (Cursor.start tokens i).shift u.length := by
  have rest : (u ++ tokens).drop (u.length + i) = tokens.drop i := by
    rw [List.drop_append, List.drop_eq_nil_of_le (Nat.le_add_right _ i), List.nil_append, Nat.add_sub_cancel_left]
  unfold start shift
  rw [rest, List.length_append, Nat.add_comm u.length i, Nat.add_comm u.length tokens.length]

theorem Cursor.isAtEnd_shift (k : Nat) (c : Cursor) : (c.shift k).isAtEnd = c.isAtEnd := by
  rw [Bool.eq_iff_iff]
  simp only [isAtEnd, shift, beq_iff_eq, Nat.add_right_cancel_iff]

theorem Cursor.take?_shift (k : Nat) (c : Cursor) (test : Kind → Bool) :
    (c.shift k).take? test = (c.take? test).map fun taken => (taken.1, taken.2.shift k) := by
  obtain ⟨place, rest, size⟩ := c
  cases rest with
  | nil => rfl
  | cons t rest =>
    by_cases fits : test t.kind = true
    · simp only [take?, shift, if_pos fits, Option.map_some, Nat.add_right_comm]
    · simp only [take?, shift, if_neg fits, Option.map_none]

namespace Reply

variable {α β : Type}

def shift (k : Nat) : Reply α → Reply α
  | found value next => found value (next.shift k)
  | noMatch here => noMatch (here.shift k)
  | failed e => failed ⟨e.expected, e.here.shift k⟩
  | tooDeep => tooDeep

variable {k : Nat}

theorem shift_andThen (r : Reply α) {f f' : α → Cursor → Reply β}
    (next : ∀ x c, f' x (c.shift k) = (f x c).shift k) : (r.shift k).andThen f' = (r.andThen f).shift k := by
  cases r with
  | found x c => exact next x c
  | noMatch _ | failed _ | tooDeep => rfl

theorem shift_map (r : Reply α) (f : α → β) : (r.shift k).map f = (r.map f).shift k :=
  shift_andThen r fun _ _ => rfl

theorem shift_orTry (r : Reply α) {f f' : Cursor → Reply α} (other : ∀ c, f' (c.shift k) = (f c).shift k) :
    (r.shift k).orTry f' = (r.orTry f).shift k := by
  cases r with
  | noMatch here => exact other here
  | found _ _ | failed _ | tooDeep => rfl

end Reply

namespace Parser

variable {α β : Type} {k : Nat}

theorem one_shift (c : Cursor) (test : Kind → Bool) : one (c.shift k) test = (one c test).shift k := by
  unfold one
  rw [c.take?_shift]
  cases c.take? test with
  | none | some => rfl

theorem both_shift {p : Cursor → Reply α} {q : Cursor → Reply β} (first : ∀ c, p (c.shift k) = (p c).shift k)
    (second : ∀ c, q (c.shift k) = (q c).shift k) (c : Cursor) : both p q (c.shift k) = (both p q c).shift k := by
  unfold both
  rw [first]
  cases p c with
  | noMatch _ | failed _ | tooDeep => rfl
  | found x next =>
    simp only [Reply.shift, Reply.andThen, second]
    cases q next with
    | found _ _ | noMatch _ | failed _ | tooDeep => rfl

theorem repeated_shift {step : Cursor → Reply α} (each : ∀ c, step (c.shift k) = (step c).shift k) (left : List Token)
    (c : Cursor) : repeated step left (c.shift k) = (repeated step left c).shift k := by
  -- A round is the last when it stays at its place, and places are shifted all alike.
  have still (c next : Cursor) : (next.shift k).place = (c.shift k).place ↔ next.place = c.place :=
    Nat.add_right_cancel_iff
  induction left generalizing c with
  | nil =>
    unfold repeated
    rw [each]
    cases step c with
    | found x next => simp only [Reply.shift, ite_self]
    | noMatch _ | failed _ | tooDeep => rfl
  | cons t left ih =>
    unfold repeated
    rw [each]
    cases step c with
    | found x next =>
      simp only [Reply.shift, still]
      split
      · rfl
      · rw [ih]
        exact Reply.shift_map _ _
    | noMatch _ | failed _ | tooDeep => rfl

variable {R : Type → Type} {look : {β : Type} → R β → Cursor → Reply β}

theorem run_shift (refs : ∀ {β : Type} (r : R β) (c : Cursor), look r (c.shift k) = (look r c).shift k)
    (p : Parser R α) (c : Cursor) : p.run look (c.shift k) = (p.run look c).shift k := by
  induction p generalizing c with
  | kind _ | oneOf _ => exact one_shift c _
  | endOfInput =>
    unfold run
    rw [c.isAtEnd_shift]
    split <;> rfl
  | done => rfl
  | pair p q first second => exact both_shift first second c
  | never => rfl
  | orElse p q first second =>
    unfold run
    rw [first]
    exact Reply.shift_orTry _ fun _ => second c
  | zeroOrMore p each => exact repeated_shift each c.rest c
  | oneOrMore p each =>
    unfold run many
    rw [repeated_shift each]
    refine Reply.shift_andThen _ fun xs next => ?_
    split <;> rfl
  | optional p default inner =>
    unfold run
    rw [inner]
    exact Reply.shift_orTry _ fun _ => rfl
  | map p f inner =>
    unfold run
    rw [inner]
    exact Reply.shift_map _ _
  | separated p q item between =>
    unfold run many
    rw [item]
    cases p.run look c with
    | noMatch _ | failed _ | tooDeep => rfl
    | found x next =>
      have rounds := repeated_shift (both_shift between item) next.rest next
      exact (congrArg (Reply.map _) rounds).trans (Reply.shift_map _ _)
  | commit p expected inner =>
    unfold run
    rw [inner]
    exact Reply.shift_orTry _ fun _ => rfl
  | update p sign accepts expected q target value =>
    unfold run
    rw [target]
    refine Reply.shift_andThen _ fun x next => ?_
    rw [next.take?_shift]
    cases next.take? (· == sign) with
    | none => rfl
    | some taken =>
      cases accepts x with
      | none => rfl
      | some build =>
        simp only [Option.map_some, value]
        cases q.run look taken.2 with
        | found _ _ | noMatch _ | failed _ | tooDeep => rfl
  | ref r label => exact refs r c

end Parser

namespace Rules

variable {R : Type → Type} (rules : Rules R) {k : Nat} {α : Type}

theorem look_shift (depth : Nat) (r : R α) (c : Cursor) :
    rules.look depth r (c.shift k) = (rules.look depth r c).shift k := by
  induction depth generalizing α c with
  | zero => rfl
  | succ depth ih => exact Parser.run_shift ih (rules r) c

theorem parse_shift (depth : Nat) (p : Parser R α) (c : Cursor) :
    rules.parse depth p (c.shift k) = (rules.parse depth p c).shift k :=
  Parser.run_shift (rules.look_shift depth) p c

end Rules
end Lox
