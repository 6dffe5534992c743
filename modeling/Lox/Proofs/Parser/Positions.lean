import Lox.Proofs.Parser.Ensures

set_option autoImplicit false

namespace Lox

def Cursor.Onward (c c' : Cursor) : Prop :=
  ∃ taken, c.rest = taken ++ c'.rest ∧ c'.place = c.place + taken.length ∧ c'.size = c.size

namespace Cursor.Onward

variable {c c' c'' : Cursor}

theorem refl (c : Cursor) : c.Onward c := ⟨[], rfl, rfl, rfl⟩

theorem trans (h : c.Onward c') (h' : c'.Onward c'') : c.Onward c'' := by
  obtain ⟨taken, rest, place, size⟩ := h
  obtain ⟨taken', rest', place', size'⟩ := h'
  refine ⟨taken ++ taken', ?_, ?_, size'.trans size⟩
  · rw [rest, rest', List.append_assoc]
  · rw [place', place, List.length_append, Nat.add_assoc]

theorem place_le (h : c.Onward c') : c.place ≤ c'.place := by
  obtain ⟨taken, -, place, -⟩ := h
  omega

theorem balance (h : c.Onward c') : c'.place + c'.rest.length = c.place + c.rest.length := by
  obtain ⟨taken, rest, place, -⟩ := h
  rw [rest, place, List.length_append]
  omega

theorem of_take? {test : Kind → Bool} {t : Token} (taken : c.take? test = some (t, c')) :
    c.Onward c' ∧ c.place < c'.place := by
  obtain ⟨place, rest, size⟩ := c
  cases rest with
  | nil => cases taken
  | cons t' rest =>
    simp only [Cursor.take?, Option.ite_none_right_eq_some] at taken
    obtain ⟨-, same⟩ := taken
    cases same
    exact ⟨⟨[t], rfl, rfl, rfl⟩, Nat.lt_succ_self place⟩

theorem start_rest {tokens : List Token} {i : Nat} (h : (Cursor.start tokens i).Onward c') :
    c'.rest = tokens.drop c'.place ∧ c'.size = tokens.length := by
  obtain ⟨taken, rest, place, size⟩ := h
  refine ⟨?_, size⟩
  have split : tokens.drop i = taken ++ c'.rest := rest
  rw [place, ← List.drop_drop]
  change _ = (tokens.drop i).drop _
  rw [split, List.drop_left]

theorem start_bounds {tokens : List Token} {i : Nat} (h : (Cursor.start tokens i).Onward c')
    (inside : i ≤ tokens.length) :
    i ≤ c'.place ∧ c'.place ≤ tokens.length ∧ c' = .start tokens c'.place := by
  obtain ⟨rest, size⟩ := h.start_rest
  have balance := h.balance
  have ahead : (Cursor.start tokens i).rest.length = tokens.length - i := List.length_drop
  have here : (Cursor.start tokens i).place = i := rfl
  refine ⟨h.place_le, by omega, ?_⟩
  unfold Cursor.start
  rw [← rest, ← size]

end Cursor.Onward

namespace Reply

def Onward {α : Type} (c : Cursor) : Reply α → Prop
  | found _ next => c.Onward next
  | noMatch here => here = c
  | failed e => c.Onward e.here
  | tooDeep => True

variable {α β : Type} {c : Cursor} {r : Reply α}

theorem Onward.andThen {f : α → Cursor → Reply β} (h : r.Onward c)
    (next : ∀ x c', c.Onward c' → (f x c').Onward c) : (r.andThen f).Onward c := by
  cases r with
  | found x c' => exact next x c' h
  | noMatch _ | failed _ | tooDeep => exact h

theorem Onward.map (h : r.Onward c) (f : α → β) : (r.map f).Onward c :=
  h.andThen fun _ _ after => after

theorem Onward.orTry {f : Cursor → Reply α} (h : r.Onward c) (other : (f c).Onward c) : (r.orTry f).Onward c := by
  cases r with
  | noMatch here => exact (h : here = c) ▸ other
  | found _ _ | failed _ | tooDeep => exact h

theorem Onward.later {c' : Cursor} (h : r.Onward c') (after : c.Onward c') (f : α → β) :
    Onward c (match r with
      | .noMatch _ => .noMatch c
      | reply => reply.map f) := by
  cases r with
  | found x next => exact after.trans h
  | noMatch _ => exact rfl
  | failed e => exact after.trans h
  | tooDeep => trivial

inductive Placed (tokens : List Token) (place : Nat) : Reply α → Prop
  | found {x : α} {next : Cursor} : place ≤ next.place → next.place ≤ tokens.length →
      next = .start tokens next.place → Placed tokens place (.found x next)
  | noMatch : Placed tokens place (.noMatch (.start tokens place))
  | failed {e : ParseError} : place ≤ e.here.place → e.here.place ≤ tokens.length →
      e.here = .start tokens e.here.place → Placed tokens place (.failed e)
  | tooDeep : Placed tokens place .tooDeep

theorem Onward.placed {tokens : List Token} {place : Nat} (h : r.Onward (.start tokens place))
    (inside : place ≤ tokens.length) : r.Placed tokens place := by
  cases r with
  | found x next =>
    obtain ⟨after, before, stands⟩ := Cursor.Onward.start_bounds h inside
    exact .found after before stands
  | noMatch here =>
    cases (h : here = .start tokens place)
    exact .noMatch
  | failed e =>
    obtain ⟨after, before, stands⟩ := Cursor.Onward.start_bounds h inside
    exact .failed after before stands
  | tooDeep => exact .tooDeep

end Reply

namespace Parser

variable {α β : Type} {c : Cursor}

theorem onward_one (c : Cursor) (test : Kind → Bool) : (one c test).Onward c := by
  unfold one
  split
  next taken => exact (Cursor.Onward.of_take? taken).1
  next => exact rfl

theorem onward_both {p : Cursor → Reply α} {q : Cursor → Reply β} (first : ∀ c, (p c).Onward c)
    (second : ∀ c, (q c).Onward c) (c : Cursor) : (both p q c).Onward c := by
  have start := first c
  unfold both
  cases run : p c with
  | noMatch _ => exact rfl
  | found x next =>
    rw [run] at start
    exact (second next).later start _
  | failed e =>
    rw [run] at start
    exact start
  | tooDeep => trivial

theorem onward_repeated {step : Cursor → Reply α} (each : ∀ c, (step c).Onward c) (left : List Token)
    {start c : Cursor} (before : start.Onward c) : (repeated step left c).Onward start := by
  -- The induction is on the tokens that bound the number of rounds.
  induction left generalizing c with
  | nil =>
    have round := each c
    unfold repeated
    generalize step c = r at round
    cases r with
    | found x next =>
      simp only [ite_self]
      exact before
    | noMatch _ => exact before
    | failed e => exact before.trans round
    | tooDeep => trivial
  | cons t left ih =>
    have round := each c
    unfold repeated
    generalize step c = r at round
    cases r with
    | found x next =>
      dsimp only
      split
      · exact before
      · exact (ih (before.trans round)).map _
    | noMatch _ => exact before
    | failed e => exact before.trans round
    | tooDeep => trivial

theorem onward_many {step : Cursor → Reply α} (each : ∀ c, (step c).Onward c) {start c : Cursor}
    (before : start.Onward c) : (many step c).Onward start :=
  onward_repeated each c.rest before

variable {R : Type → Type} {look : {β : Type} → R β → Cursor → Reply β}

theorem run_onward (refs : ∀ {β : Type} (r : R β) (c : Cursor), (look r c).Onward c) (p : Parser R α) (c : Cursor) :
    (p.run look c).Onward c := by
  induction p generalizing c with
  | kind k => exact onward_one c _
  | oneOf ks => exact onward_one c _
  | endOfInput =>
    unfold run
    split
    · exact .refl c
    · exact rfl
  | done => exact .refl c
  | pair p q first second => exact onward_both first second c
  | never => exact rfl
  | orElse p q first second => exact (first c).orTry (second c)
  | zeroOrMore p each => exact onward_many each (.refl c)
  | oneOrMore p each =>
    refine (onward_many each (.refl c)).andThen fun xs c' after => ?_
    split
    · exact rfl
    · exact after
  | optional p default inner => exact (inner c).orTry (.refl c)
  | map p f inner => exact (inner c).map f
  | separated p q item between =>
    have start := item c
    rw [run_separated]
    generalize p.run look c = r at start
    cases r with
    | noMatch _ => exact .refl c
    | found x next => exact (onward_many (onward_both between item) start).map _
    | failed e => exact start
    | tooDeep => trivial
  | commit p expected inner => exact (inner c).orTry (.refl c)
  | update p sign accepts expected q target value =>
    rw [run_update]
    refine (target c).andThen fun x next after => ?_
    split
    · exact after
    next taken =>
      have beyond := after.trans (Cursor.Onward.of_take? taken).1
      split
      · exact .refl c
      · exact (value _).later beyond _
  | ref r label => exact refs r c

end Parser

namespace Rules

variable {R : Type → Type} (rules : Rules R)

theorem look_onward (depth : Nat) {α : Type} (r : R α) (c : Cursor) : (rules.look depth r c).Onward c := by
  induction depth generalizing α c with
  | zero => trivial
  | succ depth ih => exact Parser.run_onward ih (rules r) c

theorem parse_onward (depth : Nat) {α : Type} (p : Parser R α) (c : Cursor) : (rules.parse depth p c).Onward c :=
  Parser.run_onward (rules.look_onward depth) p c

end Rules
end Lox
