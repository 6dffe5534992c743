import Lox.Proofs.Parser.Nesting

set_option autoImplicit false

namespace Lox

def Reply.Calm {α : Type} : Reply α → Prop
  | found _ _ | noMatch _ => True
  | failed _ | tooDeep => False

theorem Reply.Calm.map {α β : Type} {r : Reply α} (h : r.Calm) (f : α → β) : (r.map f).Calm := by
  cases r <;> exact h

namespace Parser

variable {α β : Type} {step : Cursor → Reply α} {c last : Cursor} {xs : List α}

theorem calm_one (c : Cursor) (test : Kind → Bool) : (one c test).Calm := by
  unfold one
  split <;> trivial

theorem calm_both {p : Cursor → Reply α} {q : Cursor → Reply β} (first : ∀ c, (p c).Calm)
    (second : ∀ c, (q c).Calm) (c : Cursor) : (both p q c).Calm := by
  have start := first c
  unfold both
  generalize p c = r at start
  cases r with
  | noMatch _ => trivial
  | failed _ | tooDeep => exact start
  | found x next =>
    have rest := second next
    dsimp only [Reply.andThen]
    generalize q next = r at rest
    cases r <;> exact rest

/-- Rounds one after the other, as many as there are: each finds something and moves, and where the last one
ends there is nothing to find, or nothing that moves. -/
inductive MaximalChain (step : Cursor → Reply α) : Cursor → List α → Cursor → Prop
  | missed {c here : Cursor} : step c = .noMatch here → MaximalChain step c [] c
  | stayed {c next : Cursor} {x : α} : step c = .found x next → next.place = c.place → MaximalChain step c [] c
  | round {c next last : Cursor} {x : α} {xs : List α} : step c = .found x next → next.place ≠ c.place →
      MaximalChain step next xs last → MaximalChain step c (x :: xs) last

theorem MaximalChain.last_found (h : MaximalChain step c xs last) : last = c ∨ ∃ c' x, step c' = .found x last := by
  induction h with
  | missed _ | stayed _ _ => exact .inl rfl
  | @round c next last x xs found _ _ ih =>
    rcases ih with rfl | later
    · exact .inr ⟨c, x, found⟩
    · exact .inr later

theorem repeated_map (f : α → β) (left : List Token) (c : Cursor) :
    repeated (fun c => (step c).map f) left c = (repeated step left c).map (List.map f) := by
  induction left generalizing c with
  | nil =>
    unfold repeated
    cases step c with
    | found x next =>
      simp only [Reply.map, Reply.andThen, ite_self]
      rfl
    | noMatch _ | failed _ | tooDeep => rfl
  | cons t left ih =>
    unfold repeated
    cases step c with
    | found x next =>
      simp only [Reply.map, Reply.andThen] at ih ⊢
      split
      · rfl
      · rw [ih next]
        cases repeated step left next <;> rfl
    | noMatch _ | failed _ | tooDeep => rfl

section Onward

variable (each : ∀ c, (step c).Onward c)

include each

theorem rest_lt_of_round {next : Cursor} {x : α} (found : step c = .found x next) (moved : next.place ≠ c.place) :
    next.rest.length < c.rest.length := by
  have after := each c
  rw [found] at after
  have balance := after.balance
  have further := after.place_le
  omega

theorem repeated_ended (ended : c.rest = []) (left left' : List Token) :
    repeated step left c = repeated step left' c := by
  unfold repeated
  cases found : step c with
  | found x next =>
    have still : next.place = c.place := Decidable.byContradiction fun moved => by
      have fewer := rest_lt_of_round each found moved
      rw [ended] at fewer
      cases fewer
    dsimp only
    rw [if_pos still, if_pos still]
  | noMatch _ | failed _ | tooDeep => rfl

theorem repeated_enough {left left' : List Token} (enough : c.rest.length ≤ left.length)
    (enough' : c.rest.length ≤ left'.length) : repeated step left c = repeated step left' c := by
  induction left generalizing left' c with
  | nil => exact repeated_ended each (List.length_eq_zero_iff.1 (Nat.le_zero.1 enough)) _ _
  | cons t left ih =>
    cases left' with
    | nil => exact repeated_ended each (List.length_eq_zero_iff.1 (Nat.le_zero.1 enough')) _ _
    | cons t' left' =>
      unfold repeated
      cases found : step c with
      | found x next =>
        dsimp only
        split
        next => rfl
        next moved =>
          have fewer := rest_lt_of_round each found moved
          rw [List.length_cons] at enough enough'
          have rest : repeated step left next = repeated step left' next := ih (by omega) (by omega)
          rw [rest]
      | noMatch _ | failed _ | tooDeep => rfl

theorem many_round (c : Cursor) :
    many step c = match step c with
      | .found x next => if next.place = c.place then .found [] c else (many step next).map (x :: ·)
      | .noMatch _ => .found [] c
      | .failed e => .failed e
      | .tooDeep => .tooDeep := by
  -- One more round is allowed than there are tokens, so that one is left to be counted off.
  have more : many step c = repeated step (⟨.mark .dot, none⟩ :: c.rest) c :=
    repeated_enough each (Nat.le_refl _) (Nat.le_succ _)
  rw [more]
  unfold repeated
  cases found : step c with
  | found x next =>
    dsimp only
    split
    next => rfl
    next moved =>
      have fewer := rest_lt_of_round each found moved
      exact congrArg (Reply.map _) (repeated_enough each (Nat.le_of_lt fewer) (Nat.le_refl _))
  | noMatch _ | failed _ | tooDeep => rfl

theorem MaximalChain.length_le (h : MaximalChain step c xs last) : xs.length ≤ c.rest.length := by
  induction h with
  | missed _ | stayed _ _ => exact Nat.zero_le _
  | round found moved _ ih => exact Nat.lt_of_le_of_lt ih (rest_lt_of_round each found moved)

theorem many_of_chain (h : MaximalChain step c xs last) : many step c = .found xs last := by
  induction h with
  | missed missed => rw [many_round each, missed]
  | stayed found still =>
    rw [many_round each, found]
    exact if_pos still
  | round found moved _ ih =>
    rw [many_round each, found]
    dsimp only
    rw [if_neg moved, ih]
    rfl

theorem exists_chain (c : Cursor) (calm : ∀ c', Passes step c c' → (step c').Calm) :
    ∃ xs last, MaximalChain step c xs last := by
  induction ahead : c.rest.length using Nat.strongRecOn generalizing c with
  | ind n ih =>
    have round := calm c (.here c)
    cases found : step c with
    | noMatch here => exact ⟨[], c, .missed found⟩
    | found x next =>
      by_cases still : next.place = c.place
      · exact ⟨[], c, .stayed found still⟩
      · have fewer := rest_lt_of_round each found still
        obtain ⟨xs, last, rest⟩ :=
          ih _ (ahead ▸ fewer) next (fun c' passes => calm c' (.round found still passes)) rfl
        exact ⟨x :: xs, last, .round found still rest⟩
    | failed _ | tooDeep =>
      rw [found] at round
      exact round.elim

theorem calm_of_many (found : many step c = .found xs last) {c' : Cursor} (passes : Passes step c c') :
    (step c').Calm := by
  induction passes generalizing xs with
  | here c =>
    rw [many_round each] at found
    cases round : step c with
    | found _ _ | noMatch _ => trivial
    | failed _ | tooDeep =>
      rw [round] at found
      cases found
  | round round moved _ ih =>
    rw [many_round each, round] at found
    dsimp only at found
    rw [if_neg moved] at found
    obtain ⟨ys, others, -⟩ := Reply.of_map found
    exact ih others

theorem many_iff_chain : many step c = .found xs last ↔ MaximalChain step c xs last := by
  constructor
  · intro found
    obtain ⟨ys, last', chain⟩ := exists_chain each c fun c' passes => calm_of_many each found passes
    cases found.symm.trans (many_of_chain each chain)
    exact chain
  · exact many_of_chain each

end Onward

end Parser

namespace Rules

open Lox.Parser

variable {R : Type → Type} (rules : Rules R) (depth : Nat) {α β : Type} (p : Parser R α) (s : Parser R β)

theorem parse_right_iff {c last : Cursor} {y : α} :
    rules.parse depth (right s p) c = .found y last ↔
      ∃ z mid, rules.parse depth s c = .found z mid ∧ rules.parse depth p mid = .found y last := by
  have pair : rules.parse depth (right s p) c =
      (both (rules.parse depth s) (rules.parse depth p) c).map Prod.snd := rfl
  rw [pair]
  constructor
  · intro found
    obtain ⟨z, first, rfl⟩ := Reply.of_map found
    obtain ⟨mid, left, right⟩ := of_both first
    exact ⟨z.1, mid, left, right⟩
  · rintro ⟨z, mid, first, second⟩
    simp only [both, first, Reply.andThen, second, Reply.map]

theorem parse_separated (c : Cursor) :
    rules.parse depth (separated p s) c =
      match rules.parse depth p c with
      | .noMatch _ => .found [] c
      | reply => reply.andThen fun first next =>
        (rules.parse depth (zeroOrMore (right s p)) next).map (first :: ·) := by
  have pairs (next : Cursor) : rules.parse depth (zeroOrMore (right s p)) next =
      (many (both (rules.parse depth s) (rules.parse depth p)) next).map (List.map Prod.snd) :=
    repeated_map Prod.snd next.rest next
  simp only [pairs]
  change (separated p s).run (rules.look depth) c = _
  rw [run_separated]
  change (match rules.parse depth p c with
    | .noMatch _ => _
    | reply => _) = _
  cases rules.parse depth p c with
  | found first next =>
    dsimp only [Reply.andThen]
    change Reply.map _ (many (both (rules.parse depth s) (rules.parse depth p)) next) = _
    cases many (both (rules.parse depth s) (rules.parse depth p)) next <;> rfl
  | noMatch _ | failed _ | tooDeep => rfl

variable {rules depth p s} {c next last : Cursor} {x : α} {xs : List α}

theorem parse_oneOrMore (found : rules.parse depth (zeroOrMore p) c = .found xs last) :
    rules.parse depth (oneOrMore p) c = if xs = [] then .noMatch c else .found xs last := by
  change ((rules.parse depth (zeroOrMore p) c).andThen fun values next =>
    if values.isEmpty then .noMatch c else .found values next) = _
  rw [found]
  cases xs <;> rfl

theorem parse_separated_of_chain (first : rules.parse depth p c = .found x next)
    (chain : MaximalChain (rules.parse depth (right s p)) next xs last) :
    rules.parse depth (separated p s) c = .found (x :: xs) last := by
  have rounds : rules.parse depth (zeroOrMore (right s p)) next = .found xs last :=
    many_of_chain (rules.parse_onward depth (right s p)) chain
  rw [parse_separated, first]
  dsimp only [Reply.andThen]
  rw [rounds]
  rfl

theorem exists_last_item (first : rules.parse depth p c = .found x next)
    (chain : MaximalChain (rules.parse depth (right s p)) next xs last) :
    ∃ c' y, rules.parse depth p c' = .found y last := by
  rcases chain.last_found with rfl | ⟨c', y, final⟩
  · exact ⟨c, x, first⟩
  · obtain ⟨z, mid, -, behind⟩ := (rules.parse_right_iff depth p s).1 final
    exact ⟨mid, y, behind⟩

variable (rules depth p s)

/-- Unless a parser that is called fails, repetition finds the values of the rounds that move, as many as there
are: none of them makes no match where one is asked for, and between items there is one separator each, with
none taken that no item follows. -/
theorem repetition_maximal (tokens : List Token) (place : Nat) :
    let c := Cursor.start tokens place
    let item : Cursor → Reply α := rules.parse depth p
    let further : Cursor → Reply α := rules.parse depth (right s p)
    (∀ xs last, rules.parse depth (zeroOrMore p) c = .found xs last ↔ MaximalChain item c xs last) ∧
    ((∀ c', Passes item c c' → (item c').Calm) →
      ∃ xs last, MaximalChain item c xs last ∧ xs.length ≤ tokens.length - place ∧
        rules.parse depth (zeroOrMore p) c = .found xs last ∧
        rules.parse depth (oneOrMore p) c = if xs = [] then .noMatch c else .found xs last) ∧
    (∀ here, item c = .noMatch here → rules.parse depth (separated p s) c = .found [] c) ∧
    (∀ x next, item c = .found x next → (∀ c', Passes further next c' → (further c').Calm) →
      ∃ xs last, MaximalChain further next xs last ∧ rules.parse depth (separated p s) c = .found (x :: xs) last ∧
        ∃ c' y, item c' = .found y last) ∧
    ∀ c' y last, further c' = .found y last ↔
      ∃ z mid, rules.parse depth s c' = .found z mid ∧ item mid = .found y last := by
  intro c item further
  have items (c : Cursor) : (item c).Onward c := rules.parse_onward depth p c
  have pairs (c : Cursor) : (further c).Onward c := rules.parse_onward depth (right s p) c
  have ahead : c.rest.length = tokens.length - place := List.length_drop
  refine ⟨fun xs last => many_iff_chain items, ?_, ?_, ?_, fun c' y last => rules.parse_right_iff depth p s⟩
  · intro calm
    obtain ⟨xs, last, chain⟩ := exists_chain items c calm
    have found : rules.parse depth (zeroOrMore p) c = .found xs last := many_of_chain items chain
    exact ⟨xs, last, chain, ahead ▸ chain.length_le items, found, parse_oneOrMore found⟩
  · intro here missed
    have start : rules.parse depth p c = .noMatch here := missed
    rw [parse_separated, start]
  · intro x next first calm
    obtain ⟨xs, last, chain⟩ := exists_chain pairs next calm
    exact ⟨xs, last, chain, parse_separated_of_chain first chain, exists_last_item first chain⟩

theorem repetition_maximal_trailing :
    let rules : Rules fun _ => Empty := fun r => nomatch r
    let word : Parser (fun _ => Empty) Token := kind .identifier
    let comma : Parser (fun _ => Empty) Token := kind (.mark .comma)
    let a : Token := ⟨.identifier "a", none⟩
    let b : Token := ⟨.identifier "b", none⟩
    let tokens : List Token := [a, ⟨.mark .comma, none⟩, b, ⟨.mark .comma, none⟩]
    (∀ c, (rules.parse 0 word c).Calm) ∧ (∀ c, (rules.parse 0 (right comma word) c).Calm) ∧
      rules.parse 0 word (.start tokens 0) = .found a (.start tokens 1) ∧
      MaximalChain (rules.parse 0 (right comma word)) (.start tokens 1) [b] (.start tokens 3) ∧
      rules.parse 0 (zeroOrMore word) (.start tokens 0) = .found [a] (.start tokens 1) ∧
      rules.parse 0 (separated word comma) (.start tokens 0) = .found [a, b] (.start tokens 3) := by
  intro rules word comma a b tokens
  have words (c : Cursor) : (rules.parse 0 word c).Calm := calm_one c _
  have pairs (c : Cursor) : (rules.parse 0 (right comma word) c).Calm :=
    (calm_both (fun c => calm_one c (· == .mark .comma)) words c).map Prod.snd
  have start : rules.parse 0 word (.start tokens 0) = .found a (.start tokens 1) := rfl
  have chain : MaximalChain (rules.parse 0 (right comma word)) (.start tokens 1) [b] (.start tokens 3) := by
    have round : rules.parse 0 (right comma word) (.start tokens 1) = .found b (.start tokens 3) := rfl
    have ended : rules.parse 0 (right comma word) (.start tokens 3) = .noMatch (.start tokens 3) := rfl
    exact .round round (by decide) (.missed ended)
  obtain ⟨-, rounds, -, separated, -⟩ := rules.repetition_maximal 0 word comma tokens 0
  refine ⟨words, pairs, start, chain, ?_, ?_⟩
  · obtain ⟨xs, last, -, -, found, -⟩ := rounds fun c _ => words c
    rw [found]
    exact found.symm.trans rfl
  · obtain ⟨xs, last, -, found, -⟩ := separated a _ start fun c _ => pairs c
    rw [found]
    exact found.symm.trans rfl

end Rules
end Lox
