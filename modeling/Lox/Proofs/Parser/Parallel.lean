import Mathlib.Data.List.Forall2
import Lox.Proofs.Parser.Reads

set_option autoImplicit false

namespace Lox

section Beside

variable (R : Token → Token → Prop) (k : Nat)

structure Cursor.Beside (c c' : Cursor) : Prop where
  place : c'.place = c.place + k
  size : c'.size = c.size + k
  rest : List.Forall₂ R c.rest c'.rest

inductive Reply.Beside {α : Type} (V : α → α → Prop) : Reply α → Reply α → Prop
  | found {x y : α} {c c' : Cursor} (same : V x y) (next : c.Beside R k c') : Beside V (.found x c) (.found y c')
  | noMatch {c c' : Cursor} (here : c.Beside R k c') : Beside V (.noMatch c) (.noMatch c')
  | failed {expected : String} {c c' : Cursor} (here : c.Beside R k c') :
      Beside V (.failed ⟨expected, c⟩) (.failed ⟨expected, c'⟩)
  | tooDeep : Beside V .tooDeep .tooDeep

def Parser.Abreast {α : Type} (V : α → α → Prop) (step : Cursor → Reply α) : Prop :=
  ∀ c c' : Cursor, c.Beside R k c' → (step c).Beside R k V (step c')

end Beside

variable {R : Token → Token → Prop} {k : Nat} {α β : Type} {V : α → α → Prop} {W : β → β → Prop}

namespace Reply.Beside

variable {r r' : Reply α}

theorem imp_found {V' : α → α → Prop} (h : r.Beside R k V r')
    (sub : ∀ {x y c c'}, r = .found x c → r' = .found y c' → V x y → V' x y) : r.Beside R k V' r' := by
  cases h with
  | found same next => exact .found (sub rfl rfl same) next
  | noMatch here => exact .noMatch here
  | failed here => exact .failed here
  | tooDeep => exact .tooDeep

theorem imp {V' : α → α → Prop} (h : r.Beside R k V r') (sub : ∀ x y, V x y → V' x y) : r.Beside R k V' r' :=
  h.imp_found fun _ _ same => sub _ _ same

theorem andThen {f f' : α → Cursor → Reply β} (h : r.Beside R k V r')
    (next : ∀ x y c c', V x y → c.Beside R k c' → (f x c).Beside R k W (f' y c')) :
    (r.andThen f).Beside R k W (r'.andThen f') := by
  cases h with
  | found same beside => exact next _ _ _ _ same beside
  | noMatch here => exact .noMatch here
  | failed here => exact .failed here
  | tooDeep => exact .tooDeep

theorem map {f f' : α → β} (h : r.Beside R k V r') (same : ∀ x y, V x y → W (f x) (f' y)) :
    (r.map f).Beside R k W (r'.map f') :=
  h.andThen fun x y _ _ both next => .found (same x y both) next

theorem orTry {f f' : Cursor → Reply α} (h : r.Beside R k V r')
    (other : ∀ c c', c.Beside R k c' → (f c).Beside R k V (f' c')) :
    (r.orTry f).Beside R k V (r'.orTry f') := by
  cases h with
  | found same beside => exact .found same beside
  | noMatch here => exact other _ _ here
  | failed here => exact .failed here
  | tooDeep => exact .tooDeep

end Reply.Beside

namespace Parser

theorem Abreast.imp {V' : α → α → Prop} {step : Cursor → Reply α} (h : Abreast R k V step)
    (sub : ∀ x y, V x y → V' x y) : Abreast R k V' step :=
  fun c c' beside => (h c c' beside).imp sub

theorem take?_beside (kinds : ∀ t u, R t u → t.kind = u.kind) (test : Kind → Bool) {c c' : Cursor}
    (h : c.Beside R k c') :
    (c.take? test = none ∧ c'.take? test = none) ∨
      ∃ t u next next', c.take? test = some (t, next) ∧ c'.take? test = some (u, next') ∧
        (R t u ∧ test t.kind = true) ∧ next.Beside R k next' := by
  obtain ⟨place, rest, size⟩ := c
  obtain ⟨place', rest', size'⟩ := c'
  obtain ⟨places, sizes, both⟩ := h
  cases both with
  | nil => exact .inl ⟨rfl, rfl⟩
  | @cons t u rest rest' first others =>
    simp only [Cursor.take?, ← kinds t u first]
    by_cases fits : test t.kind = true
    · refine .inr ⟨t, u, _, _, if_pos fits, if_pos fits, ⟨first, fits⟩, ?_, sizes, others⟩
      simp only at places ⊢
      omega
    · exact .inl ⟨if_neg fits, if_neg fits⟩

theorem abreast_one (kinds : ∀ t u, R t u → t.kind = u.kind) (test : Kind → Bool) :
    Abreast R k (fun t u => R t u ∧ test t.kind = true) fun c => one c test := by
  intro c c' beside
  dsimp only [one]
  rcases take?_beside kinds test beside with ⟨none, none'⟩ | ⟨t, u, next, next', taken, taken', same, after⟩
  · rw [none, none']
    exact .noMatch beside
  · rw [taken, taken']
    exact .found same after

theorem Abreast.both {p : Cursor → Reply α} {q : Cursor → Reply β} (first : Abreast R k V p)
    (second : Abreast R k W q) : Abreast R k (fun x y => V x.1 y.1 ∧ W x.2 y.2) (both p q) := by
  intro c c' beside
  have start := first c c' beside
  unfold Parser.both
  generalize p c = r at start
  generalize p c' = r' at start
  cases start with
  | noMatch => exact .noMatch beside
  | failed here => exact .failed here
  | tooDeep => exact .tooDeep
  | @found x y next next' same after =>
    have rest := second next next' after
    dsimp only [Reply.andThen]
    generalize q next = r at rest
    generalize q next' = r' at rest
    cases rest with
    | noMatch => exact .noMatch beside
    | failed here => exact .failed here
    | tooDeep => exact .tooDeep
    | found same' after' => exact .found ⟨same, same'⟩ after'

theorem Abreast.repeated {step : Cursor → Reply α} (h : Abreast R k V step) {left left' : List Token}
    (fuel : left.length = left'.length) {c c' : Cursor} (beside : c.Beside R k c') :
    (repeated step left c).Beside R k (List.Forall₂ V) (repeated step left' c') := by
  -- The induction is on the tokens that bound the number of rounds, as many on both sides.
  induction left generalizing left' c c' with
  | nil =>
    obtain rfl : left' = [] := List.length_eq_zero_iff.1 fuel.symm
    have round := h c c' beside
    unfold Parser.repeated
    generalize step c = r at round
    generalize step c' = r' at round
    cases round with
    | noMatch => exact .found .nil beside
    | failed here => exact .failed here
    | tooDeep => exact .tooDeep
    | found =>
      simp only [ite_self]
      exact .found .nil beside
  | cons t left ih =>
    obtain ⟨t', left', rfl⟩ := List.exists_cons_of_length_eq_add_one fuel.symm
    have round := h c c' beside
    unfold Parser.repeated
    generalize step c = r at round
    generalize step c' = r' at round
    cases round with
    | noMatch => exact .found .nil beside
    | failed here => exact .failed here
    | tooDeep => exact .tooDeep
    | @found x y next next' same after =>
      have moves : next'.place = c'.place ↔ next.place = c.place := by
        rw [after.place, beside.place]
        omega
      dsimp only
      by_cases still : next.place = c.place
      · rw [if_pos still, if_pos (moves.2 still)]
        exact .found .nil beside
      · rw [if_neg still, if_neg (mt moves.1 still)]
        exact (ih (Nat.succ.inj fuel) after).map fun _ _ others => .cons same others

theorem Abreast.many {step : Cursor → Reply α} (h : Abreast R k V step) :
    Abreast R k (List.Forall₂ V) (many step) :=
  fun _ _ beside => h.repeated beside.rest.length_eq beside

section Combinators

variable {S : Type → Type} {look : {β : Type} → S β → Cursor → Reply β} {p : Parser S α} {q : Parser S β}

theorem abreast_kind (kinds : ∀ t u, R t u → t.kind = u.kind) (which : Kind) :
    Abreast R k (fun t u => R t u ∧ t.kind = which) ((kind which : Parser S Token).run look) :=
  (abreast_one kinds (· == which)).imp fun _ _ both => ⟨both.1, beq_iff_eq.1 both.2⟩

theorem abreast_oneOf (kinds : ∀ t u, R t u → t.kind = u.kind) (ks : List Kind) :
    Abreast R k R ((oneOf ks : Parser S Token).run look) :=
  (abreast_one kinds ks.contains).imp fun _ _ both => both.1

theorem Abreast.pair (first : Abreast R k V (p.run look)) (second : Abreast R k W (q.run look)) :
    Abreast R k (fun x y => V x.1 y.1 ∧ W x.2 y.2) ((Parser.pair p q).run look) :=
  first.both second

theorem Abreast.map (h : Abreast R k V (p.run look)) {f : α → β} (same : ∀ x y, V x y → W (f x) (f y)) :
    Abreast R k W ((Parser.map p f).run look) :=
  fun c c' beside => (h c c' beside).map same

theorem Abreast.left (first : Abreast R k V (p.run look)) (second : Abreast R k W (q.run look)) :
    Abreast R k V ((Parser.left p q).run look) :=
  (first.pair second).map fun _ _ both => both.1

theorem Abreast.right (first : Abreast R k V (p.run look)) (second : Abreast R k W (q.run look)) :
    Abreast R k W ((Parser.right p q).run look) :=
  (first.pair second).map fun _ _ both => both.2

theorem Abreast.commit (h : Abreast R k V (p.run look)) (expected : String) :
    Abreast R k V ((Parser.commit p expected).run look) :=
  fun c c' beside => (h c c' beside).orTry fun _ _ here => .failed here

theorem Abreast.orElse {p' : Parser S α} (h : Abreast R k V (p.run look)) (h' : Abreast R k V (p'.run look)) :
    Abreast R k V ((Parser.orElse p p').run look) :=
  fun c c' beside => (h c c' beside).orTry fun _ _ _ => h' c c' beside

theorem abreast_choice {ps : List (Parser S α)} (each : ∀ p ∈ ps, Abreast R k V (p.run look)) :
    Abreast R k V ((choice ps).run look) := by
  induction ps with
  | nil => exact fun _ _ beside => .noMatch beside
  | cons p ps ih =>
    exact (each p List.mem_cons_self).orElse (ih fun q member => each q (List.mem_cons_of_mem _ member))

theorem Abreast.zeroOrMore (h : Abreast R k V (p.run look)) :
    Abreast R k (List.Forall₂ V) ((Parser.zeroOrMore p).run look) :=
  h.many

theorem Abreast.optional (h : Abreast R k V (p.run look)) {default : α} (same : V default default) :
    Abreast R k V ((Parser.optional p default).run look) :=
  fun c c' beside => (h c c' beside).orTry fun _ _ _ => .found same beside

theorem Abreast.separated (h : Abreast R k V (p.run look)) (between : Abreast R k W (q.run look)) :
    Abreast R k (List.Forall₂ V) ((Parser.separated p q).run look) := by
  intro c c' beside
  have start := h c c' beside
  rw [run_separated, run_separated]
  generalize p.run look c = r at start
  generalize p.run look c' = r' at start
  cases start with
  | noMatch => exact .found .nil beside
  | failed here => exact .failed here
  | tooDeep => exact .tooDeep
  | found same after =>
    refine ((between.both h).many _ _ after).map fun more more' others => .cons same ?_
    rw [List.forall₂_map_left_iff, List.forall₂_map_right_iff]
    exact others.imp fun _ _ both => both.2

theorem Abreast.update (kinds : ∀ t u, R t u → t.kind = u.kind) {sign : Kind} {accepts : α → Option (β → α)}
    {expected : String} (target : Abreast R k V (p.run look)) (value : Abreast R k W (q.run look))
    (accepted : ∀ x y, V x y →
      Option.Rel (fun f g => ∀ z z', W z z' → V (f z) (g z')) (accepts x) (accepts y)) :
    Abreast R k V ((Parser.update p sign accepts expected q).run look) := by
  intro c c' beside
  rw [run_update, run_update]
  refine (target c c' beside).andThen fun x y next next' same after => ?_
  rcases take?_beside kinds (· == sign) after with ⟨none, none'⟩ | ⟨t, u, last, last', taken, taken', -, behind⟩
  · rw [none, none']
    exact .found same after
  · rw [taken, taken']
    have builds := accepted x y same
    dsimp only
    generalize accepts x = f at builds
    generalize accepts y = g at builds
    cases builds with
    | none => exact .failed beside
    | some build =>
      have rest := value last last' behind
      dsimp only
      generalize q.run look last = r at rest
      generalize q.run look last' = r' at rest
      cases rest with
      | noMatch => exact .noMatch beside
      | failed here => exact .failed here
      | tooDeep => exact .tooDeep
      | found both after => exact .found (build _ _ both) after

end Combinators

end Parser
end Lox
