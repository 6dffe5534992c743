import Lox.Proofs.Parser.Reads

set_option autoImplicit false

namespace Lox

namespace Reply

variable {α β : Type} {r : Reply α} {last : Cursor}

theorem of_andThen {f : α → Cursor → Reply β} {y : β} (h : r.andThen f = .found y last) :
    ∃ x next, r = .found x next ∧ f x next = .found y last := by
  cases r with
  | found x next => exact ⟨x, next, rfl, h⟩
  | noMatch _ | failed _ | tooDeep => cases h

theorem of_map {f : α → β} {y : β} (h : r.map f = .found y last) :
    ∃ x, r = .found x last ∧ f x = y := by
  obtain ⟨x, next, found, result⟩ := of_andThen h
  cases result
  exact ⟨x, found, rfl⟩

theorem of_orTry {f : Cursor → Reply α} {x : α} (h : r.orTry f = .found x last) :
    r = .found x last ∨ ∃ here, r = .noMatch here ∧ f here = .found x last := by
  cases r with
  | found _ _ => exact .inl h
  | noMatch here => exact .inr ⟨here, rfl, h⟩
  | failed _ | tooDeep => cases h

end Reply

namespace Parser

variable {α β : Type}

def Ensures (step : Cursor → Reply α) (Q : List Token → List Token → α → Prop) : Prop :=
  ∀ c x next, step c = .found x next → Q c.rest next.rest x

inductive Rounds (Q : List Token → List Token → α → Prop) : List Token → List Token → List α → Prop
  | nil (a : List Token) : Rounds Q a a []
  | cons {a b c : List Token} {x : α} {xs : List α} : Q a b x → Rounds Q b c xs → Rounds Q a c (x :: xs)

variable {P P' : List Token → List Token → α → Prop} {Q : List Token → List Token → β → Prop}

theorem Ensures.imp {step : Cursor → Reply α} (h : Ensures step P) (sub : ∀ a b x, P a b x → P' a b x) :
    Ensures step P' :=
  fun c x next found => sub _ _ _ (h c x next found)

theorem take?_eq_some {c next : Cursor} {test : Kind → Bool} {t : Token}
    (h : c.take? test = some (t, next)) : c.rest = t :: next.rest ∧ test t.kind = true := by
  obtain ⟨place, rest, size⟩ := c
  cases rest with
  | nil => cases h
  | cons t' rest =>
    simp only [Cursor.take?, Option.ite_none_right_eq_some] at h
    obtain ⟨fits, same⟩ := h
    cases same
    exact ⟨rfl, fits⟩

theorem ensures_one (test : Kind → Bool) :
    Ensures (fun c => one c test) fun a b t => a = t :: b ∧ test t.kind = true := by
  intro c x next found
  dsimp only [one] at found
  split at found
  next t last taken =>
    cases found
    exact take?_eq_some taken
  next => cases found

theorem Ensures.repeated {step : Cursor → Reply α} (h : Ensures step P) (left : List Token) :
    Ensures (repeated step left) (Rounds P) := by
  -- The induction is on the tokens that bound the number of rounds.
  induction left with
  | nil =>
    intro c xs last found
    rw [Parser.repeated] at found
    split at found
    next x next round =>
      simp only [ite_self] at found
      cases found
      exact .nil _
    next => cases found; exact .nil _
    next => cases found
    next => cases found
  | cons t left ih =>
    intro c xs last found
    rw [Parser.repeated] at found
    split at found
    next x next round =>
      split at found
      next =>
        cases found
        exact .nil _
      next =>
        obtain ⟨ys, others, rfl⟩ := Reply.of_map found
        exact .cons (h c x next round) (ih next ys last others)
    next => cases found; exact .nil _
    next => cases found
    next => cases found

theorem Ensures.both {p : Cursor → Reply α} {q : Cursor → Reply β} (first : Ensures p P)
    (second : Ensures q Q) : Ensures (both p q) fun a c z => ∃ b, P a b z.1 ∧ Q b c z.2 := by
  intro c z last found
  unfold Parser.both at found
  split at found
  next => cases found
  next =>
    obtain ⟨x, next, left, found⟩ := Reply.of_andThen found
    split at found
    next => cases found
    next =>
      obtain ⟨y, right, rfl⟩ := Reply.of_map found
      exact ⟨next.rest, first c x next left, second next y last right⟩

section Combinators

variable {R : Type → Type} {look : {β : Type} → R β → Cursor → Reply β} {p : Parser R α} {q : Parser R β}

theorem ensures_kind (k : Kind) :
    Ensures ((kind k : Parser R Token).run look) fun a b t => a = t :: b ∧ t.kind = k :=
  (ensures_one (· == k)).imp fun _ _ _ h => ⟨h.1, beq_iff_eq.1 h.2⟩

theorem ensures_oneOf (ks : List Kind) :
    Ensures ((oneOf ks : Parser R Token).run look) fun a b t => a = t :: b ∧ t.kind ∈ ks :=
  (ensures_one ks.contains).imp fun _ _ _ h => ⟨h.1, List.contains_iff_mem.1 h.2⟩

theorem Ensures.pair (first : Ensures (p.run look) P) (second : Ensures (q.run look) Q) :
    Ensures ((Parser.pair p q).run look) fun a c z => ∃ b, P a b z.1 ∧ Q b c z.2 :=
  first.both second

theorem Ensures.map (h : Ensures (p.run look) P) (f : α → β) (sub : ∀ a b x, P a b x → Q a b (f x)) :
    Ensures ((Parser.map p f).run look) Q := by
  intro c y next found
  rw [run_map] at found
  obtain ⟨x, inner, rfl⟩ := Reply.of_map found
  exact sub _ _ _ (h c x next inner)

theorem Ensures.left (first : Ensures (p.run look) P) (second : Ensures (q.run look) Q) :
    Ensures ((Parser.left p q).run look) fun a c x => ∃ b y, P a b x ∧ Q b c y :=
  (first.pair second).map _ fun _ _ _ ⟨b, found, found'⟩ => ⟨b, _, found, found'⟩

theorem Ensures.right (first : Ensures (p.run look) P) (second : Ensures (q.run look) Q) :
    Ensures ((Parser.right p q).run look) fun a c y => ∃ b x, P a b x ∧ Q b c y :=
  (first.pair second).map _ fun _ _ _ ⟨b, found, found'⟩ => ⟨b, _, found, found'⟩

theorem Ensures.commit (h : Ensures (p.run look) P) (expected : String) :
    Ensures ((Parser.commit p expected).run look) P := by
  intro c x next found
  rw [run_commit] at found
  rcases Reply.of_orTry found with inner | ⟨here, -, failed⟩
  · exact h c x next inner
  · cases failed

theorem Ensures.orElse {p' : Parser R α} (h : Ensures (p.run look) P) (h' : Ensures (p'.run look) P) :
    Ensures ((Parser.orElse p p').run look) P := by
  intro c x next found
  rw [run_orElse] at found
  rcases Reply.of_orTry found with inner | ⟨here, -, other⟩
  · exact h c x next inner
  · exact h' c x next other

theorem ensures_never : Ensures ((never : Parser R α).run look) P := by
  intro c x next found
  cases found

theorem ensures_choice {ps : List (Parser R α)} (each : ∀ p ∈ ps, Ensures (p.run look) P) :
    Ensures ((choice ps).run look) P := by
  induction ps with
  | nil => exact ensures_never
  | cons p ps ih =>
    exact (each p List.mem_cons_self).orElse (ih fun q member => each q (List.mem_cons_of_mem _ member))

theorem Ensures.zeroOrMore (h : Ensures (p.run look) P) :
    Ensures ((Parser.zeroOrMore p).run look) (Rounds P) :=
  fun c => h.repeated c.rest c

theorem Ensures.optional (h : Ensures (p.run look) P) (default : α) :
    Ensures ((Parser.optional p default).run look) fun a b x =>
      P a b x ∨ x = default ∧ a = b ∧ ∃ c here, c.rest = a ∧ p.run look c = .noMatch here := by
  intro c x next found
  rw [run_optional] at found
  rcases Reply.of_orTry found with inner | ⟨here, missed, absent⟩
  · exact .inl (h c x next inner)
  · cases absent
    exact .inr ⟨rfl, rfl, c, here, rfl, missed⟩

theorem Ensures.separated (h : Ensures (p.run look) P) (between : Ensures (q.run look) Q) :
    Ensures ((Parser.separated p q).run look) fun a c xs =>
      xs = [] ∧ a = c ∨ ∃ b x more, P a b x ∧
        Rounds (fun a c (z : β × α) => ∃ b, Q a b z.1 ∧ P b c z.2) b c more ∧
        xs = x :: more.map Prod.snd := by
  intro c xs last found
  rw [run_separated] at found
  split at found
  next =>
    cases found
    exact .inl ⟨rfl, rfl⟩
  next =>
    obtain ⟨x, next, inner, found⟩ := Reply.of_andThen found
    obtain ⟨more, rounds, rfl⟩ := Reply.of_map found
    exact .inr ⟨next.rest, x, more, h c x next inner, (between.both h).repeated _ _ _ _ rounds, rfl⟩

theorem Ensures.update {sign : Kind} {accepts : α → Option (β → α)} {expected : String}
    (target : Ensures (p.run look) P) (value : Ensures (q.run look) Q) :
    Ensures ((Parser.update p sign accepts expected q).run look) fun a c x =>
      P a c x ∨ ∃ t b y build z, P a (t :: b) y ∧ t.kind = sign ∧ accepts y = some build ∧ Q b c z ∧
        x = build z := by
  intro c x last found
  rw [run_update] at found
  obtain ⟨y, next, inner, found⟩ := Reply.of_andThen found
  have before := target c y next inner
  split at found
  next =>
    cases found
    exact .inl before
  next t after taken =>
    obtain ⟨rest, same⟩ := take?_eq_some taken
    rw [rest] at before
    split at found
    next => cases found
    next build accepted =>
      split at found
      next => cases found
      next =>
        obtain ⟨z, assigned, rfl⟩ := Reply.of_map found
        exact .inr ⟨t, after.rest, y, build, z, before, beq_iff_eq.1 same, accepted,
          value after z last assigned, rfl⟩

theorem ahead_of_missed {k : Kind} {expected : String} {f : α → β} {c here : Cursor}
    (missed : ((right (kind k) (commit p expected)).map f).run look c = .noMatch here) :
    ahead c.rest ≠ some k := by
  obtain ⟨place, rest, size⟩ := c
  intro next
  cases rest with
  | nil => cases next
  | cons t rest =>
    have same : t.kind = k := Option.some.inj next
    have first : (kind k : Parser R Token).run look ⟨place, t :: rest, size⟩ =
        .found t ⟨place + 1, rest, size⟩ := by
      simp [Parser.run, one, Cursor.take?, same]
    have whole : ((right (kind k) (commit p expected)).map f).run look ⟨place, t :: rest, size⟩ =
        ((both ((kind k : Parser R Token).run look) ((commit p expected).run look)
          ⟨place, t :: rest, size⟩).map Prod.snd).map f := rfl
    rw [whole, Parser.both, first] at missed
    simp only [Reply.andThen, run_commit] at missed
    -- From here on giving up counts as a failure.
    cases after : p.run look ⟨place + 1, rest, size⟩ <;> rw [after] at missed <;> cases missed

end Combinators

end Parser
end Lox
