import Lox.Parser.Run

set_option autoImplicit false

namespace Lox

def Cursor.before (size : Nat) (rest : List Token) : Cursor := ⟨size - rest.length, rest, size⟩

namespace Parser

variable {α β : Type}

structure Finds (step : Cursor → Reply α) (a b : List Token) (x : α) : Prop where
  le : b.length ≤ a.length
  run : ∀ size, a.length ≤ size → step (.before size a) = .found x (.before size b)

def Misses (step : Cursor → Reply α) (a : List Token) : Prop :=
  ∀ size, a.length ≤ size → ∃ here, step (.before size a) = .noMatch here

structure Repeats (step : Cursor → Reply α) (a b : List Token) (xs : List α) : Prop where
  le : b.length ≤ a.length
  run : ∀ size (left : List Token), a.length ≤ size → a.length ≤ left.length →
    repeated step left (.before size a) = .found xs (.before size b)

theorem Repeats.nil {step : Cursor → Reply α} {a : List Token} (h : Misses step a) :
    Repeats step a a [] := by
  refine ⟨Nat.le_refl _, fun size left enough _ => ?_⟩
  obtain ⟨here, missed⟩ := h size enough
  rw [repeated, missed]

theorem Repeats.cons {step : Cursor → Reply α} {a b c : List Token} {x : α} {xs : List α}
    (first : Finds step a b x) (shorter : b.length < a.length) (rest : Repeats step b c xs) :
    Repeats step a c (x :: xs) := by
  refine ⟨Nat.le_trans rest.le first.le, fun size left enough fuel => ?_⟩
  cases left with
  | nil => exact absurd fuel (by simp only [List.length_nil]; omega)
  | cons t left =>
    have moved : (Cursor.before size b).place ≠ (Cursor.before size a).place := by
      simp only [Cursor.before]
      omega
    have fuel : b.length ≤ left.length := by
      rw [List.length_cons] at fuel
      omega
    rw [repeated, first.run size enough]
    dsimp only
    rw [if_neg moved, rest.run size left (Nat.le_trans first.le enough) fuel]
    rfl

theorem Finds.both {p : Cursor → Reply α} {q : Cursor → Reply β} {a b c : List Token} {x : α} {y : β}
    (first : Finds p a b x) (second : Finds q b c y) : Finds (both p q) a c (x, y) := by
  refine ⟨Nat.le_trans second.le first.le, fun size enough => ?_⟩
  rw [Parser.both, first.run size enough]
  dsimp only [Reply.andThen]
  rw [second.run size (Nat.le_trans first.le enough)]
  rfl

theorem Misses.both_left {p : Cursor → Reply α} {a : List Token} (h : Misses p a)
    (q : Cursor → Reply β) : Misses (both p q) a := by
  intro size enough
  obtain ⟨here, missed⟩ := h size enough
  rw [Parser.both, missed]
  exact ⟨_, rfl⟩

theorem Misses.both_right {p : Cursor → Reply α} {q : Cursor → Reply β} {a b : List Token} {x : α}
    (h : Misses q b) (first : Finds p a b x) : Misses (both p q) a := by
  intro size enough
  obtain ⟨here, missed⟩ := h size (Nat.le_trans first.le enough)
  rw [Parser.both, first.run size enough]
  dsimp only [Reply.andThen]
  rw [missed]
  exact ⟨_, rfl⟩

section One

variable {t : Token} {a : List Token}

def ahead (a : List Token) : Option Kind := a.head?.map Token.kind

theorem finds_one {test : Kind → Bool} (h : test t.kind = true) :
    Finds (fun c => one c test) (t :: a) a t := by
  refine ⟨Nat.le_succ _, fun size enough => ?_⟩
  have place : size - (t :: a).length + 1 = size - a.length := by
    rw [List.length_cons] at *
    omega
  simp only [one, Cursor.take?, Cursor.before, h, if_true, place]

theorem misses_one {test : Kind → Bool} (h : ∀ k, ahead a = some k → test k = false) :
    Misses (fun c => one c test) a := by
  intro size _
  refine ⟨.before size a, ?_⟩
  cases a with
  | nil => rfl
  | cons t rest =>
    simp only [one, Cursor.take?, Cursor.before, h t.kind rfl]
    rfl

end One

section Combinators

variable {R : Type → Type} {look : {β : Type} → R β → Cursor → Reply β}
  {p : Parser R α} {q : Parser R β} {a b c : List Token} {x : α} {y : β}

theorem finds_kind {k : Kind} {t : Token} (h : t.kind = k) :
    Finds ((kind k : Parser R Token).run look) (t :: a) a t :=
  finds_one (beq_iff_eq.2 h)

theorem misses_kind {k : Kind} (h : ahead a ≠ some k) :
    Misses ((kind k : Parser R Token).run look) a :=
  misses_one fun _ here => beq_eq_false_iff_ne.2 fun same => h (same ▸ here)

theorem finds_oneOf {ks : List Kind} {t : Token} (h : t.kind ∈ ks) :
    Finds ((oneOf ks : Parser R Token).run look) (t :: a) a t :=
  finds_one (List.contains_iff_mem.2 h)

theorem misses_oneOf {ks : List Kind} (h : ∀ k, ahead a = some k → k ∉ ks) :
    Misses ((oneOf ks : Parser R Token).run look) a :=
  misses_one fun k here => by
    rw [← Bool.not_eq_true, List.contains_iff_mem]
    exact h k here

theorem run_map (f : α → β) (c : Cursor) : (map p f).run look c = (p.run look c).map f := rfl

theorem run_commit (expected : String) (c : Cursor) :
    (commit p expected).run look c = (p.run look c).orTry fun here => .failed ⟨expected, here⟩ := rfl

theorem run_orElse (p p' : Parser R α) (c : Cursor) :
    (orElse p p').run look c = (p.run look c).orTry fun _ => p'.run look c := rfl

theorem run_optional (default : α) (c : Cursor) :
    (optional p default).run look c = (p.run look c).orTry fun _ => .found default c := rfl

theorem run_separated (c : Cursor) :
    (separated p q).run look c =
      match p.run look c with
      | .noMatch _ => .found [] c
      | reply => reply.andThen fun first next =>
        (many (both (q.run look) (p.run look)) next).map fun more => first :: more.map Prod.snd := rfl

theorem run_update (sign : Kind) (accepts : α → Option (β → α)) (expected : String) (c : Cursor) :
    (update p sign accepts expected q).run look c =
      (p.run look c).andThen fun found next =>
        match next.take? (· == sign) with
        | none => .found found next
        | some (_, afterSign) =>
          match accepts found with
          | none => .failed ⟨expected, c⟩
          | some build =>
            match q.run look afterSign with
            | .noMatch _ => .noMatch c
            | reply => reply.map build := rfl

theorem Finds.pair (first : Finds (p.run look) a b x) (second : Finds (q.run look) b c y) :
    Finds ((Parser.pair p q).run look) a c (x, y) :=
  first.both second

theorem Finds.map (h : Finds (p.run look) a b x) (f : α → β) :
    Finds ((Parser.map p f).run look) a b (f x) := by
  refine ⟨h.le, fun size enough => ?_⟩
  rw [run_map, h.run size enough]
  rfl

theorem Finds.left (first : Finds (p.run look) a b x) (second : Finds (q.run look) b c y) :
    Finds ((Parser.left p q).run look) a c x :=
  (first.pair second).map Prod.fst

theorem Finds.right (first : Finds (p.run look) a b x) (second : Finds (q.run look) b c y) :
    Finds ((Parser.right p q).run look) a c y :=
  (first.pair second).map Prod.snd

theorem Finds.commit (h : Finds (p.run look) a b x) (expected : String) :
    Finds ((Parser.commit p expected).run look) a b x := by
  refine ⟨h.le, fun size enough => ?_⟩
  rw [run_commit, h.run size enough]
  rfl

theorem Finds.first {p' : Parser R α} (h : Finds (p.run look) a b x) :
    Finds ((orElse p p').run look) a b x := by
  refine ⟨h.le, fun size enough => ?_⟩
  rw [run_orElse, h.run size enough]
  rfl

theorem Finds.later {p' : Parser R α} (h : Finds (p'.run look) a b x) (missed : Misses (p.run look) a) :
    Finds ((orElse p p').run look) a b x := by
  refine ⟨h.le, fun size enough => ?_⟩
  obtain ⟨here, missed⟩ := missed size enough
  rw [run_orElse, missed]
  exact h.run size enough

theorem Finds.present {default : α} (h : Finds (p.run look) a b x) :
    Finds ((optional p default).run look) a b x := by
  refine ⟨h.le, fun size enough => ?_⟩
  rw [run_optional, h.run size enough]
  rfl

theorem Misses.absent {default : α} (h : Misses (p.run look) a) :
    Finds ((optional p default).run look) a a default := by
  refine ⟨Nat.le_refl _, fun size enough => ?_⟩
  obtain ⟨here, missed⟩ := h size enough
  rw [run_optional, missed]
  rfl

theorem Repeats.zeroOrMore {xs : List α} (h : Repeats (p.run look) a b xs) :
    Finds ((Parser.zeroOrMore p).run look) a b xs :=
  ⟨h.le, fun size enough => h.run size a enough (Nat.le_refl _)⟩

theorem Misses.separated (h : Misses (p.run look) a) (q : Parser R β) :
    Finds ((Parser.separated p q).run look) a a [] := by
  refine ⟨Nat.le_refl _, fun size enough => ?_⟩
  obtain ⟨here, missed⟩ := h size enough
  rw [run_separated, missed]

theorem Finds.separated {pairs : List (β × α)} (first : Finds (p.run look) a b x)
    (more : Repeats (Parser.both (q.run look) (p.run look)) b c pairs) :
    Finds ((Parser.separated p q).run look) a c (x :: pairs.map Prod.snd) := by
  refine ⟨Nat.le_trans more.le first.le, fun size enough => ?_⟩
  rw [run_separated, first.run size enough]
  dsimp only [Reply.andThen]
  have rounds := more.run size b (Nat.le_trans first.le enough) (Nat.le_refl _)
  exact congrArg (Reply.map fun more => x :: more.map Prod.snd) rounds

theorem Finds.keep {sign : Kind} {accepts : α → Option (β → α)} {expected : String}
    (h : Finds (p.run look) a b x) (other : ahead b ≠ some sign) :
    Finds ((update p sign accepts expected q).run look) a b x := by
  refine ⟨h.le, fun size enough => ?_⟩
  have none : (Cursor.before size b).take? (· == sign) = none := by
    cases b with
    | nil => rfl
    | cons t rest =>
      have different : (t.kind == sign) = false :=
        beq_eq_false_iff_ne.2 fun same => other (same ▸ rfl)
      simp [Cursor.take?, Cursor.before, different]
  rw [run_update, h.run size enough]
  dsimp only [Reply.andThen]
  rw [none]

theorem Finds.update {sign : Kind} {accepts : α → Option (β → α)} {expected : String} {t : Token}
    {build : β → α} (target : Finds (p.run look) a (t :: b) x) (isSign : t.kind = sign)
    (accepted : accepts x = some build) (value : Finds (q.run look) b c y) :
    Finds ((Parser.update p sign accepts expected q).run look) a c (build y) := by
  have le := target.le
  rw [List.length_cons] at le
  refine ⟨Nat.le_trans value.le (by omega), fun size enough => ?_⟩
  have some : (Cursor.before size (t :: b)).take? (· == sign) = some (t, .before size b) := by
    have place : size - (t :: b).length + 1 = size - b.length := by
      rw [List.length_cons]
      omega
    simp only [Cursor.take?, Cursor.before, isSign, beq_self_eq_true, if_true, place]
  rw [run_update, target.run size enough]
  dsimp only [Reply.andThen]
  rw [some]
  dsimp only
  rw [accepted]
  dsimp only
  rw [value.run size (by omega)]
  rfl

theorem Misses.pair (h : Misses (p.run look) a) (q : Parser R β) :
    Misses ((Parser.pair p q).run look) a :=
  h.both_left _

theorem Misses.pair_right (first : Finds (p.run look) a b x) (h : Misses (q.run look) b) :
    Misses ((Parser.pair p q).run look) a :=
  h.both_right first

theorem Misses.map (h : Misses (p.run look) a) (f : α → β) :
    Misses ((Parser.map p f).run look) a := by
  intro size enough
  obtain ⟨here, missed⟩ := h size enough
  rw [run_map, missed]
  exact ⟨here, rfl⟩

theorem Misses.orElse {p' : Parser R α} (h : Misses (p.run look) a) (h' : Misses (p'.run look) a) :
    Misses ((Parser.orElse p p').run look) a := by
  intro size enough
  obtain ⟨here, missed⟩ := h size enough
  rw [run_orElse, missed]
  exact h' size enough

theorem misses_never : Misses ((never : Parser R α).run look) a := fun _ _ => ⟨_, rfl⟩

theorem misses_choice {ps : List (Parser R α)} (h : ∀ p ∈ ps, Misses (p.run look) a) :
    Misses ((choice ps).run look) a := by
  induction ps with
  | nil => exact misses_never
  | cons p ps ih =>
    exact (h p List.mem_cons_self).orElse (ih fun q member => h q (List.mem_cons_of_mem _ member))

theorem Finds.choice {ps qs : List (Parser R α)} (h : Finds (p.run look) a b x)
    (missed : ∀ q ∈ ps, Misses (q.run look) a) :
    Finds ((Parser.choice (ps ++ p :: qs)).run look) a b x := by
  induction ps with
  | nil => exact h.first
  | cons q ps ih =>
    refine Finds.later (ih fun q member => missed q (List.mem_cons_of_mem _ member)) ?_
    exact missed q List.mem_cons_self

theorem finds_kinds {ks : List Kind} {t : Token} (h : t.kind ∈ ks) (f : Token → α) :
    Finds ((Parser.choice (ks.map fun k => (kind k).map f) : Parser R α).run look) (t :: a) a (f t) := by
  induction ks with
  | nil => cases h
  | cons k ks ih =>
    by_cases same : t.kind = k
    · exact ((finds_kind same).map f).first
    · refine Finds.later (ih ((List.mem_cons.1 h).resolve_left same)) ?_
      exact (misses_kind fun here : ahead (t :: a) = some k => same (Option.some.inj here)).map f

theorem misses_kinds {ks : List Kind} (h : ∀ k, ahead a = some k → k ∉ ks) (f : Token → α) :
    Misses ((Parser.choice (ks.map fun k => (kind k).map f) : Parser R α).run look) a := by
  refine misses_choice fun p member => ?_
  obtain ⟨k, inside, rfl⟩ := List.mem_map.1 member
  exact (misses_kind fun here => h k here inside).map f

theorem Misses.update (h : Misses (p.run look) a) (sign : Kind) (accepts : α → Option (β → α))
    (expected : String) (q : Parser R β) :
    Misses ((Parser.update p sign accepts expected q).run look) a := by
  intro size enough
  obtain ⟨here, missed⟩ := h size enough
  rw [run_update, missed]
  exact ⟨here, rfl⟩

end Combinators

end Parser
end Lox
