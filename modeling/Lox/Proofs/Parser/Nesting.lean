import Lox.Proofs.Parser.Progress

set_option autoImplicit false

namespace Lox

namespace Parser

variable {R : Type → Type}

structure Call (R : Type → Type) where
  {α : Type}
  parser : Parser R α
  here : Cursor

inductive Passes {α : Type} (step : Cursor → Reply α) : Cursor → Cursor → Prop
  | here (c : Cursor) : Passes step c c
  | round {c next c' : Cursor} {x : α} : step c = .found x next → next.place ≠ c.place → Passes step next c' →
      Passes step c c'

inductive Makes (rules : Rules R) (look : {β : Type} → R β → Cursor → Reply β) : Call R → Call R → Prop
  | first {α β : Type} {p : Parser R α} {q : Parser R β} {c : Cursor} : Makes rules look ⟨pair p q, c⟩ ⟨p, c⟩
  | second {α β : Type} {p : Parser R α} {q : Parser R β} {c next : Cursor} {x : α} :
      p.run look c = .found x next → Makes rules look ⟨pair p q, c⟩ ⟨q, next⟩
  | attempt {α : Type} {p q : Parser R α} {c : Cursor} : Makes rules look ⟨orElse p q, c⟩ ⟨p, c⟩
  | other {α : Type} {p q : Parser R α} {c here : Cursor} :
      p.run look c = .noMatch here → Makes rules look ⟨orElse p q, c⟩ ⟨q, c⟩
  | zeroOrMore {α : Type} {p : Parser R α} {c c' : Cursor} :
      Passes (p.run look) c c' → Makes rules look ⟨zeroOrMore p, c⟩ ⟨p, c'⟩
  | oneOrMore {α : Type} {p : Parser R α} {c c' : Cursor} :
      Passes (p.run look) c c' → Makes rules look ⟨oneOrMore p, c⟩ ⟨p, c'⟩
  | optional {α : Type} {p : Parser R α} {default : α} {c : Cursor} : Makes rules look ⟨optional p default, c⟩ ⟨p, c⟩
  | map {α β : Type} {p : Parser R α} {f : α → β} {c : Cursor} : Makes rules look ⟨map p f, c⟩ ⟨p, c⟩
  | item {α β : Type} {p : Parser R α} {q : Parser R β} {c : Cursor} : Makes rules look ⟨separated p q, c⟩ ⟨p, c⟩
  | separator {α β : Type} {p : Parser R α} {q : Parser R β} {c next c' : Cursor} {x : α} :
      p.run look c = .found x next → Passes (both (q.run look) (p.run look)) next c' →
      Makes rules look ⟨separated p q, c⟩ ⟨q, c'⟩
  | nextItem {α β : Type} {p : Parser R α} {q : Parser R β} {c next c' after : Cursor} {x : α} {y : β} :
      p.run look c = .found x next → Passes (both (q.run look) (p.run look)) next c' →
      q.run look c' = .found y after → Makes rules look ⟨separated p q, c⟩ ⟨p, after⟩
  | commit {α : Type} {p : Parser R α} {expected : String} {c : Cursor} : Makes rules look ⟨commit p expected, c⟩ ⟨p, c⟩
  | target {α β : Type} {p : Parser R α} {sign : Kind} {accepts : α → Option (β → α)} {expected : String}
      {q : Parser R β} {c : Cursor} : Makes rules look ⟨update p sign accepts expected q, c⟩ ⟨p, c⟩
  | value {α β : Type} {p : Parser R α} {sign : Kind} {accepts : α → Option (β → α)} {expected : String}
      {q : Parser R β} {c next after : Cursor} {x : α} {t : Token} :
      p.run look c = .found x next → next.take? (· == sign) = some (t, after) → (accepts x).isSome →
      Makes rules look ⟨update p sign accepts expected q, c⟩ ⟨q, after⟩
  | rule {α : Type} {r : R α} {label : String} {c : Cursor} : Makes rules look ⟨ref r label, c⟩ ⟨rules r, c⟩

inductive Nested (rules : Rules R) (look : {β : Type} → R β → Cursor → Reply β) : Nat → Call R → Call R → Prop
  | here (x : Call R) : Nested rules look 0 x x
  | within {n : Nat} {x y z : Call R} : Makes rules look x y → Nested rules look n y z → Nested rules look (n + 1) x z

theorem Passes.onward {α : Type} {step : Cursor → Reply α} (each : ∀ c, (step c).Onward c) {c c' : Cursor}
    (h : Passes step c c') : c.Onward c' := by
  induction h with
  | here c => exact .refl c
  | @round c next c' x found _ _ ih =>
    have start := each c
    rw [found] at start
    exact start.trans ih

end Parser

namespace Rules

open Lox.Parser

variable {R : Type → Type}

def Bounded (rules : Rules R) (deep : Nat) : Prop := ∀ {β : Type} (r : R β), (rules r).height ≤ deep

section Nesting

variable {rules : Rules R} {level : {β : Type} → R β → Nat} {top deep depth : Nat} {x y : Call R}

def Smaller (level : {β : Type} → R β → Nat) (x y : Call R) : Prop :=
  x.here.place < y.here.place ∨ y.parser.lead level < x.parser.lead level ∨
    y.parser.lead level ≤ x.parser.lead level ∧ y.parser.height < x.parser.height

theorem Ranked.smaller (ranked : rules.Ranked level top) (made : Makes rules (rules.look depth) x y) :
    x.here.Onward y.here ∧ Smaller level x y := by
  have onward {α : Type} (p : Parser R α) (c : Cursor) := run_onward (rules.look_onward depth) p c
  have further {γ : Type} {p : Parser R γ} {c next : Cursor} {x : γ} (found : p.run (rules.look depth) c = .found x next) :
      c.Onward next := by
    have after := onward p c
    rwa [found] at after
  have moves {γ : Type} {p : Parser R γ} {c next : Cursor} {x : γ} (found : p.run (rules.look depth) c = .found x next)
      (sure : p.takes = true) : c.place < next.place :=
    run_takes (rules.look_onward depth) (ranked.look_takes depth) p sure found
  cases made with
  | @first α β p q c =>
    refine ⟨.refl c, .inr (.inr ⟨Nat.le_max_left _ _, ?_⟩)⟩
    exact Nat.lt_succ_of_le (Nat.le_max_left _ _)
  | @second α β p q c next x found =>
    refine ⟨further found, ?_⟩
    -- Where the first part may take nothing, the lead of the whole counts that of the second.
    by_cases sure : p.takes = true
    · exact .inl (moves found sure)
    · refine .inr (.inr ⟨?_, Nat.lt_succ_of_le (Nat.le_max_right _ _)⟩)
      simp only [lead, if_neg sure]
      exact Nat.le_max_right _ _
  | @attempt α p q c =>
    refine ⟨.refl c, .inr (.inr ⟨Nat.le_max_left _ _, ?_⟩)⟩
    exact Nat.lt_succ_of_le (Nat.le_max_left _ _)
  | @other α p q c here missed =>
    refine ⟨.refl c, .inr (.inr ⟨Nat.le_max_right _ _, ?_⟩)⟩
    exact Nat.lt_succ_of_le (Nat.le_max_right _ _)
  | zeroOrMore passes | oneOrMore passes =>
    exact ⟨passes.onward (onward _), .inr (.inr ⟨Nat.le_refl _, Nat.lt_succ_self _⟩)⟩
  | optional | map | commit => exact ⟨.refl _, .inr (.inr ⟨Nat.le_refl _, Nat.lt_succ_self _⟩)⟩
  | @item α β p q c =>
    refine ⟨.refl c, .inr (.inr ⟨Nat.le_max_left _ _, ?_⟩)⟩
    exact Nat.lt_succ_of_le (Nat.le_max_left _ _)
  | @separator α β p q c next c' x found passes =>
    have rounds := passes.onward (onward_both (onward q) (onward p))
    refine ⟨(further found).trans rounds, ?_⟩
    by_cases sure : p.takes = true
    · exact .inl (Nat.lt_of_lt_of_le (moves found sure) rounds.place_le)
    · refine .inr (.inr ⟨?_, Nat.lt_succ_of_le (Nat.le_max_right _ _)⟩)
      simp only [lead, if_neg sure]
      exact Nat.le_max_right _ _
  | @nextItem α β p q c next c' after x y found passes found' =>
    have rounds := passes.onward (onward_both (onward q) (onward p))
    refine ⟨(further found).trans (rounds.trans (further found')), .inr (.inr ⟨Nat.le_max_left _ _, ?_⟩)⟩
    exact Nat.lt_succ_of_le (Nat.le_max_left _ _)
  | @target α β p sign accepts expected q c =>
    refine ⟨.refl c, .inr (.inr ⟨Nat.le_refl _, ?_⟩)⟩
    exact Nat.lt_succ_of_le (Nat.le_max_left _ _)
  | @value α β p sign accepts expected q c next after x t found taken accepted =>
    obtain ⟨beyond, moved⟩ := Cursor.Onward.of_take? taken
    have start := further found
    exact ⟨start.trans beyond, .inl (Nat.lt_of_le_of_lt start.place_le moved)⟩
  | @rule α r label c => exact ⟨.refl c, .inr (.inl (Nat.lt_succ_of_le (ranked.lead_le r)))⟩

theorem Bounded.made {look : {β : Type} → R β → Cursor → Reply β} (bounded : rules.Bounded deep)
    (made : Makes rules look x y) (within : x.parser.height ≤ deep) : y.parser.height ≤ deep := by
  cases made with
  | rule => exact bounded _
  | _ =>
    dsimp only [height] at within ⊢
    omega

/-- How deep calls can be nested in a parser with `n` tokens ahead, if the rules rank up to `top` and are no
deeper than `deep`. -/
def room (top deep n : Nat) : Nat := (top + 2) * (deep + 1) * (n + 1)

def size (level : {β : Type} → R β → Nat) (top deep : Nat) (x : Call R) : Nat :=
  (top + 2) * (deep + 1) * x.here.rest.length + (x.parser.lead level * (deep + 1) + x.parser.height)

theorem Ranked.size_le (ranked : rules.Ranked level top) (within : x.parser.height ≤ deep) :
    size level top deep x < room top deep x.here.rest.length := by
  have low : x.parser.lead level ≤ top + 1 := Parser.lead_le ranked.level_le x.parser
  have rank := Nat.mul_le_mul_right (deep + 1) low
  have split : (top + 2) * (deep + 1) = (top + 1) * (deep + 1) + (deep + 1) := Nat.succ_mul _ _
  have whole := Nat.mul_add_one ((top + 2) * (deep + 1)) x.here.rest.length
  simp only [size, room]
  omega

theorem Ranked.size_lt (ranked : rules.Ranked level top) (bounded : rules.Bounded deep)
    (made : Makes rules (rules.look depth) x y) (within : x.parser.height ≤ deep) :
    size level top deep y < size level top deep x := by
  obtain ⟨onward, smaller⟩ := ranked.smaller made
  have balance := onward.balance
  have further := onward.place_le
  have low := bounded.made made within
  simp only [Smaller] at smaller
  -- One token outweighs any rank and height together, and one rank any height.
  rcases smaller with moved | lower | ⟨rank, part⟩
  · have fits := ranked.size_le low
    have shorter : y.here.rest.length + 1 ≤ x.here.rest.length := by omega
    have fewer := Nat.mul_le_mul_left ((top + 2) * (deep + 1)) shorter
    unfold room at fits
    simp only [size] at fits ⊢
    omega
  · have shorter : y.here.rest.length ≤ x.here.rest.length := by omega
    have fewer := Nat.mul_le_mul_left ((top + 2) * (deep + 1)) shorter
    have step := Nat.mul_le_mul_right (deep + 1) (Nat.succ_le_of_lt lower)
    rw [Nat.succ_mul] at step
    simp only [size]
    omega
  · have shorter : y.here.rest.length ≤ x.here.rest.length := by omega
    have fewer := Nat.mul_le_mul_left ((top + 2) * (deep + 1)) shorter
    have step := Nat.mul_le_mul_right (deep + 1) rank
    simp only [size]
    omega

theorem Ranked.nested_le (ranked : rules.Ranked level top) (bounded : rules.Bounded deep) {n : Nat}
    (nested : Nested rules (rules.look depth) n x y) (within : x.parser.height ≤ deep) :
    n < room top deep x.here.rest.length := by
  refine Nat.lt_of_le_of_lt ?_ (ranked.size_le within)
  induction nested with
  | here x => exact Nat.zero_le _
  | within made _ ih =>
    have smaller := ranked.size_lt bounded made within
    have inner := ih (bounded.made made within)
    omega

theorem Smaller.trans {x y z : Call R} (before : x.here.place ≤ y.here.place) (after : y.here.place ≤ z.here.place)
    (h : Smaller level x y) (h' : Smaller level y z) : Smaller level x z := by
  unfold Smaller at h h' ⊢
  omega

theorem Ranked.nested_smaller (ranked : rules.Ranked level top) {n : Nat}
    (nested : Nested rules (rules.look depth) n x y) :
    n = 0 ∧ x = y ∨ x.here.Onward y.here ∧ Smaller level x y := by
  induction nested with
  | here x => exact .inl ⟨rfl, rfl⟩
  | within made _ ih =>
    obtain ⟨onward, smaller⟩ := ranked.smaller made
    rcases ih with ⟨-, rfl⟩ | ⟨onward', smaller'⟩
    · exact .inr ⟨onward, smaller⟩
    · exact .inr ⟨onward.trans onward', smaller.trans onward.place_le onward'.place_le smaller'⟩

/-- No parser is called inside itself before a token has been taken. -/
theorem Ranked.reentry_lt (ranked : rules.Ranked level top) {α : Type} {p : Parser R α} {c c' : Cursor} {n : Nat}
    (nested : Nested rules (rules.look depth) (n + 1) ⟨p, c⟩ ⟨p, c'⟩) : c.place < c'.place := by
  rcases ranked.nested_smaller nested with ⟨none, -⟩ | ⟨-, moved | lower | ⟨-, part⟩⟩
  · cases none
  · exact moved
  · exact absurd lower (Nat.lt_irrefl _)
  · exact absurd part (Nat.lt_irrefl _)

end Nesting

end Rules
end Lox
