import Mathlib.Data.List.Forall2
import Lox.Proofs.Parser.Choices
import Lox.Proofs.Parser.Ensures

set_option autoImplicit false

namespace Lox.Parser

structure Opening where
  first : Kind
  second : Option Kind

namespace Opening

def only (k : Kind) : Opening := ⟨k, none⟩

def At (o : Opening) (a : List Token) : Prop :=
  ahead a = some o.first ∧ ∀ k, o.second = some k → ahead a.tail = some k

def excludes (o o' : Opening) : Bool :=
  o.first ≠ o'.first ||
    match o.second, o'.second with
    | some k, some k' => k ≠ k'
    | _, _ => false

theorem not_at_of_excludes {o o' : Opening} (no : o.excludes o' = true) {a : List Token} (here : o.At a) : ¬ o'.At a := by
  obtain ⟨first, second⟩ := o
  obtain ⟨first', second'⟩ := o'
  obtain ⟨begins, goes⟩ := here
  rintro ⟨begins', goes'⟩
  cases begins.symm.trans begins'
  simp only [excludes, ne_eq, not_true_eq_false, decide_false, Bool.false_or] at no
  split at no
  next k k' =>
    have same := (goes k rfl).symm.trans (goes' k' rfl)
    simp only [Option.some.inj same, not_true_eq_false, decide_false, Bool.false_eq_true] at no
  next => cases no

def excludeAll (os os' : List Opening) : Bool := os.all fun o => os'.all o.excludes

end Opening

open Opening

variable {α β : Type} {os os' : List Opening}

/-- Unless the tokens begin in one of these ways, the answer is to give up. -/
def Opens (step : Cursor → Reply α) (os : List Opening) : Prop :=
  ∀ c, (step c).GivesUp ∨ ∃ o ∈ os, o.At c.rest

theorem opens_one {test : Kind → Bool} (all : ∀ k, test k = true → only k ∈ os) : Opens (fun c => one c test) os := by
  intro c
  dsimp only [one]
  split
  next t next taken =>
    obtain ⟨rest, fits⟩ := take?_eq_some taken
    refine .inr ⟨only t.kind, all _ fits, ?_⟩
    rw [rest]
    exact ⟨rfl, nofun⟩
  next => exact .inl ⟨c, rfl⟩

section Combinators

variable {R : Type → Type} {look : {β : Type} → R β → Cursor → Reply β} {p p' : Parser R α} {q : Parser R β}

theorem opens_kind (k : Kind) : Opens ((kind k : Parser R Token).run look) [only k] :=
  opens_one fun _ same => beq_iff_eq.1 same ▸ List.mem_singleton_self _

theorem opens_oneOf (ks : List Kind) : Opens ((oneOf ks : Parser R Token).run look) (ks.map only) :=
  opens_one fun _ member => List.mem_map_of_mem (List.contains_iff_mem.1 member)

theorem Opens.pair (h : Opens (p.run look) os) (q : Parser R β) : Opens ((Parser.pair p q).run look) os := by
  intro c
  refine (h c).imp_left fun ⟨here, missed⟩ => ⟨c, ?_⟩
  unfold run both
  rw [missed]

theorem Opens.behind {k k' : Kind} (h : Opens (q.run look) [only k']) :
    Opens ((Parser.pair (kind k) q).run look) [⟨k, some k'⟩] := by
  intro c
  unfold run both
  cases found : (kind k : Parser R Token).run look c with
  | noMatch _ => exact .inl ⟨c, rfl⟩
  | failed _ | tooDeep =>
    unfold run one at found
    split at found <;> cases found
  | found t next =>
    obtain ⟨rest, same⟩ := ensures_kind k c t next found
    dsimp only [Reply.andThen]
    rcases h next with ⟨here, missed⟩ | ⟨o, member, begins, -⟩
    · rw [missed]
      exact .inl ⟨c, rfl⟩
    · cases List.mem_singleton.1 member
      refine .inr ⟨_, List.mem_singleton_self _, ?_⟩
      rw [rest]
      refine ⟨congrArg some same, fun k'' named => ?_⟩
      cases named
      exact begins

theorem Opens.map (h : Opens (p.run look) os) (f : α → β) : Opens ((Parser.map p f).run look) os := by
  intro c
  refine (h c).imp_left fun ⟨here, missed⟩ => ⟨here, ?_⟩
  rw [run_map, missed]
  rfl

theorem Opens.right (h : Opens (p.run look) os) (q : Parser R β) : Opens ((Parser.right p q).run look) os :=
  (h.pair q).map Prod.snd

theorem Opens.left (h : Opens (p.run look) os) (q : Parser R β) : Opens ((Parser.left p q).run look) os :=
  (h.pair q).map Prod.fst

theorem Opens.update (h : Opens (p.run look) os) (sign : Kind) (accepts : α → Option (β → α)) (expected : String)
    (q : Parser R β) : Opens ((Parser.update p sign accepts expected q).run look) os := by
  intro c
  refine (h c).imp_left fun ⟨here, missed⟩ => ⟨here, ?_⟩
  rw [run_update, missed]
  rfl

theorem Opens.apart (h : Opens (p.run look) os) (h' : Opens (p'.run look) os') (no : excludeAll os os' = true) :
    Apart look p p' := by
  intro c
  rcases h c with missed | ⟨o, member, here⟩
  · exact .inl missed
  · refine .inr ((h' c).resolve_right ?_)
    rintro ⟨o', member', here'⟩
    have apart := List.all_eq_true.1 (List.all_eq_true.1 no o member) o' member'
    exact not_at_of_excludes apart here here'

section Choices

variable {ps : List (Parser R α)} {table : List (List Opening)}
  (each : List.Forall₂ (fun p os => Opens (Parser.run look p) os) ps table)

include each

theorem opens_choice : Opens ((choice ps).run look) table.flatten := by
  induction each with
  | nil => exact fun c => .inl ⟨c, rfl⟩
  | cons first _ ih =>
    intro c
    rcases first c with missed | ⟨o, member, here⟩
    · rcases ih c with missed' | ⟨o, member, here⟩
      · exact .inl (Reply.givesUp_orTry.2 ⟨missed, missed'⟩)
      · exact .inr ⟨o, List.mem_append_right _ member, here⟩
    · exact .inr ⟨o, List.mem_append_left _ member, here⟩

theorem apart_each {p : Parser R α} {os : List Opening} (h : Opens (p.run look) os)
    (no : ∀ os' ∈ table, excludeAll os os' = true) : ∀ q ∈ ps, Apart look p q := by
  induction each with
  | nil => exact nofun
  | cons first _ ih =>
    obtain ⟨here, others⟩ := List.forall_mem_cons.1 no
    exact List.forall_mem_cons.2 ⟨h.apart first here, ih others⟩

theorem pairwise_apart (no : table.Pairwise fun os os' => excludeAll os os' = true) : ps.Pairwise (Apart look) := by
  induction each with
  | nil => exact .nil
  | cons first rest ih =>
    obtain ⟨here, others⟩ := List.pairwise_cons.1 no
    exact .cons (apart_each rest first here) (ih others)

end Choices

end Combinators

end Lox.Parser
