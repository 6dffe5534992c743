import Lox.Proofs.Parser.Progress

set_option autoImplicit false

namespace Lox

namespace Reply

variable {α : Type} {r r' r'' : Reply α}

def GivesUp (r : Reply α) : Prop := ∃ here, r = .noMatch here

theorem givesUp_orTry : (r.orTry fun _ => r').GivesUp ↔ r.GivesUp ∧ r'.GivesUp := by
  cases r with
  | noMatch here => exact ⟨fun other => ⟨⟨here, rfl⟩, other⟩, And.right⟩
  | found _ _ | failed _ | tooDeep =>
    constructor
    · rintro ⟨here, same⟩
      cases same
    · rintro ⟨⟨here, same⟩, -⟩
      cases same

theorem orTry_left_comm (apart : r.GivesUp ∨ r'.GivesUp) :
    (r.orTry fun _ => r'.orTry fun _ => r'') = r'.orTry fun _ => r.orTry fun _ => r'' := by
  rcases apart with ⟨here, rfl⟩ | ⟨here, rfl⟩ <;> rfl

end Reply

namespace Parser

variable {R : Type → Type} {α β : Type}

inductive Reordered : {α : Type} → Parser R α → Parser R α → Prop
  | same {α : Type} (p : Parser R α) : Reordered p p
  | trans {α : Type} {p p' p'' : Parser R α} : Reordered p p' → Reordered p' p'' → Reordered p p''
  | choice {α : Type} {ps qs : List (Parser R α)} : ps.Perm qs → Reordered (choice ps) (choice qs)
  | orElse {α : Type} {p p' q q' : Parser R α} : Reordered p p' → Reordered q q' →
      Reordered (orElse p q) (orElse p' q')
  | pair {α β : Type} {p p' : Parser R α} {q q' : Parser R β} : Reordered p p' → Reordered q q' →
      Reordered (pair p q) (pair p' q')
  | zeroOrMore {α : Type} {p p' : Parser R α} : Reordered p p' → Reordered (zeroOrMore p) (zeroOrMore p')
  | oneOrMore {α : Type} {p p' : Parser R α} : Reordered p p' → Reordered (oneOrMore p) (oneOrMore p')
  | optional {α : Type} {p p' : Parser R α} (default : α) : Reordered p p' →
      Reordered (optional p default) (optional p' default)
  | map {α β : Type} {p p' : Parser R α} (f : α → β) : Reordered p p' → Reordered (map p f) (map p' f)
  | separated {α β : Type} {p p' : Parser R α} {q q' : Parser R β} : Reordered p p' → Reordered q q' →
      Reordered (separated p q) (separated p' q')
  | commit {α : Type} {p p' : Parser R α} (expected : String) : Reordered p p' →
      Reordered (commit p expected) (commit p' expected)
  | update {α β : Type} {p p' : Parser R α} (sign : Kind) (accepts : α → Option (β → α)) (expected : String)
      {q q' : Parser R β} : Reordered p p' → Reordered q q' →
      Reordered (update p sign accepts expected q) (update p' sign accepts expected q')

section Ranks

variable {level : {β : Type} → R β → Nat}

theorem choice_rank {ps qs : List (Parser R α)} (perm : ps.Perm qs) :
    (choice qs).takes = (choice ps).takes ∧ (choice qs).lead level = (choice ps).lead level := by
  induction perm with
  | nil => exact ⟨rfl, rfl⟩
  | cons p _ ih => exact ⟨congrArg (p.takes && ·) ih.1, congrArg (max (p.lead level)) ih.2⟩
  | swap p q ps => exact ⟨Bool.and_left_comm .., Nat.max_left_comm ..⟩
  | trans _ _ first second => exact ⟨second.1.trans first.1, second.2.trans first.2⟩

theorem Reordered.rank {p p' : Parser R α} (h : Reordered p p') :
    p'.takes = p.takes ∧ p'.lead level = p.lead level := by
  induction h with
  | same p => exact ⟨rfl, rfl⟩
  | trans _ _ first second => exact ⟨second.1.trans first.1, second.2.trans first.2⟩
  | choice perm => exact choice_rank perm
  | orElse _ _ first second | pair _ _ first second | separated _ _ first second =>
    simp only [takes, lead, first, second, and_self]
  | zeroOrMore _ ih | oneOrMore _ ih | optional _ _ ih | map _ _ ih | commit _ _ ih | update _ _ _ _ _ ih =>
    simp only [takes, lead, ih, and_self]

end Ranks

section Answers

variable {look : {β : Type} → R β → Cursor → Reply β}

def Apart (look : {β : Type} → R β → Cursor → Reply β) (p q : Parser R α) : Prop :=
  ∀ c, (p.run look c).GivesUp ∨ (q.run look c).GivesUp

def Unambiguous (look : {β : Type} → R β → Cursor → Reply β) : {α : Type} → Parser R α → Prop
  | _, kind _ | _, oneOf _ | _, endOfInput | _, done | _, never | _, ref _ _ => True
  | _, pair p q => p.Unambiguous look ∧ q.Unambiguous look
  | _, orElse p q => Apart look p q ∧ p.Unambiguous look ∧ q.Unambiguous look
  | _, zeroOrMore p => p.Unambiguous look
  | _, oneOrMore p => p.Unambiguous look
  | _, optional p _ => p.Unambiguous look
  | _, map p _ => p.Unambiguous look
  | _, separated p q => p.Unambiguous look ∧ q.Unambiguous look
  | _, commit p _ => p.Unambiguous look
  | _, update p _ _ _ q => p.Unambiguous look ∧ q.Unambiguous look

def plain : {α : Type} → Parser R α → Bool
  | _, kind _ | _, oneOf _ | _, endOfInput | _, done | _, never | _, ref _ _ => true
  | _, orElse _ _ => false
  | _, pair p q => p.plain && q.plain
  | _, zeroOrMore p => p.plain
  | _, oneOrMore p => p.plain
  | _, optional p _ => p.plain
  | _, map p _ => p.plain
  | _, separated p q => p.plain && q.plain
  | _, commit p _ => p.plain
  | _, update p _ _ _ q => p.plain && q.plain

theorem unambiguous_of_plain {p : Parser R α} (h : p.plain = true) : p.Unambiguous look := by
  induction p with
  | kind | oneOf | endOfInput | done | never | ref => trivial
  | orElse => cases h
  | pair p q first second | separated p q first second | update p _ _ _ q first second =>
    obtain ⟨h, h'⟩ := Bool.and_eq_true_iff.1 h
    exact ⟨first h, second h'⟩
  | zeroOrMore p ih | oneOrMore p ih | optional p _ ih | map p _ ih | commit p _ ih => exact ih h

theorem unambiguous_of_all {ps : List (Parser R α)} (h : (ps.all fun p => p.plain) = true) :
    ∀ p ∈ ps, p.Unambiguous look :=
  fun p member => unambiguous_of_plain (List.all_eq_true.1 h p member)

theorem givesUp_choice {ps : List (Parser R α)} {c : Cursor} (each : ∀ p ∈ ps, (p.run look c).GivesUp) :
    ((choice ps).run look c).GivesUp := by
  induction ps with
  | nil => exact ⟨c, rfl⟩
  | cons p ps ih =>
    obtain ⟨first, others⟩ := List.forall_mem_cons.1 each
    exact Reply.givesUp_orTry.2 ⟨first, ih others⟩

theorem unambiguous_choice {ps : List (Parser R α)} (apart : ps.Pairwise (Apart look))
    (each : ∀ p ∈ ps, p.Unambiguous look) : (choice ps).Unambiguous look := by
  induction apart with
  | nil => trivial
  | @cons p ps first _ ih =>
    obtain ⟨clear, others⟩ := List.forall_mem_cons.1 each
    refine ⟨fun c => ?_, clear, ih others⟩
    by_cases here : (p.run look c).GivesUp
    · exact .inl here
    · exact .inr (givesUp_choice fun q member => (first q member c).resolve_left here)

theorem unambiguous_swap {p q r : Parser R α} (clear : (orElse p (orElse q r)).Unambiguous look) :
    (orElse q (orElse p r)).Unambiguous look := by
  obtain ⟨first, clear, second, clear', rest⟩ := clear
  refine ⟨fun c => ?_, clear', fun c => ?_, clear, rest⟩
  · rcases first c with here | others
    · rcases second c with other | last
      · exact .inl other
      · exact .inr (Reply.givesUp_orTry.2 ⟨here, last⟩)
    · exact .inl (Reply.givesUp_orTry.1 others).1
  · rcases first c with here | others
    · exact .inl here
    · exact .inr (Reply.givesUp_orTry.1 others).2

theorem Apart.congr {p p' q q' : Parser R α} (h : Apart look p q) (same : p'.run look = p.run look)
    (same' : q'.run look = q.run look) : Apart look p' q' := by
  intro c
  rw [same, same']
  exact h c

theorem choice_perm {ps qs : List (Parser R α)} (perm : ps.Perm qs) (clear : (choice ps).Unambiguous look) :
    (choice qs).Unambiguous look ∧ (choice qs).run look = (choice ps).run look := by
  -- The induction is on the exchanges of neighbours that make up the permutation; what comes after one of them
  -- needs that the choice is still unambiguous.
  induction perm with
  | nil => exact ⟨clear, rfl⟩
  | cons p _ ih =>
    obtain ⟨apart, here, others⟩ := clear
    obtain ⟨others', same⟩ := ih others
    refine ⟨⟨apart.congr rfl same, here, others'⟩, ?_⟩
    funext c
    exact congrArg (fun run => (p.run look c).orTry fun _ => run c) same
  | swap p q ps =>
    refine ⟨unambiguous_swap clear, ?_⟩
    obtain ⟨first, -, -⟩ := clear
    funext c
    refine Reply.orTry_left_comm ?_
    exact (first c).symm.imp_left fun others => (Reply.givesUp_orTry.1 others).1
  | trans _ _ first second =>
    obtain ⟨clear', same⟩ := first clear
    obtain ⟨clear'', same'⟩ := second clear'
    exact ⟨clear'', same'.trans same⟩

theorem Reordered.answers {p p' : Parser R α} (h : Reordered p p') (clear : p.Unambiguous look) :
    p'.Unambiguous look ∧ p'.run look = p.run look := by
  induction h with
  | same p => exact ⟨clear, rfl⟩
  | trans _ _ first second =>
    obtain ⟨clear', same⟩ := first clear
    obtain ⟨clear'', same'⟩ := second clear'
    exact ⟨clear'', same'.trans same⟩
  | choice perm => exact choice_perm perm clear
  | orElse _ _ first second =>
    obtain ⟨apart, clear, clear'⟩ := clear
    obtain ⟨clear, same⟩ := first clear
    obtain ⟨clear', same'⟩ := second clear'
    refine ⟨⟨apart.congr same same', clear, clear'⟩, ?_⟩
    funext c
    rw [run_orElse, run_orElse, same, same']
  | pair _ _ first second | separated _ _ first second | update _ _ _ _ _ first second =>
    obtain ⟨clear, clear'⟩ := clear
    obtain ⟨clear, same⟩ := first clear
    obtain ⟨clear', same'⟩ := second clear'
    refine ⟨⟨clear, clear'⟩, ?_⟩
    funext c
    unfold run
    rw [same, same']
  | zeroOrMore _ ih | oneOrMore _ ih | optional _ _ ih | map _ _ ih | commit _ _ ih =>
    obtain ⟨clear, same⟩ := ih clear
    refine ⟨clear, ?_⟩
    funext c
    unfold run
    rw [same]

end Answers

end Parser

namespace Rules

open Lox.Parser

variable {R : Type → Type} {level : {β : Type} → R β → Nat} {top : Nat}

def answer (rules : Rules R) (level : {β : Type} → R β → Nat) (top : Nat) {β : Type} (r : R β) (c : Cursor) : Reply β :=
  rules.look ((top + 1) * c.rest.length + level r + 1) r c

namespace Ranked

variable {rules rules' : Rules R} (ranked : rules.Ranked level top)

include ranked

theorem run_answer {β : Type} (r : R β) (c : Cursor) :
    (rules r).run (rules.answer level top) c = rules.answer level top r c := by
  have ready : Ready c.rest.length (level r) c ((rules r).lead level) := .inr ⟨rfl, ranked.lead_le r⟩
  refine (run_settled (rules.look_onward _) (ranked.look_takes _) ?_ (rules r) ready).1.symm
  intro β' r' c' ready'
  exact ranked.look_settled (ranked.need_lt ready') (Nat.lt_succ_self _)

section Follows

variable {look : {β : Type} → R β → Cursor → Reply β}
  (follows : ∀ {β : Type} (r : R β) (c : Cursor), (rules r).run look c = look r c)

include follows

theorem look_eq {depth : Nat} {β : Type} {r : R β} {c : Cursor}
    (enough : (top + 1) * c.rest.length + level r < depth) : (rules.look depth r c).Settled (look r c) := by
  induction depth generalizing β c with
  | zero => cases enough
  | succ depth ih =>
    have ready : Ready c.rest.length (level r) c ((rules r).lead level) := .inr ⟨rfl, ranked.lead_le r⟩
    rw [← follows]
    refine run_settled (rules.look_onward depth) (ranked.look_takes depth) ?_ (rules r) ready
    intro β' r' c' ready'
    have less := ranked.need_lt ready'
    exact ih (by omega)

theorem parse_eq {depth : Nat} {α : Type} (p : Parser R α) {c : Cursor}
    (enough : (top + 1) * c.rest.length + p.lead level ≤ depth) : (rules.parse depth p c).Settled (p.run look c) := by
  have ready : Ready c.rest.length (p.lead level) c (p.lead level) := .inr ⟨rfl, Nat.le_refl _⟩
  refine run_settled (rules.look_onward depth) (ranked.look_takes depth) ?_ p ready
  intro β r c' ready'
  have less := ranked.need_lt ready'
  exact ranked.look_eq follows (by omega)

end Follows

theorem reordered (others : ∀ {β : Type} (r : R β), Reordered (rules r) (rules' r)) : rules'.Ranked level top := by
  have rank {β : Type} (r : R β) : (rules' r).takes = (rules r).takes ∧ (rules' r).lead level = (rules r).lead level :=
    (others r).rank
  refine ⟨fun r => (rank r).1.trans (ranked.takes r), fun r => ?_, ranked.level_le⟩
  rw [(rank r).2]
  exact ranked.lead_le r

theorem parse_reordered (clear : ∀ {β : Type} (r : R β), (rules r).Unambiguous (rules.answer level top))
    (others : ∀ {β : Type} (r : R β), Reordered (rules r) (rules' r)) {α : Type} {p p' : Parser R α}
    (clear' : p.Unambiguous (rules.answer level top)) (other : Reordered p p') {depth depth' : Nat} {c : Cursor}
    (enough : (top + 1) * c.rest.length + p.lead level ≤ depth)
    (enough' : (top + 1) * c.rest.length + p.lead level ≤ depth') :
    rules'.parse depth' p' c = rules.parse depth p c := by
  -- The answers of the first grammar follow the rules of the second one as well.
  have follows {β : Type} (r : R β) (c : Cursor) :
      (rules' r).run (rules.answer level top) c = rules.answer level top r c := by
    rw [((others r).answers (clear r)).2]
    exact ranked.run_answer r c
  rw [← other.rank.2] at enough'
  have here := ((ranked.reordered others).parse_eq follows p' enough').1
  rw [here, (other.answers clear').2]
  exact (ranked.parse_eq ranked.run_answer p enough).1.symm

end Ranked
end Rules
end Lox
