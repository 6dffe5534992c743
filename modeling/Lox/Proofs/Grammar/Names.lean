import Lox.Proofs.Grammar.Context

set_option autoImplicit false

namespace Lox

namespace Tree

variable {Q : Ident → Prop}

theorem forall_of_forall₂ {is js : List Ident} (h : List.Forall₂ (fun i _ => Q i) is js) : ∀ i ∈ is, Q i := by
  induction h with
  | nil => exact nofun
  | cons first _ ih => exact List.forall_mem_cons.2 ⟨first, ih⟩

mutual

theorem Alike.forall_idents {t u : Tree} (h : t.Alike (fun i _ => Q i) u) : ∀ i ∈ t.idents, Q i := by
  cases h with
  | literal => exact nofun
  | reference name => exact List.forall_mem_singleton.2 name
  | assign name x => exact List.forall_mem_cons.2 ⟨name, x.forall_idents⟩
  | declare name x => exact List.forall_mem_cons.2 ⟨name, x.forall_idents⟩
  | unary x | grouping x | get x | expression x | print x | ret x => exact x.forall_idents
  | binary a x | set a x | ifThen a x | whileLoop a x =>
    exact List.forall_mem_append.2 ⟨a.forall_idents, x.forall_idents⟩
  | call f xs => exact List.forall_mem_append.2 ⟨f.forall_idents, xs.forall_idents⟩
  | ifElse a x y =>
    have branches := List.forall_mem_append.2 ⟨x.forall_idents, y.forall_idents⟩
    exact List.forall_mem_append.2 ⟨a.forall_idents, branches⟩
  | lambda params body => exact List.forall_mem_append.2 ⟨forall_of_forall₂ params, body.forall_idents⟩
  | function name params body =>
    have parts := List.forall_mem_append.2 ⟨forall_of_forall₂ params, body.forall_idents⟩
    exact List.forall_mem_cons.2 ⟨name, parts⟩
  | classDef name methods => exact List.forall_mem_cons.2 ⟨name, methods.forall_idents⟩
  | block body => exact body.forall_idents

theorem AlikeAll.forall_idents {ts us : List Tree} (h : AlikeAll (fun i _ => Q i) ts us) :
    ∀ i ∈ identsAll ts, Q i := by
  cases h with
  | nil => exact nofun
  | cons x xs => exact List.forall_mem_append.2 ⟨x.forall_idents, xs.forall_idents⟩

end

end Tree

namespace Grammar

variable {Q : Ident → Prop} {tokens : List Token}

theorem beside_self (named : ∀ t ∈ tokens, t.kind = .identifier → Q t.name) :
    (Cursor.start tokens 0).Beside (Token.Alike fun i _ => Q i) 0 (.start tokens 0) :=
  ⟨rfl, rfl, List.forall₂_same.2 fun t member => ⟨rfl, named t member⟩⟩

theorem names_of_program (named : ∀ t ∈ tokens, t.kind = .identifier → Q t.name) {program : List Tree}
    (parsed : parseProgram tokens = .ok program) : ∀ i ∈ Tree.identsAll program, Q i := by
  obtain ⟨_, -, alike⟩ := complete_beside (parse_beside .statements (beside_self named)) parsed
  exact Tree.AlikeAll.forall_idents alike

theorem names_of_expression (named : ∀ t ∈ tokens, t.kind = .identifier → Q t.name) {e : Tree}
    (parsed : parseExpression tokens = .ok e) : ∀ i ∈ e.idents, Q i := by
  obtain ⟨_, -, alike⟩ := complete_beside (parse_beside .expression (beside_self named)) parsed
  exact Tree.Alike.forall_idents alike

-- A parse that has to take every token fails in the list that it was given.
theorem onward_of_error {α : Type} {p : P α} {expected : String} {c : Cursor} {e : ParseError}
    (failed : complete expected (parse p c) = .error e) : c.Onward e.here := by
  have onward : (parse p c).Onward c := rules.parse_onward _ p c
  have reached := parse_ne_tooDeep p c
  generalize parse p c = r at failed onward reached
  cases r with
  | found x next =>
    simp only [complete] at failed
    split at failed
    · cases failed
    · cases failed
      exact onward
  | noMatch here =>
    cases failed
    obtain rfl : here = c := onward
    exact .refl here
  | failed e =>
    cases failed
    exact onward
  | tooDeep => contradiction

theorem token?_of_error {α : Type} {p : P α} {expected : String} {e : ParseError}
    (failed : complete expected (parse p (.start tokens 0)) = .error e) :
    e.here.place ≤ tokens.length ∧ e.token? = tokens[e.here.place]? := by
  have onward : (Cursor.start tokens 0).Onward e.here := onward_of_error failed
  have balance : e.here.place + e.here.rest.length = 0 + tokens.length := onward.balance
  refine ⟨by omega, ?_⟩
  rw [ParseError.token?, onward.start_rest.1, List.head?_drop]

end Grammar
end Lox
