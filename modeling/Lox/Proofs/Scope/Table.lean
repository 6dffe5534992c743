import Mathlib.Data.List.Sort
import Lox.Proofs.Scope.Moves

set_option autoImplicit false

namespace Lox.Arena

variable {κ ν τ : Type} {a a' : Arena κ ν} {s t p q : Int}

def kin (a : Arena κ ν) (p : Int) : List ScopeId :=
  a.activeScopes.filter fun s => a.link? s = some p

structure Formed (a : Arena κ ν) : Prop where
  top : ∃ e, a.row? root = some e ∧ e.parent = none ∧ e.active = true
  older : ∀ {s : Int} {e}, a.row? s = some e → s ≠ root → ∃ p : Int, e.parent = some p ∧ 0 ≤ p ∧ p < s
  children : ∀ {p e}, a.frame? p = some e → e.children = a.kin p
  blank : ∀ {s e}, a.row? s = some e → e.active = false → e.bindings = []

theorem mem_kin : s ∈ a.kin p ↔ a.isActive s = true ∧ a.link? s = some p := by
  simp [kin, mem_activeScopes_iff]

theorem activeScopes_eq {scopes : List ScopeId} (sorted : scopes.Pairwise (· < ·))
    (same : ∀ s : Int, s ∈ scopes ↔ a.isActive s = true) : a.activeScopes = scopes :=
  (pairwise_activeScopes a).eq_of_mem_iff sorted fun s => mem_activeScopes_iff.trans (same s).symm

theorem activeScopes_congr (same : ∀ s : Int, a'.isActive s = a.isActive s) :
    a'.activeScopes = a.activeScopes :=
  activeScopes_eq (pairwise_activeScopes a) fun s => by rw [mem_activeScopes_iff, same]

theorem kin_congr (active : ∀ s : Int, a'.isActive s = a.isActive s)
    (links : ∀ s : Int, a.isActive s = true → a'.link? s = a.link? s) : a'.kin p = a.kin p := by
  unfold kin
  rw [activeScopes_congr active]
  refine List.filter_congr fun s member => ?_
  rw [links s (mem_activeScopes_iff.1 member)]

theorem isActive_congr (same : (a'.row? t).map Entry.active = (a.row? t).map Entry.active) :
    a'.isActive t = a.isActive t := by
  rw [Bool.eq_iff_iff, isActive_iff, isActive_iff]
  revert same
  cases a'.row? t <;> cases a.row? t <;> simp

theorem link?_congr (same : (a'.row? t).map Entry.parent = (a.row? t).map Entry.parent) :
    a'.link? t = a.link? t := by
  unfold link?
  revert same
  cases a'.row? t <;> cases a.row? t <;> simp

theorem formed_new : (new : Arena κ ν).Formed := by
  have only : ∀ {s : Int} {e}, (new : Arena κ ν).row? s = some e → s = root := by
    intro s e found
    obtain ⟨nonneg, below⟩ := bounds_of_row? found
    change s < (1 : Nat) at below
    change s = 0
    omega
  refine ⟨⟨_, rfl, rfl, rfl⟩, fun found inner => absurd (only found) inner, ?_, ?_⟩
  · intro p e found
    cases only (frame?_eq_some_iff.1 found).1
    cases found
    rfl
  · intro s e found inactive
    cases only found
    cases found
    cases inactive

namespace Formed

theorem link?_lt (h : a.Formed) (link : a.link? s = some p) : 0 ≤ p ∧ p < s := by
  obtain ⟨e, found, parent⟩ := Option.bind_eq_some_iff.1 link
  have inner : s ≠ root := by
    rintro rfl
    obtain ⟨f, top, none, -⟩ := h.top
    rw [top] at found
    cases found
    rw [none] at parent
    cases parent
  obtain ⟨q, same, bounds⟩ := h.older found inner
  rw [parent] at same
  cases same
  exact bounds

theorem above_lt (h : a.Formed) (above : a.Above t s) : t < s := by
  induction above with
  | parent link => exact (h.link?_lt link).2
  | further link _ ih => exact Int.lt_trans ih (h.link?_lt link).2

theorem isActive_root (h : a.Formed) : a.isActive root = true := by
  obtain ⟨e, top, -, active⟩ := h.top
  exact isActive_iff.2 ⟨e, top, active⟩

theorem head?_activeScopes (h : a.Formed) : a.activeScopes.head? = some root := by
  have member : root ∈ a.activeScopes := mem_activeScopes_iff.2 h.isActive_root
  have sorted := pairwise_activeScopes a
  cases scopes : a.activeScopes with
  | nil =>
    rw [scopes] at member
    cases member
  | cons first rest =>
    rw [scopes] at sorted member
    rcases List.mem_cons.1 member with rfl | later
    · rfl
    · have negative : first < 0 := (List.pairwise_cons.1 sorted).1 _ later
      obtain ⟨e, found, -⟩ := isActive_iff.1 (mem_activeScopes_iff.1 (scopes ▸ List.mem_cons_self))
      exact absurd (bounds_of_row? found).1 (Int.not_le.2 negative)

theorem children_run (h : a.Formed) (active : p ∈ a.activeScopes) :
    (Arena.children p).run a = (.ok (a.kin p), a) := by
  unfold Arena.children
  rw [run_bind]
  rcases frame_cases a p with ⟨e, found, run⟩ | ⟨none, -⟩
  · rw [run, ← h.children found]
    rfl
  · rw [mem_activeScopes_iff, isActive, none] at active
    cases active

end Formed

namespace Opens

theorem new_row? (move : Opens p a a') : a'.row? a.table.size = some ⟨some p, [], [], true⟩ := by
  rw [move.seen, if_pos rfl]

theorem old_row? (move : Opens p a a') (old : t ≠ a.table.size) :
    a'.row? t = (a.row? t).map fun e =>
      { e with children := if t = p then e.children ++ [(a.table.size : Int)] else e.children } := by
  rw [move.seen, if_neg old]
  by_cases same : t = p <;> simp [same]

theorem isActive_iff (move : Opens p a a') :
    a'.isActive t = true ↔ t = a.table.size ∨ a.isActive t = true := by
  by_cases old : t = a.table.size
  · simp [Arena.isActive_iff, old, move.new_row?]
  · rw [isActive_congr (a := a) (by rw [move.old_row? old]; cases a.row? t <;> rfl)]
    simp [old]

theorem link?_eq (move : Opens p a a') (old : t ≠ a.table.size) : a'.link? t = a.link? t :=
  link?_congr (by rw [move.old_row? old]; cases a.row? t <;> rfl)

theorem activeScopes_eq (move : Opens p a a') :
    a'.activeScopes = a.activeScopes ++ [(a.table.size : Int)] := by
  refine Arena.activeScopes_eq ?_ fun s => ?_
  · refine List.pairwise_append.2 ⟨pairwise_activeScopes a, List.pairwise_singleton _ _, ?_⟩
    intro s member t last
    rw [List.mem_singleton.1 last]
    obtain ⟨e, found⟩ := mem_activeScopes.1 member
    exact (bounds_of_cell? found).2
  · rw [List.mem_append, List.mem_singleton, mem_activeScopes_iff, move.isActive_iff, or_comm]

theorem kin_eq (move : Opens p a a') :
    a'.kin q = a.kin q ++ if p = q then [(a.table.size : Int)] else [] := by
  have new : a'.link? a.table.size = some p := by
    rw [link?, move.new_row?]
    rfl
  have old : a.activeScopes.filter (fun s => a'.link? s = some q) = a.kin q := by
    refine List.filter_congr fun s member => ?_
    obtain ⟨e, found⟩ := mem_activeScopes.1 member
    rw [move.link?_eq (Int.ne_of_lt (bounds_of_cell? found).2)]
  rw [kin, move.activeScopes_eq, List.filter_append, old]
  by_cases same : p = q <;> simp [new, same]

end Opens

theorem Formed.opens (h : a.Formed) (move : Opens p a a') : a'.Formed := by
  obtain ⟨e, parent, -⟩ := isActive_iff.1 move.active
  have bounds := bounds_of_row? parent
  have entries : ∀ {t f}, a'.row? t = some f →
      (t = a.table.size ∧ f = ⟨some p, [], [], true⟩) ∨ t ≠ a.table.size ∧ ∃ g, a.row? t = some g ∧
        f = { g with children := if t = p then g.children ++ [(a.table.size : Int)] else g.children } := by
    intro t f found
    by_cases new : t = a.table.size
    · rw [new, move.new_row?] at found
      exact .inl ⟨new, (Option.some.inj found).symm⟩
    · rw [move.old_row? new] at found
      obtain ⟨g, before, same⟩ := Option.map_eq_some_iff.1 found
      exact .inr ⟨new, g, before, same.symm⟩
  constructor
  · obtain ⟨f, top, none, active⟩ := h.top
    have old := move.old_row? (Int.ne_of_lt (bounds_of_row? top).2)
    rw [top] at old
    exact ⟨_, old, none, active⟩
  · intro s f found inner
    rcases entries found with ⟨rfl, rfl⟩ | ⟨-, g, before, rfl⟩
    · exact ⟨p, rfl, bounds⟩
    · exact h.older (e := g) before inner
  · intro q f found
    obtain ⟨found, active⟩ := frame?_eq_some_iff.1 found
    rw [move.kin_eq]
    rcases entries found with ⟨rfl, rfl⟩ | ⟨-, g, before, rfl⟩
    · -- Parents are older than their children, so nothing lies in the new scope yet.
      have none : a.kin a.table.size = [] := by
        refine List.eq_nil_iff_forall_not_mem.2 fun s member => ?_
        obtain ⟨active, link⟩ := mem_kin.1 member
        obtain ⟨f, found, -⟩ := isActive_iff.1 active
        exact Int.lt_asymm (h.link?_lt link).2 (bounds_of_row? found).2
      simp [none, Int.ne_of_lt bounds.2]
    · have children := h.children (frame?_eq_some_iff.2 ⟨before, active⟩)
      by_cases same : q = p
      · simp [same, children]
      · simp [same, Ne.symm same, children]
  · intro s f found inactive
    rcases entries found with ⟨rfl, rfl⟩ | ⟨-, g, before, rfl⟩
    · cases inactive
    · exact h.blank (e := g) before inactive

namespace Drops

variable {e : Entry κ ν}

theorem present (move : Drops s e a a') : a.row? s = some e ∧ e.active = true :=
  frame?_eq_some_iff.1 move.found

theorem gone_row? (move : Drops s e a a') :
    a'.row? s = some { e with bindings := [], active := false } := by
  rw [move.seen, if_pos rfl]

theorem other_row? (move : Drops s e a a') (other : t ≠ s) :
    a'.row? t = (a.row? t).map fun f =>
      { f with children := if e.parent = some t ∧ f.active = true then f.children.erase s else f.children } := by
  rw [move.seen, if_neg other]
  by_cases parent : e.parent = some t
  · cases a.row? t with
    | none => simp
    | some f =>
      obtain ⟨_, _, _, active⟩ := f
      cases active <;> simp [parent]
  · simp [parent]

theorem isActive_iff (move : Drops s e a a') : a'.isActive t = true ↔ a.isActive t = true ∧ t ≠ s := by
  by_cases here : t = s
  · simp [Arena.isActive_iff, here, move.gone_row?]
  · rw [isActive_congr (a := a) (by rw [move.other_row? here]; cases a.row? t <;> rfl)]
    simp [here]

theorem link?_eq (move : Drops s e a a') (t : Int) : a'.link? t = a.link? t := by
  by_cases here : t = s
  · rw [here, link?, link?, move.gone_row?, move.present.1]
    rfl
  · exact link?_congr (by rw [move.other_row? here]; cases a.row? t <;> rfl)

theorem kin_eq (move : Drops s e a a') : a'.kin q = (a.kin q).filter (· != s) := by
  have scopes : a'.activeScopes = a.activeScopes.filter (· != s) := by
    refine activeScopes_eq ((pairwise_activeScopes a).filter _) fun t => ?_
    rw [List.mem_filter, mem_activeScopes_iff, move.isActive_iff, bne_iff_ne]
  simp only [kin, scopes, move.link?_eq, List.filter_filter, Bool.and_comm]

end Drops

theorem Quiet.kept (move : Quiet a a') {e : Entry κ ν} (found : a'.row? t = some e) :
    ∃ f, a.row? t = some f ∧ f.parent = e.parent ∧ (e.active = true → f.active = true) := by
  cases move with
  | @drops s f move =>
    by_cases here : t = s
    · rw [here, move.gone_row?] at found
      cases found
      exact ⟨f, here ▸ move.present.1, rfl, nofun⟩
    · rw [move.other_row? here] at found
      obtain ⟨g, before, rfl⟩ := Option.map_eq_some_iff.1 found
      exact ⟨g, before, rfl, id⟩
  | binds active f seen =>
    rw [seen] at found
    split at found
    next here =>
      obtain ⟨g, old, rfl⟩ := Option.map_eq_some_iff.1 found
      exact ⟨g, here ▸ old, rfl, id⟩
    next => exact ⟨e, found, rfl, id⟩
  | marks same =>
    rw [row?, same] at found
    exact ⟨e, found, rfl, id⟩
  | trims n keeps seen =>
    rw [seen] at found
    split at found
    next => exact ⟨e, found, rfl, id⟩
    next => cases found

theorem Quietly.kept (moves : Quietly a a') {e : Entry κ ν} (found : a'.row? t = some e) :
    ∃ f, a.row? t = some f ∧ f.parent = e.parent ∧ (e.active = true → f.active = true) := by
  induction moves generalizing e with
  | refl => exact ⟨e, found, rfl, id⟩
  | tail _ move ih =>
    obtain ⟨f, found, parent, active⟩ := move.kept found
    obtain ⟨g, found, parent', active'⟩ := ih found
    exact ⟨g, found, parent'.trans parent, fun still => active' (active still)⟩

section Quiet

variable (h : a.Formed)

include h

theorem Formed.drops {e : Entry κ ν} (move : Drops s e a a') : a'.Formed := by
  have entries : ∀ {t f}, a'.row? t = some f →
      (t = s ∧ f = { e with bindings := [], active := false }) ∨ t ≠ s ∧ ∃ g, a.row? t = some g ∧
        f = { g with
          children := if e.parent = some t ∧ g.active = true then g.children.erase s else g.children } := by
    intro t f found
    by_cases here : t = s
    · rw [here, move.gone_row?] at found
      exact .inl ⟨here, (Option.some.inj found).symm⟩
    · rw [move.other_row? here] at found
      obtain ⟨g, before, same⟩ := Option.map_eq_some_iff.1 found
      exact .inr ⟨here, g, before, same.symm⟩
  constructor
  · obtain ⟨f, top, none, active⟩ := h.top
    have old := move.other_row? (Ne.symm move.inner)
    rw [top] at old
    exact ⟨_, old, none, active⟩
  · intro t f found inner
    rcases entries found with ⟨rfl, rfl⟩ | ⟨-, g, before, rfl⟩
    · exact h.older (e := e) move.present.1 inner
    · exact h.older (e := g) before inner
  · intro q f found
    obtain ⟨found, active⟩ := frame?_eq_some_iff.1 found
    rcases entries found with ⟨rfl, rfl⟩ | ⟨other, g, before, rfl⟩
    · cases active
    · have children := h.children (frame?_eq_some_iff.2 ⟨before, active⟩)
      have once : (a.kin q).Nodup := ((pairwise_activeScopes a).filter _).imp Int.ne_of_lt
      rw [move.kin_eq, ← once.erase_eq_filter, children]
      split
      next => rfl
      next apart =>
        refine (List.erase_of_not_mem fun member => apart ⟨?_, active⟩).symm
        have link := (mem_kin.1 member).2
        rw [link?, move.present.1] at link
        exact link
  · intro t f found inactive
    rcases entries found with ⟨rfl, rfl⟩ | ⟨-, g, before, rfl⟩
    · rfl
    · exact h.blank (e := g) before inactive

theorem Formed.steady
    (seen : ∀ t e, a'.row? t = some e → ∃ f, a.row? t = some f ∧ f.parent = e.parent ∧
      f.children = e.children ∧ f.active = e.active ∧ (e.active = false → f.bindings = e.bindings))
    (keeps : ∀ t f, a.row? t = some f → f.active = true → ∃ e, a'.row? t = some e) : a'.Formed := by
  have active : ∀ t, a'.isActive t = a.isActive t := by
    intro t
    rw [Bool.eq_iff_iff, isActive_iff, isActive_iff]
    constructor
    · rintro ⟨e, found, active⟩
      obtain ⟨f, before, -, -, same, -⟩ := seen t e found
      exact ⟨f, before, same.trans active⟩
    · rintro ⟨f, before, active⟩
      obtain ⟨e, found⟩ := keeps t f before active
      obtain ⟨g, before', -, -, same, -⟩ := seen t e found
      rw [before] at before'
      cases before'
      exact ⟨e, found, same ▸ active⟩
  have links : ∀ t, a.isActive t = true → a'.link? t = a.link? t := by
    intro t still
    obtain ⟨e, found, -⟩ := isActive_iff.1 ((active t).trans still)
    obtain ⟨f, before, parent, -⟩ := seen t e found
    simp [link?, found, before, parent]
  constructor
  · obtain ⟨f, top, none, active⟩ := h.top
    obtain ⟨e, found⟩ := keeps root f top active
    obtain ⟨g, before, parent, -, same, -⟩ := seen root e found
    rw [top] at before
    cases before
    exact ⟨e, found, parent ▸ none, same ▸ active⟩
  · intro t e found inner
    obtain ⟨f, before, parent, -⟩ := seen t e found
    rw [← parent]
    exact h.older before inner
  · intro q e found
    obtain ⟨found, still⟩ := frame?_eq_some_iff.1 found
    obtain ⟨f, before, -, children, same, -⟩ := seen q e found
    rw [kin_congr active links, ← children]
    exact h.children (frame?_eq_some_iff.2 ⟨before, same.trans still⟩)
  · intro t e found inactive
    obtain ⟨f, before, -, -, same, bindings⟩ := seen t e found
    rw [← bindings inactive]
    exact h.blank before (same.trans inactive)

theorem Formed.quiet (move : Quiet a a') : a'.Formed := by
  cases move with
  | drops move => exact h.drops move
  | @binds s active f seen =>
    refine h.steady (fun t e found => ?_) fun t e found _ => ?_
    · rw [seen] at found
      split at found
      next here =>
        subst here
        obtain ⟨g, before, rfl⟩ := Option.map_eq_some_iff.1 found
        obtain ⟨g', before', still⟩ := isActive_iff.1 active
        rw [before] at before'
        cases before'
        exact ⟨g, before, rfl, rfl, rfl, fun inactive => by simp [still] at inactive⟩
      next => exact ⟨e, found, rfl, rfl, rfl, fun _ => rfl⟩
    · rw [seen]
      split
      next here => exact ⟨_, by rw [← here, found]; rfl⟩
      next => exact ⟨e, found⟩
  | marks same =>
    have seen : ∀ t, a'.row? t = a.row? t := fun t => by rw [row?, row?, same]
    exact h.steady (fun t e found => ⟨e, seen t ▸ found, rfl, rfl, rfl, fun _ => rfl⟩)
      fun t e found _ => ⟨e, (seen t).trans found⟩
  | trims n keeps seen =>
    refine h.steady (fun t e found => ?_) fun t e found active => ⟨e, ?_⟩
    · rw [seen] at found
      split at found
      next => exact ⟨e, found, rfl, rfl, rfl, fun _ => rfl⟩
      next => cases found
    · rw [seen, if_pos (keeps t (isActive_iff.2 ⟨e, found, active⟩)), found]

theorem Formed.quietly (moves : Quietly a a') : a'.Formed := by
  induction moves with
  | refl => exact h
  | tail _ move ih => exact ih.quiet move

theorem Formed.perform [DecidableEq κ] (op : Op κ ν τ) : (op.perform.run a).2.Formed := by
  rcases op.moves a with moves | ⟨p, move⟩
  · exact h.quietly moves
  · exact h.opens move

theorem Formed.after [DecidableEq κ] (ops : List (Op κ ν τ)) : (a.after ops).Formed := by
  induction ops generalizing a with
  | nil => exact h
  | cons op rest ih => exact ih (h.perform op)

end Quiet

section Walks

variable [DecidableEq κ] (h : a.Formed)

include h

-- Every step of a walk goes to a smaller id, so a walk that may take one step more than its id never
-- ends for want of steps.
theorem Formed.findIn_eq (key : κ) {steps steps' : Nat} {s : Int} (enough : s.toNat < steps)
    (enough' : s.toNat < steps') : (findIn key steps s).run a = (findIn key steps' s).run a := by
  induction steps generalizing steps' s with
  | zero => omega
  | succ steps ih =>
    obtain ⟨steps', rfl⟩ := Nat.exists_eq_succ_of_ne_zero (show steps' ≠ 0 by omega)
    rw [findIn_step, findIn_step]
    cases found : a.cell? s with
    | none => rfl
    | some e =>
      dsimp only
      split
      next => rfl
      next =>
        cases parent : e.parent with
        | none => rfl
        | some p =>
          have less := h.link?_lt ((link?_of_cell? found).trans parent)
          exact ih (by omega) (by omega)

omit [DecidableEq κ] in
theorem Formed.retainFrom_eq {steps steps' : Nat} {s : Int} (retained : List ScopeId)
    (enough : s.toNat < steps) (enough' : s.toNat < steps') :
    (retainFrom steps s).run { a with retained } = (retainFrom steps' s).run { a with retained } := by
  induction steps generalizing steps' s retained with
  | zero => omega
  | succ steps ih =>
    obtain ⟨steps', rfl⟩ := Nat.exists_eq_succ_of_ne_zero (show steps' ≠ 0 by omega)
    rw [retainFrom_step, retainFrom_step]
    split
    next => rfl
    next =>
      have same : ({ a with retained } : Arena κ ν).cell? s = a.cell? s := rfl
      rw [same]
      cases found : a.cell? s with
      | none => rfl
      | some e =>
        dsimp only
        cases parent : e.parent with
        | none => rfl
        | some p =>
          have less := h.link?_lt ((link?_of_cell? found).trans parent)
          exact ih (s :: retained) (by omega) (by omega)

end Walks

section Scopes

theorem drop_stale (gone : a.cell? s = none) (inner : s ≠ root) :
    (drop s).run a = (.error (.stale s), a) := by
  rw [drop, if_neg inner, run_bind, frame_stale gone]

theorem activeScopes_erase (seen : ∀ t, a'.isActive t = true ↔ a.isActive t = true ∧ t ≠ s) :
    a'.activeScopes = a.activeScopes.erase s := by
  have sorted := pairwise_activeScopes a
  have once : a.activeScopes.Nodup := sorted.imp Int.ne_of_lt
  refine activeScopes_eq (sorted.sublist List.erase_sublist) fun t => ?_
  rw [once.mem_erase_iff, mem_activeScopes_iff, seen, and_comm]

theorem drop_scopes (a : Arena κ ν) (s : Int) :
    ((drop s).run a).2.activeScopes = if s = root then a.activeScopes else a.activeScopes.erase s := by
  split
  next top => rw [drop, if_pos top]; rfl
  next inner =>
    cases found : a.cell? s with
    | none =>
      rw [drop_stale found inner, List.erase_of_not_mem]
      rw [mem_activeScopes, found]
      rintro ⟨e, same⟩
      cases same
    | some e =>
      obtain ⟨a', run, seen, -⟩ := drop_run found inner
      rw [run]
      refine activeScopes_erase fun t => ?_
      rw [isActive_eq, isActive_eq, seen]
      by_cases here : t = s <;> simp [here]

def dropEach : List ScopeId → List ScopeId → List ScopeId
  | active, [] => active
  | active, s :: rest => if s = root ∨ s ∉ active then active else dropEach (active.erase s) rest

theorem dropAll_scopes (doomed : List ScopeId) (a : Arena κ ν) :
    ((dropAll doomed).run a).2.activeScopes = dropEach a.activeScopes doomed := by
  induction doomed generalizing a with
  | nil => rfl
  | cons s rest ih =>
    have dropped := drop_scopes a s
    rw [dropAll, run_bind, dropEach]
    by_cases top : s = root
    · rw [if_pos (.inl top), drop, if_pos top]
      rfl
    · rw [if_neg top] at dropped
      cases found : a.cell? s with
      | none =>
        rw [drop_stale found top, if_pos]
        refine .inr fun active => ?_
        obtain ⟨e, present⟩ := mem_activeScopes.1 active
        cases found.symm.trans present
      | some e =>
        obtain ⟨a', run, -⟩ := drop_run found top
        have present : ¬ (s = root ∨ s ∉ a.activeScopes) := by
          rw [not_or, not_not]
          exact ⟨top, mem_activeScopes.2 ⟨e, found⟩⟩
        rw [run] at dropped ⊢
        rw [if_neg present, ← dropped]
        exact ih a'

variable [DecidableEq κ]

theorem define_scopes (s : Int) (key : κ) (value : ν) (a : Arena κ ν) :
    ((define s key value).run a).2.activeScopes = a.activeScopes := by
  cases found : a.cell? s with
  | none =>
    rw [define, run_bind, frame_stale found]
  | some e =>
    obtain ⟨a', run, seen, -⟩ := define_run found key value
    rw [run]
    refine activeScopes_congr fun t => ?_
    rw [isActive_eq, isActive_eq, seen]
    split
    next here => rw [here, found]; rfl
    next => rfl

/-- The active scopes after an operation, failed or not, as an ordered set: a new scope comes last. -/
def Op.scopes (a : Arena κ ν) : Op κ ν τ → List ScopeId
  | .add p => if p ∈ a.activeScopes then a.activeScopes ++ [(a.table.size : Int)] else a.activeScopes
  | .drop s => if s = root then a.activeScopes else a.activeScopes.erase s
  | .release s => if s = root ∨ s ∈ a.retained then a.activeScopes else a.activeScopes.erase s
  | .collect heap roots => dropEach a.activeScopes (a.doomed heap roots)
  | .compact | .retain _ | .define _ _ _ | .assign _ _ _ | .get _ _ => a.activeScopes

theorem perform_scopes (op : Op κ ν τ) (a : Arena κ ν) :
    (op.perform.run a).2.activeScopes = op.scopes a := by
  cases op with
  | add p =>
    rw [Op.perform, run_discard, Op.scopes]
    rcases add_cases a p with ⟨a', run, move⟩ | ⟨gone, e, run⟩
    · rw [run, move.activeScopes_eq, if_pos (mem_activeScopes_iff.2 move.active)]
    · rw [run, if_neg fun active => gone (mem_activeScopes_iff.1 active)]
  | drop s => exact drop_scopes a s
  | compact =>
    obtain ⟨shrunk, a', run, seen, -⟩ := compact_run a
    rw [Op.perform, run_discard, run]
    exact activeScopes_congr fun t => by rw [isActive_eq, isActive_eq, seen]
  | retain s =>
    have same := retainFrom_table (s.toNat + 1) s a
    exact activeScopes_congr fun t => by rw [isActive, isActive, frame?, frame?, Op.perform, retain, same]
  | release s =>
    rw [Op.perform, Op.scopes]
    by_cases top : s = root
    · rw [release, if_pos top, if_pos (.inl top)]
      rfl
    · have dropped := drop_scopes a s
      rw [if_neg top] at dropped
      rw [release_eq top]
      by_cases marked : s ∈ a.retained
      · rw [if_pos marked, if_pos (.inr marked)]
        rfl
      · rw [if_neg marked, if_neg (not_or.2 ⟨top, marked⟩), dropped]
  | collect h roots =>
    have dropped := dropAll_scopes (a.doomed h roots) a
    rw [Op.perform, run_discard, Op.scopes, ← dropped, collect_state]
  | define s key value =>
    rw [Op.perform, run_discard]
    exact define_scopes s key value a
  | assign s key value =>
    rw [Op.perform, run_discard]
    rcases assign_cases s key value a with same | ⟨u, same⟩
    · rw [same]
      rfl
    · rw [same]
      exact define_scopes u key value a
  | get s key =>
    rw [Op.perform, run_discard, get?_state]
    rfl

end Scopes

structure Consistent [DecidableEq κ] (a : Arena κ ν) : Prop where
  ascending : a.activeScopes.Pairwise (· < ·)
  first : a.activeScopes.head? = some root
  within : ∀ s ∈ a.activeScopes, s < a.table.size
  older : ∀ {s : Int} {e}, a.row? s = some e → s ≠ root → ∃ p : Int, e.parent = some p ∧ 0 ≤ p ∧ p < s
  lookups : ∀ (key : κ) (s : Int) (steps : Nat), s.toNat < steps →
    (findIn key steps s).run a = (find s key).run a
  retentions : ∀ (s : Int) (steps : Nat), s.toNat < steps →
    (retainFrom steps s).run a = (retain s).run a
  children : ∀ p ∈ a.activeScopes,
    (Arena.children p).run a = (.ok (a.activeScopes.filter fun s => a.link? s = some p), a)
  blank : ∀ {s e}, a.row? s = some e → e.active = false → e.bindings = []
  /-- An id that is handed out is neither active nor that of an ancestor, dropped or not, of an active
  scope; and it becomes the last of the active ones. -/
  fresh : ∀ {p : Int} {id : ScopeId} {a' : Arena κ ν}, (add p).run a = (.ok id, a') →
    (∀ s ∈ a.activeScopes, id ≠ s ∧ ¬ a.Above id s) ∧ a'.activeScopes = a.activeScopes ++ [id]
  scopes : ∀ {τ : Type} (op : Op κ ν τ), (op.perform.run a).2.activeScopes = op.scopes a
  links : ∀ {τ : Type} (op : Op κ ν τ) {s : Int} {e e' : Entry κ ν}, a.row? s = some e →
    (op.perform.run a).2.row? s = some e' → e'.parent = e.parent

theorem Formed.fresh (h : a.Formed) {id : ScopeId} (run : (add p).run a = (.ok id, a')) :
    (∀ s ∈ a.activeScopes, id ≠ s ∧ ¬ a.Above id s) ∧ a'.activeScopes = a.activeScopes ++ [id] := by
  rcases add_cases a p with ⟨a₁, run', move⟩ | ⟨-, e, run'⟩
  · rw [run'] at run
    cases run
    refine ⟨fun s member => ?_, move.activeScopes_eq⟩
    obtain ⟨e, found, -⟩ := isActive_iff.1 (mem_activeScopes_iff.1 member)
    have below := (bounds_of_row? found).2
    exact ⟨Int.ne_of_gt below, fun above => Int.lt_asymm below (h.above_lt above)⟩
  · rw [run'] at run
    cases run

theorem perform_links [DecidableEq κ] (op : Op κ ν τ) {e e' : Entry κ ν} (before : a.row? s = some e)
    (later : (op.perform.run a).2.row? s = some e') : e'.parent = e.parent := by
  rcases op.moves a with moves | ⟨p, move⟩
  · obtain ⟨f, same, parent, -⟩ := moves.kept later
    rw [before] at same
    cases same
    exact parent.symm
  · rw [move.old_row? (Int.ne_of_lt (bounds_of_row? before).2), before] at later
    cases later
    rfl

/-- Whatever is done to a new arena, with whatever ids, it stays consistent. -/
theorem consistent_after [DecidableEq κ] (ops : List (Op κ ν τ)) :
    ((new : Arena κ ν).after ops).Consistent := by
  have h : ((new : Arena κ ν).after ops).Formed := formed_new.after ops
  exact {
    ascending := pairwise_activeScopes _
    first := h.head?_activeScopes
    within := fun s member => by
      obtain ⟨e, found⟩ := mem_activeScopes.1 member
      exact (bounds_of_cell? found).2
    older := h.older
    lookups := fun key s steps enough => h.findIn_eq key enough (Nat.lt_succ_self _)
    retentions := fun s steps enough => h.retainFrom_eq _ enough (Nat.lt_succ_self _)
    children := fun p active => h.children_run active
    blank := h.blank
    fresh := h.fresh
    scopes := fun op => perform_scopes op _
    links := fun op => perform_links op }

end Lox.Arena
