import Mathlib.Data.List.Nodup
import Mathlib.Data.List.Perm.Subperm
import Mathlib.Logic.Relation
import Lox.Proofs.Scope.View
import Lox.Scope.Collect

set_option autoImplicit false

namespace Lox

def Heap.captures {ν τ : Type} (h : Heap ν τ) (t : τ) : List τ :=
  match h.sight t with
  | .object _ items => items
  | _ => []

variable {κ ν τ : Type} {a : Arena κ ν} {h : Heap ν τ} {roots : List τ}

theorem Heap.captures_eq {t : τ} {id : Nat} {items : List τ} (sees : h.sight t = .object id items) :
    h.captures t = items := by
  rw [captures, sees]

theorem Heap.object_of_captured {t u : τ} (item : u ∈ h.captures t) :
    ∃ id, h.sight t = .object id (h.captures t) := by
  unfold captures at item ⊢
  cases sees : h.sight t with
  | object id items => exact ⟨id, rfl⟩
  | plain | frame s =>
    rw [sees] at item
    cases item

def Marking.events (m : Marking τ) : Nat := m.marked.length + m.seen.length

namespace Arena

/-- The second is held by the first. A frame counts only where it has been captured. -/
inductive Leads (a : Arena κ ν) (h : Heap ν τ) : ScopeId ⊕ τ → ScopeId ⊕ τ → Prop
  | bound {s : Int} {e : Chain.Entry κ ν} {key : κ} {v : ν} (found : a.cell? s = some e)
      (binds : (key, v) ∈ e.bindings) : Leads a h (.inl s) (.inr (h.ofValue v))
  | parent {s p : Int} {e : Chain.Entry κ ν} (found : a.cell? s = some e) (above : e.parent = some p)
      (active : a.isActive p = true) : Leads a h (.inl s) (.inl p)
  | captured {t u : τ} (item : u ∈ h.captures t) : Leads a h (.inr t) (.inr u)
  | framed {t u : τ} {s : Int} (item : u ∈ h.captures t) (frame : h.sight u = .frame s)
      (active : a.isActive s = true) : Leads a h (.inr t) (.inl s)

inductive Reachable (a : Arena κ ν) (h : Heap ν τ) (roots : List τ) : ScopeId ⊕ τ → Prop
  | opened {s : Int} (active : a.isActive s = true) (still : s ∉ a.exited) : Reachable a h roots (.inl s)
  | given {t : τ} (root : t ∈ roots) : Reachable a h roots (.inr t)
  | further {x y : ScopeId ⊕ τ} (holder : Reachable a h roots x) (leads : a.Leads h x y) :
      Reachable a h roots y

theorem Leads.active {x : ScopeId ⊕ τ} {s : Int} (leads : a.Leads h x (.inl s)) : a.isActive s = true := by
  cases leads with
  | parent _ _ active => exact active
  | framed _ _ active => exact active

theorem Reachable.active {s : Int} (reached : a.Reachable h roots (.inl s)) : a.isActive s = true := by
  cases reached with
  | opened active _ => exact active
  | further _ leads => exact leads.active

section Steps

inductive Step (a : Arena κ ν) (h : Heap ν τ) : Marking τ → Marking τ → Prop
  | skip {m : Marking τ} {s : Int} (known : a.isActive s = true → s ∈ m.marked) :
      Step a h { m with pending := s :: m.pending } m
  | mark {m : Marking τ} {s : Int} {e : Chain.Entry κ ν} (found : a.cell? s = some e)
      (unmarked : s ∉ m.marked) :
      Step a h { m with pending := s :: m.pending }
        { m.mark h s (e.bindings.map (·.2)) with pending := e.parent.toList ++ m.pending }
  | pass {m : Marking τ} {t : τ} (known : ∀ id items, h.sight t = .object id items → id ∈ m.seen) :
      Step a h { m with values := t :: m.values } m
  | see {m : Marking τ} {t : τ} {id : Nat} {items : List τ} (sees : h.sight t = .object id items)
      (unseen : id ∉ m.seen) :
      Step a h { m with values := t :: m.values } (items.foldl (·.take h) { m with seen := id :: m.seen })

abbrev Steps (a : Arena κ ν) (h : Heap ν τ) : Marking τ → Marking τ → Prop :=
  Relation.ReflTransGen (a.Step h)

variable {m m' : Marking τ}

theorem takeAll_spec (items : List τ) (m : Marking τ) :
    (items.foldl (·.take h) m).marked = m.marked ∧ (items.foldl (·.take h) m).seen = m.seen ∧
      (∀ s, s ∈ (items.foldl (·.take h) m).pending ↔
        s ∈ m.pending ∨ ∃ u ∈ items, h.sight u = .frame s) ∧
      ∀ t, t ∈ (items.foldl (·.take h) m).values ↔
        t ∈ m.values ∨ t ∈ items ∧ ∀ s, h.sight t ≠ .frame s := by
  induction items generalizing m with
  | nil => simp
  | cons u rest ih =>
    obtain ⟨marked, seen, pending, values⟩ := ih (m.take h u)
    rw [List.foldl_cons]
    refine ⟨marked.trans ?_, seen.trans ?_, fun s => (pending s).trans ?_, fun t => (values t).trans ?_⟩
    all_goals
      unfold Marking.take
      cases sees : h.sight u <;> simp
    all_goals grind

structure Valid (a : Arena κ ν) (h : Heap ν τ) (m : Marking τ) : Prop where
  once : m.marked.Nodup
  active : ∀ s ∈ m.marked, a.isActive s = true
  seenOnce : m.seen.Nodup
  bounded : ∀ id ∈ m.seen, id < h.objects

theorem length_activeScopes_le (a : Arena κ ν) : a.activeScopes.length ≤ a.table.size := by
  calc a.activeScopes.length ≤ ((List.range a.table.size).map Int.ofNat).length := List.length_filter_le _ _
    _ = a.table.size := by rw [List.length_map, List.length_range]

theorem Valid.marked_le (valid : a.Valid h m) : m.marked.length ≤ a.table.size := by
  have within : m.marked ⊆ a.activeScopes := fun s member =>
    mem_activeScopes.2 (cell?_of_isActive (valid.active s member))
  exact Nat.le_trans (List.subperm_of_subset valid.once within).length_le (length_activeScopes_le a)

theorem Valid.seen_le (valid : a.Valid h m) : m.seen.length ≤ h.objects := by
  have within : m.seen ⊆ List.range h.objects := fun id member =>
    List.mem_range.2 (valid.bounded id member)
  have := (List.subperm_of_subset valid.seenOnce within).length_le
  rwa [List.length_range] at this

theorem Valid.congr (valid : a.Valid h m) (marked : m'.marked = m.marked) (seen : m'.seen = m.seen) :
    a.Valid h m' :=
  ⟨marked ▸ valid.once, marked ▸ valid.active, seen ▸ valid.seenOnce, seen ▸ valid.bounded⟩

theorem Valid.step (valid : a.Valid h m) (step : a.Step h m m') : a.Valid h m' := by
  cases step with
  | skip known => exact valid.congr rfl rfl
  | pass known => exact valid.congr rfl rfl
  | @mark m s e found unmarked =>
    refine ⟨List.nodup_cons.2 ⟨unmarked, valid.once⟩, fun t member => ?_, valid.seenOnce, valid.bounded⟩
    rcases List.mem_cons.1 member with rfl | old
    · exact isActive_of_cell? found
    · exact valid.active t old
  | @see m t id items sees unseen =>
    obtain ⟨marked, seen, -, -⟩ := takeAll_spec (h := h) items { m with seen := id :: m.seen }
    suffices seen' : a.Valid h { m with seen := id :: m.seen } from seen'.congr marked seen
    refine ⟨valid.once, valid.active, List.nodup_cons.2 ⟨unseen, valid.seenOnce⟩, fun id' member => ?_⟩
    rcases List.mem_cons.1 member with rfl | old
    · exact h.bounded sees
    · exact valid.bounded id' old

theorem Valid.steps (valid : a.Valid h m) (steps : a.Steps h m m') : a.Valid h m' := by
  induction steps with
  | refl => exact valid
  | tail _ step ih => exact ih.step step

end Steps

section Progress

variable {m m' : Marking τ}

theorem Step.progress (step : a.Step h m m') :
    m.events < m'.events ∨ m'.events = m.events ∧ m'.waiting < m.waiting := by
  unfold Marking.events Marking.waiting
  cases step with
  | skip known => exact .inr ⟨rfl, by simp⟩
  | pass known => exact .inr ⟨rfl, by simp⟩
  | @mark m s e found unmarked =>
    left
    simp only [Marking.mark, List.length_cons]
    omega
  | @see m t id items sees unseen =>
    obtain ⟨marked, seen, -, -⟩ := takeAll_spec (h := h) items { m with seen := id :: m.seen }
    left
    rw [marked, seen]
    simp only [List.length_cons]
    omega

theorem Step.progress_trans (steps : Relation.TransGen (a.Step h) m m') :
    m.events < m'.events ∨ m'.events = m.events ∧ m'.waiting < m.waiting := by
  induction steps with
  | single step => exact step.progress
  | tail _ step ih =>
    have last := step.progress
    omega

theorem Steps.events_le (steps : a.Steps h m m') : m.events ≤ m'.events := by
  rcases Relation.reflTransGen_iff_eq_or_transGen.1 steps with rfl | steps
  · exact Nat.le_refl _
  · have := Step.progress_trans steps
    omega

theorem climb_step (a : Arena κ ν) (h : Heap ν τ) (steps : Nat) (s : Int) (m : Marking τ) :
    a.climb h (steps + 1) s m =
      match a.cell? s with
      | none => m
      | some e =>
        if s ∈ m.marked then m
        else
          match e.parent with
          | some p => a.climb h steps p (m.mark h s (e.bindings.map (·.2)))
          | none => m.mark h s (e.bindings.map (·.2)) := by
  rw [climb, cell?]
  cases a.frame? s with
  | none => rfl
  | some e =>
    simp only [List.contains_iff_mem]
    rfl

def unmarked (a : Arena κ ν) (m : Marking τ) : List ScopeId := a.activeScopes.filter (· ∉ m.marked)

theorem length_unmarked_le (a : Arena κ ν) (m : Marking τ) : (a.unmarked m).length ≤ a.table.size :=
  Nat.le_trans (List.length_filter_le _ _) (length_activeScopes_le a)

theorem length_unmarked_mark {s : Int} {e : Chain.Entry κ ν} (found : a.cell? s = some e)
    (unmarked : s ∉ m.marked) (values : List ν) :
    (a.unmarked (m.mark h s values)).length < (a.unmarked m).length := by
  have fewer : a.unmarked (m.mark h s values) = (a.unmarked m).filter (· ≠ s) := by
    simp only [Arena.unmarked, Marking.mark, List.filter_filter, List.mem_cons, not_or, Bool.decide_and]
  have here : s ∈ a.unmarked m := List.mem_filter.2 ⟨mem_activeScopes.2 ⟨e, found⟩, by simpa using unmarked⟩
  rw [fewer]
  exact List.length_filter_lt_length_iff_exists.2 ⟨s, here, by simp⟩

/-- A climb does not end for want of steps. -/
theorem climb_enough {steps steps' : Nat} {s : Int} (enough : (a.unmarked m).length < steps)
    (enough' : (a.unmarked m).length < steps') : a.climb h steps s m = a.climb h steps' s m := by
  induction steps generalizing steps' s m with
  | zero => omega
  | succ steps ih =>
    obtain ⟨steps', rfl⟩ := Nat.exists_eq_succ_of_ne_zero (show steps' ≠ 0 by omega)
    rw [climb_step, climb_step]
    cases found : a.cell? s with
    | none => rfl
    | some e =>
      dsimp only
      split
      next => rfl
      next unmarked =>
        have fewer := length_unmarked_mark (h := h) found unmarked (e.bindings.map (·.2))
        cases e.parent with
        | none => rfl
        | some p => exact ih (by omega) (by omega)

theorem climb_steps (steps : Nat) (s : Int) (m : Marking τ) (enough : (a.unmarked m).length < steps) :
    Relation.TransGen (a.Step h) { m with pending := s :: m.pending } (a.climb h steps s m) := by
  induction steps generalizing s m with
  | zero => omega
  | succ steps ih =>
    rw [climb_step]
    cases found : a.cell? s with
    | none =>
      refine .single (.skip fun active => ?_)
      rw [isActive_eq, found] at active
      cases active
    | some e =>
      dsimp only
      split
      next known => exact .single (.skip fun _ => known)
      next unmarked =>
        have first := Step.mark (h := h) found unmarked
        have fewer := length_unmarked_mark (h := h) found unmarked (e.bindings.map (·.2))
        cases above : e.parent with
        | none =>
          rw [above] at first
          exact .single first
        | some p =>
          rw [above] at first
          exact .head first (ih p _ (by omega))

theorem turn_idle (idle : m.waiting = 0) : a.turn h m = m := by
  obtain ⟨marked, seen, _ | ⟨s, pending⟩, _ | ⟨t, values⟩⟩ := m
  · rfl
  all_goals
    simp [Marking.waiting] at idle

theorem turn_steps (busy : m.waiting ≠ 0) :
    Relation.TransGen (a.Step h) m (a.turn h m) := by
  obtain ⟨marked, seen, _ | ⟨s, pending⟩, values⟩ := m
  · cases values with
    | nil => exact absurd rfl busy
    | cons t values =>
      have pass : (∀ id items, h.sight t = .object id items → id ∈ seen) →
          Relation.TransGen (a.Step h) ⟨marked, seen, [], t :: values⟩ ⟨marked, seen, [], values⟩ :=
        fun known => .single (Step.pass (m := ⟨marked, seen, [], values⟩) known)
      cases sees : h.sight t with
      | plain | frame s =>
        simp only [turn, sees]
        exact pass fun id items same => nomatch sees.symm.trans same
      | object id items =>
        simp only [turn, sees, List.contains_iff_mem]
        split
        next known =>
          refine pass fun id' items' same => ?_
          cases sees.symm.trans same
          exact known
        next unseen => exact .single (Step.see (m := ⟨marked, seen, [], values⟩) sees unseen)
  · exact climb_steps _ s ⟨marked, seen, pending, values⟩ (Nat.lt_succ_of_le (length_unmarked_le a _))

theorem turns_progress (n : Nat) (m : Marking τ) :
    a.Steps h m (a.turns h n m) ∧
      (m.events < (a.turns h n m).events ∨ (a.turns h n m).waiting ≤ m.waiting - n) := by
  induction n generalizing m with
  | zero => exact ⟨.refl, .inr (Nat.le_refl _)⟩
  | succ n ih =>
    rw [turns]
    by_cases idle : m.waiting = 0
    · rw [turn_idle idle]
      obtain ⟨steps, progress⟩ := ih m
      exact ⟨steps, by omega⟩
    · have first := turn_steps (a := a) (h := h) idle
      obtain ⟨steps, progress⟩ := ih (a.turn h m)
      refine ⟨first.to_reflTransGen.trans steps, ?_⟩
      have := Step.progress_trans first
      have := Steps.events_le steps
      omega

theorem turns_add (n k : Nat) (m : Marking τ) : a.turns h k (a.turns h n m) = a.turns h (n + k) m := by
  induction n generalizing m with
  | zero => rw [Nat.zero_add, turns]
  | succ n ih => rw [Nat.succ_add, turns, turns, ih]

theorem sweep_eq_turns (rounds : Nat) (m : Marking τ) : ∃ n, a.sweep h rounds m = a.turns h n m := by
  induction rounds generalizing m with
  | zero => exact ⟨0, rfl⟩
  | succ rounds ih =>
    rw [sweep]
    split
    next => exact ⟨0, rfl⟩
    next =>
      obtain ⟨n, same⟩ := ih (a.turns h m.waiting m)
      exact ⟨m.waiting + n, same.trans (turns_add ..)⟩

theorem sweep_idle (rounds : Nat) (idle : m.waiting = 0) : a.sweep h rounds m = m := by
  cases rounds with
  | zero => rfl
  | succ rounds => rw [sweep, if_pos idle]

theorem sweep_ends (rounds : Nat) (valid : a.Valid h m)
    (enough : a.table.size + h.objects < m.events + rounds) : (a.sweep h rounds m).waiting = 0 := by
  induction rounds generalizing m with
  | zero =>
    have := valid.marked_le
    have := valid.seen_le
    unfold Marking.events at enough
    omega
  | succ rounds ih =>
    rw [sweep]
    split
    next idle => exact idle
    next =>
      obtain ⟨steps, grown | emptied⟩ := turns_progress (a := a) (h := h) m.waiting m
      · exact ih (valid.steps steps) (by omega)
      · rw [sweep_idle rounds (by omega)]
        omega

end Progress

section Tracing

variable {m m' : Marking τ} {x y : ScopeId ⊕ τ}

def Covers (a : Arena κ ν) (h : Heap ν τ) (m : Marking τ) : ScopeId ⊕ τ → Prop
  | .inl s => a.isActive s = true → s ∈ m.marked ∨ s ∈ m.pending
  | .inr t => ∀ id items, h.sight t = .object id items → id ∈ m.seen ∨ t ∈ m.values

theorem Covers.step (covers : a.Covers h m x) (step : a.Step h m m') : a.Covers h m' x := by
  cases step with
  | @skip m s known =>
    cases x with
    | inr t => exact covers
    | inl u =>
      intro active
      rcases covers active with marked | waiting
      · exact .inl marked
      · rcases List.mem_cons.1 waiting with rfl | later
        · exact .inl (known active)
        · exact .inr later
  | @mark m s e found unmarked =>
    cases x with
    | inr t =>
      intro id items sees
      exact (covers id items sees).imp_right fun waits => List.mem_append_right _ waits
    | inl u =>
      intro active
      rcases covers active with marked | waiting
      · exact .inl (List.mem_cons_of_mem s marked)
      · rcases List.mem_cons.1 waiting with rfl | later
        · exact .inl List.mem_cons_self
        · exact .inr (List.mem_append_right _ later)
  | @pass m t known =>
    cases x with
    | inl u => exact covers
    | inr u =>
      intro id items sees
      rcases covers id items sees with seen | waiting
      · exact .inl seen
      · rcases List.mem_cons.1 waiting with rfl | later
        · exact .inl (known id items sees)
        · exact .inr later
  | @see m t id items sees unseen =>
    obtain ⟨marked, seen, pending, values⟩ := takeAll_spec (h := h) items { m with seen := id :: m.seen }
    cases x with
    | inl u =>
      intro active
      rw [marked, pending]
      exact (covers active).imp_right .inl
    | inr u =>
      intro id' items' sees'
      rw [seen, values]
      rcases covers id' items' sees' with seen | waiting
      · exact .inl (List.mem_cons_of_mem id seen)
      · rcases List.mem_cons.1 waiting with rfl | later
        · rw [sees] at sees'
          cases sees'
          exact .inl List.mem_cons_self
        · exact .inr (.inl later)

theorem covers_held {s : Int} {e : Chain.Entry κ ν} (found : a.cell? s = some e)
    (leads : a.Leads h (.inl s) y) :
    a.Covers h { m.mark h s (e.bindings.map (·.2)) with pending := e.parent.toList ++ m.pending } y := by
  cases leads with
  | bound here binds =>
    rw [found] at here
    cases here
    refine fun _ _ _ => .inr (List.mem_append_left _ (List.mem_reverse.2 ?_))
    exact List.mem_map_of_mem (List.mem_map_of_mem binds)
  | parent here above =>
    rw [found] at here
    cases here
    exact fun _ => .inr (List.mem_append_left _ (Option.mem_toList.2 above))

theorem covers_captured {t : τ} {id : Nat} {items : List τ} (sees : h.sight t = .object id items)
    (leads : a.Leads h (.inr t) y) : a.Covers h (items.foldl (·.take h) m) y := by
  obtain ⟨-, -, pending, values⟩ := takeAll_spec (h := h) items m
  have held := Heap.captures_eq sees
  cases leads with
  | captured item =>
    intro id' items' sees'
    rw [values]
    exact .inr (.inr ⟨held ▸ item, fun s frame => by rw [sees'] at frame; cases frame⟩)
  | framed item frame active =>
    intro _
    rw [pending]
    exact .inr (.inr ⟨_, held ▸ item, frame⟩)

/-- Everything that counts is reachable, and what it leads to is covered. -/
structure Tracing (a : Arena κ ν) (h : Heap ν τ) (roots : List τ) (m : Marking τ) : Prop where
  opened : ∀ s, a.isActive s = true → s ∉ a.exited → a.Covers h m (.inl s)
  given : ∀ t ∈ roots, a.Covers h m (.inr t)
  scopes : ∀ s ∈ m.marked, a.Reachable h roots (.inl s) ∧ ∀ y, a.Leads h (.inl s) y → a.Covers h m y
  objects : ∀ id ∈ m.seen, ∃ t items, h.sight t = .object id items ∧ a.Reachable h roots (.inr t) ∧
    ∀ y, a.Leads h (.inr t) y → a.Covers h m y
  pending : ∀ s ∈ m.pending, a.isActive s = true → a.Reachable h roots (.inl s)
  values : ∀ t ∈ m.values, a.Reachable h roots (.inr t)

theorem Tracing.step (tracing : a.Tracing h roots m) (step : a.Step h m m') :
    a.Tracing h roots m' := by
  have opened := fun s active still => (tracing.opened s active still).step step
  have given := fun t root => (tracing.given t root).step step
  have scopes : ∀ s ∈ m.marked, a.Reachable h roots (.inl s) ∧
      ∀ y, a.Leads h (.inl s) y → a.Covers h m' y := fun s member =>
    ⟨(tracing.scopes s member).1, fun y leads => ((tracing.scopes s member).2 y leads).step step⟩
  have objects : ∀ id ∈ m.seen, ∃ t items, h.sight t = .object id items ∧
      a.Reachable h roots (.inr t) ∧ ∀ y, a.Leads h (.inr t) y → a.Covers h m' y := by
    intro id member
    obtain ⟨t, items, sees, reached, covered⟩ := tracing.objects id member
    exact ⟨t, items, sees, reached, fun y leads => (covered y leads).step step⟩
  cases step with
  | skip known =>
    exact ⟨opened, given, scopes, objects,
      fun s member => tracing.pending s (List.mem_cons_of_mem _ member), tracing.values⟩
  | pass known =>
    exact ⟨opened, given, scopes, objects, tracing.pending,
      fun t member => tracing.values t (List.mem_cons_of_mem _ member)⟩
  | @mark m s e found unmarked =>
    have reached := tracing.pending s List.mem_cons_self (isActive_of_cell? found)
    refine ⟨opened, given, fun u member => ?_, objects, fun u member active => ?_, fun t member => ?_⟩
    · rcases List.mem_cons.1 member with rfl | old
      · exact ⟨reached, fun y => covers_held found⟩
      · exact scopes u old
    · rcases List.mem_append.1 member with above | later
      · exact .further reached (.parent found (Option.mem_toList.1 above) active)
      · exact tracing.pending u (List.mem_cons_of_mem s later) active
    · rcases List.mem_append.1 member with bound | later
      · obtain ⟨v, held, rfl⟩ := List.mem_map.1 (List.mem_reverse.1 bound)
        obtain ⟨⟨key, v⟩, binds, rfl⟩ := List.mem_map.1 held
        exact .further reached (.bound found binds)
      · exact tracing.values t later
  | @see m t id items sees unseen =>
    obtain ⟨marked, seen, pending, values⟩ := takeAll_spec (h := h) items { m with seen := id :: m.seen }
    have reached := tracing.values t List.mem_cons_self
    have held := Heap.captures_eq sees
    refine ⟨opened, given, fun s member => ?_, fun id' member => ?_, fun s member active => ?_,
      fun u member => ?_⟩
    · rw [marked] at member
      exact scopes s member
    · rw [seen] at member
      rcases List.mem_cons.1 member with rfl | old
      · exact ⟨t, items, sees, reached, fun y => covers_captured sees⟩
      · exact objects id' old
    · rcases (pending s).1 member with later | ⟨u, item, frame⟩
      · exact tracing.pending s later active
      · exact .further reached (.framed (held ▸ item) frame active)
    · rcases (values u).1 member with later | ⟨item, -⟩
      · exact tracing.values u (List.mem_cons_of_mem t later)
      · exact .further reached (.captured (held ▸ item))

theorem Tracing.steps (tracing : a.Tracing h roots m) (steps : a.Steps h m m') :
    a.Tracing h roots m' := by
  induction steps with
  | refl => exact tracing
  | tail _ step ih => exact ih.step step

theorem tracing_seeds (a : Arena κ ν) (h : Heap ν τ) (roots : List τ) :
    a.Tracing h roots (a.seeds roots) where
  opened s active still _ := by
    have here := mem_activeScopes.2 (cell?_of_isActive active)
    exact .inr (List.mem_reverse.2 (List.mem_filter.2 ⟨here, by simpa using still⟩))
  given t root _ _ _ := .inr (List.mem_reverse.2 root)
  scopes _ member := nomatch member
  objects _ member := nomatch member
  pending s member active := by
    have still := (List.mem_filter.1 (List.mem_reverse.1 member)).2
    exact .opened active (by simpa using still)
  values t member := .given (List.mem_reverse.1 member)

end Tracing

section Marked

variable {m : Marking τ} {s : Int}

theorem Covers.marked (covers : a.Covers h m (.inl s)) (idle : m.waiting = 0)
    (active : a.isActive s = true) : s ∈ m.marked := by
  rcases covers active with marked | waits
  · exact marked
  · have := List.length_pos_of_mem waits
    unfold Marking.waiting at idle
    omega

theorem Covers.seen {t : τ} {id : Nat} {items : List τ} (covers : a.Covers h m (.inr t))
    (idle : m.waiting = 0) (sees : h.sight t = .object id items) : id ∈ m.seen := by
  rcases covers id items sees with seen | waits
  · exact seen
  · have := List.length_pos_of_mem waits
    unfold Marking.waiting at idle
    omega

def Coherent (a : Arena κ ν) (h : Heap ν τ) (roots : List τ) : Prop :=
  ∀ {t u : τ} {id : Nat} {items items' : List τ}, a.Reachable h roots (.inr t) →
    a.Reachable h roots (.inr u) → h.sight t = .object id items → h.sight u = .object id items' →
    items = items'

theorem Tracing.covers (tracing : a.Tracing h roots m) (idle : m.waiting = 0)
    (coherent : a.Coherent h roots) {x : ScopeId ⊕ τ} (reached : a.Reachable h roots x) :
    a.Covers h m x := by
  induction reached with
  | opened active still => exact tracing.opened _ active still
  | given root => exact tracing.given _ root
  | @further x y holder leads ih =>
    cases x with
    | inl s => exact (tracing.scopes s (ih.marked idle holder.active)).2 y leads
    | inr t =>
      obtain ⟨id, sees⟩ : ∃ id, h.sight t = .object id (h.captures t) := by
        cases leads with
        | captured item => exact Heap.object_of_captured item
        | framed item => exact Heap.object_of_captured item
      -- The object may have been seen as another thing, but it captures the same.
      obtain ⟨u, items, sees', reached, covered⟩ := tracing.objects id (ih.seen idle sees)
      have same : h.captures u = h.captures t := by
        rw [Heap.captures_eq sees']
        exact (coherent holder reached sees sees').symm
      apply covered
      cases leads with
      | captured item => exact .captured (same ▸ item)
      | framed item frame active => exact .framed (same ▸ item) frame active

theorem marked_spec (a : Arena κ ν) (h : Heap ν τ) (roots : List τ) :
    ∃ n, (a.turns h n (a.seeds roots)).waiting = 0 ∧
      (a.turns h n (a.seeds roots)).marked = a.marked h roots ∧
      a.Tracing h roots (a.turns h n (a.seeds roots)) := by
  have valid : a.Valid h (a.seeds roots) := ⟨.nil, nofun, .nil, nofun⟩
  obtain ⟨n, same⟩ := sweep_eq_turns (a := a) (h := h) (a.table.size + h.objects + 1) (a.seeds roots)
  have ended := sweep_ends (a.table.size + h.objects + 1) valid (by omega)
  rw [same] at ended
  refine ⟨n, ended, by rw [marked, same], ?_⟩
  exact (tracing_seeds a h roots).steps (turns_progress n _).1

theorem reachable_of_marked (marked : s ∈ a.marked h roots) : a.Reachable h roots (.inl s) := by
  obtain ⟨n, -, same, tracing⟩ := marked_spec a h roots
  rw [← same] at marked
  exact (tracing.scopes s marked).1

theorem marked_of_opened (h : Heap ν τ) (roots : List τ) (active : a.isActive s = true)
    (still : s ∉ a.exited) : s ∈ a.marked h roots := by
  obtain ⟨n, idle, same, tracing⟩ := marked_spec a h roots
  rw [← same]
  exact (tracing.opened s active still).marked idle active

theorem marked_of_leads {p : Int} (marked : s ∈ a.marked h roots) (leads : a.Leads h (.inl s) (.inl p)) :
    p ∈ a.marked h roots := by
  obtain ⟨n, idle, same, tracing⟩ := marked_spec a h roots
  rw [← same] at marked ⊢
  exact ((tracing.scopes s marked).2 _ leads).marked idle leads.active

theorem mem_marked (coherent : a.Coherent h roots) :
    s ∈ a.marked h roots ↔ a.Reachable h roots (.inl s) := by
  refine ⟨reachable_of_marked, fun reached => ?_⟩
  obtain ⟨n, idle, same, tracing⟩ := marked_spec a h roots
  rw [← same]
  exact (tracing.covers idle coherent reached).marked idle reached.active

end Marked

end Arena
end Lox
