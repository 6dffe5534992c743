import Mathlib.Logic.Relation
import Lox.Proofs.Scope.Doomed

set_option autoImplicit false

namespace Lox.Arena

inductive Op (κ ν τ : Type) where
  | add (parent : ScopeId)
  | drop (scope : ScopeId)
  | compact
  | retain (scope : ScopeId)
  | release (scope : ScopeId)
  | collect (heap : Heap ν τ) (roots : List τ)
  | define (scope : ScopeId) (key : κ) (value : ν)
  | assign (scope : ScopeId) (key : κ) (value : ν)
  | get (scope : ScopeId) (key : κ)

-- A heap of values that capture nothing.
def inert (ν : Type) : Heap ν ν where
  ofValue := id
  sight _ := .plain
  objects := 0
  bounded := nofun

section Operations

variable {κ ν τ : Type} [DecidableEq κ]

def Op.perform : Op κ ν τ → Work κ ν Unit
  | .add parent => do let _ ← Arena.add parent
  | .drop scope => Arena.drop scope
  | .compact => do let _ ← Arena.compact
  | .retain scope => Arena.retain scope
  | .release scope => Arena.release scope
  | .collect heap roots => do let _ ← Arena.collect heap roots
  | .define scope key value => do let _ ← Arena.define scope key value
  | .assign scope key value => do let _ ← Arena.assign scope key value
  | .get scope key => do let _ ← Arena.get? scope key

def after (a : Arena κ ν) : List (Op κ ν τ) → Arena κ ν
  | [] => a
  | op :: rest => (op.perform.run a).2.after rest

end Operations

variable {κ ν τ : Type} {a a' : Arena κ ν} {s t p : Int}

def row? (a : Arena κ ν) (s : Int) : Option (Entry κ ν) :=
  if 0 ≤ s then a.table[s.toNat]? else none

def link? (a : Arena κ ν) (s : Int) : Option ScopeId := (a.row? s).bind Entry.parent

inductive Above (a : Arena κ ν) (s : Int) : Int → Prop
  | parent {t : Int} : a.link? t = some s → Above a s t
  | further {t p : Int} : a.link? t = some p → Above a s p → Above a s t

theorem frame?_eq (a : Arena κ ν) (s : Int) : a.frame? s = (a.row? s).filter Entry.active := by
  unfold frame? row?
  split <;> rfl

theorem frame?_eq_some_iff {e : Entry κ ν} :
    a.frame? s = some e ↔ a.row? s = some e ∧ e.active = true := by
  rw [frame?_eq, Option.filter_eq_some_iff]

theorem isActive_iff : a.isActive s = true ↔ ∃ e, a.row? s = some e ∧ e.active = true := by
  simp only [isActive, Option.isSome_iff_exists, frame?_eq_some_iff]

theorem mem_activeScopes_iff : s ∈ a.activeScopes ↔ a.isActive s = true := by
  rw [mem_activeScopes, isActive_eq, Option.isSome_iff_exists]

theorem link?_of_cell? {e : Chain.Entry κ ν} (found : a.cell? s = some e) : a.link? s = e.parent := by
  obtain ⟨children, frame⟩ := cell?_eq_some found
  rw [link?, (frame?_eq_some_iff.1 frame).1]
  rfl

theorem bounds_of_row? {e : Entry κ ν} (h : a.row? s = some e) : 0 ≤ s ∧ s < a.table.size := by
  unfold row? at h
  split at h
  next nonneg =>
    have := (Array.getElem?_eq_some_iff.1 h).1
    omega
  next => cases h

theorem row?_update (f : Entry κ ν → Entry κ ν) (nonneg : 0 ≤ s) :
    (a.update s f).row? t = if t = s then (a.row? s).map f else a.row? t := by
  unfold row? update
  by_cases same : t = s
  · simp [same, nonneg, Array.getElem?_modify]
  · by_cases other : 0 ≤ t
    · have apart : s.toNat ≠ t.toNat := by omega
      simp [same, other, Array.getElem?_modify, apart]
    · simp [same, other]

theorem row?_push (a : Arena κ ν) (e : Entry κ ν) (retained exited : List ScopeId) :
    (Arena.mk (a.table.push e) retained exited).row? t =
      if t = a.table.size then some e else a.row? t := by
  unfold row?
  by_cases nonneg : 0 ≤ t
  · have same : t.toNat = a.table.size ↔ t = a.table.size := by omega
    simp [nonneg, Array.getElem?_push, same]
  · have apart : t ≠ a.table.size := by omega
    simp [nonneg, apart]

theorem row?_take (n : Nat) (retained exited : List ScopeId) :
    (Arena.mk (a.table.take n) retained exited).row? t = if t < n then a.row? t else none := by
  simp only [row?, getElem?_take]
  by_cases nonneg : 0 ≤ t
  · have same : t.toNat < n ↔ t < n := by omega
    simp only [nonneg, if_true, same]
  · simp only [nonneg, if_false, ite_self]

structure Opens (p : Int) (a a' : Arena κ ν) : Prop where
  active : a.isActive p = true
  seen : ∀ t, a'.row? t =
    if t = a.table.size then some ⟨some p, [], [], true⟩
    else if t = p then (a.row? p).map fun e => { e with children := e.children ++ [(a.table.size : Int)] }
    else a.row? t

structure Drops (s : Int) (e : Entry κ ν) (a a' : Arena κ ν) : Prop where
  found : a.frame? s = some e
  inner : s ≠ root
  seen : ∀ t, a'.row? t =
    if t = s then some { e with bindings := [], active := false }
    else if e.parent = some t then
      (a.row? t).map fun f => if f.active then { f with children := f.children.erase s } else f
    else a.row? t

inductive Quiet (a a' : Arena κ ν) : Prop
  | drops {s : Int} {e : Entry κ ν} (move : Drops s e a a')
  | binds {s : Int} (active : a.isActive s = true) (f : Bindings κ ν → Bindings κ ν)
      (seen : ∀ t, a'.row? t =
        if t = s then (a.row? s).map fun e => { e with bindings := f e.bindings } else a.row? t)
  | marks (same : a'.table = a.table)
  | trims (n : Nat) (keeps : ∀ s : Int, a.isActive s = true → s < n)
      (seen : ∀ t : Int, a'.row? t = if t < n then a.row? t else none)

abbrev Quietly : Arena κ ν → Arena κ ν → Prop := Relation.ReflTransGen Quiet

theorem frame_cases (a : Arena κ ν) (s : Int) :
    (∃ e, a.frame? s = some e ∧ (frame s).run a = (.ok e, a)) ∨
      (a.frame? s = none ∧ (frame s).run a = (.error (.stale s), a)) := by
  unfold frame
  rw [run_bind, run_get]
  dsimp only
  cases found : a.frame? s with
  | some e => exact .inl ⟨e, rfl, rfl⟩
  | none => exact .inr ⟨rfl, rfl⟩

theorem add_cases (a : Arena κ ν) (p : Int) :
    (∃ a', (add p).run a = (.ok (a.table.size : Int), a') ∧ Opens p a a') ∨
      ¬ a.isActive p = true ∧ ∃ e, (add p).run a = (.error e, a) := by
  unfold add
  rw [run_bind]
  rcases frame_cases a p with ⟨e, found, run⟩ | ⟨gone, run⟩
  · rw [run]
    refine .inl ⟨_, rfl, ?_, fun t => ?_⟩
    · rw [isActive, found]
      rfl
    · have nonneg := (bounds_of_row? (frame?_eq_some_iff.1 found).1).1
      let linked := a.update p fun e => { e with children := e.children ++ [(a.table.size : Int)] }
      have size : linked.table.size = a.table.size := by simp [linked, update]
      have pushed := row?_push (t := t) linked ⟨some p, [], [], true⟩ a.retained a.exited
      rw [size, row?_update _ nonneg] at pushed
      exact pushed
  · rw [run, isActive, gone]
    exact .inr ⟨Bool.false_ne_true, _, rfl⟩

theorem row?_cleared {e : Entry κ ν} (found : a.row? s = some e) (t : Int) :
    (a.cleared s).row? t =
      if t = s then some { e with bindings := [], active := false } else a.row? t := by
  have update := row?_update (a := a) (t := t)
    (fun e => { e with bindings := [], active := false }) (bounds_of_row? found).1
  rw [found] at update
  exact update

theorem row?_unlinked (a : Arena κ ν) (s p t : Int) :
    (a.unlinked s p).row? t =
      if p = t then
        (a.row? t).map fun f => if f.active then { f with children := f.children.erase s } else f
      else a.row? t := by
  unfold unlinked
  by_cases active : a.isActive p = true
  · obtain ⟨f, found, still⟩ := isActive_iff.1 active
    rw [if_pos active, row?_update _ (bounds_of_row? found).1]
    by_cases here : p = t
    · subst here
      simp [found, still]
    · simp [here, Ne.symm here]
  · rw [if_neg active]
    by_cases here : p = t
    · subst here
      cases found : a.row? p with
      | none => simp
      | some f =>
        have inactive : f.active = false := by
          rw [← Bool.not_eq_true]
          exact fun still => active (isActive_iff.2 ⟨f, found, still⟩)
        simp [inactive]
    · simp [here]

theorem drop_quiet (a : Arena κ ν) (s : Int) : Quietly a ((drop s).run a).2 := by
  rcases drop_cases a s with same | ⟨inner, e, found⟩
  · rw [same]
  obtain ⟨children, found⟩ := cell?_eq_some found
  rw [drop_eq found inner]
  refine .single (.drops ⟨found, inner, fun t => ?_⟩)
  have cleared := row?_cleared (frame?_eq_some_iff.1 found).1 t
  cases parent : e.parent with
  | none => simpa [parent] using cleared
  | some p =>
    rw [Option.elim_some, row?_unlinked, cleared]
    by_cases here : t = s <;> simp [here, parent]

theorem compact_quiet (a : Arena κ ν) : Quietly a (compact.run a).2 := by
  unfold compact
  rw [run_bind, run_get]
  dsimp only
  generalize length : 2 * ((a.activeScopes.getLastD root).toNat + 1) = target
  split
  next => exact .refl
  next =>
    refine .single (.trims target (fun s active => ?_) fun t => row?_take _ _ _)
    rw [isActive_eq, Option.isSome_iff_exists] at active
    obtain ⟨e, found⟩ := active
    have last := le_last_of_active found
    omega

theorem retainFrom_keeps {P : Arena κ ν → Prop}
    (marks : ∀ a s, P a → P { a with retained := s :: a.retained }) (steps : Nat) (s : Int)
    (start : P a) : P ((retainFrom steps s).run a).2 := by
  induction steps generalizing s a with
  | zero => exact start
  | succ steps ih =>
    rw [retainFrom_step]
    split
    next => exact start
    next =>
      cases a.cell? s with
      | none => exact marks a s start
      | some e =>
        dsimp only
        cases e.parent with
        | none => exact marks a s start
        | some p => exact ih p (marks a s start)

theorem retainFrom_table (steps : Nat) (s : Int) (a : Arena κ ν) :
    ((retainFrom steps s).run a).2.table = a.table :=
  retainFrom_keeps (P := fun b => b.table = a.table) (fun _ _ same => same) steps s rfl

theorem release_quiet (a : Arena κ ν) (s : Int) : Quietly a ((release s).run a).2 := by
  by_cases inner : s = root
  · rw [release, if_pos inner]
    exact .refl
  · rw [release_eq inner]
    split
    next => exact .single (.marks rfl)
    next => exact drop_quiet a s

theorem dropAll_keeps {P : Arena κ ν → Prop} {doomed : List ScopeId}
    (keeps : ∀ s ∈ doomed, ∀ a, P a → P ((drop s).run a).2) (start : P a) :
    P ((dropAll doomed).run a).2 := by
  induction doomed generalizing a with
  | nil => exact start
  | cons s rest ih =>
    have first := keeps s List.mem_cons_self a start
    rw [dropAll, run_bind]
    generalize (drop s).run a = outcome at first ⊢
    obtain ⟨_ | _, a₁⟩ := outcome
    · exact first
    · exact ih (fun t later => keeps t (List.mem_cons_of_mem s later)) first

theorem collect_state (h : Heap ν τ) (roots : List τ) (a : Arena κ ν) :
    ((collect h roots).run a).2 = ((dropAll (a.doomed h roots)).run a).2 := by
  rw [collect, run_bind, run_get]
  dsimp only
  rw [run_bind, ← doomed]
  generalize (dropAll (a.doomed h roots)).run a = outcome
  obtain ⟨_ | _, _⟩ := outcome <;> rfl

theorem collect_keeps {P : Arena κ ν → Prop} {h : Heap ν τ} {roots : List τ}
    (keeps : ∀ s, s ∉ a.marked h roots → ∀ b, P b → P ((drop s).run b).2) (start : P a) :
    P ((collect h roots).run a).2 := by
  rw [collect_state]
  exact dropAll_keeps (fun s member => keeps s (mem_doomed.1 member).2) start

theorem collect_quiet (h : Heap ν τ) (roots : List τ) (a : Arena κ ν) :
    Quietly a ((collect h roots).run a).2 :=
  collect_keeps (fun s _ b moves => moves.trans (drop_quiet b s)) .refl

theorem run_discard {α : Type} (work : Work κ ν α) (a : Arena κ ν) :
    ((do let _ ← work : Work κ ν Unit).run a).2 = (work.run a).2 := by
  rw [run_bind]
  generalize work.run a = outcome
  obtain ⟨_ | _, _⟩ := outcome <;> rfl

section Bindings

variable [DecidableEq κ]

theorem define_quiet (s : Int) (key : κ) (value : ν) (a : Arena κ ν) :
    Quietly a ((define s key value).run a).2 := by
  unfold define
  rw [run_bind]
  rcases frame_cases a s with ⟨e, found, run⟩ | ⟨-, run⟩
  · rw [run]
    dsimp only
    rw [run_bind, run_modify]
    refine .single (.binds (s := s) ?_ (·.put key value) fun t => ?_)
    · rw [isActive, found]
      rfl
    · exact row?_update _ (bounds_of_row? (frame?_eq_some_iff.1 found).1).1
  · rw [run]

theorem findIn_state (key : κ) (steps : Nat) (s : Int) (a : Arena κ ν) :
    ((findIn key steps s).run a).2 = a := by
  induction steps generalizing s with
  | zero => rfl
  | succ steps ih =>
    rw [findIn_step]
    cases a.cell? s with
    | none => rfl
    | some e =>
      dsimp only
      split
      next => rfl
      next =>
        cases e.parent with
        | none => rfl
        | some p => exact ih p

theorem get?_state (key : κ) (s : Int) (a : Arena κ ν) : ((get? s key).run a).2 = a := by
  have same := findIn_state key (s.toNat + 1) s a
  unfold get? find
  rw [run_bind]
  generalize (findIn key (s.toNat + 1) s).run a = outcome at same ⊢
  obtain ⟨_ | _ | u, a₁⟩ := outcome <;> dsimp only at same ⊢
  · exact same
  · exact same
  · rw [run_bind, same]
    rcases frame_cases a u with ⟨e, -, run⟩ | ⟨-, run⟩
    · rw [run]
      rfl
    · rw [run]

theorem assign_cases (s : Int) (key : κ) (value : ν) (a : Arena κ ν) :
    ((assign s key value).run a).2 = a ∨
      ∃ u, ((assign s key value).run a).2 = ((define u key value).run a).2 := by
  have same := findIn_state key (s.toNat + 1) s a
  unfold assign find
  rw [run_bind]
  generalize (findIn key (s.toNat + 1) s).run a = outcome at same ⊢
  obtain ⟨_ | _ | u, a₁⟩ := outcome <;> dsimp only at same ⊢ <;> subst same
  · exact .inl rfl
  · exact .inl rfl
  · exact .inr ⟨u, rfl⟩

theorem assign_quiet (s : Int) (key : κ) (value : ν) (a : Arena κ ν) :
    Quietly a ((assign s key value).run a).2 := by
  rcases assign_cases s key value a with same | ⟨u, same⟩
  · rw [same]
  · rw [same]
    exact define_quiet u key value a

theorem Op.quiet (op : Op κ ν τ) (other : ∀ p, op ≠ .add p) (a : Arena κ ν) :
    Quietly a (op.perform.run a).2 := by
  cases op with
  | add p => exact absurd rfl (other p)
  | drop s => exact drop_quiet a s
  | compact =>
    rw [Op.perform, run_discard]
    exact compact_quiet a
  | retain s => exact .single (.marks (retainFrom_table _ s a))
  | release s => exact release_quiet a s
  | collect h roots =>
    rw [Op.perform, run_discard]
    exact collect_quiet h roots a
  | define s key value =>
    rw [Op.perform, run_discard]
    exact define_quiet s key value a
  | assign s key value =>
    rw [Op.perform, run_discard]
    exact assign_quiet s key value a
  | get s key =>
    rw [Op.perform, run_discard, get?_state]

theorem Op.moves (op : Op κ ν τ) (a : Arena κ ν) :
    Quietly a (op.perform.run a).2 ∨ ∃ p, Opens p a (op.perform.run a).2 := by
  by_cases opens : ∃ p, op = .add p
  · obtain ⟨p, rfl⟩ := opens
    rw [Op.perform, run_discard]
    rcases add_cases a p with ⟨a', run, moved⟩ | ⟨-, e, run⟩
    · rw [run]
      exact .inr ⟨p, moved⟩
    · rw [run]
      exact .inl .refl
  · exact .inl (op.quiet (fun p same => opens ⟨p, same⟩) a)

end Bindings

end Lox.Arena
