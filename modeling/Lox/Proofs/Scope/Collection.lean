import Mathlib.Data.List.Basic
import Lox.Proofs.Scope.Stale

set_option autoImplicit false

namespace Lox

/-- What an object captures does not depend on the thing that it is met as. -/
def Heap.Coherent {ν τ : Type} (heap : Heap ν τ) : Prop :=
  ∀ {t u : τ} {id : Nat} {items items' : List τ}, heap.sight t = .object id items →
    heap.sight u = .object id items' → items = items'

namespace Arena

variable {κ ν τ : Type} {a a' : Arena κ ν} {heap : Heap ν τ} {roots : List τ} {s t : Int}

structure Parked (a : Arena κ ν) : Prop where
  nodup : a.exited.Nodup
  retained : ∀ s ∈ a.exited, s ∈ a.retained
  inner : root ∉ a.exited

theorem parked_new : (new : Arena κ ν).Parked := ⟨List.nodup_nil, nofun, nofun⟩

theorem Parked.spared (parked : a.Parked) (spares : a.Spares a') : a'.Parked := by
  refine ⟨spares.exited ▸ parked.nodup, fun s member => ?_, spares.exited ▸ parked.inner⟩
  rw [spares.exited] at member
  rw [spares.retained]
  exact parked.retained s member

theorem Parked.drop (parked : a.Parked) (s : Int) : ((Arena.drop s).run a).2.Parked := by
  rcases drop_cases a s with same | ⟨inner, e, found⟩
  · rw [same]
    exact parked
  · obtain ⟨a', run, -, -, retained, exited⟩ := drop_run found inner
    rw [run]
    refine ⟨exited ▸ parked.nodup.erase s, fun t member => ?_, fun member => ?_⟩
    · rw [exited, parked.nodup.mem_erase_iff] at member
      rw [retained, List.mem_erase_of_ne member.1]
      exact parked.retained t member.2
    · exact parked.inner (List.mem_of_mem_erase (exited ▸ member))

theorem Parked.marked (parked : a.Parked) (s : Int) :
    Parked { a with retained := s :: a.retained } :=
  ⟨parked.nodup, fun t member => List.mem_cons_of_mem s (parked.retained t member), parked.inner⟩

theorem Parked.exits (parked : a.Parked) (inner : s ≠ root) (marked : s ∈ a.retained) :
    Parked { a with exited := a.exited.insert s } := by
  refine ⟨List.Nodup.insert parked.nodup, fun t member => ?_, fun member => ?_⟩
  · rcases List.mem_insert_iff.1 member with rfl | member
    · exact marked
    · exact parked.retained t member
  · rcases List.mem_insert_iff.1 member with same | member
    · exact inner same.symm
    · exact parked.inner member

section Histories

variable [DecidableEq κ]

theorem Parked.perform (parked : a.Parked) (op : Op κ ν τ) : (op.perform.run a).2.Parked := by
  cases op with
  | add p =>
    rw [Op.perform, run_discard]
    exact parked.spared (add_spares a p)
  | drop s => exact parked.drop s
  | compact =>
    rw [Op.perform, run_discard]
    exact parked.spared (compact_spares a)
  | retain s => exact retainFrom_keeps (fun _ s parked => parked.marked s) _ s parked
  | release s =>
    rw [Op.perform]
    by_cases inner : s = root
    · rw [release, if_pos inner]
      exact parked
    · rw [release_eq inner]
      split
      next marked => exact parked.exits inner marked
      next => exact parked.drop s
  | collect h roots =>
    rw [Op.perform, run_discard]
    exact collect_keeps (fun s _ b parked => parked.drop s) parked
  | define s key value =>
    rw [Op.perform, run_discard]
    exact parked.spared (define_spares a s key value)
  | assign s key value =>
    rw [Op.perform, run_discard]
    exact parked.spared (assign_spares a s key value)
  | get s key =>
    rw [Op.perform, run_discard, get?_state]
    exact parked

theorem Parked.after (parked : a.Parked) (ops : List (Op κ ν τ)) : (a.after ops).Parked := by
  induction ops generalizing a with
  | nil => exact parked
  | cons op rest ih => exact ih (parked.perform op)

end Histories

theorem activeScopes_removed {doomed : List ScopeId} (size : a'.table.size = a.table.size)
    (seen : ∀ t, a'.cell? t = if t ∈ doomed then none else a.cell? t) :
    a'.activeScopes = a.activeScopes.filter (· ∉ doomed) := by
  have active : a'.isActive = fun t => decide (t ∉ doomed) && a.isActive t := by
    funext t
    rw [isActive_eq, isActive_eq, seen]
    by_cases gone : t ∈ doomed <;> simp [gone]
  simp only [activeScopes, size, List.filter_filter, active]

/-- What a collection does: its loops come to an end, and not for want of steps or turns, and it drops
exactly the exited scopes that are not reachable. The table stays as long as it was, and the scopes that
survive keep their order, their parents and their bindings. -/
structure Collects (a : Arena κ ν) (heap : Heap ν τ) (roots : List τ) (a' : Arena κ ν) (dropped : List ScopeId) :
    Prop where
  climbs : ∀ (m : Marking τ) (s : ScopeId) (steps : Nat), a.table.size < steps →
    a.climb heap steps s m = a.climb heap (a.table.size + 1) s m
  ends : ∃ n, (a.turns heap n (a.seeds roots)).waiting = 0 ∧
    (a.turns heap n (a.seeds roots)).marked = a.marked heap roots
  mem_marked : ∀ s, s ∈ a.marked heap roots ↔ a.Reachable heap roots (.inl s)
  nodup : dropped.Nodup
  mem_dropped : ∀ s, s ∈ dropped ↔ s ∈ a.exited ∧ ¬ a.Reachable heap roots (.inl s)
  were_active : ∀ s ∈ dropped, a.isActive s = true
  activeScopes : a'.activeScopes = a.activeScopes.filter (· ∉ dropped)
  exited : ∀ s, s ∈ a'.exited ↔ s ∈ a.exited ∧ s ∉ dropped
  size : a'.table.size = a.table.size
  cells : ∀ s ∈ a'.activeScopes, a'.cell? s = a.cell? s

theorem Clean.collects (clean : a.Clean) (parked : a.Parked) (coherent : a.Coherent heap roots) :
    ∃ a' dropped, (collect heap roots).run a = (.ok dropped.length, a') ∧
      a.Collects heap roots a' dropped := by
  obtain ⟨n, idle, same, -⟩ := marked_spec a heap roots
  have active : ∀ s ∈ a.exited, ∃ e, a.cell? s = some e := fun s member =>
    cell?_of_isActive (clean.active s (parked.retained s member))
  have mem_dropped : ∀ s, s ∈ a.doomed heap roots ↔
      s ∈ a.exited ∧ ¬ a.Reachable heap roots (.inl s) := by
    intro s
    rw [mem_doomed, mem_marked coherent]
  obtain ⟨a', run, seen, size, -, exited⟩ :=
    collect_removes heap roots parked.nodup parked.inner active
  have climbs : ∀ (m : Marking τ) (s : ScopeId) (steps : Nat), a.table.size < steps →
      a.climb heap steps s m = a.climb heap (a.table.size + 1) s m := by
    intro m s steps enough
    have unmarked := length_unmarked_le a m
    exact climb_enough (Nat.lt_of_le_of_lt unmarked enough) (Nat.lt_succ_of_le unmarked)
  refine ⟨a', _, run, climbs, ⟨n, idle, same⟩, fun _ => mem_marked coherent, nodup_doomed parked.nodup,
    mem_dropped, fun s member => ?_, activeScopes_removed size seen, fun s => ?_, size,
    fun s survives => ?_⟩
  · exact clean.active s (parked.retained s ((mem_dropped s).1 member).1)
  · rw [exited, parked.nodup.mem_sdiff_iff]
  · obtain ⟨e, found⟩ := mem_activeScopes.1 survives
    rw [seen] at found ⊢
    split at found
    next => cases found
    next stays => rw [if_neg stays]

/-- In an arena where nothing has been retained that was not there, every collection comes to its end and
is exact, whatever the heap. -/
theorem collect_exact [DecidableEq κ] {ops : List (Op κ ν τ)} (retains : (new : Arena κ ν).RetainsAll ops)
    {heap : Heap ν τ} (coherent : heap.Coherent) (roots : List τ) :
    ∃ a' dropped, (collect heap roots).run ((new : Arena κ ν).after ops) = (.ok dropped.length, a') ∧
      ((new : Arena κ ν).after ops).Collects heap roots a' dropped :=
  (clean_new.after retains).collects (parked_new.after ops) fun _ _ sees sees' => coherent sees sees'

-- 0 is an object that captures itself and 1, the frame of scope 1.
def captor : Heap Nat Nat where
  ofValue := id
  sight
    | 0 => .object 0 [0, 1]
    | 1 => .frame 1
    | _ => .plain
  objects := 1
  bounded := by
    intro t id captures sees
    split at sees <;> cases sees
    exact Nat.one_pos

theorem coherent_captor : captor.Coherent := by
  intro t u id items items' sees sees'
  unfold captor at sees sees'
  dsimp only at sees sees'
  split at sees <;> cases sees
  split at sees' <;> cases sees'
  rfl

-- Scopes 1, 2 and 3 are exited, and the root binds the captor.
def parting : List (Op Nat Nat Nat) :=
  [.add 0, .add 0, .add 2, .retain 1, .retain 3, .release 3, .release 2, .release 1, .define 0 7 0]

theorem parting_retainsAll : (new : Arena Nat Nat).RetainsAll parting := by
  refine ⟨nofun, nofun, nofun, ?_, ?_, nofun, nofun, nofun, nofun, trivial⟩
  all_goals
    rintro s ⟨⟩
    rfl

theorem collect_exact_captor :
    ((collect captor []).run ((new : Arena Nat Nat).after parting)).1 = .ok 2 ∧
      ((new : Arena Nat Nat).after parting).Reachable captor [] (.inl 1) ∧
      ¬ ((new : Arena Nat Nat).after parting).Reachable captor [] (.inl 2) := by
  obtain ⟨a', dropped, run, collects⟩ := collect_exact parting_retainsAll coherent_captor []
  have marked : ((new : Arena Nat Nat).after parting).marked captor [] = [1, 0] := by decide
  refine ⟨rfl, (collects.mem_marked 1).1 ?_, fun reached => ?_⟩
  · rw [marked]
    decide
  · have member := (collects.mem_marked 2).2 reached
    rw [marked] at member
    exact absurd member (by decide)

end Arena
end Lox
