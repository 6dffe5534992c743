import Lox.Proofs.Scope.Marking
import Lox.Proofs.Scope.Sound

set_option autoImplicit false

namespace Lox.Arena

variable {κ ν τ : Type} {a : Arena κ ν} {h : Heap ν τ}

theorem insertDown_perm (x : ScopeId) (xs : List ScopeId) : (insertDown x xs).Perm (x :: xs) := by
  induction xs with
  | nil => exact .refl _
  | cons y ys ih =>
    unfold insertDown
    split
    · exact .refl _
    · exact (ih.cons y).trans (.swap x y ys)

theorem sortDown_perm (xs : List ScopeId) : (sortDown xs).Perm xs := by
  induction xs with
  | nil => exact .refl _
  | cons x xs ih => exact (insertDown_perm x (sortDown xs)).trans (ih.cons x)

theorem dropAll_removes (doomed : List ScopeId) (once : doomed.Nodup) (inner : root ∉ doomed)
    (active : ∀ s ∈ doomed, ∃ e, a.cell? s = some e) :
    ∃ a', (dropAll doomed).run a = (.ok (), a') ∧
      (∀ t, a'.cell? t = if t ∈ doomed then none else a.cell? t) ∧
      a'.table.size = a.table.size ∧ a'.retained = a.retained.diff doomed ∧
      a'.exited = a.exited.diff doomed := by
  induction doomed generalizing a with
  | nil => exact ⟨a, rfl, fun _ => by simp, rfl, rfl, rfl⟩
  | cons s rest ih =>
    obtain ⟨new, once⟩ := List.nodup_cons.1 once
    obtain ⟨apart, inner⟩ := not_or.1 (mt List.mem_cons.2 inner)
    obtain ⟨e, found⟩ := active s List.mem_cons_self
    obtain ⟨a₁, run, seen, size, retained, exited⟩ := drop_run found (Ne.symm apart)
    have still : ∀ t ∈ rest, ∃ e, a₁.cell? t = some e := by
      intro t member
      have other : t ≠ s := fun same => new (same ▸ member)
      rw [seen, if_neg other]
      exact active t (List.mem_cons_of_mem s member)
    obtain ⟨a', run', seen', size', retained', exited'⟩ := ih once inner still
    refine ⟨a', ?_, fun t => ?_, size'.trans size, ?_, ?_⟩
    · rw [dropAll, run_bind, run]
      exact run'
    · rw [seen', seen]
      by_cases same : t = s <;> by_cases later : t ∈ rest <;> simp [same, later]
    · rw [retained', retained, List.diff_cons]
    · rw [exited', exited, List.diff_cons]

section Doomed

variable {roots : List τ} {s : Int}

def doomed (a : Arena κ ν) (h : Heap ν τ) (roots : List τ) : List ScopeId :=
  sortDown (a.exited.filter fun s => !(a.marked h roots).contains s)

theorem mem_doomed : s ∈ a.doomed h roots ↔ s ∈ a.exited ∧ s ∉ a.marked h roots := by
  rw [doomed, (sortDown_perm _).mem_iff, List.mem_filter]
  simp

theorem mem_doomed_of_cell? {e : Chain.Entry κ ν} (found : a.cell? s = some e) :
    s ∈ a.doomed h roots ↔ s ∉ a.marked h roots := by
  rw [mem_doomed]
  constructor
  · exact fun both => both.2
  · intro unmarked
    refine ⟨?_, unmarked⟩
    by_contra still
    exact unmarked (marked_of_opened h roots (isActive_of_cell? found) still)

theorem nodup_doomed (once : a.exited.Nodup) : (a.doomed h roots).Nodup := by
  rw [doomed, (sortDown_perm _).nodup_iff]
  exact once.filter _

theorem collect_removes (h : Heap ν τ) (roots : List τ) (once : a.exited.Nodup)
    (inner : root ∉ a.exited) (active : ∀ s ∈ a.exited, ∃ e, a.cell? s = some e) :
    ∃ a', (collect h roots).run a = (.ok (a.doomed h roots).length, a') ∧
      (∀ t, a'.cell? t = if t ∈ a.doomed h roots then none else a.cell? t) ∧
      a'.table.size = a.table.size ∧ a'.retained = a.retained.diff (a.doomed h roots) ∧
      a'.exited = a.exited.diff (a.doomed h roots) := by
  obtain ⟨a', run, removed⟩ := dropAll_removes (a.doomed h roots) (nodup_doomed once)
    (fun member => inner (mem_doomed.1 member).1) fun s member => active s (mem_doomed.1 member).1
  refine ⟨a', ?_, removed⟩
  rw [collect, run_bind, run_get]
  dsimp only
  rw [run_bind, ← doomed, run]
  rfl

end Doomed

namespace Sound

variable {roots : List τ} {s : Int} {e : Chain.Entry κ ν}

theorem doomed_of_parent (sound : a.Sound) (gone : s ∈ a.doomed h roots) {t : Int}
    (found : a.cell? t = some e) (parent : e.parent = some s) : t ∈ a.doomed h roots := by
  obtain ⟨f, active⟩ := sound.retainedActive s (sound.exitedRetained s (mem_doomed.1 gone).1)
  refine (mem_doomed_of_cell? found).2 fun marked => (mem_doomed.1 gone).2 ?_
  exact marked_of_leads marked (.parent found parent (isActive_of_cell? active))

theorem collect_run (sound : a.Sound) (h : Heap ν τ) (roots : List τ) :
    ∃ n a', (collect h roots).run a = (.ok n, a') ∧ a'.Sound ∧ a'.table.size = a.table.size ∧
      (∀ t, a'.cell? t = if t ∈ a.marked h roots then a.cell? t else none) ∧
      (∀ t, t ∈ a'.retained ↔ t ∈ a.retained ∧ t ∈ a.marked h roots) := by
  have active : ∀ s ∈ a.exited, ∃ e, a.cell? s = some e := fun s member =>
    sound.retainedActive s (sound.exitedRetained s member)
  obtain ⟨a', run, seen, size, retained, exited⟩ :=
    collect_removes h roots sound.exitedOnce sound.rootOpen active
  have sound' : a'.Sound := sound.removed _ (fun member => sound.rootOpen (mem_doomed.1 member).1)
    (fun s gone _ _ => sound.doomed_of_parent gone) seen retained exited
  refine ⟨_, a', run, sound', size, fun t => ?_, fun t => ?_⟩
  · rw [seen]
    cases present : a.cell? t with
    | none => simp
    | some e => simp [mem_doomed_of_cell? present]
  · rw [retained, sound.retainedOnce.mem_sdiff_iff]
    refine and_congr_right fun member => ?_
    obtain ⟨e, present⟩ := sound.retainedActive t member
    rw [mem_doomed_of_cell? present, not_not]

end Sound

end Lox.Arena
