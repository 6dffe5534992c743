import Lox.Proofs.Scope.Closing
import Lox.Proofs.Scope.Table

set_option autoImplicit false

namespace Lox.Arena

inductive Access (κ ν : Type) where
  | parent | children | add | drop | retain | release
  | define (key : κ) (value : ν)
  | get (key : κ)
  | assign (key : κ) (value : ν)

-- What the access answers is left aside.
def Access.perform {κ ν : Type} [DecidableEq κ] (s : ScopeId) : Access κ ν → Work κ ν Unit
  | .parent => do let _ ← Arena.parent s
  | .children => do let _ ← Arena.children s
  | .add => do let _ ← Arena.add s
  | .drop => Arena.drop s
  | .retain => Arena.retain s
  | .release => Arena.release s
  | .define key value => do let _ ← Arena.define s key value
  | .get key => do let _ ← Arena.get? s key
  | .assign key value => do let _ ← Arena.assign s key value

def RetainsAll {κ ν τ : Type} [DecidableEq κ] : Arena κ ν → List (Op κ ν τ) → Prop
  | _, [] => True
  | a, op :: rest =>
    (∀ s, op = .retain s → ((retain s).run a).1 = .ok ()) ∧ (op.perform.run a).2.RetainsAll rest

structure Clean {κ ν : Type} (a : Arena κ ν) : Prop where
  nodup : a.retained.Nodup
  active : ∀ s ∈ a.retained, a.isActive s = true

variable {κ ν τ : Type} {a a' : Arena κ ν} {s : Int}

section Spares

structure Spares (a a' : Arena κ ν) : Prop where
  retained : a'.retained = a.retained
  exited : a'.exited = a.exited
  active : ∀ t, a.isActive t = true → a'.isActive t = true

theorem Spares.refl (a : Arena κ ν) : a.Spares a := ⟨rfl, rfl, fun _ active => active⟩

theorem Spares.of_set {e : Chain.Entry κ ν}
    (seen : ∀ t, a'.cell? t = if t = s then some e else a.cell? t)
    (retained : a'.retained = a.retained) (exited : a'.exited = a.exited) : a.Spares a' := by
  refine ⟨retained, exited, fun t active => ?_⟩
  rw [isActive_eq, seen]
  split
  next => rfl
  next => rwa [← isActive_eq]

theorem add_spares (a : Arena κ ν) (p : Int) : a.Spares ((add p).run a).2 := by
  cases found : a.cell? p with
  | none =>
    rw [add, run_bind, frame_stale found]
    exact .refl a
  | some e =>
    obtain ⟨a', run, seen, -, retained, exited⟩ := add_run found
    rw [run]
    exact .of_set seen retained exited

theorem compact_spares (a : Arena κ ν) : a.Spares (compact.run a).2 := by
  obtain ⟨shrunk, a', run, seen, retained, exited⟩ := compact_run a
  rw [run]
  exact ⟨retained, exited, fun t active => (isActive_of_seen seen t).trans active⟩

variable [DecidableEq κ]

theorem define_spares (a : Arena κ ν) (s : Int) (key : κ) (value : ν) :
    a.Spares ((define s key value).run a).2 := by
  cases found : a.cell? s with
  | none =>
    rw [define, run_bind, frame_stale found]
    exact .refl a
  | some e =>
    obtain ⟨a', run, seen, -, retained, exited⟩ := define_run found key value
    rw [run]
    exact .of_set seen retained exited

theorem assign_spares (a : Arena κ ν) (s : Int) (key : κ) (value : ν) :
    a.Spares ((assign s key value).run a).2 := by
  rcases assign_cases s key value a with same | ⟨u, same⟩
  · rw [same]
    exact .refl a
  · rw [same]
    exact define_spares a u key value

end Spares

theorem clean_new : (new : Arena κ ν).Clean := ⟨List.nodup_nil, nofun⟩

theorem Clean.spared (clean : a.Clean) (spares : a.Spares a') : a'.Clean := by
  constructor
  · rw [spares.retained]
    exact clean.nodup
  · intro t member
    rw [spares.retained] at member
    exact spares.active t (clean.active t member)

theorem Clean.drop (clean : a.Clean) (s : Int) : ((Arena.drop s).run a).2.Clean := by
  rcases drop_cases a s with same | ⟨inner, e, found⟩
  · rw [same]
    exact clean
  · obtain ⟨a', run, seen, -, retained, -⟩ := drop_run found inner
    rw [run]
    constructor
    · rw [retained]
      exact clean.nodup.erase s
    · intro t member
      rw [retained, clean.nodup.mem_erase_iff] at member
      rw [isActive_eq, seen, if_neg member.1, ← isActive_eq]
      exact clean.active t member.2

theorem Clean.retainFrom (clean : a.Clean) (steps : Nat) (s : Int)
    (ok : ((Arena.retainFrom steps s).run a).1 = .ok ()) :
    ((Arena.retainFrom steps s).run a).2.Clean := by
  induction steps generalizing s a with
  | zero => exact clean
  | succ steps ih =>
    rw [retainFrom_step] at ok ⊢
    split at ok
    next marked =>
      rw [if_pos marked]
      exact clean
    next unmarked =>
      rw [if_neg unmarked]
      cases found : a.cell? s with
      | none =>
        rw [found] at ok
        cases ok
      | some e =>
        rw [found] at ok
        dsimp only at ok ⊢
        have marked : Clean { a with retained := s :: a.retained } := by
          constructor
          · exact List.nodup_cons.2 ⟨unmarked, clean.nodup⟩
          · intro t member
            rcases List.mem_cons.1 member with rfl | old
            · exact isActive_of_cell? found
            · exact clean.active t old
        cases up : e.parent with
        | none => exact marked
        | some p =>
          rw [up] at ok
          exact ih marked p ok

variable [DecidableEq κ]

theorem Clean.perform (clean : a.Clean) (op : Op κ ν τ)
    (retains : ∀ s, op = .retain s → ((retain s).run a).1 = .ok ()) : (op.perform.run a).2.Clean := by
  cases op with
  | add p =>
    rw [Op.perform, run_discard]
    exact clean.spared (add_spares a p)
  | drop s => exact clean.drop s
  | compact =>
    rw [Op.perform, run_discard]
    exact clean.spared (compact_spares a)
  | retain s => exact clean.retainFrom _ s (retains s rfl)
  | release s =>
    rw [Op.perform]
    by_cases inner : s = root
    · rw [release, if_pos inner]
      exact clean
    · rw [release_eq inner]
      split
      next => exact ⟨clean.nodup, clean.active⟩
      next => exact clean.drop s
  | collect h roots =>
    rw [Op.perform, run_discard]
    exact collect_keeps (fun s _ b clean => clean.drop s) clean
  | define s key value =>
    rw [Op.perform, run_discard]
    exact clean.spared (define_spares a s key value)
  | assign s key value =>
    rw [Op.perform, run_discard]
    exact clean.spared (assign_spares a s key value)
  | get s key =>
    rw [Op.perform, run_discard, get?_state]
    exact clean

theorem Clean.after (clean : a.Clean) {ops : List (Op κ ν τ)} (retains : a.RetainsAll ops) :
    (a.after ops).Clean := by
  induction ops generalizing a with
  | nil => exact clean
  | cons op rest ih => exact ih (clean.perform op retains.1) retains.2

omit [DecidableEq κ] in
theorem retain_stale (gone : a.cell? s = none) :
    (retain s).run a =
      if s ∈ a.retained then (.ok (), a) else (.error (.stale s), { a with retained := s :: a.retained }) := by
  rw [retain, retainFrom_step, gone]

omit [DecidableEq κ] in
theorem release_stale (gone : a.cell? s = none) (inner : s ≠ root) :
    (release s).run a =
      if s ∈ a.retained then (.ok (), { a with exited := a.exited.insert s }) else (.error (.stale s), a) := by
  rw [release_eq inner]
  split
  next => rfl
  next => exact drop_stale gone inner

-- The first thing that every other access does is to look for the scope.
theorem perform_stale (gone : a.cell? s = none) (inner : s ≠ root) {access : Access κ ν}
    (other : access ≠ .retain ∧ access ≠ .release) :
    (access.perform s).run a = (.error (.stale s), a) := by
  have stale := frame_stale gone
  have missing : ∀ key : κ, (find s key).run a = (.error (.stale s), a) := by
    intro key
    rw [find, findIn_step, gone]
  cases access with
  | retain => exact absurd rfl other.1
  | release => exact absurd rfl other.2
  | drop => exact drop_stale gone inner
  | parent => rw [Access.perform, run_bind, parent, run_bind, stale]
  | children => rw [Access.perform, run_bind, children, run_bind, stale]
  | add => rw [Access.perform, run_bind, add, run_bind, stale]
  | define key value => rw [Access.perform, run_bind, define, run_bind, stale]
  | get key => rw [Access.perform, run_bind, get?, run_bind, missing]
  | assign key value => rw [Access.perform, run_bind, assign, run_bind, missing]

/-- After any history an access through an id that is not active is refused and changes nothing, but
for retaining it, and for releasing it when it has been marked; and there are no such marks as long as
nothing has been retained that was not there. -/
theorem refused_iff {ops : List (Op κ ν τ)} {s : Int}
    (stale : ((new : Arena κ ν).after ops).isActive s = false) (access : Access κ ν) :
    ((access.perform s).run ((new : Arena κ ν).after ops) =
        (.error (.stale s), (new : Arena κ ν).after ops) ↔
      access ≠ .retain ∧ (access = .release → s ∉ ((new : Arena κ ν).after ops).retained)) ∧
    ((new : Arena κ ν).RetainsAll ops → s ∉ ((new : Arena κ ν).after ops).retained) := by
  have formed : ((new : Arena κ ν).after ops).Formed := formed_new.after ops
  have clean : (new : Arena κ ν).RetainsAll ops → ((new : Arena κ ν).after ops).Clean := clean_new.after
  generalize (new : Arena κ ν).after ops = a at stale formed clean ⊢
  have inner : s ≠ root := by
    rintro rfl
    rw [formed.isActive_root] at stale
    cases stale
  have gone : a.cell? s = none := by
    rw [isActive_eq] at stale
    exact Option.isNone_iff_eq_none.1 (Option.isSome_eq_false_iff.1 stale)
  constructor
  · by_cases kept : access = .retain
    · -- Either the mark is new, or nothing is refused.
      subst kept
      rw [Access.perform, retain_stale gone]
      split
      next => exact ⟨nofun, fun both => absurd rfl both.1⟩
      next unmarked =>
        refine ⟨fun same => ?_, fun both => absurd rfl both.1⟩
        have marked := congrArg (fun outcome => outcome.2.retained) same
        exact absurd (marked ▸ List.mem_cons_self) unmarked
    by_cases freed : access = .release
    · subst freed
      rw [Access.perform, release_stale gone inner]
      split
      next marked => exact ⟨nofun, fun both => absurd marked (both.2 rfl)⟩
      next free => exact ⟨fun _ => ⟨kept, fun _ => free⟩, fun _ => rfl⟩
    · rw [perform_stale gone inner ⟨kept, freed⟩]
      exact ⟨fun _ => ⟨kept, fun same => absurd same freed⟩, fun _ => rfl⟩
  · intro retains member
    rw [(clean retains).active s member] at stale
    cases stale

def collecting : List (Op Nat Nat Nat) := [.add 0, .retain 1, .release 1, .collect (inert Nat) []]

theorem refused_iff_collected :
    (Access.release.perform 1).run ((new : Arena Nat Nat).after collecting) =
      (.error (.stale 1), (new : Arena Nat Nat).after collecting) := by
  obtain ⟨exactly, unmarked⟩ := @refused_iff Nat Nat Nat _ collecting 1 (by decide) .release
  refine exactly.2 ⟨nofun, fun _ => unmarked ⟨nofun, ⟨?_, nofun, nofun, trivial⟩⟩⟩
  rintro s ⟨⟩
  rfl

def dropping : List (Op Nat Nat Nat) := [.add 0, .drop 1]

theorem retain_marks_dropped :
    ((new : Arena Nat Nat).after dropping).isActive 1 = false ∧
      (Access.retain.perform 1).run ((new : Arena Nat Nat).after dropping) ≠
        (.error (.stale 1), (new : Arena Nat Nat).after dropping) ∧
      ((Access.retain.perform 1).run
        ((new : Arena Nat Nat).after (dropping ++ [.retain 1]))).1 = .ok () ∧
      ((Access.release.perform 1).run
        ((new : Arena Nat Nat).after (dropping ++ [.retain 1]))).1 = .ok () := by
  refine ⟨rfl, fun same => ?_, rfl, rfl⟩
  have marked : ([1] : List Int) = [] := congrArg (fun outcome => outcome.2.retained) same
  cases marked

end Lox.Arena
