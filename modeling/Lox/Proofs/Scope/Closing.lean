import Lox.Proofs.Scope.Doomed
import Lox.Proofs.Scope.Moves

set_option autoImplicit false

namespace Lox

inductive Node where
  | scope (id : ScopeId)
  | object (ref : Nat)
  deriving DecidableEq, Repr

structure Holding (ν : Type) where
  ofValue : ν → List Node
  ofObject : Nat → List Node

namespace Arena

variable {κ ν τ : Type} {a a₁ a₂ a' : Arena κ ν} {s t p : Int}

structure Later (a a' : Arena κ ν) : Prop where
  active : ∀ {t}, a.isActive t = true → a'.isActive t = true
  exited : ∀ t ∈ a.exited, t ∈ a'.exited
  closed : ∀ {t}, a'.isActive t = true → a.isActive t = true ∨ t ∈ a'.exited

namespace Later

theorem refl (a : Arena κ ν) : a.Later a := ⟨id, fun _ => id, .inl⟩

theorem trans (first : a.Later a₁) (next : a₁.Later a₂) : a.Later a₂ where
  active before := next.active (first.active before)
  exited t member := next.exited t (first.exited t member)
  closed now := by
    -- What has come in the first part and is still there was exited by its end.
    rcases next.closed now with between | done
    · exact (first.closed between).imp id (next.exited _)
    · exact .inr done

theorem of_eq (active : ∀ t, a'.isActive t = a.isActive t) (exited : a'.exited = a.exited) :
    a.Later a' where
  active before := (active _).trans before
  exited _ member := exited ▸ member
  closed now := .inl ((active _).symm.trans now)

end Later

theorem isActive_of_seen (seen : ∀ t, a'.cell? t = a.cell? t) (t : Int) :
    a'.isActive t = a.isActive t := by
  rw [isActive_eq, isActive_eq, seen]

structure Opened (a a' : Arena κ ν) (s : Int) : Prop where
  active : ∀ t, a'.isActive t = true ↔ a.isActive t = true ∨ t = s
  youngest : ∀ {t}, a.isActive t = true → t < s
  exited : a'.exited = a.exited

theorem Sound.add_cases (sound : a.Sound) (p : Int) :
    (∃ e, (add p).run a = (.error e, a)) ∨
      ∃ s a', (add p).run a = (.ok s, a') ∧ a'.Sound ∧ Opened a a' s := by
  cases found : a.cell? p with
  | none =>
    refine .inl ⟨.stale p, ?_⟩
    unfold add
    rw [run_bind, frame_stale found]
  | some e =>
    obtain ⟨a', run, seen, -, retained, exited⟩ := add_run found
    have old : ∀ {t}, a.isActive t = true → t < (a.table.size : Int) := by
      intro t active
      obtain ⟨f, present⟩ := cell?_of_isActive active
      exact (bounds_of_cell? present).2
    refine .inr ⟨_, a', run, sound.added found seen retained exited, fun t => ?_, old, exited⟩
    rw [isActive_eq, isActive_eq, seen]
    split <;> simp [*]

section Bindings

variable [DecidableEq κ]

theorem Sound.define_later (sound : a.Sound) (s : Int) (key : κ) (value : ν) :
    ((define s key value).run a).2.Sound ∧ a.Later ((define s key value).run a).2 := by
  cases found : a.cell? s with
  | none =>
    unfold define
    rw [run_bind, frame_stale found]
    exact ⟨sound, .refl a⟩
  | some e =>
    obtain ⟨a', run, seen, -, retained, exited⟩ := Arena.define_run found key value
    have parents : ∀ t, (a'.cell? t).map Chain.Entry.parent = (a.cell? t).map Chain.Entry.parent := by
      intro t
      rw [seen]
      split
      next same => rw [same, found]; rfl
      next => rfl
    rw [run]
    refine ⟨sound.of_parents parents retained exited, .of_eq (fun t => ?_) exited⟩
    rw [isActive_eq, isActive_eq, ← Option.isSome_map (f := Chain.Entry.parent), parents,
      Option.isSome_map]

theorem Sound.assign_later (sound : a.Sound) (s : Int) (key : κ) (value : ν) :
    ((assign s key value).run a).2.Sound ∧ a.Later ((assign s key value).run a).2 := by
  rcases assign_cases s key value a with same | ⟨u, same⟩
  · rw [same]
    exact ⟨sound, .refl a⟩
  · rw [same]
    exact sound.define_later u key value

end Bindings

section Exited

theorem drop_exited (a : Arena κ ν) (member : t ∈ a.exited) (other : t ≠ s) :
    t ∈ ((drop s).run a).2.exited := by
  rcases drop_cases a s with same | ⟨inner, e, found⟩
  · rw [same]
    exact member
  · obtain ⟨a', run, -, -, -, exited⟩ := drop_run found inner
    rw [run]
    rw [exited]
    exact (List.mem_erase_of_ne other).2 member

theorem collect_exited {h : Heap ν τ} (roots : List τ) (member : t ∈ a.exited)
    (marked : t ∈ a.marked h roots) : t ∈ ((collect h roots).run a).2.exited := by
  refine collect_keeps (P := fun b => t ∈ b.exited) (fun s unmarked b still => ?_) member
  refine drop_exited b still ?_
  rintro rfl
  exact unmarked marked

theorem release_exited (a : Arena κ ν) (inner : s ≠ root) :
    (∀ t ∈ a.exited, t ≠ s → t ∈ ((release s).run a).2.exited) ∧
      (s ∈ a.retained → s ∈ ((release s).run a).2.exited) := by
  rw [release_eq inner]
  by_cases kept : s ∈ a.retained
  · rw [if_pos kept]
    exact ⟨fun t member _ => List.mem_insert_of_mem member, fun _ => List.mem_insert_self⟩
  · rw [if_neg kept]
    exact ⟨fun t member other => drop_exited a member other, fun member => absurd member kept⟩

end Exited

theorem Opened.release_run (opened : Opened a a₁ s) (before : a.Sound) (later : a₁.Later a₂)
    (sound : a₂.Sound) :
    ∃ a', (release s).run a₂ = (.ok (), a') ∧ a'.Sound ∧ a.Later a' := by
  have inner : s ≠ root := by
    obtain ⟨b, top⟩ := before.top
    exact Int.ne_of_gt (opened.youngest (isActive_of_cell? top))
  obtain ⟨e, found⟩ := cell?_of_isActive (later.active ((opened.active s).2 (.inr rfl)))
  have old : ∀ {t}, a₁.isActive t = true → t ≠ s → a.isActive t = true := by
    intro t active other
    exact ((opened.active t).1 active).resolve_right other
  -- A child that is still there is new, so it has been exited, and its parent is retained with it.
  have childless : s ∉ a₂.retained → a₂.Childless s := by
    intro free t f child parent
    have younger : s < t := (sound.nonneg child parent).2.1
    rcases later.closed (isActive_of_cell? child) with active | done
    · exact Int.lt_asymm younger (opened.youngest (old active (Int.ne_of_gt younger)))
    · exact free (sound.retainedUp t (sound.exitedRetained t done) child parent)
  obtain ⟨a', run, sound', -, -, seen⟩ := sound.release_run found inner childless
  obtain ⟨still, kept⟩ := release_exited a₂ inner
  rw [run] at still kept
  have other : ∀ {t}, t ≠ s → a'.isActive t = a₂.isActive t := by
    intro t other
    rw [isActive_eq, isActive_eq, seen, if_neg fun both => other both.1]
  refine ⟨a', run, sound', ?_, ?_, ?_⟩
  · intro t active
    rw [other (Int.ne_of_lt (opened.youngest active))]
    exact later.active ((opened.active t).2 (.inl active))
  · intro t member
    obtain ⟨f, present⟩ := before.retainedActive t (before.exitedRetained t member)
    refine still t (later.exited t (opened.exited ▸ member)) ?_
    exact Int.ne_of_lt (opened.youngest (isActive_of_cell? present))
  · intro t active
    by_cases same : t = s
    · subst same
      refine .inr (kept ?_)
      by_contra free
      rw [isActive_eq, seen, if_pos ⟨rfl, free⟩] at active
      cases active
    · rw [other same] at active
      rcases later.closed active with between | done
      · exact .inl (old between same)
      · exact .inr (still t done same)

section Reach

variable {h : Holding ν} {roots : List ν}

def held (a : Arena κ ν) (h : Holding ν) : Node → List Node
  | .scope id =>
    match a.frame? id with
    | none => []
    | some e => e.parent.toList.map .scope ++ e.bindings.flatMap fun b => h.ofValue b.2
  | .object ref => h.ofObject ref

/-- The root scope, what some values hold on to, and whatever these hold on to in turn. -/
inductive Reach (a : Arena κ ν) (h : Holding ν) (roots : List ν) : Node → Prop
  | top : Reach a h roots (.scope root)
  | value {v : ν} {n : Node} : v ∈ roots → n ∈ h.ofValue v → Reach a h roots n
  | held {n n' : Node} : Reach a h roots n → n' ∈ a.held h n → Reach a h roots n'

theorem mem_held {n : Node} : n ∈ a.held h (.scope s) ↔ ∃ e, a.cell? s = some e ∧
    ((∃ p, e.parent = some p ∧ n = .scope p) ∨ ∃ b ∈ e.bindings, n ∈ h.ofValue b.2) := by
  cases found : a.frame? s with
  | none => simp [held, cell?, found]
  | some e => simp [held, cell?, found, eq_comm]

def Shut (a : Arena κ ν) : Prop := ∀ t ∈ a.activeScopes, t ≠ root → t ∈ a.exited ∧ t ∈ a.retained

end Reach

section Restrict

variable {kept : List ScopeId} (seen : ∀ t, a'.cell? t = if t ∈ kept then a.cell? t else none)

include seen

theorem mem_activeScopes_restrict : t ∈ a'.activeScopes ↔ t ∈ kept ∧ t ∈ a.activeScopes := by
  rw [mem_activeScopes, mem_activeScopes, seen]
  by_cases member : t ∈ kept <;> simp [member]

theorem Shut.restrict (shut : a.Shut) (retained : ∀ t, t ∈ a'.retained ↔ t ∈ a.retained ∧ t ∈ kept)
    (exited : ∀ t ∈ a.exited, t ∈ kept → t ∈ a'.exited) : a'.Shut := by
  intro t active inner
  obtain ⟨member, before⟩ := (mem_activeScopes_restrict seen).1 active
  obtain ⟨done, marked⟩ := shut t before inner
  exact ⟨exited t done member, (retained t).2 ⟨marked, member⟩⟩

end Restrict

theorem compact_size (a : Arena κ ν) :
    (compact.run a).2.table.size ≤ 2 * ((a.activeScopes.getLastD root).toNat + 1) := by
  unfold compact
  rw [run_bind, run_get]
  dsimp only
  split
  next fits => exact fits
  next =>
    rw [run_bind, run_set]
    simp only [run_pure, Array.take_eq_extract, Array.size_extract]
    omega

/-- The table has at most twice the length that the highest active id needs. -/
def Trim (a : Arena κ ν) : Prop :=
  ∃ top ∈ a.activeScopes, (∀ t ∈ a.activeScopes, t ≤ top) ∧ (a.table.size : Int) ≤ 2 * (top + 1)

theorem Sound.compact_trim (sound : a.Sound) : (compact.run a).2.Trim := by
  obtain ⟨shrunk, a', run, seen, -⟩ := compact_run a
  have size := compact_size a
  rw [run] at size ⊢
  have same : ∀ t, t ∈ a'.activeScopes ↔ t ∈ a.activeScopes := by
    intro t
    rw [mem_activeScopes, mem_activeScopes, seen]
  obtain ⟨b, top⟩ := sound.top
  have some : a.activeScopes ≠ [] := List.ne_nil_of_mem (mem_activeScopes.2 ⟨_, top⟩)
  have last : a.activeScopes.getLastD root ∈ a.activeScopes := by
    rw [List.getLastD_eq_getLast?, List.getLast?_eq_some_getLast some]
    exact List.getLast_mem some
  obtain ⟨e, found⟩ := mem_activeScopes.1 last
  have nonneg := (bounds_of_cell? found).1
  refine ⟨_, (same _).2 last, fun t active => ?_, by omega⟩
  obtain ⟨f, present⟩ := mem_activeScopes.1 ((same t).1 active)
  exact le_last_of_active present

theorem Sound.tidy_run (sound : a.Sound) (h : Heap ν τ) (roots : List τ) :
    ∃ shrunk a', (do let _ ← collect h roots; compact : Work κ ν Bool).run a = (.ok shrunk, a') ∧
      a'.Sound ∧ a'.Trim ∧ (∀ t, a'.cell? t = if t ∈ a.marked h roots then a.cell? t else none) ∧
      (∀ t, t ∈ a'.retained ↔ t ∈ a.retained ∧ t ∈ a.marked h roots) ∧
      ∀ t ∈ a.exited, t ∈ a.marked h roots → t ∈ a'.exited := by
  obtain ⟨count, a₁, run₁, sound₁, -, seen₁, retained₁⟩ := sound.collect_run h roots
  obtain ⟨shrunk, a₂, run₂, seen₂, retained₂, exited₂⟩ := compact_run a₁
  have trim := sound₁.compact_trim
  rw [run₂] at trim
  have sound₂ : a₂.Sound := by
    refine sound₁.of_parents (fun t => ?_) retained₂ exited₂
    rw [seen₂]
  refine ⟨shrunk, a₂, ?_, sound₂, trim, fun t => (seen₂ t).trans (seen₁ t), fun t => ?_,
    fun t member marked => ?_⟩
  · rw [run_bind, run₁]
    exact run₂
  · rw [retained₂, retained₁]
  · have still := collect_exited roots member marked
    rw [run₁] at still
    rwa [exited₂]

end Arena
end Lox
