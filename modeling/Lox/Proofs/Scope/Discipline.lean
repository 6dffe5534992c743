import Lox.Proofs.Scope.Closing
import Lox.Proofs.Scope.Table

set_option autoImplicit false

namespace Lox.Arena

variable {κ ν τ : Type} {a : Arena κ ν} {s t p : Int}

def Allowed (a : Arena κ ν) : Op κ ν τ → Prop
  | .add s | .define s _ _ | .assign s _ _ | .get s _ | .retain s => a.isActive s = true
  | .release s => a.isActive s = true ∧ ∀ t, a.isActive t = true → a.Above s t → t ∈ a.exited
  | .collect _ _ | .compact => True
  | .drop _ => False

def Obeys [DecidableEq κ] : Arena κ ν → List (Op κ ν τ) → Prop
  | _, [] => True
  | a, op :: rest => a.Allowed op ∧ Obeys (op.perform.run a).2 rest

structure Grounded (a : Arena κ ν) : Prop where
  ancestors : ∀ s ∈ a.activeScopes, ∀ t, a.Above t s → t ∈ a.activeScopes
  retained : ∀ s ∈ a.retained, s ∈ a.activeScopes
  upward : ∀ s ∈ a.retained, ∀ p, a.link? s = some p → p ∈ a.retained
  exited : ∀ s ∈ a.exited, s ∈ a.retained

theorem Sound.grounded (h : a.Sound) : a.Grounded where
  ancestors := by
    intro s member t above
    induction above with
    | parent link =>
      obtain ⟨e, found⟩ := mem_activeScopes.1 member
      rw [link?_of_cell? found] at link
      exact mem_activeScopes.2 (h.nonneg found link).2.2
    | further link _ ih =>
      obtain ⟨e, found⟩ := mem_activeScopes.1 member
      rw [link?_of_cell? found] at link
      exact ih (mem_activeScopes.2 (h.nonneg found link).2.2)
  retained s member := mem_activeScopes.2 (h.retainedActive s member)
  upward s member p link := by
    obtain ⟨e, found⟩ := h.retainedActive s member
    exact h.retainedUp s member found (link?_of_cell? found ▸ link)
  exited := h.exitedRetained

theorem run_discard_ok {α : Type} {work : Work κ ν α} {a a' : Arena κ ν} {x : α}
    (run : work.run a = (.ok x, a')) : (do let _ ← work : Work κ ν Unit).run a = (.ok (), a') := by
  rw [run_bind, run]
  rfl

section Steps

variable [DecidableEq κ] (h : a.Sound)

include h

theorem Sound.findIn_run (key : κ) {steps : Nat} {s : Int} {e : Chain.Entry κ ν}
    (enough : s.toNat < steps) (found : a.cell? s = some e) :
    ∃ place, (findIn key steps s).run a = (.ok place, a) ∧
      ∀ u, place = some u → ∃ f, a.cell? u = some f := by
  induction steps generalizing s e with
  | zero => omega
  | succ steps ih =>
    rw [findIn_step, found]
    dsimp only
    by_cases holds : e.bindings.holds key
    · rw [if_pos holds]
      refine ⟨some s, rfl, ?_⟩
      rintro u ⟨⟩
      exact ⟨e, found⟩
    · rw [if_neg holds]
      cases up : e.parent with
      | none =>
        refine ⟨none, rfl, ?_⟩
        rintro u ⟨⟩
      | some p =>
        -- The parent of an active scope is active, so the walk goes on.
        obtain ⟨nonneg, less, f, active⟩ := h.nonneg found up
        exact ih (by omega) active

theorem Sound.get?_run (key : κ) {e : Chain.Entry κ ν} (found : a.cell? s = some e) :
    ∃ x, (Arena.get? s key).run a = (.ok x, a) := by
  obtain ⟨place, run, active⟩ := h.findIn_run key (Nat.lt_succ_self _) found
  unfold Arena.get? find
  rw [run_bind, run]
  cases place with
  | none => exact ⟨none, rfl⟩
  | some u =>
    obtain ⟨f, there⟩ := active u rfl
    obtain ⟨children, run'⟩ := frame_run there
    dsimp only
    rw [run_bind, run']
    exact ⟨_, rfl⟩

theorem Sound.define_run (key : κ) (value : ν) {e : Chain.Entry κ ν} (found : a.cell? s = some e) :
    ∃ x a', (Arena.define s key value).run a = (.ok x, a') ∧ a'.Sound := by
  obtain ⟨a', run, -⟩ := Arena.define_run found key value
  have after := h.define_later s key value
  rw [run] at after
  exact ⟨_, a', run, after.1⟩

theorem Sound.assign_run (key : κ) (value : ν) {e : Chain.Entry κ ν} (found : a.cell? s = some e) :
    ∃ x a', (Arena.assign s key value).run a = (.ok x, a') ∧ a'.Sound := by
  obtain ⟨place, run, active⟩ := h.findIn_run key (Nat.lt_succ_self _) found
  unfold Arena.assign find
  rw [run_bind, run]
  cases place with
  | none => exact ⟨none, a, rfl, h⟩
  | some u =>
    obtain ⟨f, there⟩ := active u rfl
    exact h.define_run key value there

omit [DecidableEq κ] in
theorem Sound.childless_of_exited (free : s ∉ a.retained)
    (done : ∀ t, a.isActive t = true → a.Above s t → t ∈ a.exited) : a.Childless s := by
  intro t e found parent
  have active := isActive_of_cell? found
  have above : a.Above s t := .parent ((link?_of_cell? found).trans parent)
  have kept := h.exitedRetained t (done t active above)
  exact free (h.retainedUp t kept found parent)

theorem Sound.perform_run {op : Op κ ν τ} (allowed : a.Allowed op) :
    ∃ a', op.perform.run a = (.ok (), a') ∧ a'.Sound := by
  cases op with
  | add s =>
    obtain ⟨e, found⟩ := cell?_of_isActive allowed
    obtain ⟨a', run, seen, -, retained, exited⟩ := add_run found
    exact ⟨a', run_discard_ok run, h.added found seen retained exited⟩
  | drop s => exact absurd allowed id
  | compact =>
    obtain ⟨shrunk, a', run, seen, retained, exited⟩ := compact_run a
    exact ⟨a', run_discard_ok run, h.of_parents (fun t => by rw [seen]) retained exited⟩
  | retain s =>
    obtain ⟨e, found⟩ := cell?_of_isActive allowed
    obtain ⟨a', run, sound, -⟩ := h.retain_run found
    exact ⟨a', run, sound⟩
  | release s =>
    obtain ⟨active, done⟩ := allowed
    obtain ⟨e, found⟩ := cell?_of_isActive active
    by_cases inner : s = root
    · refine ⟨a, ?_, h⟩
      rw [Op.perform, release, if_pos inner]
      rfl
    · obtain ⟨a', run, sound, -⟩ := h.release_run found inner fun free => h.childless_of_exited free done
      exact ⟨a', run, sound⟩
  | collect heap roots =>
    obtain ⟨n, a', run, sound, -⟩ := h.collect_run heap roots
    exact ⟨a', run_discard_ok run, sound⟩
  | define s key value =>
    obtain ⟨e, found⟩ := cell?_of_isActive allowed
    obtain ⟨x, a', run, sound⟩ := h.define_run key value found
    exact ⟨a', run_discard_ok run, sound⟩
  | assign s key value =>
    obtain ⟨e, found⟩ := cell?_of_isActive allowed
    obtain ⟨x, a', run, sound⟩ := h.assign_run key value found
    exact ⟨a', run_discard_ok run, sound⟩
  | get s key =>
    obtain ⟨e, found⟩ := cell?_of_isActive allowed
    obtain ⟨x, run⟩ := h.get?_run key found
    exact ⟨a, run_discard_ok run, h⟩

theorem Sound.after {ops : List (Op κ ν τ)} (obeys : a.Obeys ops) : (a.after ops).Sound := by
  induction ops generalizing a with
  | nil => exact h
  | cons op rest ih =>
    obtain ⟨a', run, sound⟩ := h.perform_run obeys.1
    have next := obeys.2
    rw [run] at next
    rw [Arena.after, run]
    exact ih sound next

end Steps

/-- Under the discipline no ancestor of an active scope is ever missing, what is retained is active
together with all that it lies in, and only what is retained is exited; so whatever is allowed next
succeeds. -/
theorem grounded_after [DecidableEq κ] {ops : List (Op κ ν τ)} (obeys : (new : Arena κ ν).Obeys ops) :
    ((new : Arena κ ν).after ops).Grounded ∧
      ∀ op : Op κ ν τ, ((new : Arena κ ν).after ops).Allowed op →
        ∃ a', op.perform.run ((new : Arena κ ν).after ops) = (.ok (), a') := by
  have sound := sound_new.after obeys
  refine ⟨sound.grounded, fun op allowed => ?_⟩
  obtain ⟨a', run, -⟩ := sound.perform_run allowed
  exact ⟨a', run⟩

def recycling : List (Op Nat Nat Nat) :=
  [.add 0, .retain 1, .add 1, .define 2 5 7, .retain 2, .release 2, .release 1, .assign 2 5 8,
    .collect (inert Nat) [], .compact, .add 0]

theorem recycling_obeys : (new : Arena Nat Nat).Obeys recycling := by
  have younger : ∀ (ops : List (Op Nat Nat Nat)) {s t : Int},
      (new.after ops).Above s t → (new.after ops).isActive t = true →
        s < t ∧ t < (new.after ops).table.size := by
    intro ops s t above active
    obtain ⟨e, found⟩ := cell?_of_isActive active
    exact ⟨(formed_new.after ops).above_lt above, (bounds_of_cell? found).2⟩
  have inner : ∀ t : Int, (new.after (recycling.take 5)).isActive t = true →
      (new.after (recycling.take 5)).Above 2 t → t ∈ (new.after (recycling.take 5)).exited := by
    intro t active above
    obtain ⟨above, below⟩ := younger (recycling.take 5) above active
    have size : (new.after (recycling.take 5)).table.size = 3 := by decide
    omega
  have outer : ∀ t : Int, (new.after (recycling.take 6)).isActive t = true →
      (new.after (recycling.take 6)).Above 1 t → t ∈ (new.after (recycling.take 6)).exited := by
    intro t active above
    obtain ⟨above, below⟩ := younger (recycling.take 6) above active
    have size : (new.after (recycling.take 6)).table.size = 3 := by decide
    have here : t = 2 := by omega
    subst here
    exact List.mem_singleton.2 rfl
  exact ⟨rfl, rfl, rfl, rfl, rfl, ⟨rfl, inner⟩, ⟨rfl, outer⟩, rfl, trivial, trivial, rfl, trivial⟩

theorem grounded_after_recycling : (new : Arena Nat Nat).Obeys recycling ∧
    (new.after recycling).activeScopes = [0, 2] ∧ (new.after recycling).Grounded := by
  exact ⟨recycling_obeys, by decide +kernel, (grounded_after recycling_obeys).1⟩

end Lox.Arena
