import Mathlib.Data.List.Nodup
import Lox.Proofs.Scope.View

set_option autoImplicit false

namespace Lox.Arena

variable {κ ν : Type} {a a' : Arena κ ν} {s p : Int}

structure Sound (a : Arena κ ν) : Prop where
  top : ∃ b, a.cell? root = some ⟨none, b⟩
  parents : ∀ {s : Int} {e}, a.cell? s = some e → s ≠ root →
    ∃ p : Int, e.parent = some p ∧ p < s ∧ ∃ f, a.cell? p = some f
  retainedActive : ∀ s ∈ a.retained, ∃ e, a.cell? s = some e
  retainedUp : ∀ s ∈ a.retained, ∀ {e p}, a.cell? s = some e → e.parent = some p → p ∈ a.retained
  exitedRetained : ∀ s ∈ a.exited, s ∈ a.retained
  rootOpen : root ∉ a.exited
  retainedOnce : a.retained.Nodup
  exitedOnce : a.exited.Nodup

def Childless (a : Arena κ ν) (s : Int) : Prop :=
  ∀ {t : Int} {e}, a.cell? t = some e → e.parent ≠ some s

theorem eq_root_of_new {s : Int} {e : Chain.Entry κ ν} (found : (new : Arena κ ν).cell? s = some e) :
    s = root := by
  obtain ⟨nonneg, below⟩ := bounds_of_cell? found
  change s < (1 : Nat) at below
  change s = 0
  omega

theorem sound_new : (new : Arena κ ν).Sound where
  top := ⟨[], rfl⟩
  parents found inner := absurd (eq_root_of_new found) inner
  retainedActive _ member := nomatch member
  retainedUp _ member := nomatch member
  exitedRetained _ member := nomatch member
  rootOpen member := nomatch member
  retainedOnce := .nil
  exitedOnce := .nil

namespace Sound

theorem nonneg (h : a.Sound) {e : Chain.Entry κ ν} (found : a.cell? s = some e)
    (parent : e.parent = some p) : 0 ≤ p ∧ p < s ∧ ∃ f, a.cell? p = some f := by
  have inner : s ≠ root := by
    rintro rfl
    obtain ⟨b, top⟩ := h.top
    rw [top] at found
    cases found
    cases parent
  obtain ⟨q, same, less, f, active⟩ := h.parents found inner
  rw [parent] at same
  cases same
  exact ⟨(bounds_of_cell? active).1, less, f, active⟩

theorem of_parents (h : a.Sound)
    (same : ∀ t, (a'.cell? t).map Chain.Entry.parent = (a.cell? t).map Chain.Entry.parent)
    (retained : a'.retained = a.retained) (exited : a'.exited = a.exited) : a'.Sound := by
  have back : ∀ {t e'}, a'.cell? t = some e' → ∃ e, a.cell? t = some e ∧ e.parent = e'.parent := by
    intro t e' found
    have h := same t
    rw [found] at h
    exact Option.map_eq_some_iff.1 h.symm
  have forth : ∀ {t e}, a.cell? t = some e → ∃ e', a'.cell? t = some e' ∧ e'.parent = e.parent := by
    intro t e found
    have h := same t
    rw [found] at h
    exact Option.map_eq_some_iff.1 h
  exact {
    top := by
      obtain ⟨b, top⟩ := h.top
      obtain ⟨⟨_, b'⟩, top', rfl⟩ := forth top
      exact ⟨b', top'⟩
    parents := by
      intro s e' found inner
      obtain ⟨e, old, parent⟩ := back found
      obtain ⟨p, is, less, f, active⟩ := h.parents old inner
      obtain ⟨f', active', -⟩ := forth active
      exact ⟨p, parent ▸ is, less, f', active'⟩
    retainedActive := by
      intro s member
      obtain ⟨e, found⟩ := h.retainedActive s (retained ▸ member)
      obtain ⟨e', found', -⟩ := forth found
      exact ⟨e', found'⟩
    retainedUp := by
      intro s member e' p found parent
      obtain ⟨e, old, is⟩ := back found
      rw [retained] at member ⊢
      exact h.retainedUp s member old (is.trans parent)
    exitedRetained := by
      rw [retained, exited]
      exact h.exitedRetained
    rootOpen := exited ▸ h.rootOpen
    retainedOnce := retained ▸ h.retainedOnce
    exitedOnce := exited ▸ h.exitedOnce }

theorem added (h : a.Sound) {e : Chain.Entry κ ν} (parent : a.cell? p = some e)
    (seen : ∀ t, a'.cell? t = if t = a.table.size then some ⟨some p, []⟩ else a.cell? t)
    (retained : a'.retained = a.retained) (exited : a'.exited = a.exited) : a'.Sound := by
  have old : ∀ {t : Int} {f}, a.cell? t = some f → a'.cell? t = some f := by
    intro t f found
    have below := (bounds_of_cell? found).2
    rw [seen, if_neg (by omega), found]
  have below := (bounds_of_cell? parent).2
  exact {
    top := by
      obtain ⟨b, top⟩ := h.top
      exact ⟨b, old top⟩
    parents := by
      intro s f found inner
      rw [seen] at found
      split at found
      next fresh =>
        cases found
        exact ⟨p, rfl, by omega, e, old parent⟩
      next =>
        obtain ⟨q, is, less, g, active⟩ := h.parents found inner
        exact ⟨q, is, less, g, old active⟩
    retainedActive := by
      intro s member
      obtain ⟨f, found⟩ := h.retainedActive s (retained ▸ member)
      exact ⟨f, old found⟩
    retainedUp := by
      intro s member f q found is
      rw [retained] at member ⊢
      obtain ⟨g, active⟩ := h.retainedActive s member
      rw [old active] at found
      cases found
      exact h.retainedUp s member active is
    exitedRetained := by
      rw [retained, exited]
      exact h.exitedRetained
    rootOpen := exited ▸ h.rootOpen
    retainedOnce := retained ▸ h.retainedOnce
    exitedOnce := exited ▸ h.exitedOnce }

theorem removed (h : a.Sound) (doomed : List ScopeId) (inner : root ∉ doomed)
    (down : ∀ s ∈ doomed, ∀ {t : Int} {e}, a.cell? t = some e → e.parent = some s → t ∈ doomed)
    (seen : ∀ t, a'.cell? t = if t ∈ doomed then none else a.cell? t)
    (retained : a'.retained = a.retained.diff doomed)
    (exited : a'.exited = a.exited.diff doomed) : a'.Sound := by
  have other : ∀ {t : Int} {e}, a'.cell? t = some e → t ∉ doomed ∧ a.cell? t = some e := by
    intro t e found
    rw [seen] at found
    split at found
    next => cases found
    next apart => exact ⟨apart, found⟩
  have kept : ∀ {t : Int} {e}, a.cell? t = some e → t ∉ doomed → a'.cell? t = some e := by
    intro t e found apart
    rw [seen, if_neg apart, found]
  have stays : ∀ t, t ∈ a'.retained ↔ t ∈ a.retained ∧ t ∉ doomed := by
    intro t
    rw [retained, h.retainedOnce.mem_sdiff_iff]
  exact {
    top := by
      obtain ⟨b, top⟩ := h.top
      exact ⟨b, kept top inner⟩
    parents := by
      intro t e found below
      obtain ⟨apart, old⟩ := other found
      obtain ⟨p, is, less, f, active⟩ := h.parents old below
      exact ⟨p, is, less, f, kept active fun gone => apart (down p gone old is)⟩
    retainedActive := by
      intro t member
      obtain ⟨member, apart⟩ := (stays t).1 member
      obtain ⟨e, found⟩ := h.retainedActive t member
      exact ⟨e, kept found apart⟩
    retainedUp := by
      intro t member e p found is
      obtain ⟨member, apart⟩ := (stays t).1 member
      obtain ⟨-, old⟩ := other found
      exact (stays p).2 ⟨h.retainedUp t member old is, fun gone => apart (down p gone old is)⟩
    exitedRetained := by
      intro t member
      rw [exited, h.exitedOnce.mem_sdiff_iff] at member
      exact (stays t).2 ⟨h.exitedRetained t member.1, member.2⟩
    rootOpen := by
      rw [exited, h.exitedOnce.mem_sdiff_iff]
      exact fun member => h.rootOpen member.1
    retainedOnce := retained ▸ h.retainedOnce.diff
    exitedOnce := exited ▸ h.exitedOnce.diff }

theorem dropped (h : a.Sound) (inner : s ≠ root) (childless : a.Childless s)
    (seen : ∀ t, a'.cell? t = if t = s then none else a.cell? t)
    (retained : a'.retained = a.retained.erase s) (exited : a'.exited = a.exited.erase s) :
    a'.Sound := by
  apply h.removed [s]
  · simpa using inner.symm
  · intro u member t e child parent
    rw [List.mem_singleton.1 member] at parent
    exact absurd parent (childless child)
  · simpa only [List.mem_singleton] using seen
  · rw [retained, List.diff_cons, List.diff_nil]
  · rw [exited, List.diff_cons, List.diff_nil]

theorem exits (h : a.Sound) (inner : s ≠ root) (member : s ∈ a.retained) :
    { a with exited := a.exited.insert s }.Sound where
  top := h.top
  parents := h.parents
  retainedActive := h.retainedActive
  retainedUp := h.retainedUp
  exitedRetained := by
    intro t exited
    rcases List.mem_insert_iff.1 exited with rfl | exited
    · exact member
    · exact h.exitedRetained t exited
  rootOpen := by
    intro exited
    rcases List.mem_insert_iff.1 exited with same | exited
    · exact inner same.symm
    · exact h.rootOpen exited
  retainedOnce := h.retainedOnce
  exitedOnce := List.Nodup.insert h.exitedOnce

end Sound

/-- A set of retained scopes that lacks at most the ancestors of `s`. -/
structure Retaining (a : Arena κ ν) (retained : List ScopeId) (s : Int) : Prop where
  active : ∀ t ∈ retained, ∃ e, a.cell? t = some e
  up : ∀ t ∈ retained, ∀ {e p}, a.cell? t = some e → e.parent = some p → p ∈ retained ∨ p = s
  once : retained.Nodup

namespace Retaining

variable {retained : List ScopeId} {e : Chain.Entry κ ν}

theorem mark (inv : a.Retaining retained s) (unmarked : s ∉ retained) (found : a.cell? s = some e)
    (next : ∀ q, e.parent = some q → q = p) : a.Retaining (s :: retained) p where
  active t member := by
    rcases List.mem_cons.1 member with rfl | old
    · exact ⟨e, found⟩
    · exact inv.active t old
  up t member f q known parent := by
    rcases List.mem_cons.1 member with rfl | old
    · rw [found] at known
      cases known
      exact .inr (next q parent)
    · rcases inv.up t old known parent with done | rfl
      · exact .inl (List.mem_cons_of_mem _ done)
      · exact .inl List.mem_cons_self
  once := List.nodup_cons.2 ⟨unmarked, inv.once⟩

theorem closed (inv : a.Retaining retained s) (member : s ∈ retained) :
    ∀ t ∈ retained, ∀ {e p}, a.cell? t = some e → e.parent = some p → p ∈ retained := by
  intro t already e p found parent
  rcases inv.up t already found parent with done | rfl
  · exact done
  · exact member

end Retaining

theorem retainFrom_run (h : a.Sound) (steps : Nat) (s : Int) (enough : s.toNat < steps)
    {e : Chain.Entry κ ν} (found : a.cell? s = some e) (retained : List ScopeId)
    (inv : a.Retaining retained s) :
    ∃ retained', (retainFrom steps s).run { a with retained } = (.ok (), { a with retained := retained' }) ∧
      retained'.Nodup ∧ (∀ t ∈ retained', ∃ e, a.cell? t = some e) ∧
      (∀ t ∈ retained', ∀ {e p}, a.cell? t = some e → e.parent = some p → p ∈ retained') ∧
      s ∈ retained' ∧ ∀ t ∈ retained, t ∈ retained' := by
  induction steps generalizing s e retained with
  | zero => omega
  | succ steps ih =>
    rw [retainFrom_step]
    by_cases member : s ∈ retained
    · rw [if_pos member]
      exact ⟨retained, rfl, inv.once, inv.active, inv.closed member, member, fun _ already => already⟩
    · have here : ({ a with retained } : Arena κ ν).cell? s = some e := found
      rw [if_neg member, here]
      dsimp only
      cases top : e.parent with
      | none =>
        have last : a.Retaining (s :: retained) s :=
          inv.mark member found fun q parent => nomatch top.symm.trans parent
        exact ⟨s :: retained, rfl, last.once, last.active, last.closed List.mem_cons_self,
          List.mem_cons_self, fun _ => List.mem_cons_of_mem s⟩
      | some p =>
        obtain ⟨nonneg, less, f, above⟩ := h.nonneg found top
        have below := (bounds_of_cell? found).1
        have next : a.Retaining (s :: retained) p :=
          inv.mark member found fun q parent => Option.some.inj (parent.symm.trans top)
        obtain ⟨retained', run', once, active, up, -, kept⟩ :=
          ih p (by omega) above (s :: retained) next
        exact ⟨retained', run', once, active, up, kept s List.mem_cons_self, fun t already =>
          kept t (List.mem_cons_of_mem _ already)⟩

theorem Sound.retain_run (h : a.Sound) {e : Chain.Entry κ ν} (found : a.cell? s = some e) :
    ∃ a', (retain s).run a = (.ok (), a') ∧ a'.Sound ∧ (∀ t, a'.cell? t = a.cell? t) ∧
      a'.table.size = a.table.size ∧ a'.exited = a.exited ∧ s ∈ a'.retained ∧
      ∀ t ∈ a.retained, t ∈ a'.retained := by
  have inv : a.Retaining a.retained s :=
    ⟨h.retainedActive, fun t member _ _ active parent => .inl (h.retainedUp t member active parent),
      h.retainedOnce⟩
  obtain ⟨retained, run, once, active, up, member, kept⟩ :=
    retainFrom_run h (s.toNat + 1) s (by omega) found a.retained inv
  refine ⟨{ a with retained }, run, ?_, fun _ => rfl, rfl, rfl, member, kept⟩
  exact {
    top := h.top
    parents := h.parents
    retainedActive := active
    retainedUp := up
    exitedRetained := fun t exited => kept t (h.exitedRetained t exited)
    rootOpen := h.rootOpen
    retainedOnce := once
    exitedOnce := h.exitedOnce }

theorem Sound.release_run (h : a.Sound) {e : Chain.Entry κ ν} (found : a.cell? s = some e)
    (inner : s ≠ root) (free : s ∉ a.retained → a.Childless s) :
    ∃ a', (release s).run a = (.ok (), a') ∧ a'.Sound ∧ a'.table.size = a.table.size ∧
      (∀ t, t ∈ a'.retained ↔ t ∈ a.retained) ∧
      (∀ t, a'.cell? t = if t = s ∧ s ∉ a.retained then none else a.cell? t) := by
  rw [release_eq inner]
  by_cases member : s ∈ a.retained
  · rw [if_pos member]
    refine ⟨_, rfl, h.exits inner member, rfl, fun _ => .rfl, ?_⟩
    intro t
    rw [if_neg fun both => both.2 member]
    rfl
  · rw [if_neg member]
    obtain ⟨a', run, seen, size, retained, exited⟩ := drop_run found inner
    refine ⟨a', run, h.dropped inner (free member) seen retained exited, size, ?_, ?_⟩
    · intro t
      rw [retained, List.erase_of_not_mem member]
    · intro t
      rw [seen]
      simp [member]

end Lox.Arena
