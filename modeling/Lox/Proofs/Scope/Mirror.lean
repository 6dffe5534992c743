import Lox.Proofs.Scope.Sound
import Lox.Proofs.Value.Related

set_option autoImplicit false

namespace Lox

namespace Chain

variable {κ ν : Type} {c : Chain κ ν} {s t : Int}

theorem frame?_child (c : Chain κ ν) (p : Int) (nonneg : 0 ≤ t) :
    (c.child p).2.frame? t = if t = c.table.size then some ⟨some p, []⟩ else c.frame? t := by
  have same : t.toNat = c.table.size ↔ t = c.table.size := by omega
  simp only [frame?, child, Array.getElem?_push, same]

theorem frame?_child_of_some {f : Entry κ ν} (p : Int) (nonneg : 0 ≤ t) (found : c.frame? t = some f) :
    (c.child p).2.frame? t = some f := by
  have below := (Array.getElem?_eq_some_iff.1 found).1
  rw [frame?_child c p nonneg, if_neg (by omega), found]

theorem older_child {p q : Int} {f : Entry κ ν}
    (older : ∀ {t : Int} {f} {q : Int}, 0 ≤ t → c.frame? t = some f → f.parent = some q → 0 ≤ q ∧ q < t)
    (bounds : 0 ≤ p ∧ p < c.table.size) (nonneg : 0 ≤ t) (found : (c.child p).2.frame? t = some f)
    (parent : f.parent = some q) : 0 ≤ q ∧ q < t := by
  rw [frame?_child c p nonneg] at found
  split at found
  next new =>
    cases found
    cases parent
    exact ⟨bounds.1, new ▸ bounds.2⟩
  next => exact older nonneg found parent

variable [DecidableEq κ]

theorem frame?_bind (c : Chain κ ν) (key : κ) (value : ν) (here : 0 ≤ s) (nonneg : 0 ≤ t) :
    (c.bind s key value).frame? t =
      if t = s then (c.frame? s).map fun e => ⟨e.parent, e.bindings.put key value⟩
      else c.frame? t := by
  unfold frame? bind
  rw [Array.getElem?_modify]
  by_cases same : t = s
  · simp [same]
  · have apart : s.toNat ≠ t.toNat := by omega
    simp [same, apart]

theorem older_bind {key : κ} {value : ν} {q : Int} {f : Entry κ ν}
    (older : ∀ {t : Int} {f} {q : Int}, 0 ≤ t → c.frame? t = some f → f.parent = some q → 0 ≤ q ∧ q < t)
    (here : 0 ≤ s) (nonneg : 0 ≤ t) (found : (c.bind s key value).frame? t = some f)
    (parent : f.parent = some q) : 0 ≤ q ∧ q < t := by
  rw [frame?_bind c key value here nonneg] at found
  split at found
  next same =>
    obtain ⟨g, before, rfl⟩ := Option.map_eq_some_iff.1 found
    exact older (f := g) nonneg (same ▸ before) parent
  next => exact older nonneg found parent

end Chain

structure Mirrors {κ ν : Type} (image : Int → Option Int) (R : ν → ν → Prop) (a : Arena κ ν)
    (c : Chain κ ν) : Prop where
  sound : a.Sound
  domain : ∀ s, (∃ t, image s = some t) ↔ ∃ e, a.cell? s = some e
  top : image root = some root
  inj : ∀ {s s' t}, image s = some t → image s' = some t → s = s'
  entry : ∀ {s t e}, image s = some t → a.cell? s = some e →
    0 ≤ t ∧ ∃ f, c.frame? t = some f ∧ f.parent = e.parent.bind image ∧
      Bindings.Related R e.bindings f.bindings
  older : ∀ {t : Int} {f} {p : Int}, 0 ≤ t → c.frame? t = some f → f.parent = some p → 0 ≤ p ∧ p < t

namespace Mirrors

variable {κ ν : Type} {image : Int → Option Int} {R R' : ν → ν → Prop} {a a' : Arena κ ν}
  {c : Chain κ ν} {s t : Int}

theorem active (h : Mirrors image R a c) (here : image s = some t) :
    0 ≤ s ∧ s < a.table.size ∧ 0 ≤ t ∧ t < c.table.size ∧ ∃ e f, a.cell? s = some e ∧
      c.frame? t = some f ∧ f.parent = e.parent.bind image ∧
      Bindings.Related R e.bindings f.bindings := by
  obtain ⟨e, found⟩ := (h.domain s).1 ⟨t, here⟩
  obtain ⟨nonneg, f, frame, parent, bindings⟩ := h.entry here found
  have below := (Array.getElem?_eq_some_iff.1 frame).1
  obtain ⟨first, last⟩ := Arena.bounds_of_cell? found
  exact ⟨first, last, nonneg, by omega, e, f, found, frame, parent, bindings⟩

theorem new : Mirrors (fun s => if s = root then some root else none) R (Arena.new : Arena κ ν) .new where
  sound := Arena.sound_new
  domain s := by
    split
    next same => exact ⟨fun _ => ⟨⟨none, []⟩, same ▸ rfl⟩, fun _ => ⟨root, rfl⟩⟩
    next other => exact ⟨nofun, fun ⟨e, found⟩ => absurd (Arena.eq_root_of_new found) other⟩
  top := if_pos rfl
  inj {s s' t} here there := by
    split at here
    next same =>
      split at there
      next same' => rw [same, same']
      next => cases there
    next => cases here
  entry {s t e} here found := by
    cases Arena.eq_root_of_new found
    cases here
    cases found
    exact ⟨Int.le_refl 0, ⟨none, []⟩, rfl, rfl, .nil⟩
  older {t f p} nonneg found parent := by
    have below := (Array.getElem?_eq_some_iff.1 found).1
    change t.toNat < 1 at below
    have first : t = root := by
      change t = 0
      omega
    cases first
    cases found
    cases parent

theorem congr (h : Mirrors image R a c) (sound : a'.Sound) (seen : ∀ t, a'.cell? t = a.cell? t) :
    Mirrors image R a' c where
  sound := sound
  domain s := by rw [seen, h.domain]
  top := h.top
  inj := h.inj
  entry here found := h.entry here (seen _ ▸ found)
  older := h.older

theorem mono (h : Mirrors image R a c) (sub : ∀ x y, R x y → R' x y) : Mirrors image R' a c where
  sound := h.sound
  domain := h.domain
  top := h.top
  inj := h.inj
  entry here found := by
    obtain ⟨nonneg, f, frame, parent, bindings⟩ := h.entry here found
    exact ⟨nonneg, f, frame, parent, bindings.mono sub⟩
  older := h.older

theorem child (h : Mirrors image R a c) {p q : Int} (parent : image p = some q) (sound : a'.Sound)
    (seen : ∀ t, a'.cell? t = if t = a.table.size then some ⟨some p, []⟩ else a.cell? t) :
    Mirrors (fun s => if s = a.table.size then some (c.table.size : Int) else image s) R a'
      (c.child q).2 := by
  have fresh : ∀ {s t}, image s = some t → s ≠ a.table.size ∧ t ≠ c.table.size := by
    intro s t here
    obtain ⟨-, below, -, below', -⟩ := h.active here
    omega
  obtain ⟨-, -, nonneg, below, e, f, found, frame, -⟩ := h.active parent
  exact {
    sound := sound
    domain := by
      intro s
      rw [seen]
      split
      next => simp
      next => exact h.domain s
    top := by rw [if_neg (fresh h.top).1, h.top]
    inj := by
      intro s s' t here there
      split at here
      next new =>
        split at there
        next new' => rw [new, new']
        next =>
          cases here
          exact absurd rfl (fresh there).2
      next =>
        split at there
        next =>
          cases there
          exact absurd rfl (fresh here).2
        next => exact h.inj here there
    entry := by
      intro s t e here present
      rw [seen] at present
      split at here
      next new =>
        rw [if_pos new] at present
        cases present
        cases here
        refine ⟨by omega, ⟨some q, []⟩, ?_, ?_, .nil⟩
        · rw [Chain.frame?_child c q (by omega), if_pos rfl]
        · rw [Option.bind_some, if_neg (fresh parent).1, parent]
      next other =>
        rw [if_neg other] at present
        obtain ⟨nonneg, f, frame, above, bindings⟩ := h.entry here present
        refine ⟨nonneg, f, Chain.frame?_child_of_some q nonneg frame, ?_, bindings⟩
        rw [above]
        cases up : e.parent with
        | none => rfl
        | some u =>
          obtain ⟨g, active⟩ := (h.sound.nonneg present up).2.2
          have below := (Arena.bounds_of_cell? active).2
          rw [Option.bind_some, Option.bind_some, if_neg (by omega)]
    older := Chain.older_child h.older ⟨nonneg, below⟩ }

theorem bind [DecidableEq κ] (h : Mirrors image R a c) (here : image s = some t) {e : Chain.Entry κ ν}
    (found : a.cell? s = some e) (key : κ) {x y : ν} (value : R x y) (sound : a'.Sound)
    (seen : ∀ u, a'.cell? u =
      if u = s then some ⟨e.parent, e.bindings.put key x⟩ else a.cell? u) :
    Mirrors image R a' (c.bind t key y) where
  sound := sound
  domain u := by
    rw [h.domain, seen]
    split
    next same => simp [same, found]
    next => rfl
  top := h.top
  inj := h.inj
  entry := by
    intro u v f there present
    rw [seen] at present
    obtain ⟨nonneg, g, frame, parent, bindings⟩ := h.entry here found
    split at present
    next same =>
      subst same
      cases present
      rw [here] at there
      cases there
      refine ⟨nonneg, ⟨g.parent, g.bindings.put key y⟩, ?_, parent, bindings.put key value⟩
      rw [Chain.frame?_bind c key y nonneg nonneg, if_pos rfl, frame]
      rfl
    next other =>
      obtain ⟨nonneg', g', frame', parent', bindings'⟩ := h.entry there present
      refine ⟨nonneg', g', ?_, parent', bindings'⟩
      rw [Chain.frame?_bind c key y nonneg nonneg', if_neg, frame']
      rintro rfl
      exact other (h.inj there here)
  older := Chain.older_bind h.older (h.entry here found).1

theorem drop (h : Mirrors image R a c) (inner : s ≠ root) (childless : a.Childless s) (sound : a'.Sound)
    (seen : ∀ t, a'.cell? t = if t = s then none else a.cell? t) :
    Mirrors (fun t => if t = s then none else image t) R a' c where
  sound := sound
  domain t := by
    rw [seen]
    split
    next => simp
    next => exact h.domain t
  top := by rw [if_neg inner.symm, h.top]
  inj := by
    intro t t' u here there
    split at here
    next => cases here
    split at there
    next => cases there
    exact h.inj here there
  entry := by
    intro t u e here present
    rw [seen] at present
    split at here
    next => cases here
    next other =>
      rw [if_neg other] at present
      obtain ⟨nonneg, f, frame, parent, bindings⟩ := h.entry here present
      refine ⟨nonneg, f, frame, ?_, bindings⟩
      rw [parent]
      cases up : e.parent with
      | none => rfl
      | some p =>
        rw [Option.bind_some, Option.bind_some, if_neg]
        rintro rfl
        exact childless present up
  older := h.older

theorem restrict (h : Mirrors image R a c) (keep : Int → Prop) [DecidablePred keep] (top : keep root)
    (sound : a'.Sound) (seen : ∀ t, a'.cell? t = if keep t then a.cell? t else none)
    (stricter : ∀ t e, keep t → a.cell? t = some e → ∀ b ∈ e.bindings, ∀ y, R b.2 y → R' b.2 y) :
    Mirrors (fun t => if keep t then image t else none) R' a' c where
  sound := sound
  domain t := by
    rw [seen]
    split
    next => exact h.domain t
    next => simp
  top := by rw [if_pos top, h.top]
  inj := by
    intro t t' u here there
    split at here
    next =>
      split at there
      next => exact h.inj here there
      next => cases there
    next => cases here
  entry := by
    intro t u e here present
    rw [seen] at present
    split at here
    next kept =>
      rw [if_pos kept] at present
      obtain ⟨nonneg, f, frame, parent, bindings⟩ := h.entry here present
      refine ⟨nonneg, f, frame, ?_, ?_⟩
      · rw [parent]
        cases up : e.parent with
        | none => rfl
        | some p =>
          have again : a'.cell? t = some e := by rw [seen, if_pos kept, present]
          obtain ⟨g, active⟩ := (sound.nonneg again up).2.2
          rw [seen] at active
          split at active
          next kept' => rw [Option.bind_some, Option.bind_some, if_pos kept']
          next => cases active
      · exact bindings.strengthen (stricter t e kept present)
    next => cases here
  older := h.older

section Lookup

variable [DecidableEq κ]

theorem findIn_run (h : Mirrors image R a c) (key : κ) (steps steps' : Nat) (here : image s = some t)
    (enough : s.toNat < steps) (enough' : t.toNat < steps') :
    ∃ found, (Arena.findIn key steps s).run a = (.ok found, a) ∧
      c.findIn key steps' t = found.bind image ∧
      ∀ u, found = some u → ∃ e, a.cell? u = some e ∧ e.bindings.holds key = true := by
  induction steps generalizing s t steps' with
  | zero => omega
  | succ steps ih =>
    obtain ⟨steps', rfl⟩ := Nat.exists_eq_succ_of_ne_zero (show steps' ≠ 0 by omega)
    obtain ⟨first, -, first', -, e, f, found, frame, parent, bindings⟩ := h.active here
    rw [Arena.findIn_step, found, Chain.findIn, frame]
    dsimp only
    rw [← bindings.holds key]
    by_cases holds : e.bindings.holds key
    · rw [if_pos holds, if_pos holds]
      refine ⟨some s, rfl, here.symm, ?_⟩
      rintro u ⟨⟩
      exact ⟨e, found, holds⟩
    · rw [if_neg holds, if_neg holds, parent]
      cases up : e.parent with
      | none =>
        refine ⟨none, rfl, rfl, nofun⟩
      | some p =>
        obtain ⟨nonneg, less, g, active⟩ := h.sound.nonneg found up
        obtain ⟨q, there⟩ := (h.domain p).2 ⟨g, active⟩
        rw [up, Option.bind_some, there] at parent
        have less' := h.older first' frame parent
        rw [Option.bind_some, there, Option.bind_some]
        exact ih steps' there (by omega) (by omega)

theorem find_run (h : Mirrors image R a c) (key : κ) (here : image s = some t) :
    ∃ found, (Arena.find s key).run a = (.ok found, a) ∧ c.find? t key = found.bind image ∧
      ∀ u, found = some u → ∃ e, a.cell? u = some e ∧ e.bindings.holds key = true :=
  h.findIn_run key _ _ here (by omega) (by omega)

theorem get?_run (h : Mirrors image R a c) (key : κ) (here : image s = some t) :
    ∃ x, (Arena.get? s key).run a = (.ok x, a) ∧ Option.Rel R x (c.get? t key) := by
  obtain ⟨found, run, same, holds⟩ := h.find_run key here
  unfold Arena.get? Chain.get?
  rw [run_bind, run, same]
  dsimp only
  cases found with
  | none => exact ⟨none, rfl, .none⟩
  | some u =>
    obtain ⟨e, present, -⟩ := holds u rfl
    obtain ⟨v, there⟩ := (h.domain u).2 ⟨e, present⟩
    obtain ⟨children, run'⟩ := Arena.frame_run present
    obtain ⟨nonneg, f, frame, parent, bindings⟩ := h.entry there present
    dsimp only
    rw [run_bind, run']
    refine ⟨e.bindings.get? key, rfl, ?_⟩
    rw [Option.bind_some, there, Option.bind_some, Chain.bindingsOf, frame]
    exact bindings.get? key

theorem define_run (h : Mirrors image R a c) (here : image s = some t) (key : κ) {x y : ν}
    (value : R x y) :
    ∃ previous a', (Arena.define s key x).run a = (.ok previous, a') ∧
      Option.Rel R previous (c.define t key y).1 ∧ Mirrors image R a' (c.define t key y).2 ∧
      a'.retained = a.retained := by
  obtain ⟨-, -, nonneg, -, e, f, found, frame, -, bindings⟩ := h.active here
  obtain ⟨a', run, seen, size, retained, exited⟩ := Arena.define_run found key x
  have sound : a'.Sound := by
    refine h.sound.of_parents ?_ retained exited
    intro t
    rw [seen]
    split
    next same => simp [same, found]
    next => rfl
  refine ⟨_, a', run, ?_, h.bind here found key value sound seen, retained⟩
  unfold Chain.define Chain.bindingsOf
  rw [frame]
  exact bindings.get? key

theorem assign_run (h : Mirrors image R a c) (here : image s = some t) (key : κ) {x y : ν}
    (value : R x y) :
    ∃ previous a', (Arena.assign s key x).run a = (.ok previous, a') ∧
      Option.Rel R previous (c.assign t key y).1 ∧ Mirrors image R a' (c.assign t key y).2 ∧
      a'.retained = a.retained := by
  obtain ⟨found, run, same, holds⟩ := h.find_run key here
  unfold Arena.assign Chain.assign
  rw [run_bind, run, same]
  dsimp only
  cases found with
  | none => exact ⟨none, a, rfl, .none, h, rfl⟩
  | some u =>
    obtain ⟨e, present, -⟩ := holds u rfl
    obtain ⟨v, there⟩ := (h.domain u).2 ⟨e, present⟩
    rw [Option.bind_some, there]
    exact h.define_run there key value

end Lookup

end Mirrors
end Lox
