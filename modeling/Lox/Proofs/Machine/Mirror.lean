import Lox.Proofs.Run.Sharing
import Lox.Proofs.Scope.Mirror

set_option autoImplicit false

namespace Lox.Mirror

structure World where
  image : Int → Option Int
  kept : Int → Prop
  live : Value → Prop

namespace World

structure Le (v w : World) : Prop where
  image : ∀ {s t}, v.image s = some t → w.image s = some t
  kept : ∀ {s}, v.kept s → w.kept s
  live : ∀ {x}, v.live x → w.live x
  fresh : ∀ {s t}, w.image s = some t → v.image s = none → w.kept s

theorem Le.refl (w : World) : w.Le w where
  image here := here
  kept here := here
  live here := here
  fresh here absent := by
    rw [absent] at here
    cases here

theorem Le.trans {u v w : World} (first : u.Le v) (next : v.Le w) : u.Le w where
  image here := next.image (first.image here)
  kept here := next.kept (first.kept here)
  live here := next.live (first.live here)
  fresh {s t} here absent := by
    cases before : v.image s with
    | none => exact next.fresh here before
    | some t' => exact next.kept (first.fresh before absent)

theorem Le.of_image {v w : World} (image : w.image = v.image) (kept : ∀ {s}, v.kept s → w.kept s)
    (live : ∀ {x}, v.live x → w.live x) : v.Le w where
  image here := by rw [image, here]
  kept := kept
  live := live
  fresh here absent := by
    rw [image, absent] at here
    cases here

structure Closures (w : World) (f g : Closure) : Prop where
  alike : f.Alike g
  params : f.params = g.params
  body : f.body = g.body
  live : w.live (.function f)
  kept : w.kept f.scope
  image : w.image f.scope = some g.scope

theorem Closures.mono {v w : World} {f g : Closure} (h : v.Closures f g) (le : v.Le w) :
    w.Closures f g :=
  ⟨h.alike, h.params, h.body, le.live h.live, le.kept h.kept, le.image h.image⟩

abbrev Values (w : World) : Value → Value → Prop := Value.Related w.Closures w.live

theorem Values.mono {v w : World} {x y : Value} (h : v.Values x y) (le : v.Le w) : w.Values x y :=
  Value.Related.mono h (fun _ _ both => both.mono le) fun _ alive => le.live alive

theorem Values.alike {w : World} {x y : Value} (h : w.Values x y) : x.Alike y :=
  Value.Related.alike h fun _ _ both => both.alike

structure Holds (w : World) (a : Arena Int Value) (c : Chain Int Value) : Prop where
  mirrors : Mirrors w.image w.Values a c
  kept : ∀ s, w.kept s ↔ s ∈ a.retained

structure States (w : World) (m n : Machine) : Prop where
  agree : m.Agree w.Closures w.live n
  scopes : ∃ a c, m.scopes = .arena a ∧ n.scopes = .chain c ∧ w.Holds a c

end World

def link : Link Machine Machine where
  World := World
  le := World.Le
  refl := World.Le.refl
  trans := World.Le.trans
  closures := World.Closures
  closures_mono le h := h.mono le
  closures_alike h := h.alike
  live := World.live
  live_mono le h := le.live h
  faults := Fault.Alike
  states := World.States

section Steps

open World (Values.mono)

def sharing : Sharing link where
  machine n := n
  replace _ n := n
  lift work := work
  lift_run _ _ := rfl
  agree h := h.agree
  faults alike _ := alike
  states h left right agree := by
    obtain ⟨-, a, c, here, there, holds⟩ := h
    exact ⟨agree, a, c, left.trans here, right.trans there, holds⟩
  grow w x := { w with live := fun y => w.live y ∨ y = x }
  grow_le w x := .of_image rfl id .inl
  grow_live _ _ := rfl
  grow_states {w m n m' n' x} h left right agree := by
    obtain ⟨-, a, c, here, there, holds⟩ := h
    have le : w.Le { w with live := fun y => w.live y ∨ y = x } := .of_image rfl id .inl
    have mirrors := holds.mirrors.mono fun _ _ both => Values.mono both le
    exact ⟨agree, a, c, left.trans here, right.trans there, mirrors, holds.kept⟩

variable {α : Type} {w : World} {Q : World → α → α → Prop}

theorem sure_onScopes {f f' : Chain Int Value → α × Chain Int Value} {g g' : Arena.Work Int Value α}
    (step : ∀ a c, w.Holds a c → ∃ x a' w', g.run a = (.ok x, a') ∧ w.Le w' ∧ w'.live = w.live ∧
      w'.Holds a' (f' c).2 ∧ Q w' x (f' c).1) :
    link.Sure Q w (Run.onScopes (Scopes.either f g)) (Run.onScopes (Scopes.either f' g')) := by
  rintro m n ⟨agree, a, c, left, right, holds⟩
  obtain ⟨x, a', w', run, le, live, holds', result⟩ := step a c holds
  rw [onScopes_run_arena f g left, onScopes_run_chain f' g' right, run]
  refine ⟨w', x, (f' c).1, _, _, rfl, rfl, le, ⟨?_, a', (f' c).2, rfl, rfl, holds'⟩, result⟩
  rw [live]
  exact (agree.mono fun _ _ both => both.mono le).scopes _ _

variable {s t : Int} {v v' : Value}

theorem sure_define (here : w.image s = some t) (key : Int) (value : w.Values v v') :
    link.Sure (fun w' => Option.Rel w'.Values) w (Run.onScopes (Scopes.define s key v))
      (Run.onScopes (Scopes.define t key v')) := by
  refine sure_onScopes fun a c holds => ?_
  obtain ⟨previous, a', run, same, mirrors, retained⟩ := holds.mirrors.define_run here key value
  exact ⟨previous, a', w, run, .refl w, rfl, ⟨mirrors, fun s => by rw [retained, holds.kept]⟩, same⟩

theorem sure_get? (here : w.image s = some t) (key : Int) :
    link.Sure (fun w' => Option.Rel w'.Values) w (Run.onScopes (Scopes.get? s key))
      (Run.onScopes (Scopes.get? t key)) := by
  refine sure_onScopes fun a c holds => ?_
  obtain ⟨x, run, same⟩ := holds.mirrors.get?_run key here
  exact ⟨x, a, w, run, .refl w, rfl, holds, same⟩

theorem sure_assign (here : w.image s = some t) (key : Int) (value : w.Values v v') :
    link.Sure (fun w' => Option.Rel w'.Values) w (Run.onScopes (Scopes.assign s key v))
      (Run.onScopes (Scopes.assign t key v')) := by
  refine sure_onScopes fun a c holds => ?_
  obtain ⟨previous, a', run, same, mirrors, retained⟩ := holds.mirrors.assign_run here key value
  exact ⟨previous, a', w, run, .refl w, rfl, ⟨mirrors, fun s => by rw [retained, holds.kept]⟩, same⟩

theorem sure_retain (here : w.image s = some t) :
    link.Sure (fun w' _ _ => w'.kept s ∧ w'.image s = some t) w (Run.onScopes (Scopes.retain s))
      (Run.onScopes (Scopes.retain t)) := by
  refine sure_onScopes fun a c holds => ?_
  obtain ⟨e, found⟩ := (holds.mirrors.domain s).1 ⟨t, here⟩
  obtain ⟨a', run, sound, seen, -, -, member, more⟩ := holds.mirrors.sound.retain_run found
  let w' : World := { w with kept := (· ∈ a'.retained) }
  have le : w.Le w' := .of_image rfl (fun kept => more _ ((holds.kept _).1 kept)) id
  have mirrors := (holds.mirrors.congr sound seen).mono fun _ _ both => Values.mono both le
  exact ⟨(), a', w', run, le, rfl, ⟨mirrors, fun _ => .rfl⟩, member, here⟩

end Steps

section Enclosed

/-- A scope has been opened that is younger than all others and not retained so far. The new world
is no later one in the sense of `Le`, since the scope may yet be dropped. -/
structure Opened (v w : World) (s t : Int) : Prop where
  image : w.image = fun u => if u = s then some t else v.image u
  kept : w.kept = v.kept
  live : w.live = v.live
  youngest : ∀ {u u'}, v.image u = some u' → u < s
  inner : s ≠ root

def World.forget (w : World) (s : Int) : World :=
  { w with image := fun t => if t = s then none else w.image t }

variable {u v w : World} {s t : Int}

theorem World.Closures.forget {f g : Closure} (h : w.Closures f g) (free : ¬ w.kept s) :
    (w.forget s).Closures f g := by
  refine ⟨h.alike, h.params, h.body, h.live, h.kept, ?_⟩
  dsimp only [World.forget]
  rw [if_neg, h.image]
  rintro rfl
  exact free h.kept

theorem Opened.le (h : Opened u v s t) (le : v.Le w) (kept : w.kept s) : u.Le w where
  image {a b} here := by
    refine le.image ?_
    rw [h.image]
    exact (if_neg (Int.ne_of_lt (h.youngest here))).trans here
  kept here := le.kept (h.kept ▸ here)
  live here := le.live (h.live ▸ here)
  fresh {a b} here absent := by
    by_cases same : a = s
    · exact same ▸ kept
    · refine le.fresh here ?_
      rw [h.image]
      exact (if_neg same).trans absent

theorem Opened.le_forget (h : Opened u v s t) (le : v.Le w) : u.Le (w.forget s) where
  image {a b} here := by
    have apart := Int.ne_of_lt (h.youngest here)
    have before : v.image a = some b := by
      rw [h.image]
      exact (if_neg apart).trans here
    exact (if_neg apart).trans (le.image before)
  kept here := le.kept (h.kept ▸ here)
  live here := le.live (h.live ▸ here)
  fresh {a b} here absent := by
    dsimp only [World.forget] at here
    split at here
    next => cases here
    next apart =>
      refine le.fresh here ?_
      rw [h.image]
      exact (if_neg apart).trans absent

theorem Opened.here (h : Opened u v s t) : v.image s = some t := by
  rw [h.image]
  exact if_pos rfl

theorem Opened.closures (h : Opened u v s t) {f g : Closure} (both : u.Closures f g) :
    v.Closures f g := by
  refine ⟨both.alike, both.params, both.body, h.live ▸ both.live, h.kept ▸ both.kept, ?_⟩
  rw [h.image]
  exact (if_neg (Int.ne_of_lt (h.youngest both.image))).trans both.image

theorem Opened.values (h : Opened u v s t) {x y : Value} (both : u.Values x y) : v.Values x y :=
  Value.Related.mono both (fun _ _ => h.closures) fun _ alive => h.live ▸ alive

theorem child_run {m n : Machine} (here : u.image s = some t) (h : u.States m n) :
    ∃ s' t' v m' n', (Run.onScopes (Scopes.child s)).run m = (.ok s', m') ∧
      (Run.onScopes (Scopes.child t)).run n = (.ok t', n') ∧ Opened u v s' t' ∧ v.States m' n' := by
  obtain ⟨agree, a, c, left, right, holds⟩ := h
  have youngest : ∀ {b b'}, u.image b = some b' → b < (a.table.size : Int) := fun active =>
    (holds.mirrors.active active).2.1
  obtain ⟨e, found⟩ := (holds.mirrors.domain s).1 ⟨t, here⟩
  obtain ⟨a', run, seen, -, retained, exited⟩ := Arena.add_run found
  let v : World :=
    { u with image := fun b => if b = a.table.size then some (c.table.size : Int) else u.image b }
  have opened : Opened u v a.table.size c.table.size :=
    ⟨rfl, rfl, rfl, youngest, (Int.ne_of_lt (youngest holds.mirrors.top)).symm⟩
  have mirrors := (holds.mirrors.child here (holds.mirrors.sound.added found seen retained exited)
    seen).mono fun _ _ both => opened.values both
  unfold Scopes.child
  rw [onScopes_run_arena _ _ left, onScopes_run_chain _ _ right, run]
  exact ⟨_, _, v, _, _, rfl, rfl, opened, (agree.mono fun _ _ both => opened.closures both).scopes _ _,
    a', _, rfl, rfl, mirrors, fun b => by rw [retained, holds.kept]⟩

variable {α : Type} {Q : World → α → α → Prop}

def Portable (Q : World → α → α → Prop) : Prop :=
  ∀ {v w}, (∀ x y, v.Values x y → w.Values x y) → (∀ f g, v.Closures f g → w.Closures f g) →
    ∀ a b, Q v a b → Q w a b

theorem release_run {m n : Machine} (h : Opened u v s t) (le : v.Le w) (states : w.States m n) :
    ∃ w' m', (Run.onScopes (Scopes.release s)).run m = (.ok (), m') ∧
      (Run.onScopes (Scopes.release t)).run n = (.ok (), n) ∧ u.Le w' ∧ w'.States m' n ∧
      (∀ f g, w.Closures f g → w'.Closures f g) ∧ w'.live = w.live := by
  obtain ⟨agree, a, c, left, right, holds⟩ := states
  have here : w.image s = some t := le.image h.here
  obtain ⟨e, found⟩ := (holds.mirrors.domain s).1 ⟨t, here⟩
  -- A child that is still there was opened after its parent, so it has been retained since.
  have childless : s ∉ a.retained → a.Childless s := by
    intro free b f active parent
    obtain ⟨b', there⟩ := (holds.mirrors.domain b).2 ⟨f, active⟩
    have younger : s < b := (holds.mirrors.sound.nonneg active parent).2.1
    have fresh : v.image b = none := by
      rw [h.image]
      cases before : u.image b with
      | none => exact (if_neg (Int.ne_of_gt younger)).trans before
      | some b' => exact absurd (h.youngest before) (Int.lt_asymm younger)
    have kept := (holds.kept b).1 (le.fresh there fresh)
    exact free (holds.mirrors.sound.retainedUp b kept active parent)
  obtain ⟨a', run, sound, -, retained, seen⟩ :=
    holds.mirrors.sound.release_run found h.inner childless
  have right' : { n with scopes := Scopes.chain c } = n := by rw [← right]
  unfold Scopes.release
  rw [onScopes_run_arena _ _ left, onScopes_run_chain _ _ right, run, right']
  by_cases kept : w.kept s
  · have member := (holds.kept s).1 kept
    have mirrors := holds.mirrors.congr sound fun b => by rw [seen, if_neg fun both => both.2 member]
    exact ⟨w, _, rfl, rfl, h.le le kept, ⟨agree.scopes _ _, a', c, rfl, right, mirrors,
      fun b => by rw [retained, holds.kept]⟩, fun _ _ both => both, rfl⟩
  · have free : s ∉ a.retained := fun member => kept ((holds.kept s).2 member)
    have gone : ∀ b, a'.cell? b = if b = s then none else a.cell? b := fun b => by
      rw [seen]
      simp only [free, not_false_eq_true, and_true]
    have less : ∀ f g, w.Closures f g → (w.forget s).Closures f g := fun _ _ both =>
      both.forget kept
    have mirrors := (holds.mirrors.drop h.inner (childless free) sound gone).mono fun _ _ both =>
      Value.Related.mono both less fun _ alive => alive
    exact ⟨w.forget s, _, rfl, rfl, h.le_forget le, ⟨(agree.mono less).scopes _ _, a', c, rfl, right,
      mirrors, fun b => by rw [retained]; exact holds.kept b⟩, less, rfl⟩

theorem sim_enclosed {work work' : ScopeId → Run α} (portable : Portable Q) (here : u.image s = some t)
    (body : ∀ v s' t', Opened u v s' t' → link.Sim Q v (work s') (work' t')) :
    link.Sim Q u (do let inner ← Run.onScopes (Scopes.child s); Run.releasing inner (work inner))
      (do let inner ← Run.onScopes (Scopes.child t); Run.releasing inner (work' inner)) := by
  intro m n states
  obtain ⟨s', t', v, m₁, n₁, run, run', opened, states₁⟩ := child_run here states
  obtain ⟨w, le, states₂, outcome⟩ := body v s' t' opened m₁ n₁ states₁
  obtain ⟨w', m₃, released, released', le', states₃, closures, live⟩ := release_run opened le states₂
  have values : ∀ x y, w.Values x y → w'.Values x y := fun _ _ both =>
    Value.Related.mono both closures fun _ alive => live ▸ alive
  rw [run_bind, run_bind, run, run']
  dsimp only
  refine ⟨w', le', ?_⟩
  rw [releasing_run released, releasing_run released']
  exact ⟨states₃, outcome.imp values (portable values closures)⟩

theorem sure_closing {work work' : ScopeId → Run α} (portable : Portable Q) (here : u.image s = some t)
    (body : ∀ v s' t', Opened u v s' t' → link.Sure Q v (work s') (work' t')) :
    link.Sure Q u
      (do
        let inner ← Run.onScopes (Scopes.child s)
        let x ← work inner
        Run.onScopes (Scopes.release inner)
        return x)
      (do
        let inner ← Run.onScopes (Scopes.child t)
        let x ← work' inner
        Run.onScopes (Scopes.release inner)
        return x) := by
  intro m n states
  obtain ⟨s', t', v, m₁, n₁, run, run', opened, states₁⟩ := child_run here states
  obtain ⟨w, x, y, m₂, n₂, ended, ended', le, states₂, both⟩ := body v s' t' opened m₁ n₁ states₁
  obtain ⟨w', m₃, released, released', le', states₃, closures, live⟩ := release_run opened le states₂
  have values : ∀ x y, w.Values x y → w'.Values x y := fun _ _ both =>
    Value.Related.mono both closures fun _ alive => live ▸ alive
  refine ⟨w', x, y, m₃, n₂, ?_, ?_, le', states₃, portable values closures x y both⟩
  · simp only [run_bind, run, ended, released, run_pure]
  · simp only [run_bind, run', ended', released', run_pure]

end Enclosed

end Lox.Mirror
