import Lox.Proofs.Lexical.World

set_option autoImplicit false

namespace Lox.Lexical

variable {N : Naming} {v w : World} {s t p i : Int} {l : Nat}
  {c : Chain Int Value} {store : Array Value}

namespace Holds

theorem widen (h : Holds N v c store) (sub : v.Sub w) (site : w.site = v.site)
    (place : w.place = v.place) (pending : w.pending = v.pending) : Holds N w c store where
  top := by
    rw [site]
    exact h.top
  sites known := h.sites (site ▸ known)
  older := h.older
  bound known frame holds := by
    rw [place]
    exact h.bound (site ▸ known) frame holds
  placed here := by
    rw [site]
    exact h.placed (place ▸ here)
  related here settled := by
    obtain ⟨f, x, y, frame, bound, stored, both⟩ := h.related (place ▸ here) (pending ▸ settled)
    exact ⟨f, x, y, frame, bound, stored, both.mono sub⟩
  inj here there := h.inj (place ▸ here) (place ▸ there)

theorem bind (h : Holds N w c store) (here : w.place s i = some l) {x y : Value}
    (both : Values N w x y) {pending : Int → Int → Prop}
    (still : ∀ u j, ¬ pending u j → w.pending u j → u = s ∧ j = i) :
    Holds N { w with pending } (c.bind s i x) (store.setIfInBounds l y) := by
  have sub : w.Sub { w with pending } := ⟨id, id, id, id⟩
  obtain ⟨⟨site, known, own⟩, inside⟩ := h.placed here
  obtain ⟨nonneg, f, frame, parent⟩ := h.sites known
  have frames : ∀ {u : Int}, 0 ≤ u → (c.bind s i x).frame? u =
      if u = s then some ⟨f.parent, f.bindings.put i x⟩ else c.frame? u := by
    intro u nonneg'
    rw [Chain.frame?_bind c i x nonneg nonneg', frame]
    rfl
  exact {
    top := h.top
    sites := by
      intro u site' known'
      obtain ⟨nonneg', g, frame', parent'⟩ := h.sites known'
      refine ⟨nonneg', ?_⟩
      rw [frames nonneg']
      split
      next same =>
        subst same
        rw [frame] at frame'
        cases frame'
        exact ⟨_, rfl, parent'⟩
      next => exact ⟨g, frame', parent'⟩
    older := Chain.older_bind h.older nonneg
    bound := by
      intro u site' g j known' frame' holds
      rw [frames (h.sites known').1] at frame'
      split at frame'
      next same =>
        subst same
        cases frame'
        by_cases again : j = i
        · exact ⟨l, again ▸ here⟩
        · refine h.bound known' frame ?_
          simpa only [Bindings.holds, Bindings.get?_put_other _ _ again] using holds
      next => exact h.bound known' frame' holds
    placed := by
      intro u j k there
      simpa using h.placed there
    related := by
      intro u j k there settled
      by_cases same : u = s ∧ j = i
      · obtain ⟨rfl, rfl⟩ := same
        cases here.symm.trans there
        refine ⟨⟨f.parent, f.bindings.put j x⟩, x, y, ?_, Bindings.get?_put_same .., ?_, both.mono sub⟩
        · rw [frames nonneg, if_pos rfl]
        · simp [inside]
      · have settled' : ¬ w.pending u j := fun waiting => same (still u j settled waiting)
        obtain ⟨g, x', y', frame', bound, stored, both'⟩ := h.related there settled'
        obtain ⟨⟨site', known', -⟩, -⟩ := h.placed there
        have apart : l ≠ k := fun eq => same (h.inj there (eq ▸ here))
        have stored' : (store.setIfInBounds l y)[k]? = some y' := by
          rw [Array.getElem?_setIfInBounds_ne apart, stored]
        rw [frames (h.sites known').1]
        by_cases this : u = s
        · subst this
          rw [frame] at frame'
          cases frame'
          have other : j ≠ i := fun eq => same ⟨rfl, eq⟩
          rw [if_pos rfl]
          refine ⟨_, x', y', rfl, ?_, stored', both'.mono sub⟩
          rw [Bindings.get?_put_other _ _ other, bound]
        · rw [if_neg this]
          exact ⟨g, x', y', frame', bound, stored', both'.mono sub⟩
    inj := h.inj }

end Holds

def World.reserve (w : World) (s i : Int) (l : Nat) : World where
  site := w.site
  place u j := if u = s ∧ j = i then some l else w.place u j
  captured := w.captured
  live := w.live
  pending u j := w.pending u j ∨ (u = s ∧ j = i)

theorem World.sub_reserve (free : w.place s i = none) : w.Sub (w.reserve s i l) where
  site here := here
  place {u j k} here := by
    refine (if_neg ?_).trans here
    rintro ⟨rfl, rfl⟩
    rw [free] at here
    cases here
  captured here := here
  live here := here

theorem Holds.reserve (h : Holds N w c store) {site : Site} (known : w.site s = some site)
    (own : site.own i) (free : w.place s i = none) :
    Holds N (w.reserve s i store.size) c (store.push .nil) where
  top := h.top
  sites := h.sites
  older := h.older
  bound {u site' f j} known' frame holds := by
    obtain ⟨k, here⟩ := h.bound known' frame holds
    exact ⟨k, (World.sub_reserve free).place here⟩
  placed {u j k} here := by
    dsimp only [World.reserve] at here
    rw [Array.size_push]
    split at here
    next same =>
      cases here
      obtain ⟨rfl, rfl⟩ := same
      exact ⟨⟨site, known, own⟩, Nat.lt_succ_self _⟩
    next =>
      obtain ⟨old, inside⟩ := h.placed here
      exact ⟨old, Nat.lt_succ_of_lt inside⟩
  related {u j k} here settled := by
    have settled' : ¬ w.pending u j := fun waiting => settled (.inl waiting)
    have other : ¬ (u = s ∧ j = i) := fun same => settled (.inr same)
    dsimp only [World.reserve] at here
    rw [if_neg other] at here
    obtain ⟨f, x, y, frame, bound, stored, both⟩ := h.related here settled'
    refine ⟨f, x, y, frame, bound, ?_, both.mono (World.sub_reserve free)⟩
    rw [Array.getElem?_push, if_neg (Nat.ne_of_lt (h.placed here).2), stored]
  inj {u u' j j' k} here there := by
    dsimp only [World.reserve] at here there
    -- The new location is past the end of the old ones.
    have old : ∀ {u j}, w.place u j = some store.size → False := fun here =>
      Nat.lt_irrefl _ (h.placed here).2
    split at here
    next same =>
      cases here
      split at there
      next same' => exact ⟨same.1.trans same'.1.symm, same.2.trans same'.2.symm⟩
      next => exact (old there).elim
    next =>
      split at there
      next =>
        cases there
        exact (old here).elim
      next => exact h.inj here there

def World.extend (w : World) (t p : Int) (own : Int → Prop) : World :=
  { w with site := fun u => if u = t then some ⟨some p, own⟩ else w.site u }

theorem World.le_extend (own : Int → Prop) (new : w.site t = none) : w.Le none (w.extend t p own) where
  site {u site} here := by
    refine (if_neg ?_).trans here
    rintro rfl
    rw [new] at here
    cases here
  place here := here
  captured here := here
  live here := here
  frozen _ _ here := here
  pending := rfl

theorem Holds.site_size (h : Holds N w c store) : w.site c.table.size = none := by
  cases known : w.site c.table.size with
  | none => rfl
  | some site =>
    obtain ⟨-, f, frame, -⟩ := h.sites known
    have below := (Array.getElem?_eq_some_iff.1 frame).1
    simp at below

theorem Holds.child (h : Holds N w c store) {site : Site} (known : w.site p = some site)
    (own : Int → Prop) : Holds N (w.extend c.table.size p own) (c.child p).2 store := by
  have new := h.site_size
  have sub := (World.le_extend (p := p) own new).toSub
  exact {
    top := by
      obtain ⟨site', known', parent, own'⟩ := h.top
      exact ⟨site', sub.site known', parent, own'⟩
    sites := by
      intro u site' known'
      dsimp only [World.extend] at known'
      split at known'
      next same =>
        subst same
        cases known'
        refine ⟨Int.natCast_nonneg _, ⟨some p, []⟩, ?_, rfl⟩
        rw [Chain.frame?_child c p (Int.natCast_nonneg _), if_pos rfl]
      next =>
        obtain ⟨nonneg, f, frame, parent⟩ := h.sites known'
        exact ⟨nonneg, f, Chain.frame?_child_of_some p nonneg frame, parent⟩
    older := by
      intro u f q
      obtain ⟨nonneg, g, frame, -⟩ := h.sites known
      have below := (Array.getElem?_eq_some_iff.1 frame).1
      exact Chain.older_child h.older ⟨nonneg, by omega⟩
    bound := by
      intro u site' f j known' frame holds
      have nonneg : 0 ≤ u := by
        dsimp only [World.extend] at known'
        split at known'
        next same => exact same ▸ Int.natCast_nonneg _
        next => exact (h.sites known').1
      rw [Chain.frame?_child c p nonneg] at frame
      dsimp only [World.extend] at known'
      split at frame
      next =>
        cases frame
        cases holds
      next other =>
        rw [if_neg other] at known'
        exact h.bound known' frame holds
    placed := by
      intro u j k here
      obtain ⟨⟨site', known', own'⟩, inside⟩ := h.placed here
      exact ⟨⟨site', sub.site known', own'⟩, inside⟩
    related := by
      intro u j k here settled
      obtain ⟨f, x, y, frame, bound, stored, both⟩ := h.related here settled
      obtain ⟨⟨site', known', -⟩, -⟩ := h.placed here
      exact ⟨f, x, y, Chain.frame?_child_of_some p (h.sites known').1 frame, bound, stored,
        both.mono sub⟩
    inj := h.inj }

structure States (N : Naming) (w : World) (m : Machine) (n : State) : Prop where
  agree : m.Agree (Closures N w) w.live n.machine
  scopes : ∃ c, m.scopes = .chain c ∧ Holds N w c n.store
  captured : w.captured = fun k => n.captured[k]?

def link (N : Naming) (growing : Option Int) : Link Machine (State) where
  World := World
  le := World.Le growing
  refl := .refl growing
  trans := .trans
  closures := Closures N
  closures_mono le h := h.mono le.toSub
  closures_alike h := h.alike
  live := World.live
  live_mono le h := le.live h
  faults f f' := f.Alike f' ∧ f.isUnbound = false
  states := States N

def sharing (N : Naming) (growing : Option Int) : Sharing (link N growing) where
  machine := State.machine
  replace n m := { n with machine := m }
  lift := lift
  lift_run _ _ := rfl
  agree h := h.agree
  faults alike bound := ⟨alike, bound⟩
  states h left _ agree := by
    obtain ⟨-, ⟨c, here, holds⟩, captured⟩ := h
    exact ⟨agree, ⟨c, left.trans here, holds⟩, captured⟩
  grow w x := { w with live := fun y => w.live y ∨ y = x }
  grow_le w x := ⟨⟨id, id, id, .inl⟩, fun _ _ here => here, rfl⟩
  grow_live _ _ := rfl
  grow_states {w m n m' n' x} h left _ agree := by
    obtain ⟨-, ⟨c, here, holds⟩, captured⟩ := h
    exact ⟨agree, ⟨c, left.trans here, holds.widen ⟨id, id, id, .inl⟩ rfl rfl rfl⟩, captured⟩

variable {growing : Option Int} {slots slots₁ slots₂ : Slots} {env : Env} {name slot : Ident}

theorem outcome_regrow {α β : Type} {Q : World → α → β → Prop} {growing' : Option Int}
    {r : Except Stop α} {r' : Except Stop β} (h : (link N growing).Outcome Q w r r') :
    (link N growing').Outcome Q w r r' := by
  cases h with
  | ok both => exact .ok both
  | returned both => exact .returned both
  | fault alike => exact .fault alike
  | endless => exact .endless

theorem loosen {α β : Type} {Q : World → α → β → Prop} {x : Run α} {y : Work β}
    (h : (link N none).Sim Q w x y) : (link N growing).Sim Q w x y := by
  intro m n states
  obtain ⟨w', le, states', outcome⟩ := h m n states
  exact ⟨w', le.loosen growing, states', outcome_regrow outcome⟩

theorem sure_capture (env : Env) :
    (link N growing).Sure (fun w' _ k => w'.captured k.toNat = some env) w
      (Run.onScopes (Scopes.retain s)) (capture env) := by
  rintro m n ⟨agree, ⟨c, chain, holds⟩, captured⟩
  let w' : World := { w with captured := fun k => (n.captured.push env)[k]? }
  have sub : w.Sub w' := {
    site := id
    place := id
    captured := fun {k env'} here => by
      rw [captured] at here
      have below := (Array.getElem?_eq_some_iff.1 here).1
      exact (Array.getElem?_push_lt below).trans ((Array.getElem?_eq_getElem below).symm.trans here)
    live := id }
  refine ⟨w', (), n.captured.size, _, _, onScopes_run_chain _ _ chain, rfl,
    ⟨sub, fun _ _ here => here, rfl⟩, ⟨?_, ⟨c, rfl, ?_⟩, rfl⟩, ?_⟩
  · exact (agree.mono fun _ _ both => both.mono sub).scopes _ _
  · exact holds.widen sub rfl rfl rfl
  · simp [w']

theorem sure_close (aligned : Aligned N w s slots.frames env) (sound : slots.Sound)
    {params params' : List Ident} {body body' : List Tree}
    (declared : Slots.DeclaresAll slots.enter params params' slots₁)
    (resolved : Slots.ResolvesAll slots₁ body body' slots₂) (known : ∀ p ∈ params, N.known p)
    (orderly : Tree.OrderlyAll N.known body) (name : Option String) :
    (link N growing).Sure (fun w' f g => Closures N w' f g ∧ f.name = name) w
      (Eval.close name params' body' s) (close name params body env) := by
  refine (sure_capture env).bind fun w₁ le₁ _ k captured => ?_
  refine ((sharing N growing).sure_freshTag (fun i => .function ⟨i, name, params', body', s⟩)
    fun _ => rfl).bind fun w₂ le₂ i j made => ?_
  exact .pure ⟨⟨⟨made.1, rfl⟩, known, orderly, slots, slots₁, slots₂, env, sound, declared, resolved,
    le₂.captured captured, aligned.mono (le₁.toSub.trans le₂.toSub)⟩, rfl⟩

def Room (w : World) (s : Int) (f : StaticScope) : Prop :=
  ∃ site, w.site s = some site ∧ ∀ d ∈ f, ∀ i text, d.2 = .slot i text → site.own i

theorem Room.mono {f : StaticScope} (h : Room v s f) (sub : v.Sub w) : Room w s f := by
  obtain ⟨site, known, own⟩ := h
  exact ⟨site, sub.site known, own⟩

theorem Aligned.uncons {fs : List StaticScope} (h : Aligned N w s fs env) :
    ∃ f fs' e es, fs = f :: fs' ∧ env = e :: es ∧ Lines N w s f e ∧
      ∀ {v : World} {f' : StaticScope} {e' : Frame}, w.Sub v → Lines N v s f' e' →
        Aligned N v s (f' :: fs') (e' :: es) := by
  cases h with
  | top known parent lines =>
    exact ⟨_, _, _, _, rfl, rfl, lines, fun sub lines' => .top (sub.site known) parent lines'⟩
  | inner known parent lines apart outer =>
    exact ⟨_, _, _, _, rfl, rfl, lines, fun sub lines' =>
      .inner (sub.site known) parent lines' apart (outer.mono sub)⟩

structure Reserved (w v : World) (s i : Int) (l : Nat) : Prop where
  sub : w.Sub v
  site : v.site = w.site
  here : v.place s i = some l
  elsewhere : ∀ {u j k}, u ≠ s → v.place u j = some k → w.place u j = some k
  pending : ∀ {u j}, v.pending u j → w.pending u j ∨ (u = s ∧ j = i)

theorem Reserved.settle {w' : World} (h : Reserved w v s i l) (le : v.Le none w') :
    w.Le (some s) { w' with pending := w.pending } where
  toSub := (h.sub.trans le.toSub).trans ⟨id, id, id, id⟩
  frozen {u site j k} known other here := by
    refine h.elsewhere (fun same => other (congrArg some same.symm)) ?_
    exact le.frozen (h.site ▸ known) nofun here
  pending := rfl

theorem Reserved.of_free (free : w.place s i = none) : Reserved w (w.reserve s i l) s i l where
  sub := World.sub_reserve free
  site := rfl
  here := if_pos ⟨rfl, rfl⟩
  elsewhere {u j k} other placed := by
    dsimp only [World.reserve] at placed
    rwa [if_neg fun same => other same.1] at placed
  pending := id

theorem Lines.reserve {f : StaticScope} {e : Frame} (lines : Lines N w s f e) (known : N.known name)
    (free : w.place s i = none) :
    Lines N (w.reserve s i l) s (f ++ [(name.key, .slot i (some name.shown))]) (e ++ [(name, l)]) := by
  refine List.rel_append (lines.mono (World.sub_reserve free)) (.cons ?_ .nil)
  exact ⟨known, rfl, i, rfl, if_pos ⟨rfl, rfl⟩⟩

theorem Filled.reserve {f : StaticScope} {key : Int} {text : Option String} (filled : Filled w s f) :
    Filled (w.reserve s i l) s (f ++ [(key, .slot i text)]) := by
  intro j k placed
  dsimp only [World.reserve] at placed
  split at placed
  next same => exact ⟨_, List.mem_append_right _ List.mem_cons_self, _, by rw [same.2]⟩
  next =>
    obtain ⟨d, member, text, same⟩ := filled j k placed
    exact ⟨d, List.mem_append_left _ member, text, same⟩

theorem Filled.free {f : StaticScope} (filled : Filled w s f) (sound : slots.Sound)
    (member : f ∈ slots.frames) : w.place s slots.next = none := by
  cases placed : w.place s slots.next with
  | none => rfl
  | some l =>
    obtain ⟨d, inside, text, same⟩ := filled _ _ placed
    obtain ⟨i, text', same', below⟩ := sound f member d inside
    rw [same] at same'
    cases same'
    omega

theorem bind_run (here : w.place s i = some l) {x y : Value} (both : Values N w x y)
    {pending : Int → Int → Prop} (still : ∀ u j, ¬ pending u j → w.pending u j → u = s ∧ j = i)
    {m : Machine} {n : State} (states : States N w m n) (text : Option String) :
    ∃ m' n', (Eval.define s (.slot i text) x).run m = (.ok (), m') ∧
      (write l y).run n = (.ok (), n') ∧ States N { w with pending } m' n' := by
  obtain ⟨agree, ⟨c, chain, holds⟩, captured⟩ := states
  have sub : w.Sub { w with pending } := ⟨id, id, id, id⟩
  refine ⟨_, _, ?_, rfl, (agree.mono fun _ _ both => both.mono sub).scopes _ _,
    ⟨c.bind s i x, rfl, holds.bind here both still⟩, captured⟩
  unfold Eval.define Scopes.define
  rw [run_bind, onScopes_run_chain _ _ chain]
  rfl

section Enclosed

structure Opened (w v : World) (t p : Int) (own : Int → Prop) : Prop where
  world : v = w.extend t p own
  new : w.site t = none
  empty : ∀ i, v.place t i = none

theorem Opened.le {own : Int → Prop} (h : Opened w v t p own) : w.Le none v :=
  h.world ▸ World.le_extend own h.new

theorem Opened.trans {own : Int → Prop} {w' : World} (h : Opened w v t p own)
    (le : v.Le (some t) w') : w.Le none w' where
  toSub := h.le.toSub.trans le.toSub
  frozen {u site i k} known _ here := by
    have other : some t ≠ some u := by
      rintro ⟨⟩
      rw [h.new] at known
      cases known
    exact h.le.frozen known nofun (le.frozen (h.le.site known) other here)
  pending := le.pending.trans h.le.pending

theorem child_run {site : Site} (known : w.site p = some site) (own : Int → Prop) {m : Machine}
    {n : State} (states : States N w m n) :
    ∃ t v m', (Run.onScopes (Scopes.child p)).run m = (.ok t, m') ∧ States N v m' n ∧
      Opened w v t p own := by
  obtain ⟨agree, ⟨c, chain, holds⟩, captured⟩ := states
  have new := holds.site_size
  have sub := (World.le_extend (p := p) own new).toSub
  refine ⟨c.table.size, w.extend c.table.size p own, _, onScopes_run_chain _ _ chain,
    ⟨?_, ⟨_, rfl, holds.child known own⟩, captured⟩, rfl, new, fun i => ?_⟩
  · exact (agree.mono fun _ _ both => both.mono sub).scopes _ _
  · cases placed : w.place c.table.size i with
    | none => exact placed
    | some l =>
      obtain ⟨⟨site', known', -⟩, -⟩ := holds.placed placed
      rw [new] at known'
      cases known'

theorem release_run {m : Machine} {n : State} (states : States N w m n) :
    (Run.onScopes (Scopes.release t)).run m = (.ok (), m) := by
  obtain ⟨-, ⟨c, chain, -⟩, -⟩ := states
  unfold Scopes.release
  rw [onScopes_run_chain _ _ chain, ← chain]

variable {α β : Type} {Q : World → α → β → Prop} {work : ScopeId → Run α} {work' : Work β}

theorem sim_enclosed {site : Site} (known : w.site p = some site) (own : Int → Prop)
    (body : ∀ v t, Opened w v t p own → (link N (some t)).Sim Q v (work t) work') :
    (link N none).Sim Q w
      (do let inner ← Run.onScopes (Scopes.child p); Run.releasing inner (work inner)) work' := by
  intro m n states
  obtain ⟨t, v, m₁, run, states₁, opened⟩ := child_run known own states
  obtain ⟨w', le, states₂, outcome⟩ := body v t opened m₁ n states₁
  rw [run_bind, run]
  dsimp only
  rw [releasing_run (release_run states₂)]
  exact ⟨w', opened.trans le, states₂, outcome_regrow outcome⟩

theorem sure_closing {site : Site} (known : w.site p = some site) (own : Int → Prop)
    (body : ∀ v t, Opened w v t p own → (link N (some t)).Sure Q v (work t) work') :
    (link N none).Sure Q w
      (do
        let inner ← Run.onScopes (Scopes.child p)
        let x ← work inner
        Run.onScopes (Scopes.release inner)
        return x) work' := by
  intro m n states
  obtain ⟨t, v, m₁, run, states₁, opened⟩ := child_run known own states
  obtain ⟨w', a, b, m₂, n₂, ended, ended', le, states₂, both⟩ := body v t opened m₁ n states₁
  refine ⟨w', a, b, m₂, n₂, ?_, ended', opened.trans le, states₂, both⟩
  simp only [run_bind, run, ended, release_run states₂, run_pure]

/-- A scope for the declarations that a walk will have made by its end. Those in view from further
out have older slots. -/
theorem stands_enter (aligned : Aligned N w p slots.frames env) (sound : slots.Sound)
    (grows : Slots.Grows slots.enter slots₁)
    (opened : Opened w v t p slots₁.current.HasSlot) :
    Stands N v t slots.enter.frames ([] :: env) ∧ Room v t slots₁.current := by
  obtain ⟨next, new, frames, fresh⟩ := grows
  have current : slots₁.current = new := (Slots.Grows.current frames).1
  have site : v.site t = some ⟨some p, slots₁.current.HasSlot⟩ := by
    rw [opened.world]
    exact if_pos rfl
  refine ⟨⟨.inner site rfl .nil ?_ (aligned.mono opened.le.toSub), ?_⟩, _, site, ?_⟩
  · rintro f outer d member i text same ⟨d', inner, text', same'⟩
    obtain ⟨j, _, slot, below⟩ := sound f outer d member
    obtain ⟨j', _, slot', above, -⟩ := fresh d' (current ▸ inner)
    rw [same] at slot
    rw [same'] at slot'
    cases slot
    cases slot'
    exact Nat.lt_irrefl _ (Nat.lt_of_lt_of_le below above)
  · intro i l here
    rw [opened.empty] at here
    cases here
  · exact fun d member i text same => ⟨d, member, text, same⟩

end Enclosed

section Variables

variable {fs : List StaticScope} {x y : Value}

theorem sure_read (aligned : Aligned N w s fs env) (settled : ∀ u i, ¬ w.pending u i)
    (known : N.known name) (found : fs.findSome? (·.find? name.key) = some slot) :
    ∃ declared l, env.find? N.same name = some (declared, l) ∧
      (link N none).Sure (fun w' found y => ∃ x, found = some x ∧ Values N w' x y) w
        (Run.onScopes (Scopes.get? s slot.key)) (read l) := by
  obtain ⟨i, text, declared, l, u, rfl, located, here, -, walk⟩ := aligned.find? settled known found
  refine ⟨declared, l, located, ?_⟩
  rintro m n ⟨agree, ⟨c, chain, holds⟩, captured⟩
  obtain ⟨f, x, y, frame, bound, stored, both⟩ := holds.related here (settled u i)
  have get : c.get? s i = some x := by
    have find : c.find? s i = some u := walk holds _ (Nat.lt_succ_self _)
    simp [Chain.get?, find, Chain.bindingsOf, frame, bound]
  refine ⟨w, some x, y, _, n, ?_, ?_, .refl none w, ⟨agree.scopes _ _, ⟨c, rfl, holds⟩, captured⟩,
    x, rfl, both⟩
  · exact (onScopes_run_chain _ _ chain).trans (by rw [← get]; rfl)
  · change (Except.ok (n.store.getD l .nil), n) = _
    rw [Array.getD_eq_getD_getElem?, stored]
    rfl

theorem sure_write (aligned : Aligned N w s fs env) (settled : ∀ u i, ¬ w.pending u i)
    (known : N.known name) (found : fs.findSome? (·.find? name.key) = some slot)
    (both : Values N w x y) :
    ∃ declared l, env.find? N.same name = some (declared, l) ∧
      (link N none).Sure (fun _ found _ => ∃ old, found = some old) w
        (Run.onScopes (Scopes.assign s slot.key x)) (write l y) := by
  obtain ⟨i, text, declared, l, u, rfl, located, here, -, walk⟩ := aligned.find? settled known found
  refine ⟨declared, l, located, ?_⟩
  rintro m n ⟨agree, ⟨c, chain, holds⟩, captured⟩
  obtain ⟨f, old, -, frame, bound, -⟩ := holds.related here (settled u i)
  have assign : c.assign s i x = (some old, c.bind u i x) := by
    have find : c.find? s i = some u := walk holds _ (Nat.lt_succ_self _)
    simp [Chain.assign, find, Chain.define, Chain.bindingsOf, frame, bound]
  have holds' := holds.bind here both fun u j settled waiting => absurd waiting settled
  refine ⟨w, some old, (), _, _, ?_, rfl, .refl none w,
    ⟨agree.scopes _ _, ⟨c.bind u i x, rfl, holds'⟩, captured⟩, old, rfl⟩
  exact (onScopes_run_chain _ _ chain).trans (by rw [show Ident.key (.slot i text) = i from rfl, assign])

theorem place_run (stands : Stands N w s slots.frames env) (sound : slots.Sound)
    (declares : Slots.Declares slots name slot slots₁) (known : N.known name)
    (room : Room w s slots₁.current) {m : Machine} {n : State} (states : States N w m n) :
    ∃ i declared l v env' n', slot = .slot i (some declared.shown) ∧
      (place N.same name env).run n = (.ok ((declared, l), env'), n') ∧ States N v m n' ∧
      Reserved w v s i l ∧ Aligned N v s slots₁.frames env' ∧ Filled v s slots₁.current := by
  obtain ⟨f, fs, e, es, frames, rfl, lines, rebuild⟩ := stands.aligned.uncons
  have current : slots.current = f ∧ slots.frames.tail = fs := by
    have whole := slots.frames_eq
    rw [frames] at whole ⊢
    exact ⟨(List.cons.inj whole).1.symm, rfl⟩
  have filled : Filled w s f := by
    have filled := stands.filled
    rwa [frames] at filled
  cases declares with
  | again found =>
    rw [current.1] at found
    rcases lines.find? known with ⟨none, -⟩ | ⟨i, declared, l, found', located, here, -⟩
    · rw [none] at found
      cases found
    · rw [found'] at found
      cases found
      refine ⟨i, declared, l, w, e :: es, n, rfl, ?_, states, ⟨.refl w, rfl, here, fun _ => id, .inl⟩,
        stands.aligned, current.1 ▸ filled⟩
      simp only [place, List.headD_cons, located, run_pure]
  | new absent =>
    obtain ⟨agree, ⟨c, chain, holds⟩, captured⟩ := states
    have added : ({ slots.add name.key (.slot slots.next (some name.shown)) with
        next := slots.next + 1 } : Slots).frames =
        (f ++ [(name.key, .slot slots.next (some name.shown))]) :: fs := by
      rw [Slots.frames_add, current.1, current.2]
    have current' := (Slots.frames_eq _).symm.trans added
    rw [(List.cons.inj current').1] at room ⊢
    rw [current.1] at absent
    have located : e.find? N.same name = none := by
      rcases lines.find? known with ⟨-, none⟩ | ⟨i, declared, l, found, -⟩
      · exact none
      · rw [absent] at found
        cases found
    obtain ⟨site, here, own⟩ := room
    have own := own _ (List.mem_append_right _ List.mem_cons_self) _ _ rfl
    have free : w.place s slots.next = none := filled.free sound (frames ▸ List.mem_cons_self)
    have reserved : Reserved w (w.reserve s slots.next n.store.size) s slots.next n.store.size :=
      .of_free free
    refine ⟨slots.next, name, n.store.size, w.reserve s slots.next n.store.size,
      (e ++ [(name, n.store.size)]) :: es, { n with store := n.store.push .nil }, rfl, ?_, ?_,
      reserved, ?_, filled.reserve⟩
    · simp only [place, List.headD_cons, located, run_bind, run_modifyGet, run_pure, List.tail_cons]
    · exact ⟨agree.mono fun _ _ both => both.mono reserved.sub,
        ⟨c, chain, holds.reserve here own free⟩, captured⟩
    · rw [added]
      exact rebuild reserved.sub (lines.reserve known free)

theorem sure_declare {α : Type} {R : World → α → α → Prop} {value : α → Value} {make : Run α}
    {make' : Ident → Env → Work α} (stands : Stands N w s slots.frames env) (sound : slots.Sound)
    (declares : Slots.Declares slots name slot slots₁) (known : N.known name)
    (room : Room w s slots₁.current)
    (mono : ∀ {v w a b}, v.Sub w → R v a b → R w a b)
    (values : ∀ {w a b}, R w a b → Values N w (value a) (value b))
    (makes : ∀ v declared env', slot.text? = some (Ident.shown declared) → w.Sub v →
      Aligned N v s slots₁.frames env' → (link N none).Sure R v make (make' declared env')) :
    (link N (some s)).Sure (fun w' a r => R w' a r.1 ∧ Stands N w' s slots₁.frames r.2) w
      (do let a ← make; Eval.define s slot (value a); return a)
      (declare N.same name env value make') := by
  intro m n states
  obtain ⟨i, declared, l, v, env', n₁, rfl, placed, states₁, reserved, aligned, filled⟩ :=
    place_run stands sound declares known room states
  obtain ⟨w₁, a, b, m₂, n₂, made, made', le, states₂, both⟩ :=
    makes v declared env' rfl reserved.sub aligned m n₁ states₁
  have still : ∀ u j, ¬ w.pending u j → w₁.pending u j → u = s ∧ j = i := by
    intro u j settled waiting
    rw [le.pending] at waiting
    exact (reserved.pending waiting).resolve_left settled
  obtain ⟨m₃, n₃, defined, written, states₃⟩ :=
    bind_run (le.place reserved.here) (values both) still states₂ (some declared.shown)
  have sub : w₁.Sub { w₁ with pending := w.pending } := ⟨id, id, id, id⟩
  refine ⟨_, a, (b, env'), m₃, n₃, ?_, ?_, reserved.settle le, states₃, mono sub both,
    aligned.mono (le.toSub.trans sub), ?_⟩
  · simp only [run_bind, made, defined, run_pure]
  · simp only [declare, run_bind, placed, made', written, run_pure]
  · intro j k here
    obtain ⟨site, known'⟩ := aligned.known
    obtain ⟨d, member, text, same⟩ := filled j k (le.frozen known' nofun here)
    rw [Slots.frames_eq]
    exact ⟨d, member, text, same⟩

end Variables

end Lox.Lexical
