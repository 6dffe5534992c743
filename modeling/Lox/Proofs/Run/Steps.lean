import Lox.Machine

set_option autoImplicit false

namespace Lox

variable {ε σ α β : Type}

theorem run_pure (a : α) (s : σ) : (pure a : ExceptT ε (StateM σ) α).run s = (.ok a, s) := rfl

theorem run_throw (e : ε) (s : σ) : (throw e : ExceptT ε (StateM σ) α).run s = (.error e, s) := rfl

theorem run_get (s : σ) : (get : ExceptT ε (StateM σ) σ).run s = (.ok s, s) := rfl

theorem run_set (s' s : σ) : (set s' : ExceptT ε (StateM σ) PUnit).run s = (.ok ⟨⟩, s') := rfl

theorem run_modify (f : σ → σ) (s : σ) :
    (modify f : ExceptT ε (StateM σ) PUnit).run s = (.ok ⟨⟩, f s) := rfl

theorem run_modifyGet (f : σ → α × σ) (s : σ) :
    (modifyGet f : ExceptT ε (StateM σ) α).run s = (.ok (f s).1, (f s).2) := rfl

theorem run_bind (x : ExceptT ε (StateM σ) α) (f : α → ExceptT ε (StateM σ) β) (s : σ) :
    (x >>= f).run s =
      match x.run s with
      | (.ok a, s') => (f a).run s'
      | (.error e, s') => (.error e, s') := by
  change (x.run >>= ExceptT.bindCont f) s = _
  change (ExceptT.bindCont f (x.run s).1) (x.run s).2 = _
  rcases x.run s with ⟨_ | _, _⟩ <;> rfl

theorem run_tryCatch (x : ExceptT ε (StateM σ) α) (handle : ε → ExceptT ε (StateM σ) α) (s : σ) :
    (tryCatch x handle).run s =
      match x.run s with
      | (.ok a, s') => (.ok a, s')
      | (.error e, s') => (handle e).run s' := by
  change (match (x.run s).1 with
    | .ok a => (pure (.ok a) : StateM σ (Except ε α))
    | .error e => (handle e).run) (x.run s).2 = _
  rcases x.run s with ⟨_ | _, _⟩ <;> rfl

theorem run_pure_ok {a b : α} {s s' : σ} (h : (pure a : ExceptT ε (StateM σ) α).run s = (.ok b, s')) :
    a = b ∧ s = s' := by
  cases h
  exact ⟨rfl, rfl⟩

theorem run_bind_ok {x : ExceptT ε (StateM σ) α} {f : α → ExceptT ε (StateM σ) β} {s s'' : σ} {b : β}
    (h : (x >>= f).run s = (.ok b, s'')) :
    ∃ a s', x.run s = (.ok a, s') ∧ (f a).run s' = (.ok b, s'') := by
  rw [run_bind] at h
  generalize x.run s = outcome at h ⊢
  obtain ⟨_ | a, s'⟩ := outcome
  · cases h
  · exact ⟨a, s', rfl, h⟩

section Ends

variable {P : σ → Prop} {Q : α → σ → Prop} {F : ε → σ → Prop}

-- Where work comes to from the states in `P`, with a result or without one.
def Ends (P : σ → Prop) (x : ExceptT ε (StateM σ) α) (Q : α → σ → Prop) (F : ε → σ → Prop) : Prop :=
  ∀ s, P s →
    match x.run s with
    | (.ok a, s') => Q a s'
    | (.error e, s') => F e s'

theorem Ends.pure {a : α} (h : ∀ s, P s → Q a s) : Ends P (pure a) Q F := h

theorem Ends.throw {e : ε} (h : ∀ s, P s → F e s) : Ends P (throw e) Q F := h

theorem Ends.bind {Q' : β → σ → Prop} {x : ExceptT ε (StateM σ) α} {f : α → ExceptT ε (StateM σ) β}
    (first : Ends P x Q F) (next : ∀ a, Ends (Q a) (f a) Q' F) : Ends P (x >>= f) Q' F := by
  intro s before
  have between := first s before
  rw [run_bind]
  generalize x.run s = outcome at between ⊢
  obtain ⟨_ | a, s'⟩ := outcome
  · exact between
  · exact next a s' between

end Ends

section Machines

variable {α : Type}

theorem onScopes_run_arena (f : Chain Int Value → α × Chain Int Value) (g : Arena.Work Int Value α)
    {m : Machine} {a : Arena Int Value} (here : m.scopes = .arena a) :
    (Run.onScopes (Scopes.either f g)).run m =
      ((g.run a).1.mapError .scope, { m with scopes := .arena (g.run a).2 }) := by
  obtain ⟨scopes, instances, nextTag, printed, clock, readings⟩ := m
  cases here
  rfl

theorem onScopes_run_chain (f : Chain Int Value → α × Chain Int Value) (g : Arena.Work Int Value α)
    {m : Machine} {c : Chain Int Value} (here : m.scopes = .chain c) :
    (Run.onScopes (Scopes.either f g)).run m =
      (.ok (f c).1, { m with scopes := .chain (f c).2 }) := by
  obtain ⟨scopes, instances, nextTag, printed, clock, readings⟩ := m
  cases here
  rfl

theorem releasing_run {work : Run α} {scope : ScopeId} {m m' : Machine}
    (released : (Run.onScopes (Scopes.release scope)).run (work.run m).2 = (.ok (), m')) :
    (Run.releasing scope work).run m = ((work.run m).1, m') := by
  rcases done : work.run m with ⟨result, n⟩
  rw [done] at released
  simp only [Run.releasing, ExceptT.run_mk, done, released]

theorem catchReturn_run {σ : Type} (work : ExceptT Stop (StateM σ) Value) (s : σ) :
    (Run.catchReturn work).run s =
      match work.run s with
      | (.error (.returned value), s) => (.ok value, s)
      | other => other := rfl

end Machines

end Lox
