import Lox.Proofs.Run.Steps
import Lox.Proofs.Value.Related

set_option autoImplicit false

namespace Lox

abbrev Stopping (M : Type) := ExceptT Stop (StateM M)

inductive Stop.Alike : Stop → Stop → Prop
  | returned {v v' : Value} : v.Alike v' → Alike (.returned v) (.returned v')
  | fault {f f' : Fault} : f.Alike f' → Alike (.fault f) (.fault f')
  | endless : Alike .endless .endless

theorem Stop.Alike.trans {e e' e'' : Stop} (h : e.Alike e') (h' : e'.Alike e'') : e.Alike e'' := by
  cases h with
  | returned value =>
    cases h' with
    | returned value' => exact .returned (value.trans value')
  | fault alike =>
    cases h' with
    | fault alike' => exact .fault (alike.trans alike')
  | endless => exact h'

inductive EndAlike {α β : Type} (Q : α → β → Prop) : Except Stop α → Except Stop β → Prop
  | ok {a : α} {b : β} : Q a b → EndAlike Q (.ok a) (.ok b)
  | error {e e' : Stop} : e.Alike e' → EndAlike Q (.error e) (.error e')

theorem EndAlike.trans {α β γ : Type} {Q : α → β → Prop} {R : β → γ → Prop} {S : α → γ → Prop}
    {r : Except Stop α} {s : Except Stop β} {t : Except Stop γ} (h : EndAlike Q r s)
    (h' : EndAlike R s t) (through : ∀ a b c, Q a b → R b c → S a c) : EndAlike S r t := by
  cases h with
  | ok both =>
    cases h' with
    | ok both' => exact .ok (through _ _ _ both both')
  | error alike =>
    cases h' with
    | error alike' => exact .error (alike.trans alike')

structure Link (M N : Type) where
  World : Type
  le : World → World → Prop
  refl : ∀ w, le w w
  trans : ∀ {u v w}, le u v → le v w → le u w
  closures : World → Closure → Closure → Prop
  closures_mono : ∀ {v w f g}, le v w → closures v f g → closures w f g
  closures_alike : ∀ {w f g}, closures w f g → f.Alike g
  /-- Which classes and instances the run on the left can still get hold of. -/
  live : World → Value → Prop
  live_mono : ∀ {v w x}, le v w → live v x → live w x
  faults : Fault → Fault → Prop
  states : World → M → N → Prop

namespace Link

variable {M N α β γ δ : Type} (L : Link M N)

def values (w : L.World) : Value → Value → Prop := Value.Related (L.closures w) (L.live w)

inductive Outcome (Q : L.World → α → β → Prop) (w : L.World) : Except Stop α → Except Stop β → Prop
  | ok {a : α} {b : β} : Q w a b → Outcome Q w (.ok a) (.ok b)
  | returned {v v' : Value} :
      L.values w v v' → Outcome Q w (.error (.returned v)) (.error (.returned v'))
  | fault {f f' : Fault} : L.faults f f' → Outcome Q w (.error (.fault f)) (.error (.fault f'))
  | endless : Outcome Q w (.error .endless) (.error .endless)

def Sim (Q : L.World → α → β → Prop) (w : L.World) (x : Stopping M α) (y : Stopping N β) : Prop :=
  ∀ m n, L.states w m n →
    ∃ w', L.le w w' ∧ L.states w' (x.run m).2 (y.run n).2 ∧ L.Outcome Q w' (x.run m).1 (y.run n).1

variable {L} {w : L.World} {Q : L.World → α → β → Prop} {R : L.World → γ → δ → Prop}

theorem values.mono {v w : L.World} {x y : Value} (h : L.values v x y) (le : L.le v w) :
    L.values w x y :=
  Value.Related.mono h (fun _ _ => L.closures_mono le) fun _ => L.live_mono le

theorem values.alike {v v' : Value} (h : L.values w v v') : v.Alike v' :=
  Value.Related.alike h fun _ _ => L.closures_alike

theorem Outcome.imp {v w : L.World} {S : L.World → α → β → Prop} {r : Except Stop α}
    {s : Except Stop β} (h : L.Outcome Q v r s) (values : ∀ x y, L.values v x y → L.values w x y)
    (results : ∀ a b, Q v a b → S w a b) : L.Outcome S w r s := by
  cases h with
  | ok both => exact .ok (results _ _ both)
  | returned both => exact .returned (values _ _ both)
  | fault both => exact .fault both
  | endless => exact .endless

theorem Outcome.fault_left {f : Fault} {s : Except Stop β} (h : L.Outcome Q w (.error (.fault f)) s) :
    ∃ f', s = .error (.fault f') ∧ L.faults f f' := by
  cases h with
  | fault both => exact ⟨_, rfl, both⟩

theorem Outcome.endAlike {S : α → β → Prop} {r : Except Stop α} {s : Except Stop β}
    (h : L.Outcome Q w r s) (faults : ∀ {f f'}, L.faults f f' → f.Alike f')
    (results : ∀ a b, Q w a b → S a b) : EndAlike S r s := by
  cases h with
  | ok both => exact .ok (results _ _ both)
  | returned both => exact .error (.returned both.alike)
  | fault both => exact .error (.fault (faults both))
  | endless => exact .error .endless

namespace Sim

variable {x : Stopping M α} {y : Stopping N β}

theorem pure {a : α} {b : β} (h : Q w a b) : L.Sim Q w (pure a) (pure b) :=
  fun _ _ matched => ⟨w, L.refl w, matched, .ok h⟩

theorem fail {f f' : Fault} (h : L.faults f f') :
    L.Sim Q w (throw (.fault f)) (throw (.fault f')) :=
  fun _ _ matched => ⟨w, L.refl w, matched, .fault h⟩

theorem endless : L.Sim Q w (throw .endless) (throw .endless) :=
  fun _ _ matched => ⟨w, L.refl w, matched, .endless⟩

theorem returned {v v' : Value} (h : L.values w v v') :
    L.Sim Q w (throw (.returned v)) (throw (.returned v')) :=
  fun _ _ matched => ⟨w, L.refl w, matched, .returned h⟩

theorem bind {f : α → Stopping M γ} {g : β → Stopping N δ} (first : L.Sim Q w x y)
    (next : ∀ w', L.le w w' → ∀ a b, Q w' a b → L.Sim R w' (f a) (g b)) :
    L.Sim R w (x >>= f) (y >>= g) := by
  intro m n matched
  obtain ⟨w', le, matched', outcome⟩ := first m n matched
  rw [run_bind, run_bind]
  rcases hx : x.run m with ⟨r, m'⟩
  rcases hy : y.run n with ⟨s, n'⟩
  rw [hx, hy] at matched' outcome
  cases outcome with
  | ok both =>
    obtain ⟨w'', le', rest⟩ := next w' le _ _ both m' n' matched'
    exact ⟨w'', L.trans le le', rest⟩
  | returned both => exact ⟨w', le, matched', .returned both⟩
  | fault both => exact ⟨w', le, matched', .fault both⟩
  | endless => exact ⟨w', le, matched', .endless⟩

theorem thenNil (h : L.Sim Q w x y) :
    L.Sim L.values w (do let _ ← x; Pure.pure .nil) (do let _ ← y; Pure.pure .nil) :=
  h.bind fun _ _ _ _ _ => .pure .nil

theorem imp {S : L.World → α → β → Prop} (h : L.Sim Q w x y)
    (sub : ∀ w', L.le w w' → ∀ a b, Q w' a b → S w' a b) : L.Sim S w x y := by
  intro m n matched
  obtain ⟨w', le, matched', outcome⟩ := h m n matched
  exact ⟨w', le, matched', outcome.imp (fun _ _ both => both) (sub w' le)⟩

theorem iterate {test body : Stopping M Value} {test' body' : Stopping N Value}
    (tests : ∀ w', L.le w w' → L.Sim L.values w' test test')
    (bodies : ∀ w', L.le w w' → L.Sim L.values w' body body') (rounds : Nat) :
    L.Sim (fun _ _ _ => True) w (Eval.iterate test body rounds) (Eval.iterate test' body' rounds) := by
  induction rounds generalizing w with
  | zero => exact .endless
  | succ rounds ih =>
    refine (tests w (L.refl w)).bind fun w₁ le₁ x y truth => ?_
    rw [truth.alike.isTruthy]
    split
    · refine (bodies w₁ le₁).bind fun w₂ le₂ _ _ _ => ?_
      have le := L.trans le₁ le₂
      exact ih (fun w' le' => tests w' (L.trans le le')) fun w' le' => bodies w' (L.trans le le')
    · exact .pure trivial

theorem catchReturn {x : Stopping M Value} {y : Stopping N Value} (h : L.Sim L.values w x y) :
    L.Sim L.values w (Run.catchReturn x) (Run.catchReturn y) := by
  intro m n matched
  obtain ⟨w', le, matched', outcome⟩ := h m n matched
  refine ⟨w', le, ?_⟩
  rw [catchReturn_run, catchReturn_run]
  generalize x.run m = left at matched' outcome ⊢
  generalize y.run n = right at matched' outcome ⊢
  obtain ⟨r, m'⟩ := left
  obtain ⟨r', n'⟩ := right
  cases outcome with
  | ok both => exact ⟨matched', .ok both⟩
  | returned both => exact ⟨matched', .ok both⟩
  | fault both => exact ⟨matched', .fault both⟩
  | endless => exact ⟨matched', .endless⟩

end Sim

def Sure (L : Link M N) (Q : L.World → α → β → Prop) (w : L.World) (x : Stopping M α)
    (y : Stopping N β) : Prop :=
  ∀ m n, L.states w m n → ∃ w' a b m' n', x.run m = (.ok a, m') ∧ y.run n = (.ok b, n') ∧
    L.le w w' ∧ L.states w' m' n' ∧ Q w' a b

namespace Sure

variable {x : Stopping M α} {y : Stopping N β}

theorem sim (h : L.Sure Q w x y) : L.Sim Q w x y := by
  intro m n matched
  obtain ⟨w', a, b, m', n', left, right, le, matched', both⟩ := h m n matched
  rw [left, right]
  exact ⟨w', le, matched', .ok both⟩

theorem pure {a : α} {b : β} (h : Q w a b) : L.Sure Q w (pure a) (pure b) :=
  fun m n matched => ⟨w, a, b, m, n, rfl, rfl, L.refl w, matched, h⟩

theorem bind {f : α → Stopping M γ} {g : β → Stopping N δ} (first : L.Sure Q w x y)
    (next : ∀ w', L.le w w' → ∀ a b, Q w' a b → L.Sure R w' (f a) (g b)) :
    L.Sure R w (x >>= f) (y >>= g) := by
  intro m n matched
  obtain ⟨w', a, b, m', n', left, right, le, matched', both⟩ := first m n matched
  obtain ⟨w'', c, d, m'', n'', left', right', le', rest⟩ := next w' le a b both m' n' matched'
  rw [run_bind, run_bind, left, right]
  exact ⟨w'', c, d, m'', n'', left', right', L.trans le le', rest⟩

theorem of_bind_pure {a : γ} {R : L.World → γ → β → Prop}
    (h : L.Sure R w (do let _ ← x; Pure.pure a) y) : L.Sure (fun w' _ b => R w' a b) w x y := by
  intro m n matched
  obtain ⟨w', c, b, m', n', left, right, le, matched', both⟩ := h m n matched
  obtain ⟨d, m'', first, rest⟩ := run_bind_ok left
  obtain ⟨rfl, rfl⟩ := run_pure_ok rest
  exact ⟨w', d, b, m'', n', first, right, le, matched', both⟩

theorem imp {S : L.World → α → β → Prop} (h : L.Sure Q w x y)
    (sub : ∀ w', L.le w w' → ∀ a b, Q w' a b → S w' a b) : L.Sure S w x y := by
  intro m n matched
  obtain ⟨w', a, b, m', n', left, right, le, matched', both⟩ := h m n matched
  exact ⟨w', a, b, m', n', left, right, le, matched', sub w' le a b both⟩

end Sure

end Link
end Lox
