import Lox.Proofs.Machine.Agree
import Lox.Proofs.Run.Simulation

set_option autoImplicit false

namespace Lox

structure Sharing {N : Type} (L : Link Machine N) where
  machine : N → Machine
  replace : N → Machine → N
  lift : {α : Type} → Run α → Stopping N α
  lift_run : ∀ {α : Type} (work : Run α) (n : N),
    (lift work).run n = ((work.run (machine n)).1, replace n (work.run (machine n)).2)
  agree : ∀ {w m n}, L.states w m n → m.Agree (L.closures w) (L.live w) (machine n)
  states : ∀ {w m n m' n'}, L.states w m n → m'.scopes = m.scopes → n'.scopes = (machine n).scopes →
    m'.Agree (L.closures w) (L.live w) n' → L.states w m' (replace n n')
  faults : ∀ {f f'}, f.Alike f' → f.isUnbound = false → L.faults f f'
  grow : L.World → Value → L.World
  grow_le : ∀ w x, L.le w (grow w x)
  grow_live : ∀ w x, L.live (grow w x) = fun y => L.live w y ∨ y = x
  grow_states : ∀ {w m n m' n' x}, L.states w m n → m'.scopes = m.scopes →
    n'.scopes = (machine n).scopes → m'.Agree (L.closures (grow w x)) (L.live (grow w x)) n' →
    L.states (grow w x) m' (replace n n')

namespace Sharing

open Eval

variable {N α : Type} {L : Link Machine N} (S : Sharing L) {w : L.World} {v v' : Value}

theorem sim_look {Q : L.World → α → α → Prop} {x y : Run α}
    (look : ∀ m n, m.Agree (L.closures w) (L.live w) n →
      (x.run m).2 = m ∧ (y.run n).2 = n ∧ L.Outcome Q w (x.run m).1 (y.run n).1) :
    L.Sim Q w x (S.lift y) := by
  intro m n matched
  have agree := S.agree matched
  obtain ⟨same, same', outcome⟩ := look m (S.machine n) agree
  refine ⟨w, L.refl w, ?_⟩
  rw [S.lift_run, same, same']
  exact ⟨S.states matched rfl rfl agree, outcome⟩

theorem sim_print (line : String) :
    L.Sim (fun _ _ _ => True) w (Run.print line) (S.lift (Run.print line)) := by
  intro m n matched
  refine ⟨w, L.refl w, ?_⟩
  rw [S.lift_run]
  exact ⟨S.states matched rfl rfl ((S.agree matched).print line), .ok trivial⟩

theorem live_grow (w : L.World) (x : Value) : L.live (S.grow w x) x := by
  rw [S.grow_live]
  exact .inr rfl

theorem sure_freshTag (make : Nat → Value) (tagged : ∀ i, (make i).identity = some (.tag i)) :
    L.Sure (fun w' i j => i = j ∧ L.live w' (make i)) w Run.freshTag (S.lift Run.freshTag) := by
  intro m n matched
  have agree := S.agree matched
  have le := S.grow_le w (make m.nextTag)
  refine ⟨S.grow w (make m.nextTag), _, _, _, _, rfl, S.lift_run Run.freshTag n, le,
    S.grow_states matched rfl rfl ?_, agree.nextTag, S.live_grow w _⟩
  rw [S.grow_live]
  exact (agree.tag (tagged _)).mono fun _ _ => L.closures_mono le

theorem sim_readClock : L.Sim (fun _ x y => x = y) w Run.readClock (S.lift Run.readClock) := by
  intro m n matched
  have agree := S.agree matched
  refine ⟨w, L.refl w, ?_⟩
  rw [S.lift_run]
  refine ⟨S.states matched rfl rfl agree.tick, .ok ?_⟩
  rw [agree.clock, agree.readings]

theorem sim_newInstance {c d : ClassValue} (same : c.Related (L.closures w) d)
    (known : L.live w (.classValue c)) :
    L.Sim L.values w (Run.newInstance c) (S.lift (Run.newInstance d)) := by
  intro m n matched
  have agree := S.agree matched
  have le := S.grow_le w (.instanceOf c m.instances.size)
  have more := fun f g => L.closures_mono (f := f) (g := g) le
  refine ⟨_, le, ?_⟩
  rw [S.lift_run]
  refine ⟨S.grow_states matched rfl rfl ?_, .ok ?_⟩
  · rw [S.grow_live]
    exact (agree.newInstance c).mono more
  · rw [← agree.size]
    exact .instanceOf (same.mono more) (L.live_mono le known) (S.live_grow w _)

theorem sim_setField (r : Nat) (name : String) (value : L.values w v v') :
    L.Sim (fun _ _ _ => True) w (Run.setField r name v) (S.lift (Run.setField r name v')) := by
  intro m n matched
  refine ⟨w, L.refl w, ?_⟩
  rw [S.lift_run]
  exact ⟨S.states matched rfl rfl ((S.agree matched).setField value r name), .ok trivial⟩

theorem sim_orFault {x x' : Except Fault Value} {f f' : Fault} (same : Applied f f' x x')
    (alike : f.Alike f') (bound : f.isUnbound = false) :
    L.Sim L.values w (orFault x) (S.lift (orFault x')) := by
  refine S.sim_look fun m n agree => ?_
  cases same with
  | bool b => exact ⟨rfl, rfl, .ok (.bool b)⟩
  | number x => exact ⟨rfl, rfl, .ok (.number x)⟩
  | text s => exact ⟨rfl, rfl, .ok (.text s)⟩
  | refused => exact ⟨rfl, rfl, .fault (S.faults alike bound)⟩

theorem sim_checkArity {c d : Value} (alike : c.Alike d) (expected given : Nat) :
    L.Sim (fun _ _ _ => given = expected) w (checkArity c expected given)
      (S.lift (checkArity d expected given)) := by
  refine S.sim_look fun m n agree => ?_
  unfold checkArity
  split
  next enough => exact ⟨rfl, rfl, .ok enough⟩
  next => exact ⟨rfl, rfl, .fault (S.faults (.arity expected given alike) rfl)⟩

theorem sim_getField {o o' : Value} (object : L.values w o o') (name : String) :
    L.Sim L.values w (getField o name) (S.lift (getField o' name)) := by
  refine S.sim_look fun m n agree => ?_
  have alike : o.Alike o' := object.alike
  cases object with
  | @instanceOf c d ref same _ alive =>
    have found := agree.field? alive name
    simp only [getField, Run.field?, run_bind, run_get, run_pure]
    generalize (m.instances.getD ref []).get? name = x at found ⊢
    generalize (n.instances.getD ref []).get? name = y at found ⊢
    cases found with
    | some value => exact ⟨rfl, rfl, .ok value⟩
    | none =>
      have method := same.methods.get? (some name)
      dsimp only
      generalize c.methods.get? (some name) = f at method ⊢
      generalize d.methods.get? (some name) = g at method ⊢
      cases method with
      | some both => exact ⟨rfl, rfl, .ok (.function both)⟩
      | none => exact ⟨rfl, rfl, .fault (S.faults (.undefinedProperty name alike) rfl)⟩
  | _ => exact ⟨rfl, rfl, .fault (S.faults (.notAnInstance name alike) rfl)⟩

end Sharing
end Lox
