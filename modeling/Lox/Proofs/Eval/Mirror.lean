import Lox.Proofs.Machine.Mirror

set_option autoImplicit false

namespace Lox.Mirror

open Eval

def Faithful (eval : Evaluator) : Prop :=
  ∀ (tree : Tree) {w : World} {s t : Int}, w.image s = some t →
    link.Sim link.values w (eval tree s) (eval tree t)

theorem portable_values : Portable link.values := fun values _ _ _ both => values _ _ both

theorem portable_true {α : Type} : Portable (fun _ (_ _ : α) => True) := fun _ _ _ _ _ => trivial

variable {w : World} {s t : Int} {eval : Evaluator} {v v' : Value}

theorem sure_defineName (here : w.image s = some t) (name : Ident) (value : w.Values v v') :
    link.Sure (fun _ _ _ => True) w (define s name v) (define t name v') :=
  (sure_define here name.key value).bind fun _ _ _ _ _ => .pure trivial

theorem sim_evalAll (faithful : Faithful eval) (trees : List Tree) (here : w.image s = some t) :
    link.Sim (fun w' => List.Forall₂ w'.Values) w (evalAll eval trees s) (evalAll eval trees t) := by
  induction trees generalizing w with
  | nil => exact .pure .nil
  | cons tree rest ih =>
    refine (faithful tree here).bind fun w₁ le₁ x y first => ?_
    refine (ih (le₁.image here)).bind fun w₂ le₂ xs ys others => ?_
    exact .pure (.cons (first.mono le₂) others)

theorem sim_runAll (faithful : Faithful eval) (trees : List Tree) (here : w.image s = some t) :
    link.Sim (fun _ _ _ => True) w (runAll eval trees s) (runAll eval trees t) := by
  induction trees generalizing w with
  | nil => exact .pure trivial
  | cons tree rest ih => exact (faithful tree here).bind fun w₁ le₁ _ _ _ => ih (le₁.image here)

theorem sure_close (name : Option String) (params : List Ident) (body : List Tree)
    (here : w.image s = some t) :
    link.Sure World.Closures w (close name params body s) (close name params body t) := by
  refine (sure_retain here).bind fun w₁ le₁ _ _ kept => ?_
  refine (sharing.sure_freshTag (fun i => .function ⟨i, name, params, body, s⟩) fun _ => rfl).bind
    fun w₂ le₂ i j made => ?_
  exact .pure ⟨⟨made.1, rfl⟩, rfl, rfl, made.2, le₂.kept kept.1, le₂.image kept.2⟩

theorem sim_bindParams (params : List Ident) {vs vs' : List Value} (values : List.Forall₂ w.Values vs vs')
    (here : w.image s = some t) :
    link.Sim (fun _ _ _ => True) w (bindParams s params vs) (bindParams t params vs') := by
  induction params generalizing w vs vs' with
  | nil => cases values <;> exact .pure trivial
  | cons p ps ih =>
    cases values with
    | nil => exact .pure trivial
    | cons value rest =>
      refine (sure_defineName here p value).sim.bind fun w₁ le₁ _ _ _ => ?_
      exact ih (rest.imp fun _ _ both => both.mono le₁) (le₁.image here)

theorem sim_callClosure (faithful : Faithful eval) {f g : Closure} (same : w.Closures f g)
    {vs vs' : List Value} (values : List.Forall₂ w.Values vs vs') :
    link.Sim link.values w (callClosure eval f vs) (callClosure eval g vs') := by
  unfold callClosure
  rw [← same.params, ← same.body]
  refine sim_enclosed portable_values same.image fun w₁ s t opened => ?_
  have values : List.Forall₂ w₁.Values vs vs' := values.imp fun _ _ both => opened.values both
  refine (sim_bindParams f.params values opened.here).bind fun w₂ le₂ _ _ _ => ?_
  apply Link.Sim.catchReturn
  exact (sim_runAll faithful f.body (le₂.image opened.here)).thenNil

theorem sim_call (faithful : Faithful eval) {c d : Value} (callee : w.Values c d)
    {vs vs' : List Value} (values : List.Forall₂ w.Values vs vs') :
    link.Sim link.values w (call eval c vs) (call eval d vs') := by
  have alike : c.Alike d := World.Values.alike callee
  have count := values.length_eq
  cases callee with
  | @function f g same =>
    simp only [call, count, same.params]
    refine (sharing.sim_checkArity alike _ _).bind fun w₁ le₁ _ _ _ => ?_
    exact sim_callClosure faithful (same.mono le₁) (values.imp fun _ _ both => both.mono le₁)
  | native f =>
    cases f
    simp only [call, count]
    refine (sharing.sim_checkArity alike _ _).bind fun w₁ le₁ _ _ _ => ?_
    refine sharing.sim_readClock.bind fun w₂ le₂ x y reading => ?_
    subst reading
    exact .pure (.number x)
  | classValue same known =>
    simp only [call, count]
    refine (sharing.sim_checkArity alike _ _).bind fun w₁ le₁ _ _ _ => ?_
    exact sharing.sim_newInstance (same.mono fun _ _ both => both.mono le₁) (le₁.live known)
  | _ => exact .fail (.notCallable alike)

theorem sure_makeMethods (trees : List Tree) {ms ms' : Bindings (Option String) Closure}
    (same : Bindings.Related w.Closures ms ms') (here : w.image s = some t) :
    link.Sure (fun w' => Bindings.Related w'.Closures) w (makeMethods s trees ms)
      (makeMethods t trees ms') := by
  induction trees generalizing w ms ms' with
  | nil => exact .pure same
  | cons tree rest ih =>
    cases tree with
    | function name params body =>
      refine (sure_close name.text? params body here).bind fun w₁ le₁ f g both => ?_
      refine (sure_defineName (le₁.image here) name (.function both)).bind fun w₂ le₂ _ _ _ => ?_
      have le := le₁.trans le₂
      have more : Bindings.Related w₂.Closures ms ms' := same.mono fun _ _ both => both.mono le
      exact ih (more.put name.text? (both.mono le₂)) (le.image here)
    | _ => exact ih same here

theorem sure_members (trees : List Tree) (here : w.image s = some t) :
    link.Sure (fun w' => Bindings.Related w'.Closures) w
      (do
        let members ← Run.onScopes (Scopes.child s)
        let methods ← makeMethods members trees []
        Run.onScopes (Scopes.release members)
        return methods)
      (do
        let members ← Run.onScopes (Scopes.child t)
        let methods ← makeMethods members trees []
        Run.onScopes (Scopes.release members)
        return methods) := by
  refine sure_closing (fun _ closures _ _ both => both.mono closures) here ?_
  exact fun w₁ s₁ t₁ opened => sure_makeMethods trees .nil opened.here

theorem sim_strict (faithful : Faithful eval) (op : BinaryOp) (lhs rhs : Tree)
    (here : w.image s = some t) :
    link.Sim link.values w
      (do let l ← eval lhs s; let r ← eval rhs s; orFault (op.apply l r))
      (do let l ← eval lhs t; let r ← eval rhs t; orFault (op.apply l r)) := by
  refine (faithful lhs here).bind fun w₁ le₁ x x' left => ?_
  refine (faithful rhs (le₁.image here)).bind fun w₂ le₂ y y' right => ?_
  have left : x.Alike x' := left.alike
  exact sharing.sim_orFault (op.apply_agree left right.alike) (.operands op left right.alike) rfl

theorem faithful_evalNode (faithful : Faithful eval) (rounds : Nat) :
    Faithful (evalNode rounds eval) := by
  intro tree w s t here
  cases tree with
  | literal value => exact .pure (.ofLiteral _ _ value)
  | grouping inner => exact faithful inner here
  | reference name =>
    refine (sure_get? here name.key).sim.bind fun w₁ le₁ x y found => ?_
    cases found with
    | some value => exact .pure value
    | none => exact .fail (.undefinedVariable rfl)
  | assign target value =>
    refine (faithful value here).bind fun w₁ le₁ x y value => ?_
    refine (sure_assign (le₁.image here) target.key value).sim.bind fun w₂ le₂ _ _ found => ?_
    cases found with
    | some _ => exact .pure (value.mono le₂)
    | none => exact .fail (.undefinedVariable rfl)
  | binary op lhs rhs =>
    cases op with
    | or =>
      refine (faithful lhs here).bind fun w₁ le₁ x y left => ?_
      rw [left.alike.isTruthy]
      split
      · exact .pure left
      · exact faithful rhs (le₁.image here)
    | and =>
      refine (faithful lhs here).bind fun w₁ le₁ x y left => ?_
      rw [left.alike.isTruthy]
      split
      · exact faithful rhs (le₁.image here)
      · exact .pure left
    | _ => exact sim_strict faithful _ lhs rhs here
  | unary op operand =>
    refine (faithful operand here).bind fun w₁ le₁ x y value => ?_
    exact sharing.sim_orFault (op.apply_agree value.alike) (.operand op value.alike) rfl
  | call callee arguments =>
    refine (faithful callee here).bind fun w₁ le₁ c d callee => ?_
    refine (sim_evalAll faithful arguments (le₁.image here)).bind fun w₂ le₂ vs vs' values => ?_
    exact sim_call faithful (callee.mono le₂) values
  | lambda params body =>
    exact (sure_close none params body here).sim.bind fun _ _ _ _ both => .pure (.function both)
  | get object field =>
    exact (faithful object here).bind fun _ _ _ _ object => sharing.sim_getField object field
  | set object field value =>
    refine (faithful object here).bind fun w₁ le₁ o o' object => ?_
    have alike : o.Alike o' := object.alike
    cases object with
    | instanceOf =>
      refine (faithful value (le₁.image here)).bind fun w₂ le₂ x y value => ?_
      refine (sharing.sim_setField _ field value).bind fun w₃ le₃ _ _ _ => ?_
      exact .pure (value.mono le₃)
    | _ => exact .fail (.notAnInstance field alike)
  | expression e => exact (faithful e here).thenNil
  | print e =>
    refine (faithful e here).bind fun w₁ le₁ x y value => ?_
    rw [value.alike.display]
    exact (sharing.sim_print _).thenNil
  | ret value => exact (faithful value here).bind fun _ _ _ _ value => .returned value
  | declare name initial =>
    refine (faithful initial here).bind fun w₁ le₁ x y value => ?_
    exact (sure_defineName (le₁.image here) name value).sim.thenNil
  | ifThen cond body =>
    refine (faithful cond here).bind fun w₁ le₁ x y truth => ?_
    rw [truth.alike.isTruthy]
    split
    · exact (faithful body (le₁.image here)).thenNil
    · exact .pure .nil
  | ifElse cond body other =>
    refine (faithful cond here).bind fun w₁ le₁ x y truth => ?_
    rw [truth.alike.isTruthy]
    exact (faithful _ (le₁.image here)).thenNil
  | whileLoop cond body =>
    apply Link.Sim.thenNil
    apply Link.Sim.iterate
    · exact fun w' le => faithful cond (le.image here)
    · exact fun w' le => faithful body (le.image here)
  | block statements =>
    have body : link.Sim (fun _ _ _ => True) w
        (do let inner ← Run.onScopes (Scopes.child s); Run.releasing inner (runAll eval statements inner))
        (do let inner ← Run.onScopes (Scopes.child t); Run.releasing inner (runAll eval statements inner)) :=
      sim_enclosed portable_true here fun w₁ s₁ t₁ opened => sim_runAll faithful statements opened.here
    simpa only [bind_assoc, evalNode] using body.thenNil
  | function name params body =>
    refine (sure_close name.text? params body here).sim.bind fun w₁ le₁ f g both => ?_
    exact (sure_defineName (le₁.image here) name (.function both)).sim.thenNil
  | classDef name methods =>
    have whole := (sure_members methods here).sim.bind (R := link.values) fun w₁ le₁ ms ms' same =>
      (sharing.sure_freshTag (fun i => .classValue ⟨i, name.text?, ms⟩) fun _ => rfl).sim.bind
        fun w₂ le₂ i j made => by
          have same : Bindings.Related w₂.Closures ms ms' := same.mono fun _ _ both => both.mono le₂
          have both : ClassValue.Related w₂.Closures ⟨i, name.text?, ms⟩ ⟨j, name.text?, ms'⟩ :=
            ⟨made.1, rfl, same⟩
          have value : w₂.Values (.classValue ⟨i, name.text?, ms⟩) (.classValue ⟨j, name.text?, ms'⟩) :=
            .classValue both made.2
          exact (sure_defineName ((le₁.trans le₂).image here) name value).sim.thenNil
    simpa only [bind_assoc, pure_bind, evalNode, sharing] using whole

theorem faithful_eval (rounds depth : Nat) : Faithful (Lox.eval rounds depth) := by
  induction depth with
  | zero => exact fun _ _ _ _ _ => .fail .stackOverflow
  | succ depth ih => exact faithful_evalNode ih rounds

theorem sim_interpret (limits : Limits) (program : List Tree) (here : w.image root = some root) :
    link.Sim link.values w (interpret limits program) (interpret limits program) :=
  (sim_runAll (faithful_eval limits.rounds limits.depth) program here).thenNil.catchReturn

end Lox.Mirror
