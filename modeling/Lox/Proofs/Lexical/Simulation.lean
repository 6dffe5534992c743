import Lox.Proofs.Lexical.Steps

set_option autoImplicit false

namespace Lox.Lexical

structure Ready (N : Naming) (w : World) (s : Int) (fs : List StaticScope) (env : Env) : Prop
    extends Stands N w s fs env where
  settled : ∀ u i, ¬ w.pending u i

variable {N : Naming} {v w : World} {s : Int} {slots slots₁ slots₂ : Slots} {env : Env}
  {ev : Lox.Evaluator} {lex : Evaluator}

theorem Ready.mono {fs : List StaticScope} (h : Ready N v s fs env) (le : v.Le none w) :
    Ready N w s fs env := by
  refine ⟨h.toStands.mono le, ?_⟩
  rw [le.pending]
  exact h.settled

theorem Ready.next {growing : Option Int} {fs fs' : List StaticScope} {env' : Env}
    (h : Ready N v s fs env) (le : v.Le growing w) (stands : Stands N w s fs' env') :
    Ready N w s fs' env' := by
  refine ⟨stands, ?_⟩
  rw [le.pending]
  exact h.settled

theorem Ready.level (h : Ready N w s slots.frames env) (level : Slots.Level slots slots₁) :
    Ready N w s slots₁.frames env := by
  rw [level.frames]
  exact h

theorem Room.before (h : Room w s slots₁.current) (grows : Slots.Grows slots slots₁) :
    Room w s slots.current := by
  obtain ⟨-, new, frames, -⟩ := grows
  obtain ⟨site, known, own⟩ := h
  rw [(Slots.Grows.current frames).1] at own
  exact ⟨site, known, fun d member => own d (List.mem_append_left _ member)⟩

structure Faithful (N : Naming) (ev : Lox.Evaluator) (lex : Evaluator) : Prop where
  part : ∀ {t t' : Tree} {slots slots₁ : Slots} {w : World} {s : Int} {env : Env},
    Slots.Resolves slots t t' slots₁ → t.Part (t.Orderly N.known) → slots.Sound →
    Ready N w s slots.frames env →
    (link N none).Sim (fun w' x r => Values N w' x r.1 ∧ r.2 = env) w (ev t' s) (lex t env)
  whole : ∀ {t t' : Tree} {slots slots₁ : Slots} {w : World} {s : Int} {env : Env},
    Slots.Resolves slots t t' slots₁ → t.Orderly N.known → slots.Sound →
    Room w s slots₁.current → Ready N w s slots.frames env →
    (link N (some s)).Sim (fun w' x r => Values N w' x r.1 ∧ Stands N w' s slots₁.frames r.2) w
      (ev t' s) (lex t env)

theorem sim_part (faithful : Faithful N ev lex) {t t' : Tree}
    (resolves : Slots.Resolves slots t t' slots₁) (formed : t.Part (t.Orderly N.known))
    (sound : slots.Sound) (ready : Ready N w s slots.frames env) :
    (link N none).Sim (Values N) w (ev t' s) (part lex t env) := by
  have h := (faithful.part resolves formed sound ready).bind (R := Values N)
    (f := pure) (g := fun r => pure r.1) fun w₁ le₁ x r both => .pure both.1
  simpa only [bind_pure, part] using h

theorem sim_evalAll (faithful : Faithful N ev lex) {ts ts' : List Tree}
    (resolves : Slots.ResolvesAll slots ts ts' slots₁) (orderly : Tree.OrderlyAll N.known ts)
    (plain : ∀ t ∈ ts, t.isDeclaration = false) (sound : slots.Sound)
    (ready : Ready N w s slots.frames env) :
    (link N none).Sim (fun w' => List.Forall₂ (Values N w')) w (Eval.evalAll ev ts' s)
      (evalAll lex ts env) := by
  induction ts generalizing ts' slots w with
  | nil =>
    cases resolves
    exact .pure .nil
  | cons t ts ih =>
    cases resolves with
    | cons first rest =>
      have formed : t.Part (t.Orderly N.known) := ⟨plain t List.mem_cons_self, orderly.1⟩
      have level := first.level formed
      refine (sim_part faithful first formed sound ready).bind fun w₁ le₁ x y both => ?_
      refine (ih rest orderly.2 (fun u member => plain u (List.mem_cons_of_mem _ member))
        (level.sound sound) ((ready.mono le₁).level level)).bind fun w₂ le₂ xs ys others => ?_
      exact .pure (.cons (both.mono le₂.toSub) others)

theorem sim_runAll (faithful : Faithful N ev lex) {ts ts' : List Tree}
    (resolves : Slots.ResolvesAll slots ts ts' slots₁) (orderly : Tree.OrderlyAll N.known ts)
    (sound : slots.Sound) (room : Room w s slots₁.current) (ready : Ready N w s slots.frames env) :
    (link N (some s)).Sim (fun w' _ env' => Stands N w' s slots₁.frames env') w
      (Eval.runAll ev ts' s) (runAll lex ts env) := by
  induction ts generalizing ts' slots w env with
  | nil =>
    cases resolves
    exact .pure ready.toStands
  | cons t ts ih =>
    cases resolves with
    | cons first rest =>
      have room' := room.before (rest.grows orderly.2)
      refine (faithful.whole first orderly.1 sound room' ready).bind fun w₁ le₁ x r both => ?_
      exact ih rest orderly.2 ((first.grows orderly.1).sound sound) (room.mono le₁.toSub)
        (ready.next le₁ both.2)

theorem sure_define {name slot : Ident} {x y : Value} (stands : Stands N w s slots.frames env)
    (sound : slots.Sound) (declares : Slots.Declares slots name slot slots₁) (known : N.known name)
    (room : Room w s slots₁.current) (both : Values N w x y) :
    (link N (some s)).Sure (fun w' _ r => Stands N w' s slots₁.frames r.2) w
      (Eval.define s slot x) (declare N.same name env id fun _ _ => pure y) := by
  have h : (link N (some s)).Sure (fun w' a r => Values N w' a r.1 ∧ Stands N w' s slots₁.frames r.2) w
      (do let a ← pure x; Eval.define s slot (id a); return a)
      (declare N.same name env id fun _ _ => pure y) :=
    sure_declare stands sound declares known room (fun sub both => both.mono sub) id
      fun v declared env' _ sub _ => .pure (both.mono sub)
  rw [pure_bind] at h
  exact h.of_bind_pure.imp fun _ _ _ r both => both.2

theorem sim_bindParams {params params' : List Ident}
    (declared : Slots.DeclaresAll slots params params' slots₁) (known : ∀ p ∈ params, N.known p)
    (sound : slots.Sound) (room : Room w s slots₁.current) (stands : Stands N w s slots.frames env)
    {xs ys : List Value} (values : List.Forall₂ (Values N w) xs ys)
    (count : xs.length = params'.length) :
    (link N (some s)).Sim (fun w' _ env' => Stands N w' s slots₁.frames env') w
      (Eval.bindParams s params' xs) (bindParams N.same params ys env) := by
  induction declared generalizing w env xs ys with
  | nil =>
    cases values with
    | nil => exact .pure stands
    | cons _ _ => cases count
  | cons first rest ih =>
    cases values with
    | nil => cases count
    | cons both others =>
      have room' := room.before rest.grows
      refine (sure_define stands sound first (known _ List.mem_cons_self) room' both).sim.bind
        fun w₁ le₁ _ r stands₁ => ?_
      exact ih (fun p member => known p (List.mem_cons_of_mem _ member)) (first.grows.sound sound)
        (room.mono le₁.toSub) stands₁ (others.imp fun _ _ both => both.mono le₁.toSub)
        (Nat.succ.inj count)

theorem sim_callClosure (faithful : Faithful N ev lex) {f g : Closure} (same : Closures N w f g)
    (settled : ∀ u i, ¬ w.pending u i) {xs ys : List Value}
    (values : List.Forall₂ (Values N w) xs ys) (count : xs.length = f.params.length) :
    (link N none).Sim (Values N) w (Eval.callClosure ev f xs) (callClosure N.same lex g ys) := by
  obtain ⟨slots, slots₁, slots₂, env, sound, declared, resolved, captured, aligned⟩ := same.code
  have inner := resolved.grows same.orderly
  obtain ⟨site, known⟩ := aligned.known
  have called : (link N none).Sim (Values N) w (Eval.callClosure ev f xs) (do
      let env ← bindParams N.same g.params ys ([] :: env)
      Run.catchReturn do
        let _ ← runAll lex g.body env
        return .nil) := by
    refine sim_enclosed known slots₂.current.HasSlot fun v t opened => ?_
    obtain ⟨stands, room⟩ := stands_enter aligned sound (declared.grows.trans inner) opened
    have values : List.Forall₂ (Values N v) xs ys :=
      values.imp fun _ _ both => both.mono opened.le.toSub
    refine (sim_bindParams declared same.known sound.enter (room.before inner) stands values
      count).bind fun w₁ le₁ _ env' stands₁ => ?_
    have ready : Ready N w₁ t slots₁.frames env' := by
      refine ⟨stands₁, ?_⟩
      rw [le₁.pending, opened.le.pending]
      exact settled
    exact (sim_runAll faithful resolved same.orderly (declared.grows.sound sound.enter)
      (room.mono le₁.toSub) ready).thenNil.catchReturn
  intro m n states
  have here : n.captured.getD g.scope.toNat [] = env := by
    rw [states.captured] at captured
    simp [captured]
  have run : (callClosure N.same lex g ys).run n = (do
      let env ← bindParams N.same g.params ys ([] :: env)
      Run.catchReturn do
        let _ ← runAll lex g.body env
        return .nil : Work Value).run n := by
    unfold callClosure
    rw [run_bind, run_get]
    dsimp only
    rw [here]
  rw [run]
  exact called m n states

theorem sim_call (faithful : Faithful N ev lex) (settled : ∀ u i, ¬ w.pending u i) {c d : Value}
    (callee : Values N w c d) {xs ys : List Value} (values : List.Forall₂ (Values N w) xs ys) :
    (link N none).Sim (Values N) w (Eval.call ev c xs) (call N.same lex d ys) := by
  have alike : c.Alike d := Value.Related.alike callee fun _ _ both => both.alike
  have count := values.length_eq
  cases callee with
  | @function f g same =>
    obtain ⟨slots, slots₁, slots₂, env, -, declared, -⟩ := same.code
    simp only [Eval.call, call, ← count, ← declared.length_eq]
    refine ((sharing N none).sim_checkArity alike _ _).bind fun w₁ le₁ _ _ enough => ?_
    refine sim_callClosure faithful (same.mono le₁.toSub) ?_
      (values.imp fun _ _ both => both.mono le₁.toSub) enough
    rw [le₁.pending]
    exact settled
  | native f =>
    cases f
    simp only [Eval.call, call, ← count]
    refine ((sharing N none).sim_checkArity alike _ _).bind fun w₁ le₁ _ _ _ => ?_
    refine (sharing N none).sim_readClock.bind fun w₂ le₂ x y reading => ?_
    subst reading
    exact .pure (.number x)
  | classValue same alive =>
    simp only [Eval.call, call, ← count]
    refine ((sharing N none).sim_checkArity alike _ _).bind fun w₁ le₁ _ _ _ => ?_
    exact (sharing N none).sim_newInstance (same.mono fun _ _ both => both.mono le₁.toSub)
      (le₁.live alive)
  | _ => exact .fail ⟨.notCallable alike, rfl⟩

theorem sure_function {name slot : Ident} {params params' : List Ident} {body body' : List Tree}
    {slots₃ : Slots} (stands : Stands N w s slots.frames env) (sound : slots.Sound)
    (declares : Slots.Declares slots name slot slots₁)
    (declared : Slots.DeclaresAll slots₁.enter params params' slots₂)
    (resolved : Slots.ResolvesAll slots₂ body body' slots₃) (room : Room w s slots₁.current)
    (orderly : Tree.Orderly N.known (.function name params body)) :
    (link N (some s)).Sure (fun w' f r => (Closures N w' f r.1 ∧ f.name = slot.text?) ∧
        Stands N w' s slots₁.frames r.2) w
      (do let f ← Eval.close slot.text? params' body' s; Eval.define s slot (.function f); return f)
      (declare N.same name env .function fun declared => close (some declared.shown) params body) := by
  refine sure_declare (R := fun w' f g => Closures N w' f g ∧ f.name = slot.text?) stands sound declares
    orderly.1 room ?_ ?_ ?_
  · exact fun sub both => ⟨both.1.mono sub, both.2⟩
  · exact fun both => .function both.1
  · intro v named env' text sub aligned
    rw [text]
    exact sure_close aligned (declares.grows.sound sound) declared resolved orderly.2.1 orderly.2.2 _

theorem close_define_bind {α β : Type} (make : Run α) (bound : α → Run Unit) (next : α → Run β) :
    ((do let a ← make; bound a; return a) >>= next) = (do let a ← make; bound a; next a) := by
  simp only [bind_assoc, pure_bind]

theorem sure_makeMethods {ts ts' : List Tree} (resolves : Slots.ResolvesAll slots ts ts' slots₁)
    (orderly : Tree.OrderlyAll N.known ts) (functions : ∀ t ∈ ts, t.isFunction = true)
    (sound : slots.Sound) (room : Room w s slots₁.current) (stands : Stands N w s slots.frames env)
    {ms ms' : Bindings (Option String) Closure} (same : Bindings.Related (Closures N w) ms ms') :
    (link N (some s)).Sure (fun w' => Bindings.Related (Closures N w')) w
      (Eval.makeMethods s ts' ms) (makeMethods N.same ts env ms') := by
  induction ts generalizing ts' slots w env ms ms' with
  | nil =>
    cases resolves
    exact .pure same
  | cons t ts ih =>
    have one := functions t List.mem_cons_self
    cases t with
    | function name params body =>
      cases resolves with
      | cons first rest =>
        have grown := first.grows orderly.1
        have room' := room.before (rest.grows orderly.2)
        cases first with
        | @function _ slots₂ slots₃ slots₄ _ slot _ params' _ body' declares declared resolved =>
          have left := (declared.grows.trans (resolved.grows orderly.1.2.2)).leave
          simp only [Eval.makeMethods, makeMethods]
          rw [← close_define_bind]
          refine (sure_function stands sound declares declared resolved (room'.before left.grows)
            orderly.1).bind fun w₁ le₁ f r both => ?_
          obtain ⟨⟨both, named⟩, stands₁⟩ := both
          have same₁ : Bindings.Related (Closures N w₁) ms ms' :=
            same.mono fun _ _ both => both.mono le₁.toSub
          rw [← both.alike.2, named]
          rw [← left.frames] at stands₁
          exact ih rest orderly.2 (fun u member => functions u (List.mem_cons_of_mem _ member))
            (grown.sound sound) (room.mono le₁.toSub) stands₁ (same₁.put _ both)
    | _ => cases one

def makeClass (scope : ScopeId) (name : Ident) (methods : List Tree) : Run ClassValue := do
  let members ← Run.onScopes (Scopes.child scope)
  let methods ← Eval.makeMethods members methods []
  Run.onScopes (Scopes.release members)
  return ⟨← Run.freshTag, name.text?, methods⟩

theorem sure_class {name slot : Ident} {methods methods' : List Tree}
    (stands : Stands N w s slots.frames env) (sound : slots.Sound)
    (declares : Slots.Declares slots name slot slots₁)
    (resolved : Slots.ResolvesAll slots₁.enter methods methods' slots₂) (room : Room w s slots₁.current)
    (orderly : Tree.Orderly N.known (.classDef name methods)) :
    (link N (some s)).Sure (fun w' c r => Values N w' (.classValue c) (.classValue r.1) ∧
        Stands N w' s slots₁.frames r.2) w
      (do let c ← makeClass s slot methods'; Eval.define s slot (.classValue c); return c)
      (declare N.same name env .classValue fun declared env => do
        let methods ← makeMethods N.same methods ([] :: env) []
        return ⟨← lift Run.freshTag, some declared.shown, methods⟩) := by
  refine sure_declare (R := fun w' c d => Values N w' (.classValue c) (.classValue d)) stands sound
    declares orderly.1 room ?_ ?_ ?_
  · exact fun sub both => Values.mono both sub
  · exact id
  · intro v named env' text sub aligned
    obtain ⟨site, known⟩ := aligned.known
    have sound₁ := declares.grows.sound sound
    have members : (link N none).Sure (fun w' => Bindings.Related (Closures N w')) v
        (do
          let inner ← Run.onScopes (Scopes.child s)
          let ms ← Eval.makeMethods inner methods' []
          Run.onScopes (Scopes.release inner)
          return ms) (makeMethods N.same methods ([] :: env') []) := by
      refine sure_closing known slots₂.current.HasSlot fun v' t opened => ?_
      obtain ⟨stands', room'⟩ := stands_enter aligned sound₁ (resolved.grows orderly.2.1) opened
      exact sure_makeMethods resolved orderly.2.1 orderly.2.2 sound₁.enter room' stands' .nil
    have whole := members.bind (R := fun w' c d => Values N w' (.classValue c) (.classValue d))
      fun w₁ le₁ ms ms' same => ((sharing N none).sure_freshTag
        (fun i => .classValue ⟨i, slot.text?, ms⟩) fun _ => rfl).bind fun w₂ le₂ i j made => .pure
          (a := (⟨i, slot.text?, ms⟩ : ClassValue)) (b := (⟨j, some named.shown, ms'⟩ : ClassValue))
          (.classValue ⟨made.1, text, same.mono fun _ _ both => both.mono le₂.toSub⟩ made.2)
    simp only [bind_assoc, pure_bind] at whole
    exact whole

theorem sim_strict (op : BinaryOp) {x y : Run Value} {x' y' : Work Value}
    (left : (link N none).Sim (Values N) w x x')
    (right : ∀ w₁, w.Le none w₁ → (link N none).Sim (Values N) w₁ y y') :
    (link N none).Sim (Values N) w
      (do let l ← x; let r ← y; Eval.orFault (op.apply l r))
      (do let l ← x'; let r ← y'; lift (Eval.orFault (op.apply l r))) := by
  refine left.bind fun w₁ le₁ l l' both => ?_
  refine (right w₁ le₁).bind fun w₂ le₂ r r' both' => ?_
  have alike : l.Alike l' := Value.Related.alike both fun _ _ both => both.alike
  have alike' : r.Alike r' := Value.Related.alike both' fun _ _ both => both.alike
  exact (sharing N none).sim_orFault (op.apply_agree alike alike') (.operands op alike alike') rfl

theorem sim_plain (faithful : Faithful N ev lex) (rounds : Nat) {t t' : Tree}
    (resolves : Slots.Resolves slots t t' slots₁) (formed : t.Part (t.Orderly N.known))
    (sound : slots.Sound) (ready : Ready N w s slots.frames env) :
    (link N none).Sim (Values N) w (Eval.evalNode rounds ev t' s)
      (evalPlain N.same rounds lex t env) := by
  obtain ⟨plain, orderly⟩ := formed
  cases resolves with
  | literal => exact .pure (.ofLiteral _ _ _)
  | grouping first => exact sim_part faithful first orderly sound ready
  | reference found =>
    rw [Slots.find?_eq] at found
    obtain ⟨declared, l, located, sure⟩ := sure_read ready.aligned ready.settled orderly found
    simp only [Eval.evalNode, evalPlain, located]
    rw [← bind_pure (read l)]
    refine sure.sim.bind fun w₁ le₁ x y both => ?_
    obtain ⟨x, rfl, both⟩ := both
    exact .pure both
  | assign first found =>
    have level := first.level orderly.2
    rw [Slots.find?_eq, level.frames] at found
    refine (sim_part faithful first orderly.2 sound ready).bind fun w₁ le₁ x y both => ?_
    have ready₁ := ready.mono le₁
    obtain ⟨declared, l, located, sure⟩ :=
      sure_write ready₁.aligned ready₁.settled orderly.1 found both
    rw [located]
    refine sure.sim.bind fun w₂ le₂ old _ present => ?_
    obtain ⟨old, rfl⟩ := present
    exact .pure (both.mono le₂.toSub)
  | @binary _ slots₁ _ op lhs lhs' rhs rhs' first second =>
    have level := first.level orderly.1
    have left := sim_part faithful first orderly.1 sound ready
    have right : ∀ {w₁ : World}, w.Le none w₁ →
        (link N none).Sim (Values N) w₁ (ev rhs' s) (part lex rhs env) := fun le₁ =>
      sim_part faithful second orderly.2 (level.sound sound) ((ready.mono le₁).level level)
    cases op with
    | or =>
      refine left.bind fun w₁ le₁ x y both => ?_
      have alike : x.Alike y := Value.Related.alike both fun _ _ both => both.alike
      rw [alike.isTruthy]
      split
      · exact .pure both
      · exact right le₁
    | and =>
      refine left.bind fun w₁ le₁ x y both => ?_
      have alike : x.Alike y := Value.Related.alike both fun _ _ both => both.alike
      rw [alike.isTruthy]
      split
      · exact right le₁
      · exact .pure both
    | _ => exact sim_strict _ left fun w₁ le₁ => right le₁
  | unary first =>
    refine (sim_part faithful first orderly sound ready).bind fun w₁ le₁ x y both => ?_
    have alike : x.Alike y := Value.Related.alike both fun _ _ both => both.alike
    exact (sharing N none).sim_orFault (UnaryOp.apply_agree _ alike) (.operand _ alike) rfl
  | call first rest =>
    have level := first.level orderly.1
    refine (sim_part faithful first orderly.1 sound ready).bind fun w₁ le₁ c d callee => ?_
    refine (sim_evalAll faithful rest orderly.2.1 orderly.2.2 (level.sound sound)
      ((ready.mono le₁).level level)).bind fun w₂ le₂ xs ys values => ?_
    exact sim_call faithful (ready.mono (le₁.trans le₂)).settled (callee.mono le₂.toSub) values
  | lambda declared resolved =>
    refine (sure_close ready.aligned sound declared resolved orderly.1 orderly.2 none).sim.bind
      fun w₁ le₁ f g both => ?_
    exact .pure (.function both.1)
  | get first =>
    refine (sim_part faithful first orderly sound ready).bind fun w₁ le₁ o o' object => ?_
    exact (sharing N none).sim_getField object _
  | set first second =>
    have level := first.level orderly.1
    refine (sim_part faithful first orderly.1 sound ready).bind fun w₁ le₁ o o' object => ?_
    have alike : o.Alike o' := Value.Related.alike object fun _ _ both => both.alike
    cases object with
    | instanceOf =>
      refine (sim_part faithful second orderly.2 (level.sound sound)
        ((ready.mono le₁).level level)).bind fun w₂ le₂ x y both => ?_
      refine ((sharing N none).sim_setField _ _ both).bind fun w₃ le₃ _ _ _ => ?_
      exact .pure (both.mono le₃.toSub)
    | _ => exact .fail ⟨.notAnInstance _ alike, rfl⟩
  | expression first => exact (sim_part faithful first orderly sound ready).thenNil
  | print first =>
    refine (sim_part faithful first orderly sound ready).bind fun w₁ le₁ x y both => ?_
    have alike : x.Alike y := Value.Related.alike both fun _ _ both => both.alike
    rw [alike.display]
    exact ((sharing N none).sim_print _).thenNil
  | ret first =>
    exact (sim_part faithful first orderly sound ready).bind fun _ _ _ _ both => .returned both
  | ifThen first second =>
    have level := first.level orderly.1
    refine (sim_part faithful first orderly.1 sound ready).bind fun w₁ le₁ x y truth => ?_
    have alike : x.Alike y := Value.Related.alike truth fun _ _ both => both.alike
    rw [alike.isTruthy]
    split
    · exact (sim_part faithful second orderly.2 (level.sound sound)
        ((ready.mono le₁).level level)).thenNil
    · exact .pure .nil
  | ifElse first second third =>
    have level := first.level orderly.2.2
    have level' := level.trans (second.level orderly.1)
    refine (sim_part faithful second orderly.1 (level.sound sound) (ready.level level)).bind
      fun w₁ le₁ x y truth => ?_
    have alike : x.Alike y := Value.Related.alike truth fun _ _ both => both.alike
    rw [alike.isTruthy]
    split
    · exact (sim_part faithful third orderly.2.1 (level'.sound sound)
        ((ready.mono le₁).level level')).thenNil
    · exact (sim_part faithful first orderly.2.2 sound (ready.mono le₁)).thenNil
  | whileLoop first second =>
    have level := first.level orderly.1
    apply Link.Sim.thenNil
    apply Link.Sim.iterate
    · exact fun w' le => sim_part faithful first orderly.1 sound (ready.mono le)
    · exact fun w' le => sim_part faithful second orderly.2 (level.sound sound)
        ((ready.mono le).level level)
  | @block _ slots₁ body body' resolved =>
    obtain ⟨site, known⟩ := ready.aligned.known
    have enclosed : (link N none).Sim (fun _ _ _ => True) w
        (do let inner ← Run.onScopes (Scopes.child s); Run.releasing inner (Eval.runAll ev body' inner))
        (runAll lex body ([] :: env)) := by
      refine sim_enclosed known slots₁.current.HasSlot fun v t opened => ?_
      obtain ⟨stands, room⟩ := stands_enter ready.aligned sound (resolved.grows orderly) opened
      have ready' : Ready N v t slots.enter.frames ([] :: env) :=
        ⟨stands, (ready.mono opened.le).settled⟩
      exact (sim_runAll faithful resolved orderly sound.enter room ready').imp
        fun _ _ _ _ _ => trivial
    have whole := enclosed.thenNil
    simp only [bind_assoc] at whole
    exact whole
  | declare _ _ | function _ _ _ | classDef _ _ => cases plain

theorem evalNode_plain {t : Tree} (plain : t.isDeclaration = false) (rounds : Nat) :
    evalNode N.same rounds lex t env = do return (← evalPlain N.same rounds lex t env, env) := by
  cases t with
  | declare _ _ | function _ _ _ | classDef _ _ => cases plain
  | _ => rfl

theorem sim_evalNode_part (faithful : Faithful N ev lex) (rounds : Nat) {t t' : Tree}
    (resolves : Slots.Resolves slots t t' slots₁) (formed : t.Part (t.Orderly N.known))
    (sound : slots.Sound) (ready : Ready N w s slots.frames env) :
    (link N none).Sim (fun w' x r => Values N w' x r.1 ∧ r.2 = env) w (Eval.evalNode rounds ev t' s)
      (evalNode N.same rounds lex t env) := by
  rw [evalNode_plain formed.1, ← bind_pure (Eval.evalNode rounds ev t' s)]
  exact (sim_plain faithful rounds resolves formed sound ready).bind fun _ _ _ _ both =>
    .pure ⟨both, rfl⟩

theorem sim_evalNode_whole (faithful : Faithful N ev lex) (rounds : Nat) {t t' : Tree}
    (resolves : Slots.Resolves slots t t' slots₁) (orderly : t.Orderly N.known)
    (sound : slots.Sound) (room : Room w s slots₁.current) (ready : Ready N w s slots.frames env) :
    (link N (some s)).Sim (fun w' x r => Values N w' x r.1 ∧ Stands N w' s slots₁.frames r.2) w
      (Eval.evalNode rounds ev t' s) (evalNode N.same rounds lex t env) := by
  cases kind : t.isDeclaration with
  | false =>
    have formed : t.Part (t.Orderly N.known) := ⟨kind, orderly⟩
    have level := resolves.level formed
    refine loosen ((sim_evalNode_part faithful rounds resolves formed sound ready).imp ?_)
    rintro w' le x ⟨y, env'⟩ ⟨both, rfl⟩
    exact ⟨both, ((ready.mono le).level level).toStands⟩
  | true =>
    cases resolves with
    | @declare _ slots₂ _ name slot e e' first declares =>
      have level := first.level orderly.2
      -- The initializer keeps to the scopes there are, so the declarations still stand after it.
      have initial : (link N (some s)).Sim (fun w' x y => Values N w' x y ∧
          Stands N w' s slots₂.frames env ∧ Room w' s slots₁.current) w (ev e' s) (part lex e env) :=
        loosen ((sim_part faithful first orderly.2 sound ready).imp fun w' le _ _ both =>
          ⟨both, ((ready.mono le).level level).toStands, room.mono le.toSub⟩)
      refine initial.bind fun w₁ le₁ x y ⟨both, stands, room⟩ => ?_
      exact (sure_define stands (level.sound sound) declares orderly.1 room both).sim.bind
        fun _ _ _ _ stands => .pure ⟨.nil, stands⟩
    | @function _ slots₁ slots₂ slots₃ name slot params params' body body' declares declared resolved =>
      have left := (declared.grows.trans (resolved.grows orderly.2.2)).leave
      have made := sure_function ready.toStands sound declares declared resolved
        (room.before left.grows) orderly
      rw [← left.frames] at made
      have whole := made.sim.bind (f := fun _ => pure Value.nil) (g := fun r => pure (Value.nil, r.2))
        (R := fun w' x r => Values N w' x r.1 ∧ Stands N w' s slots₃.leave.frames r.2)
        fun _ _ _ _ both => .pure ⟨.nil, both.2⟩
      rw [close_define_bind] at whole
      exact whole
    | @classDef _ slots₁ slots₂ name slot methods methods' declares resolved =>
      have left := (resolved.grows orderly.2.1).leave
      have made := sure_class ready.toStands sound declares resolved (room.before left.grows) orderly
      rw [← left.frames] at made
      have whole := made.sim.bind (f := fun _ => pure Value.nil) (g := fun r => pure (Value.nil, r.2))
        (R := fun w' x r => Values N w' x r.1 ∧ Stands N w' s slots₂.leave.frames r.2)
        fun _ _ _ _ both => .pure ⟨.nil, both.2⟩
      rw [close_define_bind] at whole
      simp only [makeClass, bind_assoc, pure_bind] at whole
      exact whole
    | _ => cases kind

theorem faithful_eval (N : Naming) (rounds depth : Nat) :
    Faithful N (Lox.eval rounds depth) (eval N.same rounds depth) := by
  induction depth with
  | zero =>
    exact ⟨fun _ _ _ _ => .fail ⟨.stackOverflow, rfl⟩, fun _ _ _ _ _ => .fail ⟨.stackOverflow, rfl⟩⟩
  | succ depth ih => exact ⟨sim_evalNode_part ih rounds, sim_evalNode_whole ih rounds⟩

end Lox.Lexical
