import Lox.Proofs.Slots.Growth

set_option autoImplicit false

namespace Lox

inductive Event where
  | enter
  | leave
  | declares (name : Ident)
  | uses (name : Ident)

/-- The parts of a conditional can be taken as they stand, or as the walk takes them. -/
inductive Order where
  | source
  | walk

def Order.arrange : Order → List Event → List Event → List Event → List Event
  | .source, cond, body, other => cond ++ (body ++ other)
  | .walk, cond, body, other => other ++ (cond ++ body)

namespace Tree

mutual

def events (o : Order) : Tree → List Event
  | assign target value => events o value ++ [.uses target]
  | binary _ lhs rhs => events o lhs ++ events o rhs
  | unary _ e => events o e
  | call callee arguments => events o callee ++ eventsAll o arguments
  | literal _ => []
  | grouping e => events o e
  | lambda params body => .enter :: (params.map .declares ++ eventsAll o body) ++ [.leave]
  | reference name => [.uses name]
  | get object _ => events o object
  | set object _ value => events o object ++ events o value
  | expression e => events o e
  | ifThen cond body => events o cond ++ events o body
  | ifElse cond body other => o.arrange (events o cond) (events o body) (events o other)
  | whileLoop cond body => events o cond ++ events o body
  | print e => events o e
  | declare name initial => events o initial ++ [.declares name]
  | function name params body =>
    .declares name :: (.enter :: (params.map .declares ++ eventsAll o body) ++ [.leave])
  | ret e => events o e
  | classDef name methods => .declares name :: (.enter :: eventsAll o methods ++ [.leave])
  | block body => .enter :: eventsAll o body ++ [.leave]

def eventsAll (o : Order) : List Tree → List Event
  | [] => []
  | t :: ts => events o t ++ eventsAll o ts

end

mutual

/-- Expressions stand where expressions belong, the members of a class are functions, and each branch
of a conditional that has two satisfies `apt`. -/
def WellFormed (apt : Tree → Bool) : Tree → Prop
  | assign _ value => value.isExpression ∧ WellFormed apt value
  | binary _ lhs rhs => (lhs.isExpression ∧ WellFormed apt lhs) ∧ rhs.isExpression ∧ WellFormed apt rhs
  | unary _ e => e.isExpression ∧ WellFormed apt e
  | call callee arguments => (callee.isExpression ∧ WellFormed apt callee) ∧
      (∀ a ∈ arguments, a.isExpression) ∧ WellFormedAll apt arguments
  | literal _ => True
  | grouping e => e.isExpression ∧ WellFormed apt e
  | lambda _ body => (∀ t ∈ body, t.isStatement) ∧ WellFormedAll apt body
  | reference _ => True
  | get object _ => object.isExpression ∧ WellFormed apt object
  | set object _ value =>
    (object.isExpression ∧ WellFormed apt object) ∧ value.isExpression ∧ WellFormed apt value
  | expression e => e.isExpression ∧ WellFormed apt e
  | ifThen cond body =>
    (cond.isExpression ∧ WellFormed apt cond) ∧ body.isStatement ∧ WellFormed apt body
  | ifElse cond body other => (cond.isExpression ∧ WellFormed apt cond) ∧
      (body.isStatement ∧ apt body ∧ WellFormed apt body) ∧
      other.isStatement ∧ apt other ∧ WellFormed apt other
  | whileLoop cond body =>
    (cond.isExpression ∧ WellFormed apt cond) ∧ body.isStatement ∧ WellFormed apt body
  | print e => e.isExpression ∧ WellFormed apt e
  | declare _ initial => initial.isExpression ∧ WellFormed apt initial
  | function _ _ body => (∀ t ∈ body, t.isStatement) ∧ WellFormedAll apt body
  | ret e => e.isExpression ∧ WellFormed apt e
  | classDef _ methods => (∀ m ∈ methods, m.isFunction) ∧ WellFormedAll apt methods
  | block body => (∀ t ∈ body, t.isStatement) ∧ WellFormedAll apt body

def WellFormedAll (apt : Tree → Bool) : List Tree → Prop
  | [] => True
  | t :: ts => WellFormed apt t ∧ WellFormedAll apt ts

end

end Tree

namespace Event

def confined (depth : Nat) : List Event → Bool
  | [] => depth == 0
  | .enter :: rest => confined (depth + 1) rest
  | .leave :: rest => depth != 0 && confined (depth - 1) rest
  | .declares _ :: rest => depth != 0 && confined depth rest
  | .uses _ :: rest => confined depth rest

def Within (depth : Nat) (E : List Event) : Prop :=
  ∀ rest, confined depth (E ++ rest) = confined depth rest

variable {depth : Nat} {E E' : List Event}

theorem Within.confined (h : Within 0 E) : Event.confined 0 E = true := by
  have alone := h []
  rwa [List.append_nil] at alone

theorem Within.append (h : Within depth E) (h' : Within depth E') : Within depth (E ++ E') := by
  intro rest
  rw [List.append_assoc, h, h']

theorem Within.scope (h : Within (depth + 1) E) : Within depth (.enter :: E ++ [.leave]) := by
  intro rest
  simp [Event.confined, h (.leave :: rest)]

theorem within_uses (name : Ident) : Within depth [.uses name] := fun _ => rfl

theorem within_declares (inside : 0 < depth) (name : Ident) : Within depth [.declares name] := by
  intro rest
  simp [Event.confined, Nat.ne_of_gt inside]

theorem within_declares_all (inside : 0 < depth) (names : List Ident) :
    Within depth (names.map .declares) := by
  induction names with
  | nil => exact fun _ => rfl
  | cons name names ih => exact (within_declares inside name).append ih

theorem Within.body (h : Within (depth + 1) E) (params : List Ident) :
    Within depth (.enter :: (params.map .declares ++ E) ++ [.leave]) :=
  ((within_declares_all (Nat.succ_pos depth) params).append h).scope

end Event

namespace Tree

open Event (Within)

variable (apt : Tree → Bool) {o : Order}

mutual

-- Expressions declare nothing in the scope that they stand in, and no tree leaves a scope open.
theorem within_events {depth : Nat} (t : Tree)
    (h : 0 < depth ∨ t.isExpression ∧ t.WellFormed apt) :
    Within depth (t.events o) := by
  cases t with
  | literal value => exact fun _ => rfl
  | reference name => exact Event.within_uses name
  | assign target value =>
    exact (within_events value (h.imp_right (·.2))).append (Event.within_uses target)
  | binary op lhs rhs =>
    exact (within_events lhs (h.imp_right (·.2.1))).append (within_events rhs (h.imp_right (·.2.2)))
  | unary op e => exact within_events e (h.imp_right (·.2))
  | call callee arguments =>
    exact (within_events callee (h.imp_right (·.2.1))).append
      (within_eventsAll arguments (h.imp_right (·.2.2)))
  | grouping e => exact within_events e (h.imp_right (·.2))
  | lambda params body => exact (within_eventsAll body (.inl (Nat.succ_pos depth))).body params
  | get object field => exact within_events object (h.imp_right (·.2))
  | set object field value =>
    exact (within_events object (h.imp_right (·.2.1))).append
      (within_events value (h.imp_right (·.2.2)))
  | expression e => exact within_events e (.inl (h.resolve_right nofun))
  | ifThen cond body =>
    have inside := h.resolve_right nofun
    exact (within_events cond (.inl inside)).append (within_events body (.inl inside))
  | ifElse cond body other =>
    have inside := h.resolve_right nofun
    have first := within_events cond (.inl inside)
    have second := within_events body (.inl inside)
    have third := within_events other (.inl inside)
    cases o with
    | source => exact first.append (second.append third)
    | walk => exact third.append (first.append second)
  | whileLoop cond body =>
    have inside := h.resolve_right nofun
    exact (within_events cond (.inl inside)).append (within_events body (.inl inside))
  | print e => exact within_events e (.inl (h.resolve_right nofun))
  | declare name initial =>
    have inside := h.resolve_right nofun
    exact (within_events initial (.inl inside)).append (Event.within_declares inside name)
  | function name params body =>
    have inside := h.resolve_right nofun
    have members := within_eventsAll body (.inl (Nat.succ_pos depth))
    exact (Event.within_declares inside name).append (members.body params)
  | ret e => exact within_events e (.inl (h.resolve_right nofun))
  | classDef name methods =>
    have inside := h.resolve_right nofun
    have members := within_eventsAll methods (.inl (Nat.succ_pos depth))
    exact (Event.within_declares inside name).append members.scope
  | block body => exact (within_eventsAll body (.inl (Nat.succ_pos depth))).scope

theorem within_eventsAll {depth : Nat} (ts : List Tree)
    (h : 0 < depth ∨ (∀ t ∈ ts, t.isExpression) ∧ WellFormedAll apt ts) :
    Within depth (eventsAll o ts) := by
  cases ts with
  | nil => exact fun _ => rfl
  | cons t ts =>
    refine (within_events t (h.imp_right ?_)).append (within_eventsAll ts (h.imp_right ?_))
    · exact fun formed => ⟨formed.1 t List.mem_cons_self, formed.2.1⟩
    · exact fun formed => ⟨fun u member => formed.1 u (List.mem_cons_of_mem _ member), formed.2.2⟩

end

end Tree

namespace Slots

theorem declare_failed {s s' : Slots} {name : Ident} {err : ResolveError}
    (run : (declare name).run s = (.error err, s')) : name.isResolved = true ∧ s' = s := by
  by_cases resolved : name.isResolved = true
  · simp only [declare, keyOf, resolved, if_true, run_bind, run_throw] at run
    cases run
    exact ⟨resolved, rfl⟩
  · simp only [declare, keyOf, resolved, Bool.false_eq_true, if_false, run_bind, run_get, run_pure] at run
    split at run <;> cases run

theorem use_failed {s s' : Slots} {name : Ident} {err : ResolveError}
    (run : (use name).run s = (.error err, s')) :
    s' = s ∧ (name.isResolved = true ∨ err = .undefined name ∧ s.find? name.key = none) := by
  by_cases resolved : name.isResolved = true
  · simp only [use, keyOf, resolved, if_true, run_bind, run_throw] at run
    cases run
    exact ⟨rfl, .inl resolved⟩
  · simp only [use, keyOf, resolved, Bool.false_eq_true, if_false, run_bind, run_get, run_pure] at run
    split at run <;> cases run
    next absent => exact ⟨rfl, .inr ⟨rfl, absent⟩⟩

/-- What is said of a walk by the events that it meets: of one that gets through them, with their
slots, and of one that fails at some point. -/
structure Account where
  done : Slots → List Event → List Event → Slots → Prop
  failed : Slots → List Event → ResolveError → Slots → Prop
  nil : ∀ s, done s [] [] s
  trans : ∀ {s s₁ s₂ E out E' out'},
    done s E out s₁ → done s₁ E' out' s₂ → done s (E ++ E') (out ++ out') s₂
  stop : ∀ {s s₁ E err} E', failed s E err s₁ → failed s (E ++ E') err s₁
  later : ∀ {s s₁ s₂ E out E' err},
    done s E out s₁ → failed s₁ E' err s₂ → failed s (E ++ E') err s₂
  scope : ∀ {s s₁ E out}, done s.enter E out s₁ →
    done s (.enter :: E ++ [.leave]) (.enter :: out ++ [.leave]) s₁.leave
  inside : ∀ {s s₁ E err}, failed s.enter E err s₁ → failed s (.enter :: E ++ [.leave]) err s₁.leave
  declare_ok : ∀ {s s₁ name slot}, (declare name).run s = (.ok slot, s₁) →
    done s [.declares name] [.declares slot] s₁
  declare_error : ∀ {s s₁ name err}, (declare name).run s = (.error err, s₁) →
    failed s [.declares name] err s₁
  use_ok : ∀ {s s₁ name slot}, (use name).run s = (.ok slot, s₁) → done s [.uses name] [.uses slot] s₁
  use_error : ∀ {s s₁ name err}, (use name).run s = (.error err, s₁) → failed s [.uses name] err s₁

namespace Account

variable {α β : Type} {A : Account} {o : Order}

def Tells (A : Account) (walk : Walk α) (E : List Event) (Q : α → List Event → Prop) : Prop :=
  ∀ s, match walk.run s with
    | (.ok a, s') => ∃ out, Q a out ∧ A.done s E out s'
    | (.error err, s') => A.failed s E err s'

def TellsTree (A : Account) (o : Order) (t : Tree) : Prop :=
  A.Tells (tree t) (t.events o) fun t' out => out = t'.events o

variable {E E' : List Event} {Q : α → List Event → Prop} {R : β → List Event → Prop}

theorem Tells.pure {a : α} (h : Q a []) : A.Tells (pure a) [] Q :=
  fun s => ⟨[], h, A.nil s⟩

theorem Tells.bind {x : Walk α} {f : α → Walk β} (first : A.Tells x E Q)
    (next : ∀ a out, Q a out → A.Tells (f a) E' fun b out' => R b (out ++ out')) :
    A.Tells (x >>= f) (E ++ E') R := by
  intro s
  have head := first s
  rw [run_bind]
  generalize x.run s = outcome at head ⊢
  obtain ⟨err | a, s₁⟩ := outcome
  · exact A.stop E' head
  obtain ⟨out, holds, done⟩ := head
  have rest := next a out holds s₁
  dsimp only
  generalize (f a).run s₁ = outcome at rest ⊢
  obtain ⟨err | b, s₂⟩ := outcome
  · exact A.later done rest
  · obtain ⟨out', holds', done'⟩ := rest
    exact ⟨out ++ out', holds', A.trans done done'⟩

theorem Tells.thenPure {x : Walk α} {f : α → β} (first : A.Tells x E Q)
    (next : ∀ a out, Q a out → R (f a) out) : A.Tells (do return f (← x)) E R := by
  have whole := first.bind fun a out holds => .pure (a := f a) (by simpa using next a out holds)
  rwa [List.append_nil] at whole

theorem Tells.enclosed {x : Walk α} (inner : A.Tells x E Q) :
    A.Tells (Slots.enclosed x) (.enter :: E ++ [.leave])
      fun a out => ∃ mid, Q a mid ∧ out = .enter :: mid ++ [.leave] := by
  intro s
  have body := inner s.enter
  rw [enclosed_run]
  generalize x.run s.enter = outcome at body ⊢
  obtain ⟨err | a, s₁⟩ := outcome
  · exact A.inside body
  · obtain ⟨mid, holds, done⟩ := body
    exact ⟨_, ⟨mid, holds, rfl⟩, A.scope done⟩

theorem tells_declare (name : Ident) :
    A.Tells (declare name) [.declares name] fun slot out => out = [.declares slot] := by
  intro s
  rcases run : (declare name).run s with ⟨err | slot, s₁⟩
  · exact A.declare_error run
  · exact ⟨_, rfl, A.declare_ok run⟩

theorem tells_use (name : Ident) :
    A.Tells (use name) [.uses name] fun slot out => out = [.uses slot] := by
  intro s
  rcases run : (use name).run s with ⟨err | slot, s₁⟩
  · exact A.use_error run
  · exact ⟨_, rfl, A.use_ok run⟩

theorem tells_declareAll (names : List Ident) :
    A.Tells (declareAll names) (names.map .declares) fun slots out => out = slots.map .declares := by
  induction names with
  | nil => exact .pure rfl
  | cons name rest ih =>
    refine (tells_declare name).bind (E := [.declares name]) fun slot out first => ?_
    refine ih.thenPure fun slots out' others => ?_
    rw [first, others]
    rfl

theorem tells_body {params : List Ident} {body : List Tree}
    (walked : A.Tells (trees body) (Tree.eventsAll o body) fun body' out => out = Tree.eventsAll o body') :
    A.Tells (do return (← declareAll params, ← trees body))
      (params.map .declares ++ Tree.eventsAll o body)
      fun parts out => out = parts.1.map .declares ++ Tree.eventsAll o parts.2 := by
  refine (tells_declareAll params).bind fun params' out declared => ?_
  refine walked.thenPure fun body' out' same => ?_
  rw [declared, same]

theorem tells_ifElse {cond body other : Tree} (first : A.TellsTree .walk other)
    (second : A.TellsTree .walk cond) (third : A.TellsTree .walk body) :
    A.TellsTree .walk (.ifElse cond body other) := by
  refine first.bind fun other' out same => ?_
  refine second.bind fun cond' out' same' => ?_
  refine third.thenPure fun body' out'' same'' => ?_
  rw [same, same', same'']
  rfl

def Swaps (A : Account) (apt : Tree → Bool) : Prop :=
  ∀ {cond body other : Tree}, (Tree.ifElse cond body other).WellFormed apt → A.TellsTree .source other →
    A.TellsTree .source cond → A.TellsTree .source body → A.TellsTree .source (.ifElse cond body other)

variable {apt : Tree → Bool}

mutual

theorem tells_tree (swaps : o = .source → A.Swaps apt) (t : Tree)
    (suited : o = .walk ∨ t.WellFormed apt) : A.TellsTree o t := by
  cases t with
  | literal value => exact .pure rfl
  | reference name => exact (tells_use name).thenPure fun _ _ same => same
  | assign target value =>
    refine (tells_tree swaps value (suited.imp_right And.right)).bind fun value' out same => ?_
    refine (tells_use target).thenPure fun slot out' same' => ?_
    rw [same, same']
    rfl
  | binary op lhs rhs =>
    refine (tells_tree swaps lhs (suited.imp_right (·.1.2))).bind fun lhs' out same => ?_
    refine (tells_tree swaps rhs (suited.imp_right (·.2.2))).thenPure fun rhs' out' same' => ?_
    rw [same, same']
    rfl
  | unary op e => exact (tells_tree swaps e (suited.imp_right And.right)).thenPure fun _ _ same => same
  | call callee arguments =>
    refine (tells_tree swaps callee (suited.imp_right (·.1.2))).bind fun callee' out same => ?_
    refine (tells_trees swaps arguments (suited.imp_right (·.2.2))).thenPure ?_
    intro arguments' out' same'
    rw [same, same']
    rfl
  | grouping e => exact (tells_tree swaps e (suited.imp_right And.right)).thenPure fun _ _ same => same
  | lambda params body =>
    refine (tells_body (tells_trees swaps body (suited.imp_right And.right))).enclosed.thenPure ?_
    rintro ⟨params', body'⟩ _ ⟨mid, rfl, rfl⟩
    rfl
  | get object field =>
    exact (tells_tree swaps object (suited.imp_right And.right)).thenPure fun _ _ same => same
  | set object field value =>
    refine (tells_tree swaps object (suited.imp_right (·.1.2))).bind fun object' out same => ?_
    refine (tells_tree swaps value (suited.imp_right (·.2.2))).thenPure fun value' out' same' => ?_
    rw [same, same']
    rfl
  | expression e => exact (tells_tree swaps e (suited.imp_right And.right)).thenPure fun _ _ same => same
  | ifThen cond body =>
    refine (tells_tree swaps cond (suited.imp_right (·.1.2))).bind fun cond' out same => ?_
    refine (tells_tree swaps body (suited.imp_right (·.2.2))).thenPure fun body' out' same' => ?_
    rw [same, same']
    rfl
  | ifElse cond body other =>
    have first := tells_tree swaps other (suited.imp_right (·.2.2.2.2))
    have second := tells_tree swaps cond (suited.imp_right (·.1.2))
    have third := tells_tree swaps body (suited.imp_right (·.2.1.2.2))
    -- The one place where the order of the walk is not that of the source.
    cases o with
    | walk => exact tells_ifElse first second third
    | source => exact swaps rfl (suited.resolve_left nofun) first second third
  | whileLoop cond body =>
    refine (tells_tree swaps cond (suited.imp_right (·.1.2))).bind fun cond' out same => ?_
    refine (tells_tree swaps body (suited.imp_right (·.2.2))).thenPure fun body' out' same' => ?_
    rw [same, same']
    rfl
  | print e => exact (tells_tree swaps e (suited.imp_right And.right)).thenPure fun _ _ same => same
  | declare name initial =>
    refine (tells_tree swaps initial (suited.imp_right And.right)).bind fun initial' out same => ?_
    refine (tells_declare name).thenPure fun slot out' same' => ?_
    rw [same, same']
    rfl
  | function name params body =>
    refine (tells_declare name).bind (E := [.declares name]) fun slot out named => ?_
    refine (tells_body (tells_trees swaps body (suited.imp_right And.right))).enclosed.thenPure ?_
    rintro ⟨params', body'⟩ _ ⟨mid, rfl, rfl⟩
    rw [named]
    rfl
  | ret e => exact (tells_tree swaps e (suited.imp_right And.right)).thenPure fun _ _ same => same
  | classDef name methods =>
    refine (tells_declare name).bind (E := [.declares name]) fun slot out named => ?_
    refine (tells_trees swaps methods (suited.imp_right And.right)).enclosed.thenPure ?_
    rintro methods' _ ⟨mid, rfl, rfl⟩
    rw [named]
    rfl
  | block body =>
    refine (tells_trees swaps body (suited.imp_right And.right)).enclosed.thenPure ?_
    rintro body' _ ⟨mid, rfl, rfl⟩
    rfl

theorem tells_trees (swaps : o = .source → A.Swaps apt) (ts : List Tree)
    (suited : o = .walk ∨ Tree.WellFormedAll apt ts) :
    A.Tells (trees ts) (Tree.eventsAll o ts) fun ts' out => out = Tree.eventsAll o ts' := by
  cases ts with
  | nil => exact .pure rfl
  | cons t ts =>
    refine (tells_tree swaps t (suited.imp_right And.left)).bind fun t' out same => ?_
    refine (tells_trees swaps ts (suited.imp_right And.right)).thenPure fun ts' out' same' => ?_
    rw [same, same']
    rfl

end

-- In the order of the walk nothing is asked of the trees.
theorem tells_walk (A : Account) (t : Tree) : A.TellsTree .walk t :=
  @tells_tree A .walk (fun _ => true) nofun t (.inl rfl)

theorem tells_walkAll (A : Account) (ts : List Tree) :
    A.Tells (trees ts) (Tree.eventsAll .walk ts) fun ts' out => out = Tree.eventsAll .walk ts' :=
  @tells_trees A .walk (fun _ => true) nofun ts (.inl rfl)

end Account

end Slots
end Lox
