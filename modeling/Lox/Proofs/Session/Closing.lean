import Lox.Proofs.Eval.Closing
import Lox.Proofs.Session.Scoping

set_option autoImplicit false

namespace Lox

def Machine.nodesOf : Value → List Node
  | .function f => [.scope f.scope]
  | .classValue c => c.methods.map fun m => .scope m.2.scope
  | .instanceOf c ref => .object ref :: c.methods.map fun m => .scope m.2.scope
  | _ => []

def Machine.holding (m : Machine) : Holding Value where
  ofValue := nodesOf
  ofObject ref := (m.instances.getD ref []).flatMap fun field => nodesOf field.2

namespace Mirror

variable {w : World} {m c : Machine} {a a' : Arena Int Value} {k : Chain Int Value} {v v' : Value}
  {n : Node}

def World.KnowsNode (w : World) : Node → Prop
  | .scope s => ∃ t, w.image s = some t
  | .object r => ∃ d, w.live (.instanceOf d r)

theorem World.Values.knows (both : w.Values v v') (held : n ∈ Machine.nodesOf v) : w.KnowsNode n := by
  have methods : ∀ {c d : ClassValue}, c.Related w.Closures d →
      n ∈ c.methods.map (fun m => Node.scope m.2.scope) → w.KnowsNode n := by
    intro c d same member
    obtain ⟨m, method, rfl⟩ := List.mem_map.1 member
    obtain ⟨g, both⟩ := same.methods.partner method
    exact ⟨_, both.image⟩
  cases both with
  | function same =>
    rw [List.mem_singleton.1 held]
    exact ⟨_, same.image⟩
  | classValue same _ => exact methods same held
  | instanceOf same _ alive =>
    rcases List.mem_cons.1 held with rfl | held
    · exact ⟨_, alive⟩
    · exact methods same held
  | _ => cases held

theorem World.Holds.knows (holds : w.Holds a k) (agree : m.Agree w.Closures w.live c)
    (both : w.Values v v') (reach : a.Reach m.holding [v] n) : w.KnowsNode n := by
  -- The world knows an active scope together with its parent and with all that its values hold on to.
  induction reach with
  | top => exact ⟨root, holds.mirrors.top⟩
  | value member held =>
    rw [List.mem_singleton.1 member] at held
    exact both.knows held
  | @held n n' _ held ih =>
    cases n with
    | scope s =>
      obtain ⟨t, here⟩ := ih
      obtain ⟨-, -, -, -, e, f, found, -, -, bindings⟩ := holds.mirrors.active here
      obtain ⟨e', found', ⟨p, above, rfl⟩ | ⟨b, member, held⟩⟩ := Arena.mem_held.1 held
      · exact (holds.mirrors.domain p).2 (holds.mirrors.sound.nonneg found' above).2.2
      · rw [found] at found'
        cases found'
        obtain ⟨y, both⟩ := bindings.partner member
        exact World.Values.knows both held
    | object r =>
      obtain ⟨d, alive⟩ := ih
      obtain ⟨b, member, held⟩ := List.mem_flatMap.1 held
      obtain ⟨y, both⟩ := (agree.fields d r alive).partner member
      exact World.Values.knows both held

def Captive.nodes : Captive → List Node
  | .frame s => [.scope s]
  | .value x => Machine.nodesOf x

theorem reach_captured {roots : List Value} {x : Value} {u : Captive}
    (reach : ∀ n ∈ Machine.nodesOf x, a.Reach m.holding roots n) (item : u ∈ m.captures x)
    (held : n ∈ Captive.nodes u) : a.Reach m.holding roots n := by
  cases x with
  | function f =>
    rw [List.mem_singleton.1 item] at held
    exact reach n held
  | classValue d =>
    obtain ⟨b, method, rfl⟩ := List.mem_map.1 item
    rw [List.mem_singleton.1 held]
    exact reach _ (List.mem_map.2 ⟨b, method, rfl⟩)
  | instanceOf d r =>
    rcases List.mem_cons.1 item with rfl | field
    · exact reach n (List.mem_cons_of_mem _ held)
    · obtain ⟨b, member, rfl⟩ := List.mem_map.1 field
      exact .held (reach _ List.mem_cons_self) (List.mem_flatMap.2 ⟨b, member, held⟩)
  | _ => cases item

theorem reach_of_reachable (shut : a.Shut)
    (kept : ∀ s, a.Reachable m.heap [.value v] (.inl s) → a'.cell? s = a.cell? s)
    {x : ScopeId ⊕ Captive} (reached : a.Reachable m.heap [.value v] x) :
    x.elim (fun s => a'.Reach m.holding [v] (.scope s))
      fun u => ∀ n ∈ Captive.nodes u, a'.Reach m.holding [v] n := by
  induction reached with
  | @opened s active still =>
    have top : s = root := by
      by_contra inner
      exact still (shut s (Arena.mem_activeScopes_iff.2 active) inner).1
    exact top ▸ .top
  | given root =>
    rw [List.mem_singleton.1 root]
    exact fun n held => .value List.mem_cons_self held
  | further holder leads ih =>
    cases leads with
    | bound found binds =>
      intro n held
      exact .held ih (Arena.mem_held.2 ⟨_, (kept _ holder).trans found, .inr ⟨_, binds, held⟩⟩)
    | parent found above _ =>
      exact .held ih (Arena.mem_held.2 ⟨_, (kept _ holder).trans found, .inl ⟨_, above, rfl⟩⟩)
    | @captured t u item =>
      obtain ⟨id, sees⟩ := Heap.object_of_captured item
      obtain ⟨x, i, rfl, -, -, -, same⟩ := Machine.sight_eq_object sees
      exact fun n held => reach_captured ih (same ▸ item) held
    | @framed t u s item frame _ =>
      obtain ⟨id, sees⟩ := Heap.object_of_captured item
      obtain ⟨x, i, rfl, -, -, -, same⟩ := Machine.sight_eq_object sees
      rw [Machine.eq_frame_of_sight frame] at item
      exact reach_captured ih (same ▸ item) List.mem_cons_self

end Mirror

namespace Closing

open Mirror (World)

structure AtRest (m : Machine) : Prop where
  shut : ∀ a, m.scopes = .arena a → a.Shut
  mirrored : ∃ (w : World) (c : Machine), w.States m c

structure Ended (v : Value) (m : Machine) : Prop where
  shut : ∀ a, m.scopes = .arena a → a.Shut
  mirrored : ∃ (w : World) (c : Machine) (v' : Value), w.States m c ∧ w.Values v v'

structure Collected (v : Value) (m : Machine) (a : Arena Int Value) : Prop where
  active : ∀ t, t ∈ a.activeScopes ↔ a.Reach m.holding [v] (.scope t)
  trim : a.Trim

variable {α β : Type} {P : Machine → Prop} {Q : α → Machine → Prop} {R : β → Machine → Prop}

def Settles (P : Machine → Prop) (work : Session.Work α) (Q : α → Machine → Prop) : Prop :=
  Ends (fun s => P s.machine) work (fun x s => Q x s.machine) fun _ s => AtRest s.machine

theorem Settles.pure {x : α} (h : ∀ m, P m → Q x m) : Settles P (pure x) Q :=
  Ends.pure fun _ before => h _ before

theorem Settles.throw (e : Trouble) : Settles AtRest (throw e) Q := Ends.throw fun _ before => before

theorem Settles.bind {x : Session.Work α} {f : α → Session.Work β} (first : Settles P x Q)
    (next : ∀ a, Settles (Q a) (f a) R) : Settles P (x >>= f) R :=
  Ends.bind first next

theorem settles_reporting (work : Report.Work α) :
    Settles AtRest (Session.reporting work) fun _ => AtRest := by
  intro s before
  rw [Session.reporting_run]
  generalize work.run s.report = outcome
  obtain ⟨_ | _, _⟩ := outcome <;> exact before

theorem settles_failIn (phase : Phase) (record : Report.Work Unit) :
    Settles AtRest (Session.failIn phase record) Q :=
  (settles_reporting record).bind fun _ => .throw _

theorem settles_parseText (text : String) (path : Option String) :
    Settles AtRest (Session.parseText text path) fun _ => AtRest :=
  Session.ends_parseText text path (fun _ _ _ _ before => before)
    fun phase record _ => settles_failIn phase record

theorem settles_resolve (program : List Tree) :
    Settles AtRest (Session.resolve program) fun _ => AtRest := by
  refine Settles.bind (Q := fun _ => AtRest) (fun s before => before) fun result => ?_
  cases result with
  | error e => exact settles_failIn _ _
  | ok resolved => exact (settles_reporting _).bind fun _ => .pure fun _ before => before

theorem After.shut {a : Arena Int Value} {m : Machine} (after : After a m) (before : a.Shut) :
    ∀ a', m.scopes = .arena a' → a'.Shut := by
  obtain ⟨a₁, here, sound, later⟩ := after
  intro a' same t active inner
  rw [here] at same
  cases same
  have done : t ∈ a₁.exited := by
    rcases later.closed (Arena.mem_activeScopes_iff.1 active) with old | new
    · exact later.exited t (before t (Arena.mem_activeScopes_iff.2 old) inner).1
    · exact new
  exact ⟨done, sound.exitedRetained t done⟩

structure Left (r : Except Stop Value) (m : Machine) : Prop where
  atRest : AtRest m
  value : ∀ v, r = .ok v ∨ r = .error (.returned v) → Ended v m

theorem AtRest.interpret {m : Machine} (rest : AtRest m) (limits : Limits) (program : List Tree) :
    Left ((interpret limits program).run { m with printed := #[] }).1
      ((interpret limits program).run { m with printed := #[] }).2 := by
  obtain ⟨w, c, agree, a, k, here, there, holds⟩ := rest.mirrored
  have sound := holds.mirrors.sound
  obtain ⟨b, top⟩ := sound.top
  have after := closes_interpret limits program { m with printed := #[] } a here sound
    (Arena.isActive_of_cell? top)
  obtain ⟨w', -, states, outcome⟩ := Mirror.sim_interpret limits program holds.mirrors.top
    { m with printed := #[] } { c with printed := #[] } ⟨agree.reset, a, k, here, there, holds⟩
  generalize (Lox.interpret limits program).run { m with printed := #[] } = left at *
  generalize (Lox.interpret limits program).run { c with printed := #[] } = right at *
  have shut := after.shut (rest.shut a here)
  refine ⟨⟨shut, w', right.2, states⟩, fun v result => ⟨shut, w', right.2, ?_⟩⟩
  rcases result with same | same <;> rw [same] at outcome <;> generalize right.1 = r at outcome
  · cases outcome with
    | ok both => exact ⟨_, states, both⟩
  · cases outcome with
    | returned both => exact ⟨_, states, both⟩

theorem settles_execute (program : List Tree) : Settles AtRest (Session.execute program) Ended := by
  refine Settles.bind (Q := Left) (fun s before => before.interpret s.limits program) fun result => ?_
  cases result with
  | ok v => exact .pure fun m left => left.value v (.inl rfl)
  | error stop =>
    cases stop with
    | returned v => exact .pure fun m left => left.value v (.inr rfl)
    | fault f => exact fun s left => settles_failIn _ _ s left.atRest
    | scope e => exact fun s left => left.atRest
    | endless => exact fun s left => left.atRest

def Tidied (v : Value) (m : Machine) : Prop :=
  AtRest m ∧ ∃ a, m.scopes = .arena a ∧ Collected v m a

theorem settles_tidy (v : Value) : Settles (Ended v) (Session.tidy v) fun _ => Tidied v := by
  rintro s ⟨shut, w, c, v', ⟨agree, a, k, here, there, holds⟩, both⟩
  obtain ⟨w', shrunk, a', run, agree', holds', both'⟩ := Mirror.tidied agree holds both
  obtain ⟨_, _, run', -, trim, seen, retained, exited⟩ :=
    holds.mirrors.sound.tidy_run s.machine.heap [.value v]
  rw [run] at run'
  cases run'
  have kept : ∀ t, a.Reachable s.machine.heap [.value v] (.inl t) → a'.cell? t = a.cell? t := by
    intro t reached
    rw [seen, if_pos ((Arena.mem_marked (Mirror.coherent agree holds both.known)).2 reached)]
  -- Collecting has given up what is not reached, and nothing that is.
  obtain ⟨report, ran⟩ := Session.tidy_arena here v run
  rw [ran]
  refine ⟨⟨?_, w', c, agree'.scopes _ _, a', k, rfl, there, holds'⟩, a', rfl, fun t => ⟨?_, ?_⟩, trim⟩
  · rintro _ ⟨⟩
    exact (shut a here).restrict seen retained exited
  · intro active
    have marked := ((Arena.mem_activeScopes_restrict seen).1 active).1
    exact Mirror.reach_of_reachable (shut a here) kept (Arena.reachable_of_marked marked)
  · intro reached
    exact Arena.mem_activeScopes.2 ((holds'.mirrors.domain t).1 (holds'.knows agree' both' reached))

theorem settles_runText (text : String) (path : Option String) :
    Settles AtRest (Session.runText text path) Tidied := by
  refine (settles_parseText text path).bind fun program => ?_
  refine (settles_resolve program).bind fun resolved => ?_
  refine (settles_execute resolved).bind fun v => ?_
  exact (settles_tidy v).bind fun _ => .pure fun _ tidied => tidied

theorem after_install (slots : Slots) (natives : List Native) {a : Arena Int Value} {m : Machine}
    (after : After a m) : After a (Session.install slots natives m) := by
  induction natives generalizing m with
  | nil => exact after
  | cons f rest ih =>
    unfold Session.install
    cases slots.globalSlot f.name with
    | error e => exact ih after
    | ok slot =>
      obtain ⟨a₁, here, sound, later⟩ := after
      obtain ⟨b, top⟩ := sound.top
      have filled := (completes_define slot (.native f)).closes m a₁ here sound
        (Arena.isActive_of_cell? top)
      exact ih (filled.trans later)

theorem atRest_start (report : Report) (clock : Nat → Float) (limits : Limits) :
    AtRest (Session.start report (.onArena clock) limits).machine := by
  unfold Session.start Session.withNatives
  generalize Session.nativeSlots = slots
  obtain ⟨w, states⟩ := Mirror.states_install slots Native.all (Mirror.states_new clock)
  have fresh : After .new (.onArena clock) := ⟨.new, rfl, Arena.sound_new, .refl _⟩
  have none : (Arena.new : Arena Int Value).Shut := by
    intro t active inner
    obtain ⟨e, found⟩ := Arena.mem_activeScopes.1 active
    exact absurd (Arena.eq_root_of_new found) inner
  exact ⟨(after_install slots Native.all fresh).shut none, w, _, states⟩

theorem AtRest.runText {s : Session} (rest : AtRest s.machine) (text : String) (path : Option String) :
    AtRest ((Session.runText text path).run s).2.machine := by
  have settled := settles_runText text path s rest
  generalize (Session.runText text path).run s = outcome at settled ⊢
  obtain ⟨_ | v, s'⟩ := outcome
  · exact settled
  · exact settled.1

end Closing

def Session.afterTexts : Session → List (String × Option String) → Session
  | s, [] => s
  | s, (text, path) :: rest => ((runText text path).run s).2.afterTexts rest

theorem Closing.AtRest.afterTexts {s : Session} (rest : AtRest s.machine)
    (texts : List (String × Option String)) : AtRest (s.afterTexts texts).machine := by
  induction texts generalizing s with
  | nil => exact rest
  | cons input others ih => exact ih (rest.runText input.1 input.2)

/-- After every text no scope but the root is left open, however the text ended; and if it came to its
end, the active scopes are the root and those that are reached from it and from the result, in a table
that is not much longer than they need. -/
theorem Session.scopes_balanced (report : Report) (clock : Nat → Float) (limits : Limits)
    (texts : List (String × Option String)) :
    (∃ a, ((Session.start report (.onArena clock) limits).afterTexts texts).machine.scopes = .arena a ∧
        a.Shut) ∧
      ∀ text path v s', (runText text path).run
          ((Session.start report (.onArena clock) limits).afterTexts texts) = (.ok v, s') →
        ∃ a, s'.machine.scopes = .arena a ∧ a.Shut ∧
          (∀ t, t ∈ a.activeScopes ↔ a.Reach s'.machine.holding [v] (.scope t)) ∧ a.Trim := by
  have rest := (Closing.atRest_start report clock limits).afterTexts texts
  generalize (Session.start report (.onArena clock) limits).afterTexts texts = s at rest
  constructor
  · obtain ⟨w, c, agree, a, k, here, there, holds⟩ := rest.mirrored
    exact ⟨a, here, rest.shut a here⟩
  · intro text path v s' run
    have settled := Closing.settles_runText text path s rest
    rw [run] at settled
    obtain ⟨atRest, a, here, collected⟩ := settled
    exact ⟨a, here, atRest.shut a here, collected.active, collected.trim⟩

def Session.activeAfter (s : Session) (text : String) : List ScopeId :=
  match (runText text none).run s with
  | (.ok _, s') =>
    match s'.machine.scopes with
    | .arena a => a.activeScopes
    | .chain _ => []
  | (.error _, _) => []

theorem Session.scopes_balanced_returned : ∃ v s' a,
    (runText "\x7breturn fun()\x7b\x7d;\x7d" none).run
        (Session.start (.new false 20) (.onArena fun _ => 0) ⟨5, 1⟩) = (.ok v, s') ∧
      s'.machine.scopes = .arena a ∧ a.activeScopes = [0, 1] ∧
      a.Reach s'.machine.holding [v] (.scope 1) := by
  have ran : (Session.start (.new false 20) (.onArena fun _ => 0) ⟨5, 1⟩).activeAfter
      "\x7breturn fun()\x7b\x7d;\x7d" = [0, 1] := by decide +kernel
  have balanced := (scopes_balanced (.new false 20) (fun _ => 0) ⟨5, 1⟩ []).2
    "\x7breturn fun()\x7b\x7d;\x7d" none
  unfold afterTexts at balanced
  unfold activeAfter at ran
  generalize (runText "\x7breturn fun()\x7b\x7d;\x7d" none).run
    (Session.start (.new false 20) (.onArena fun _ => 0) ⟨5, 1⟩) = outcome at balanced ran ⊢
  obtain ⟨_ | v, s'⟩ := outcome
  · cases ran
  · obtain ⟨a, here, -, active, -⟩ := balanced v s' rfl
    simp only [here] at ran
    refine ⟨v, s', a, rfl, here, ran, (active 1).1 ?_⟩
    rw [ran]
    decide

end Lox
