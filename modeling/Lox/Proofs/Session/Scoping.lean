import Lox.Proofs.Lexical.Program
import Lox.Proofs.Session.Mirror

set_option autoImplicit false

namespace Lox

namespace Mirror

def Shadow (m c : Machine) : Prop := m = c ∨ ∃ w : World, w.States m c

variable {m c : Machine} {α β : Type}

theorem Shadow.printed (h : Shadow m c) : m.printed = c.printed := by
  rcases h with rfl | ⟨w, states⟩
  · rfl
  · exact states.agree.printed

theorem Shadow.reset (h : Shadow m c) : Shadow { m with printed := #[] } { c with printed := #[] } := by
  rcases h with rfl | ⟨w, agree, scopes⟩
  · exact .inl rfl
  · exact .inr ⟨w, agree.reset, scopes⟩

theorem shadow_install (slots : Slots) (clock : Nat → Float) {machine : Machine}
    (kind : machine = .onChain clock ∨ machine = .onArena clock) :
    Shadow (Session.install slots Native.all machine)
      (Session.install slots Native.all (.onChain clock)) := by
  rcases kind with rfl | rfl
  · exact .inl rfl
  · exact .inr (states_install slots Native.all (states_new clock))

def Mirrored {α : Type} (Q : World → α → α → Prop) (work : Run α) : Prop :=
  ∀ w : World, w.image root = some root → link.Sim Q w work work

theorem Shadow.run {Q : World → α → α → Prop} {work : Run α} (h : Shadow m c)
    (mirrored : Mirrored Q work) : Shadow (work.run m).2 (work.run c).2 := by
  rcases h with rfl | ⟨w, states⟩
  · exact .inl rfl
  · have ⟨_, a, c, _, _, holds⟩ := states
    obtain ⟨w', -, states', -⟩ := mirrored w holds.mirrors.top _ _ states
    exact .inr ⟨w', states'⟩

theorem Shadow.run_ok {Q : World → α → α → Prop} {work : Run α} (h : Shadow m c)
    (mirrored : Mirrored Q work) {a : α} {m' : Machine} (ran : work.run m = (.ok a, m')) :
    ∃ b c', work.run c = (.ok b, c') ∧ Shadow m' c' := by
  have later := h.run mirrored
  rcases h with rfl | ⟨w, states⟩
  · exact ⟨a, m', ran, .inl rfl⟩
  · have ⟨_, _, _, _, _, holds⟩ := states
    obtain ⟨w', -, -, outcome⟩ := mirrored w holds.mirrors.top _ _ states
    rw [ran] at later outcome
    generalize work.run c = right at later outcome ⊢
    obtain ⟨r, c'⟩ := right
    cases outcome with
    | ok both => exact ⟨_, c', rfl, later⟩

theorem Shadow.endAlike {Q : World → α → α → Prop} {S : α → β → Prop} {work : Run α}
    {r : Except Stop β} (h : Shadow m c) (mirrored : Mirrored Q work)
    (through : ∀ w a a' b, Q w a a' → S a' b → S a b) (ends : EndAlike S (work.run c).1 r) :
    EndAlike S (work.run m).1 r := by
  rcases h with rfl | ⟨w, states⟩
  · exact ends
  · have ⟨_, a, c, _, _, holds⟩ := states
    obtain ⟨w', -, -, outcome⟩ := mirrored w holds.mirrors.top _ _ states
    exact (outcome.endAlike id fun _ _ both => both).trans ends (through w')

theorem Shadow.bound {Q : World → α → α → Prop} {work : Run α} (h : Shadow m c)
    (mirrored : Mirrored Q work)
    (bound : ∀ f, (work.run c).1 = .error (.fault f) → f.isUnbound = false) (f : Fault)
    (failed : (work.run m).1 = .error (.fault f)) : f.isUnbound = false := by
  rcases h with rfl | ⟨w, states⟩
  · exact bound f failed
  · have ⟨_, a, c, _, _, holds⟩ := states
    obtain ⟨w', -, -, outcome⟩ := mirrored w holds.mirrors.top _ _ states
    rw [failed] at outcome
    obtain ⟨f', ended, alike⟩ := outcome.fault_left
    exact (Fault.Alike.isUnbound alike).trans (bound f' ended)

theorem mirrored_runAll (limits : Limits) (program : List Tree) :
    Mirrored (fun _ _ _ => True) (Eval.runAll (eval limits.rounds limits.depth) program root) :=
  fun _ here => sim_runAll (faithful_eval limits.rounds limits.depth) program here

theorem mirrored_interpret (limits : Limits) (program : List Tree) :
    Mirrored link.values (interpret limits program) :=
  fun _ here => sim_interpret limits program here

end Mirror

namespace Lexical

open Mirror (Shadow Mirrored)

structure RunAlike {α β : Type} (Q : α → β → Prop) (x : Except Stop α × Machine)
    (y : Except Stop β × State) : Prop where
  printed : x.2.printed = y.2.machine.printed
  ended : EndAlike Q x.1 y.1

theorem runAlike_of_sim {α β : Type} {N : Naming} {growing : Option Int} {w : World}
    {Q : World → α → β → Prop} {R : Mirror.World → α → α → Prop} {S : α → β → Prop} {work : Run α}
    {lexical : Work β} (sim : (link N growing).Sim Q w work lexical) (mirrored : Mirrored R work)
    (results : ∀ w a b, Q w a b → S a b) (through : ∀ w a a' b, R w a a' → S a' b → S a b)
    {m c : Machine} {n : State} (shadow : Shadow m c) (states : States N w c n) :
    RunAlike S (work.run m) (lexical.run n) := by
  obtain ⟨w', -, states', outcome⟩ := sim c n states
  refine ⟨(shadow.run mirrored).printed.trans states'.agree.printed, ?_⟩
  exact shadow.endAlike mirrored through (outcome.endAlike (fun both => both.1) (results w'))

def IsName (names : String → Prop) (i : Ident) : Prop := ∃ text span, i = .name text span ∧ names text

def Naming.ofNames {names : String → Prop}
    (distinct : ∀ a b, names a → names b → Digest.ofText a = Digest.ofText b → a = b) : Naming where
  same := Ident.same
  known := IsName names
  agree := by
    rintro _ _ ⟨a, _, rfl, known⟩ ⟨b, _, rfl, known'⟩
    constructor
    · intro same
      rw [Ident.key, Ident.key, beq_iff_eq.1 same]
    · intro same
      exact beq_iff_eq.2 (distinct a b known known' (Int.ofNat.inj same))

def Naming.byKey : Naming where
  same a b := a.key == b.key
  known _ := True
  agree _ _ := beq_iff_eq

end Lexical

/-- With `x` for the name: `{ var x = "outer"; (fun (x) { x(); })(fun () { print x; }); }`.
The function that is passed in prints what `x` was where it was made. -/
def Lexical.shadowing (text : String) : List Tree :=
  let x := Ident.name text none
  [.block [.declare x (.literal (.text "outer")),
    .expression (.call (.lambda [x] [.expression (.call (.reference x) [])])
      [.lambda [] [.print (.reference x)]])]]

theorem Lexical.shadowing_resolves (text : String) : ∃ resolved slots,
    (Slots.ofNames [text]).resolveProgram (shadowing text) = (.ok resolved, slots) := by
  rw [Slots.ofNames_one]
  simp only [shadowing, Slots.resolveProgram, Slots.resolve, Slots.statements, Tree.isStatement,
    Tree.isExpression, Slots.trees, Slots.tree, Slots.enclosed_run, Slots.declareAll, Slots.declare,
    Slots.use, Slots.keyOf, Ident.isResolved, run_bind, run_get, run_set, run_pure, Slots.enter,
    Slots.current, Slots.find?, StaticScope.find?, Slots.add, Slots.leave, Except.map,
    List.lookup_cons, List.lookup_nil, List.map, List.headD, List.findSome?, Bool.false_eq_true, if_false,
    if_true, Bool.not_false, beq_self_eq_true, List.nil_append, List.tail_cons, Option.or]
  exact ⟨_, _, rfl⟩

theorem Lexical.shadowing_orderly {known : Ident → Prop} {text : String}
    (here : known (.name text none)) : Tree.OrderlyAll known (shadowing text) := by
  simp [shadowing, Tree.OrderlyAll, Tree.Orderly, Tree.Part, Tree.isDeclaration, here]

/-- Slots implement lexical scoping. Take a program whose names, with those of the natives, have
different digests, and in which declarations stand only where statements follow each other. If it
resolves, it prints the same lines and ends in the same way whether it is run by slot or, as it was, by
name; and so it does when a `return` at top level gives the value of the whole. -/
theorem Lexical.runAll_byName {names : String → Prop}
    (distinct : ∀ a b, names a → names b → Digest.ofText a = Digest.ofText b → a = b)
    (natives : ∀ f : Native, names f.name) {program resolved : List Tree} {slots : Slots}
    (orderly : Tree.OrderlyAll (IsName names) program)
    (resolves : Session.nativeSlots.resolveProgram program = (.ok resolved, slots))
    (clock : Nat → Float) {machine : Machine}
    (kind : machine = .onChain clock ∨ machine = .onArena clock) (limits : Limits) :
    RunAlike (fun _ _ => True)
        ((Eval.runAll (Lox.eval limits.rounds limits.depth) resolved root).run
          (Session.install Session.nativeSlots Native.all machine))
        ((runAll (eval Ident.same limits.rounds limits.depth) program globals).run (start clock)) ∧
      RunAlike Value.Alike
        ((Lox.interpret limits resolved).run (Session.install Session.nativeSlots Native.all machine))
        ((interpret Ident.same limits program).run (start clock)) := by
  let N := Naming.ofNames distinct
  obtain ⟨sound, w, states, ready⟩ := between_start (N := N) ⟨_, _, rfl, natives .clock⟩ clock
  have shadow := Mirror.shadow_install Session.nativeSlots clock kind
  have sim := sim_program sound ready orderly resolves limits
  constructor
  · exact runAlike_of_sim sim (Mirror.mirrored_runAll limits resolved) (fun _ _ _ _ => trivial)
      (fun _ _ _ _ _ _ => trivial) shadow states
  · exact runAlike_of_sim sim.thenNil.catchReturn (Mirror.mirrored_interpret limits resolved)
      (fun _ _ _ both => Link.values.alike both)
      (fun _ _ _ _ both alike => (Link.values.alike both).trans alike) shadow states

theorem Lexical.runAll_byName_shadowing : ∃ resolved slots,
    Session.nativeSlots.resolveProgram (shadowing "clock") = (.ok resolved, slots) ∧
      RunAlike (fun _ _ => True)
        ((Eval.runAll (Lox.eval 10 10) resolved root).run
          (Session.install Session.nativeSlots Native.all (.onArena fun _ => 0)))
        ((runAll (eval Ident.same 10 10) (shadowing "clock") globals).run (start fun _ => 0)) := by
  obtain ⟨resolved, slots, resolves⟩ := shadowing_resolves "clock"
  have whole := @runAll_byName (· = "clock") (fun _ _ left right _ => left.trans right.symm)
    (fun .clock => rfl) _ resolved slots (shadowing_orderly ⟨"clock", none, rfl, rfl⟩) resolves
    (fun _ => 0) _ (.inr rfl) ⟨10, 10⟩
  exact ⟨resolved, slots, resolves, whole.1⟩

namespace Session

/-- The program resolves and runs to its end, without an error and without a `return` at top level. -/
def Completes (s : Session) (program : List Tree) : Prop :=
  ∃ resolved slots machine, s.slots.resolveProgram program = (.ok resolved, slots) ∧
    (Eval.runAll (eval s.limits.rounds s.limits.depth) resolved root).run
      { s.machine with printed := #[] } = (.ok (), machine)

def after (s : Session) : List (List Tree) → Session
  | [] => s
  | program :: rest => ((runProgram program).run s).2.after rest

def AllComplete : Session → List (List Tree) → Prop
  | _, [] => True
  | s, program :: rest => s.Completes program ∧ ((runProgram program).run s).2.AllComplete rest

theorem info_ok (words : List String) (s : Session) :
    ∃ report, (reporting (Report.info words)).run s = (.ok (), { s with report }) := by
  have ok : ((Report.info words).run s.report).1 = .ok () := by
    unfold Report.info
    rw [run_bind, run_get]
    dsimp only
    split
    · rfl
    · rfl
  exact ⟨((Report.info words).run s.report).2, Prod.ext ok rfl⟩

theorem tidy_chain {s : Session} {c : Chain Int Value} (here : s.machine.scopes = .chain c) (v : Value) :
    (tidy v).run s = (.ok (), s) := by
  unfold tidy
  rw [run_bind, run_get]
  dsimp only
  rw [here]
  rfl

theorem tidy_arena {s : Session} {a a' : Arena Int Value} (here : s.machine.scopes = .arena a) (v : Value)
    {shrunk : Bool}
    (tidied : (do let _ ← Arena.collect s.machine.heap [.value v]; Arena.compact).run a = (.ok shrunk, a')) :
    ∃ report, (tidy v).run s =
      (.ok (), { s with report, machine := { s.machine with scopes := .arena a' } }) := by
  obtain ⟨report, info⟩ := info_ok ["Arena: " ++ toString a.table.size ++ " entries, "
      ++ toString a.activeScopes.length ++ " active"] s
  refine ⟨report, ?_⟩
  unfold tidy
  rw [run_bind, run_get]
  dsimp only
  rw [here]
  dsimp only
  rw [run_bind, info]
  dsimp only
  rw [tidied]
  rfl

theorem resolve_ok {s : Session} {program resolved : List Tree} {slots : Slots}
    (resolves : s.slots.resolveProgram program = (.ok resolved, slots)) :
    ∃ report, (resolve program).run s = (.ok resolved, { s with report, slots }) := by
  obtain ⟨report, info⟩ := info_ok ["Resolved " ++ toString resolved.length ++ " statement(s)"]
    { s with slots }
  refine ⟨report, ?_⟩
  unfold resolve
  rw [run_bind, run_modifyGet]
  dsimp only
  rw [resolves]
  dsimp only
  rw [run_bind, info]
  rfl

theorem execute_ok {s : Session} {program : List Tree} {machine : Machine}
    (ran : (Eval.runAll (eval s.limits.rounds s.limits.depth) program root).run
      { s.machine with printed := #[] } = (.ok (), machine)) :
    ∃ report, (execute program).run s = (.ok .nil, { s with report, machine }) := by
  have ended : (interpret s.limits program).run { s.machine with printed := #[] } =
      (.ok .nil, machine) := by
    unfold interpret
    rw [catchReturn_run, run_bind, ran]
    rfl
  refine ⟨{ s.report with written := s.report.written ++ machine.printed.map Output.line }, ?_⟩
  unfold execute
  rw [run_bind, run_modifyGet]
  dsimp only
  rw [ended]
  rfl

theorem runProgram_ok {s : Session} {program resolved : List Tree} {slots : Slots}
    {machine : Machine} (resolves : s.slots.resolveProgram program = (.ok resolved, slots))
    (ran : (Eval.runAll (eval s.limits.rounds s.limits.depth) resolved root).run
      { s.machine with printed := #[] } = (.ok (), machine)) :
    ∃ report, (runProgram program).run s =
      (do tidy .nil; return .nil : Work Value).run ⟨report, slots, machine, s.limits⟩ := by
  obtain ⟨report, first⟩ := resolve_ok resolves
  obtain ⟨report', second⟩ := @execute_ok { s with report, slots } resolved machine ran
  refine ⟨report', ?_⟩
  unfold runProgram
  rw [run_bind, first]
  dsimp only
  rw [run_bind, second]

open Lexical Mirror in
def Settled (s : Session) : Prop :=
  ∃ c n env, Shadow s.machine c ∧ Between .byKey s.slots c n env

theorem settled_start (report : Report) (limits : Limits) (clock : Nat → Float) {machine : Machine}
    (kind : machine = .onChain clock ∨ machine = .onArena clock) :
    (start report machine limits).Settled := by
  have shadow := Mirror.shadow_install nativeSlots clock kind
  have between := @Lexical.between_start .byKey trivial clock
  unfold Settled start withNatives
  generalize nativeSlots = slots at shadow between ⊢
  exact ⟨_, _, _, shadow, between⟩

theorem tidy_shadow {s : Session} {c : Machine} {k : Chain Int Value} (shadow : Mirror.Shadow s.machine c)
    (chain : c.scopes = .chain k) :
    ∃ report machine, (tidy .nil).run s = (.ok (), { s with report, machine }) ∧
      Mirror.Shadow machine c := by
  rcases shadow with same | ⟨w, agree, a, k, left, right, holds⟩
  · exact ⟨s.report, s.machine, tidy_chain (same ▸ chain) .nil, .inl same⟩
  · obtain ⟨w', shrunk, a', tidied, agree', holds', -⟩ := Mirror.tidied agree holds .nil
    obtain ⟨report, run⟩ := tidy_arena left .nil tidied
    exact ⟨report, _, run, .inr ⟨w', agree'.scopes _ _, a', k, rfl, right, holds'⟩⟩

theorem Settled.runProgram {s : Session} (h : s.Settled) {program : List Tree}
    (orderly : Tree.OrderlyAll (fun _ => True) program) (completes : s.Completes program) :
    ((runProgram program).run s).2.Settled := by
  obtain ⟨c, n, env, shadow, between⟩ := h
  obtain ⟨resolved, slots, machine, resolves, ran⟩ := completes
  obtain ⟨report, run⟩ := runProgram_ok resolves ran
  obtain ⟨n, sound, w, states, ready⟩ := between.reset
  obtain ⟨⟨⟩, c', ran', shadow'⟩ := shadow.reset.run_ok (Mirror.mirrored_runAll s.limits resolved) ran
  obtain ⟨w', -, states', outcome⟩ :=
    Lexical.sim_program sound ready orderly resolves s.limits _ _ states
  rw [ran'] at states' outcome
  generalize (Lexical.runAll _ program env).run n = lexical at states' outcome
  obtain ⟨r, n'⟩ := lexical
  obtain ⟨k, chain, -⟩ := states'.scopes
  obtain ⟨report', machine', tidied, shadow''⟩ := @tidy_shadow ⟨report, slots, machine, s.limits⟩ _ _ shadow' chain
  have grown := (Slots.resolvesAll_of_resolveProgram resolves).grows orderly
  rw [run, run_bind, tidied]
  cases outcome with
  | ok ready' => exact ⟨c', n', _, shadow'', grown.sound sound, w', states', ready'⟩

theorem Settled.after {s : Session} (h : s.Settled) {programs : List (List Tree)}
    (orderly : ∀ p ∈ programs, Tree.OrderlyAll (fun _ => True) p) (complete : s.AllComplete programs) :
    (s.after programs).Settled := by
  induction programs generalizing s with
  | nil => exact h
  | cons program rest ih =>
    exact ih (h.runProgram (orderly program List.mem_cons_self) complete.1)
      (fun p member => orderly p (List.mem_cons_of_mem _ member)) complete.2

theorem Settled.bound {s : Session} (h : s.Settled) {program resolved : List Tree}
    (orderly : Tree.OrderlyAll (fun _ => True) program)
    (resolves : (s.slots.resolveProgram program).1 = .ok resolved) (limits : Limits) (f : Fault)
    (failed : ((interpret limits resolved).run { s.machine with printed := #[] }).1 =
      .error (.fault f)) : f.isUnbound = false := by
  obtain ⟨c, n, env, shadow, between⟩ := h
  obtain ⟨n, sound, w, states, ready⟩ := between.reset
  have sim := Lexical.sim_program sound ready orderly (Prod.ext resolves rfl) limits
  refine shadow.reset.bound (Mirror.mirrored_interpret limits resolved) ?_ f failed
  intro f failed
  obtain ⟨w', -, -, outcome⟩ := sim.thenNil.catchReturn _ _ states
  unfold interpret at failed
  rw [failed] at outcome
  obtain ⟨-, -, -, bound⟩ := outcome.fault_left
  exact bound

end Session

/-- Resolution is sound. When the programs before it have all come to their end, a program that
resolves never looks for a variable, be it to read or to assign it, that is not there. -/
theorem Session.interpret_resolved (report : Report) (limits : Limits) (clock : Nat → Float)
    {machine : Machine} (kind : machine = .onChain clock ∨ machine = .onArena clock)
    {earlier : List (List Tree)} {last resolved : List Tree}
    (orderly : ∀ p ∈ earlier, Tree.OrderlyAll (fun _ => True) p)
    (orderly' : Tree.OrderlyAll (fun _ => True) last)
    (complete : (start report machine limits).AllComplete earlier)
    (resolves : (((start report machine limits).after earlier).slots.resolveProgram last).1 = .ok resolved)
    (limits' : Limits) (name : Ident) :
    ((interpret limits' resolved).run
        { ((start report machine limits).after earlier).machine with printed := #[] }).1 ≠
      .error (.fault (.undefinedVariable name)) := by
  intro failed
  have settled := (settled_start report limits clock kind).after orderly complete
  cases settled.bound orderly' resolves limits' _ failed

theorem Session.redeclared (text : String) :
    (Slots.ofNames [text]).resolveProgram [.declare (.name text none) (.literal (.text "noon"))] =
      (.ok [.declare (.slot 0 (some text)) (.literal (.text "noon"))], Slots.ofNames [text]) := by
  rw [Slots.ofNames_one]
  simp only [Slots.resolveProgram, Slots.resolve, Slots.statements, Tree.isStatement,
    Tree.isExpression, Slots.trees, Slots.tree, Slots.declare, Slots.keyOf, Ident.isResolved, run_bind,
    run_get, run_pure, Slots.current, StaticScope.find?, Except.map, List.lookup_cons, List.map,
    List.headD, Bool.false_eq_true, if_false, if_true, Bool.not_false, beq_self_eq_true]

theorem Session.redeclared_completes (report : Report) (clock : Nat → Float) {slots : Slots}
    {program resolved : List Tree} (found : slots.globalSlot "clock" = .ok (.slot 0 (some "clock")))
    (resolves : slots.resolveProgram program = (.ok resolved, slots))
    (one : resolved = [.declare (.slot 0 (some "clock")) (.literal (.text "noon"))]) :
    let s : Session := ⟨report, slots, install slots Native.all (.onChain clock), ⟨10, 10⟩⟩
    s.AllComplete [program] ∧ (s.after [program]).slots = slots := by
  intro s
  subst one
  have ran : ∃ machine c, (Eval.runAll (eval 10 10) [.declare (.slot 0 (some "clock"))
      (.literal (.text "noon"))] root).run { s.machine with printed := #[] } = (.ok (), machine) ∧
      machine.scopes = .chain c := by
    simp only [s, Native.all, install, Native.name, found]
    exact ⟨_, _, rfl, rfl⟩
  obtain ⟨machine, c, ran, chain⟩ := ran
  obtain ⟨report', run⟩ := @runProgram_ok s _ _ slots machine resolves ran
  refine ⟨⟨⟨_, slots, machine, resolves, ran⟩, trivial⟩, ?_⟩
  unfold after after
  rw [run, run_bind, @tidy_chain ⟨report', slots, machine, s.limits⟩ c chain]
  rfl

theorem Session.interpret_resolved_redeclared : ∃ resolved,
    (start (.new false 20) (.onChain fun _ => 0) ⟨10, 10⟩).AllComplete
        [[.declare (.name "clock" none) (.literal (.text "noon"))]] ∧
      (((start (.new false 20) (.onChain fun _ => 0) ⟨10, 10⟩).after
        [[.declare (.name "clock" none) (.literal (.text "noon"))]]).slots.resolveProgram
          (Lexical.shadowing "clock")).1 = .ok resolved ∧
      ((interpret .standard resolved).run
        { ((start (.new false 20) (.onChain fun _ => 0) ⟨10, 10⟩).after
          [[.declare (.name "clock" none) (.literal (.text "noon"))]]).machine with printed := #[] }).1 ≠
        .error (.fault (.undefinedVariable (.name "clock" none))) := by
  have started : start (.new false 20) (.onChain fun _ => 0) ⟨10, 10⟩ = ⟨.new false 20,
    Slots.ofNames ["clock"], install (Slots.ofNames ["clock"]) Native.all (.onChain fun _ => 0),
    ⟨10, 10⟩⟩ := rfl
  obtain ⟨complete, same⟩ := redeclared_completes (.new false 20) (fun _ => 0)
    (Slots.globalSlot_ofNames "clock") (redeclared "clock") rfl
  rw [← started] at complete same
  obtain ⟨resolved, slots, resolves⟩ := Lexical.shadowing_resolves "clock"
  rw [← same] at resolves
  have orderly : ∀ p ∈ [[.declare (.name "clock" none) (.literal (.text "noon"))]],
      Tree.OrderlyAll (fun _ => True) p := by
    simp [Tree.OrderlyAll, Tree.Orderly, Tree.Part, Tree.isDeclaration]
  have last := congrArg Prod.fst resolves
  exact ⟨resolved, complete, last, interpret_resolved (.new false 20) ⟨10, 10⟩ (fun _ => 0) (.inl rfl)
    orderly (Lexical.shadowing_orderly trivial) complete last .standard (.name "clock" none)⟩

end Lox
