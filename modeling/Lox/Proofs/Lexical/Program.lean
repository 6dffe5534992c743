import Lox.Proofs.Lexical.Simulation
import Lox.Session

set_option autoImplicit false

namespace Lox.Lexical

def Between (N : Naming) (slots : Slots) (m : Machine) (n : State) (env : Env) : Prop :=
  slots.Sound ∧ ∃ w, States N w m n ∧ Ready N w root slots.frames env

variable {N : Naming} {slots slots' : Slots} {m : Machine} {n : State} {env : Env}

theorem States.room {w : World} (h : States N w m n) (f : StaticScope) : Room w root f := by
  obtain ⟨-, ⟨c, -, holds⟩, -⟩ := h
  obtain ⟨site, known, -, own⟩ := holds.top
  exact ⟨site, known, fun _ _ i _ _ => own i⟩

theorem sim_program {w : World} (sound : slots.Sound) (ready : Ready N w root slots.frames env)
    {program resolved : List Tree} (orderly : Tree.OrderlyAll N.known program)
    (resolves : slots.resolveProgram program = (.ok resolved, slots')) (limits : Limits) :
    (link N (some root)).Sim (fun w' _ env' => Ready N w' root slots'.frames env') w
      (Eval.runAll (Lox.eval limits.rounds limits.depth) resolved root)
      (runAll (eval N.same limits.rounds limits.depth) program env) := by
  intro m n states
  have walk := Slots.resolvesAll_of_resolveProgram resolves
  have run := sim_runAll (faithful_eval N limits.rounds limits.depth) walk orderly sound
    (states.room _) ready
  exact run.imp (fun _ le _ _ stands => ready.next le stands) m n states

theorem Between.reset (h : Between N slots m n env) :
    ∃ n', Between N slots { m with printed := #[] } n' env := by
  obtain ⟨sound, w, ⟨agree, scopes, captured⟩, ready⟩ := h
  exact ⟨{ n with machine := { n.machine with printed := #[] } }, sound, w,
    ⟨agree.reset, scopes, captured⟩, ready⟩

def World.blank : World where
  site s := if s = root then some ⟨none, fun _ => True⟩ else none
  place _ _ := none
  captured _ := none
  live _ := False
  pending _ _ := False

theorem holds_blank (N : Naming) : Holds N .blank .new #[] where
  top := ⟨⟨none, fun _ => True⟩, rfl, rfl, fun _ => trivial⟩
  sites {s site} known := by
    dsimp only [World.blank] at known
    split at known
    next same =>
      cases known
      subst same
      exact ⟨Int.le_refl _, ⟨none, []⟩, rfl, rfl⟩
    next => cases known
  older {s f p} _ frame parent := by
    have only : s.toNat = 0 := by
      have below := (Array.getElem?_eq_some_iff.1 frame).1
      exact Nat.lt_one_iff.1 below
    simp only [Chain.frame?, Chain.new, only] at frame
    cases frame
    cases parent
  bound {s site f i} known frame holds := by
    dsimp only [World.blank] at known
    split at known
    next same =>
      subst same
      cases frame
      cases holds
    next => cases known
  placed := nofun
  related := nofun
  inj := nofun

theorem states_blank (N : Naming) (clock : Nat → Float) :
    States N .blank (.onChain clock) ⟨.onChain clock, #[], #[]⟩ where
  agree := ⟨rfl, nofun, nofun, nofun, rfl, rfl, rfl, rfl⟩
  scopes := ⟨.new, rfl, holds_blank N⟩
  captured := by
    funext k
    simp [World.blank]

theorem stands_blank (N : Naming) : Stands N .blank root Slots.empty.frames [[]] :=
  ⟨.top rfl rfl .nil, nofun⟩

theorem between_install {slot : Ident} (declares : Slots.Declares .empty (.name "clock" none) slot slots)
    (found : slots.globalSlot "clock" = .ok slot) (known : N.known (.name "clock" none))
    (clock : Nat → Float) :
    Between N slots (Session.install slots Native.all (.onChain clock)) (start clock) globals := by
  have states := states_blank N clock
  have sound : Slots.empty.Sound := by
    simp [Slots.Sound, Slots.frames, Slots.empty]
  obtain ⟨w, _, r, m, n, left, right, le, states', stands⟩ := sure_define (stands_blank N) sound
    declares known (states.room _) (.native .clock) _ _ states
  cases (show _ = (Except.ok (Value.native .clock, globals), start clock) from rfl).symm.trans right
  simp only [Native.all, Session.install, Native.name, found, left]
  exact ⟨declares.grows.sound sound, w, states', stands, le.pending ▸ nofun⟩

theorem between_start (known : N.known (.name "clock" none)) (clock : Nat → Float) :
    Between N Session.nativeSlots (Session.install Session.nativeSlots Native.all (.onChain clock))
      (start clock) globals := by
  have declares : Slots.Declares .empty (.name "clock" none) _ (Slots.ofNames ["clock"]) :=
    Slots.declares_of_run (Slots.declare_run rfl rfl)
  exact between_install declares (Slots.globalSlot_ofNames "clock") known clock

end Lox.Lexical
