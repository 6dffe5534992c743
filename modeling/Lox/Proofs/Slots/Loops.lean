import Mathlib.Data.List.Permutation
import Lox.Proofs.Grammar.Formed
import Lox.Proofs.Slots.Places
import Lox.Token.Scan

set_option autoImplicit false

namespace Lox

namespace Slots

open Event (scopes Binds Nearest Undeclared Balanced)

/-- What a use of the key would be given if it stood at this place. -/
def Given (globals : StaticScope) (E out : List Event) (key : Int) (place : Nat) (slot : Ident) : Prop :=
  (∃ scope, Nearest E key place scope ∧
      ∀ earlier < place, Binds E key scope earlier → out[earlier]? = some (.declares slot)) ∨
    Undeclared E key place ∧ globals.find? key = some slot

variable {globals : StaticScope} {out : List Event} {F : List StaticScope} {key : Int}

theorem use_run {s : Slots} {name slot : Ident} (unresolved : name.isResolved = false)
    (found : s.find? name.key = some slot) : (use name).run s = (.ok slot, s) := by
  simp only [use, keyOf, unresolved, Bool.false_eq_true, if_false, run_bind, run_get, run_pure, found]

theorem getElem?_behind {α : Type} {xs ys : List α} {n : Nat} (length : xs.length = n) (i : Nat) :
    (xs ++ ys)[n + i]? = ys[i]? := by
  rw [← length, List.getElem?_append_right (Nat.le_add_right _ _), Nat.add_sub_cancel_left]

theorem Traces.given {A rest outA outR : List Event} {slot : Ident} (h : Traces false [globals] A outA F)
    (found : lookup F key = some slot) : Given globals (A ++ rest) (outA ++ outR) key A.length slot := by
  have run : Traces false [globals] ((A ++ rest).take A.length) outA F := by
    rwa [List.take_left]
  refine ((run.fits (by simp)).nearest found).imp_left ?_
  rintro ⟨scope, nearest, slots⟩
  refine ⟨scope, nearest, fun earlier lt binds => ?_⟩
  rw [List.getElem?_append_left (by rw [h.length_eq]; exact lt)]
  exact slots earlier lt binds

theorem Traces.ne_nil {lax : Bool} {E : List Event} {F₁ : List StaticScope} (h : Traces lax F E out F₁)
    (some : F ≠ []) : F₁ ≠ [] := by
  induction h with
  | nil => exact some
  | cons first _ ih =>
    apply ih
    cases first with
    | enter | leave | again | new => nofun
    | finds | misses => exact some

theorem Traces.shared {A C B I rest : List Event} {place : Nat} {name : Ident}
    (h : Traces false [globals] (A ++ (C ++ (.enter :: (B ++ (I ++ rest))))) out F)
    (still : Event.confined 0 C) (front : Balanced C) (first : Balanced B) (second : Balanced I)
    (here : I[place]? = some (.uses name)) (free : Undeclared I name.key place) :
    ∃ slot, out[A.length + (C.length + (1 + (B.length + place)))]? = some (.uses slot) ∧
      (∀ earlier, Binds B name.key 0 earlier →
        out[A.length + (C.length + (1 + earlier))]? = some (.declares slot)) ∧
      ((∀ earlier, ¬ Binds B name.key 0 earlier) →
        Given globals (A ++ (C ++ (.enter :: (B ++ (I ++ rest))))) out name.key A.length slot ∧
        ∀ (before : Nat) (other : Ident), C[before]? = some (.uses other) → other.key = name.key →
          Undeclared C name.key before → out[A.length + before]? = some (.uses slot)) := by
  obtain ⟨outA, _, H, rfl, overA, more⟩ := h.split
  obtain ⟨outC, _, H', rfl, overC, block⟩ := more.split
  obtain rfl := overC.still still
  obtain _ | ⟨⟨⟩, inner⟩ := block
  obtain ⟨outB, _, H', rfl, overB, last⟩ := inner.split
  obtain ⟨outI, outR, _, rfl, overI, _⟩ := last.split
  obtain ⟨f, rfl, declared, source⟩ := overB.own first
  obtain ⟨_, F', _, placed, before, meets⟩ := overI.at_place here
  have reached := Nat.le_of_lt (List.getElem?_eq_some_iff.1 here).1
  cases meets with
  | misses allowed => cases allowed
  | @finds _ _ slot found =>
    -- The shared scope comes first, and has what the first series declares; behind it is what stood open before.
    rw [before.free second reached free, lookup_cons] at found
    refine ⟨slot, ?_, fun earlier binds => ?_, fun none => ?_⟩
    · rw [getElem?_behind overA.length_eq, getElem?_behind overC.length_eq, Nat.add_comm 1, List.getElem?_cons_succ,
        getElem?_behind overB.length_eq, List.getElem?_append_left (List.getElem?_eq_some_iff.1 placed).1, placed]
    · obtain ⟨slot', declares, own⟩ := declared binds
      rw [own, Option.some_or] at found
      cases found
      rw [getElem?_behind overA.length_eq, getElem?_behind overC.length_eq, Nat.add_comm 1, List.getElem?_cons_succ,
        List.getElem?_append_left (List.getElem?_eq_some_iff.1 declares).1, declares]
    · have absent : f.find? name.key = .none := by
        rw [Option.eq_none_iff_forall_ne_some]
        intro slot own
        obtain ⟨earlier, binds⟩ := source own
        exact none earlier binds
      rw [absent, Option.none_or] at found
      refine ⟨overA.given found, fun before other there same unbound => ?_⟩
      rw [getElem?_behind overA.length_eq]
      obtain ⟨g, H, rfl⟩ := List.exists_cons_of_ne_nil (overA.ne_nil nofun)
      obtain ⟨_, F'', _, placed', until', meets⟩ := overC.at_place there
      cases meets with
      | misses allowed => cases allowed
      | finds found' =>
        have length := List.getElem?_eq_some_iff.1 there
        rw [same, until'.free front (Nat.le_of_lt length.1) unbound, found] at found'
        cases found'
        rw [List.getElem?_append_left (List.getElem?_eq_some_iff.1 placed').1, placed']

theorem traces_of_resolveProgram {s s' : Slots} {program resolved : List Tree} (top : s.depth = 1)
    (run : s.resolveProgram program = (.ok resolved, s')) :
    Traces false [s.globals] (Tree.eventsAll .walk program) (Tree.eventsAll .walk resolved) s'.frames := by
  unfold resolveProgram resolve at run
  split at run
  next => cases run
  next ts found =>
    cases statements_ok found
    have walked := Account.tells_walkAll tracing program s
    split at run
    next ended =>
      cases run
      rw [ended] at walked
      obtain ⟨_, rfl, traces, -⟩ := walked
      rwa [frames_top top] at traces
    next => cases run

end Slots

namespace Grammar

open Event (Binds Undeclared)
open Slots (Given)

def opening : Option Tree → List Event
  | none => []
  | some first => .enter :: first.events .walk

def closing : Option Tree → List Event
  | none => []
  | some _ => [.leave]

def tested (cond : Option Tree) : Tree := cond.getD (.literal (.bool true))

theorem events_forLoop (initial cond : Option Tree) (increment body : Tree) :
    (forLoop initial cond (some increment) body).events .walk =
      opening initial ++ ((tested cond).events .walk ++ (.enter :: (body.events .walk ++
        (increment.events .walk ++ .leave :: closing initial)))) := by
  cases initial <;> simp [forLoop, Tree.events, Tree.eventsAll, opening, closing, tested]

theorem wellFormed_condition {initial cond increment : Option Tree} {body : Tree}
    (formed : WellFormed (forLoop initial cond increment body)) :
    (tested cond).isExpression = true ∧ WellFormed (tested cond) := by
  cases initial with
  | none => exact formed.1
  | some first => exact formed.2.2.1.1

/-- In whatever program a `for` loop stands, a variable of its increment that the increment does not bind itself
gets the slot that it would get in the place of the condition, and that it does get where the condition mentions
it, unless the body declares the variable outside of any scope of its own; then it gets the slot of that
declaration, with which it shares a block. -/
theorem increment_slot {tokens : List Token} {program resolved : List Tree} {s s' : Slots}
    (parsed : parseProgram tokens = .ok program) (top : s.depth = 1)
    (run : s.resolveProgram program = (.ok resolved, s')) {initial cond : Option Tree} {increment body : Tree}
    {pre post : List Event} (stands : Tree.OccursIn (forLoop initial cond (some increment) body) program pre post)
    {place : Nat} {name : Ident} (here : (increment.events .walk)[place]? = some (.uses name))
    (free : Undeclared (increment.events .walk) name.key place) :
    let E := Tree.eventsAll .walk program
    let out := Tree.eventsAll .walk resolved
    let test := (tested cond).events .walk
    let inBody := body.events .walk
    let header := pre.length + (opening initial).length
    let start := header + test.length + 1
    ∃ slot, E[start + inBody.length + place]? = some (.uses name) ∧
      out[start + inBody.length + place]? = some (.uses slot) ∧
      ((∀ earlier, ¬ Binds inBody name.key 0 earlier) →
        Given s.globals E out name.key header slot ∧
        ∀ (before : Nat) (other : Ident), test[before]? = some (.uses other) → other.key = name.key →
          Undeclared test name.key before → out[header + before]? = some (.uses slot)) ∧
      (∀ earlier, Binds inBody name.key 0 earlier → out[start + earlier]? = some (.declares slot)) := by
  intro E out test inBody header start
  have traces := Slots.traces_of_resolveProgram top run
  have formed := wellFormed_condition (stands.wellFormed (wellFormed_of_program parsed))
  have still := (Tree.within_events (fun _ => true) (o := .walk) _ (.inr formed)).confined
  have split : E = (pre ++ opening initial) ++ (test ++ (.enter :: (inBody ++ (increment.events .walk ++
      (.leave :: closing initial ++ post))))) := by
    have whole : E = _ := stands.events_eq
    rw [whole, events_forLoop]
    simp [test, inBody]
  have traced : Slots.Traces false [s.globals] E out s'.frames := traces
  rw [split] at traced
  obtain ⟨slot, used, shared, apart⟩ := traced.shared still (Tree.balanced_events _) (Tree.balanced_events _)
    (Tree.balanced_events _) here free
  rw [← split, List.length_append] at apart
  rw [List.length_append] at used shared
  -- The place of the increment's use, counted part by part from the front of the program.
  have last : start + inBody.length + place = header + (test.length + (1 + (inBody.length + place))) := by
    simp only [start]
    omega
  refine ⟨slot, ?_, ?_, apart, fun earlier binds => ?_⟩
  · rw [last, split, Slots.getElem?_behind List.length_append, Slots.getElem?_behind rfl, Nat.add_comm 1,
      List.getElem?_cons_succ, Slots.getElem?_behind rfl,
      List.getElem?_append_left (List.getElem?_eq_some_iff.1 here).1, here]
  · rw [last]
    exact used
  · have declared := shared earlier binds
    rwa [← Nat.add_assoc test.length, ← Nat.add_assoc header] at declared

theorem resolve_forLoop {first second target source slot : Ident} {body body' : Tree} {h f : StaticScope} {n : Nat}
    (declared : (Slots.declare first).run ⟨[[]], [], 0⟩ = (.ok (.slot 0 (some "i")), ⟨[h], [], 1⟩))
    (mentioned : (Slots.use second).run ⟨[h], [], 1⟩ = (.ok (.slot 0 (some "i")), ⟨[h], [], 1⟩))
    (walked : (Slots.tree body).run ⟨[[], h], [], 1⟩ = (.ok body', ⟨[f, h], [], n⟩))
    (read : (Slots.use source).run ⟨[f, h], [], n⟩ = (.ok slot, ⟨[f, h], [], n⟩))
    (written : (Slots.use target).run ⟨[f, h], [], n⟩ = (.ok slot, ⟨[f, h], [], n⟩)) :
    Slots.empty.resolveProgram [forLoop (some (.declare first (.literal .nil))) (some (.reference second))
        (some (.assign target (.reference source))) body] =
      (.ok [forLoop (some (.declare (.slot 0 (some "i")) (.literal .nil))) (some (.reference (.slot 0 (some "i"))))
        (some (.assign slot (.reference slot))) body'], ⟨[], [], n⟩) := by
  rw [Slots.resolveProgram, Slots.resolve, Slots.statements_tree (List.forall_mem_singleton.2 rfl)]
  simp only [forLoop, Option.getD_some, Slots.trees, Slots.tree, run_bind, run_pure, Slots.enclosed_run, Slots.empty,
    Slots.enter, declared, mentioned, walked, read, written, Slots.leave, List.tail_cons]

def counting (body : Tree) : Tree :=
  forLoop (some (.declare (.name "i" (some ⟨9, 10⟩)) (.literal .nil))) (some (.reference (.name "i" (some ⟨12, 13⟩))))
    (some (.assign (.name "i" (some ⟨15, 16⟩)) (.reference (.name "i" (some ⟨19, 20⟩))))) body

def counter : StaticScope := [((Ident.name "i" none).key, .slot 0 (some "i"))]

theorem find?_counter (span : Option Span) : counter.find? (Ident.name "i" span).key = some (.slot 0 (some "i")) := by
  have shared : (Ident.name "i" span).key = (Ident.name "i" none).key := rfl
  rw [counter, shared]
  generalize (Ident.name "i" none).key = key
  simp [StaticScope.find?]

theorem use_counter {F : List StaticScope} {n : Nat} {slot : Ident} (span : Option Span)
    (found : (Slots.lookup F (Ident.name "i" none).key).or (some (.slot 0 (some "i"))) = some slot) :
    (Slots.use (.name "i" span)).run ⟨F ++ [counter], [], n⟩ = (.ok slot, ⟨F ++ [counter], [], n⟩) := by
  have shared : (Ident.name "i" span).key = (Ident.name "i" none).key := rfl
  have inner : (F ++ [counter]).findSome? (·.find? (Ident.name "i" span).key) = some slot := by
    rw [List.findSome?_append, List.findSome?_singleton, find?_counter, shared]
    exact found
  refine Slots.use_run rfl ?_
  rw [Slots.find?, inner, Option.some_or]

theorem resolve_counting {body body' : Tree} {f : StaticScope} {n : Nat} {slot : Ident}
    (walked : (Slots.tree body).run ⟨[[], counter], [], 1⟩ = (.ok body', ⟨[f, counter], [], n⟩))
    (found : (f.find? (Ident.name "i" none).key).or (some (.slot 0 (some "i"))) = some slot) :
    Slots.empty.resolveProgram [counting body] =
      (.ok [forLoop (some (.declare (.slot 0 (some "i")) (.literal .nil))) (some (.reference (.slot 0 (some "i"))))
        (some (.assign slot (.reference slot))) body'], ⟨[], [], n⟩) := by
  have again (span : Option Span) : (Slots.use (.name "i" span)).run ⟨[f, counter], [], n⟩ =
      (.ok slot, ⟨[f, counter], [], n⟩) := by
    refine use_counter (F := [f]) span ?_
    rw [Slots.lookup_cons, Slots.lookup, List.findSome?_nil, Option.or_none, found]
  exact resolve_forLoop (Slots.declare_run rfl rfl) (use_counter (F := []) _ rfl) walked (again _) (again _)

theorem read_of_toOption {text : String} {program : List Tree}
    (read : (scan text).toOption.map parseProgram = some (.ok program)) :
    ∃ tokens, scan text = .ok tokens ∧ parseProgram tokens = .ok program := by
  cases scanned : scan text with
  | error => simp [scanned, Except.toOption] at read
  | ok tokens => exact ⟨tokens, rfl, by simpa [scanned, Except.toOption] using read⟩

theorem print_run {name slot : Ident} {s s' : Slots} (used : (Slots.use name).run s = (.ok slot, s')) :
    (Slots.tree (.print (.reference name))).run s = (.ok (.print (.reference slot)), s') := by
  simp only [Slots.tree, run_bind, run_pure, used]

theorem increment_slot_print :
    ∃ tokens resolved s' slot, scan "for (var i; i; i = i) print i;" = .ok tokens ∧
      parseProgram tokens = .ok [counting (.print (.reference (.name "i" (some ⟨28, 29⟩))))] ∧
      Slots.empty.resolveProgram [counting (.print (.reference (.name "i" (some ⟨28, 29⟩))))] = (.ok resolved, s') ∧
      (Tree.eventsAll .walk resolved)[2]? = some (.uses slot) ∧
      (Tree.eventsAll .walk resolved)[5]? = some (.uses slot) := by
  have read : (scan "for (var i; i; i = i) print i;").toOption.map parseProgram =
      some (.ok [counting (.print (.reference (.name "i" (some ⟨28, 29⟩))))]) := by cbv
  obtain ⟨tokens, scanned, parsed⟩ := read_of_toOption read
  generalize bodied : Tree.print (.reference (.name "i" (some ⟨28, 29⟩))) = body at parsed ⊢
  have walked : (Slots.tree body).run ⟨[[], counter], [], 1⟩ =
      (.ok (.print (.reference (.slot 0 (some "i")))), ⟨[[], counter], [], 1⟩) := by
    have used : (Slots.use (.name "i" (some ⟨28, 29⟩))).run ⟨[[], counter], [], 1⟩ =
        (.ok (.slot 0 (some "i")), ⟨[[], counter], [], 1⟩) := use_counter (F := [[]]) _ rfl
    exact bodied ▸ print_run used
  have run := resolve_counting walked rfl
  have here : (Tree.events .walk (.assign (.name "i" (some ⟨15, 16⟩))
      (.reference (.name "i" (some ⟨19, 20⟩)))))[0]? = some (.uses (.name "i" (some ⟨19, 20⟩))) := rfl
  have free {E : List Event} : Undeclared E (Ident.name "i" (some ⟨19, 20⟩)).key 0 :=
    fun _ _ _ lt => absurd lt (Nat.not_lt_zero _)
  obtain ⟨slot, -, used, apart, -⟩ := increment_slot parsed rfl run (.mk [] [] .here) here free
  have alone : ∀ earlier, ¬ Binds (body.events .walk) (Ident.name "i" (some ⟨19, 20⟩)).key 0 earlier := by
    subst bodied
    rintro (_ | _) ⟨-, name, ⟨⟩, -⟩
  have mentioned := (apart alone).2 0 _ rfl rfl free
  subst bodied
  exact ⟨tokens, _, _, slot, scanned, parsed, run, mentioned, used⟩

theorem increment_slot_captured :
    ∃ tokens resolved s', scan "for (var i; i; i = i) var i;" = .ok tokens ∧
      parseProgram tokens = .ok [counting (.declare (.name "i" (some ⟨26, 27⟩)) (.literal .nil))] ∧
      Slots.empty.resolveProgram [counting (.declare (.name "i" (some ⟨26, 27⟩)) (.literal .nil))] =
        (.ok resolved, s') ∧
      resolved = [forLoop (some (.declare (.slot 0 (some "i")) (.literal .nil)))
        (some (.reference (.slot 0 (some "i")))) (some (.assign (.slot 1 (some "i")) (.reference (.slot 1 (some "i")))))
        (.declare (.slot 1 (some "i")) (.literal .nil))] ∧
      Given [] (Tree.eventsAll .walk [counting (.declare (.name "i" (some ⟨26, 27⟩)) (.literal .nil))])
        (Tree.eventsAll .walk resolved) (Ident.name "i" (some ⟨19, 20⟩)).key 2 (.slot 0 (some "i")) := by
  have read : (scan "for (var i; i; i = i) var i;").toOption.map parseProgram =
      some (.ok [counting (.declare (.name "i" (some ⟨26, 27⟩)) (.literal .nil))]) := by cbv
  obtain ⟨tokens, scanned, parsed⟩ := read_of_toOption read
  have walked : (Slots.tree (.declare (.name "i" (some ⟨26, 27⟩)) (.literal .nil))).run ⟨[[], counter], [], 1⟩ =
      (.ok (.declare (.slot 1 (some "i")) (.literal .nil)),
        ⟨[[((Ident.name "i" none).key, .slot 1 (some "i"))], counter], [], 2⟩) := by
    have declared : (Slots.declare (.name "i" (some ⟨26, 27⟩))).run ⟨[[], counter], [], 1⟩ = (.ok (.slot 1 (some "i")),
        ⟨[[((Ident.name "i" none).key, .slot 1 (some "i"))], counter], [], 2⟩) := Slots.declare_run rfl rfl
    simp only [Slots.tree, run_bind, run_pure, declared]
  have bound : StaticScope.find? [((Ident.name "i" none).key, .slot 1 (some "i"))] (Ident.name "i" none).key =
      some (.slot 1 (some "i")) := by
    generalize (Ident.name "i" none).key = key
    simp [StaticScope.find?]
  have run := resolve_counting walked (by rw [bound, Option.some_or])
  have header : Slots.Traces false [[]] [.enter, .declares (.name "i" (some ⟨9, 10⟩))]
      [.enter, .declares (.slot 0 (some "i"))] [counter, []] := .cons .enter (.cons (.new _ rfl) .nil)
  have found : Slots.lookup [counter, []] (Ident.name "i" (some ⟨19, 20⟩)).key = some (.slot 0 (some "i")) := by
    rw [Slots.lookup_cons, find?_counter, Option.some_or]
  exact ⟨tokens, _, _, scanned, parsed, run, rfl, header.given found⟩

end Grammar
end Lox
