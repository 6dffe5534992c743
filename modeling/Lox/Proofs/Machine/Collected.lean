import Lox.Proofs.Machine.Mirror
import Lox.Proofs.Scope.Closing

set_option autoImplicit false

namespace Lox

namespace Machine

variable {m : Machine} {x y : Value}

def number (m : Machine) : Identity → Nat
  | .tag tag => tag
  | .place ref => m.nextTag + ref

theorem number_inj {i j : Identity} (has : m.Has i) (has' : m.Has j) (same : m.number i = m.number j) :
    i = j := by
  cases i with
  | tag tag =>
    cases j with
    | tag _ => exact congrArg Identity.tag same
    | place ref =>
      simp only [Has, number] at *
      omega
  | place ref =>
    cases j with
    | tag _ =>
      simp only [Has, number] at *
      omega
    | place _ => exact congrArg Identity.place (Nat.add_left_cancel same)

theorem sight_value {i : Identity} (identity : x.identity = some i) (has : m.Has i) :
    m.sight (.value x) = .object (m.number i) (m.captures x) := by
  cases i with
  | tag tag => simp only [sight, identity, number, if_pos (show tag < m.nextTag from has)]
  | place ref => simp only [sight, identity, number, if_pos (show ref < m.instances.size from has)]

theorem sight_eq_object {t : Captive} {id : Nat} {items : List Captive}
    (sees : m.sight t = .object id items) :
    ∃ x i, t = .value x ∧ x.identity = some i ∧ m.Has i ∧ id = m.number i ∧ items = m.captures x := by
  cases t with
  | frame s => cases sees
  | value x =>
    cases identity : x.identity with
    | none =>
      simp only [sight, identity] at sees
      cases sees
    | some i =>
      by_cases has : m.Has i
      · cases (sight_value identity has).symm.trans sees
        exact ⟨x, i, rfl, identity, has, rfl, rfl⟩
      · cases i with
        | tag tag =>
          simp only [sight, identity, if_neg (show ¬ tag < m.nextTag from has)] at sees
          cases sees
        | place ref =>
          simp only [sight, identity, if_neg (show ¬ ref < m.instances.size from has)] at sees
          cases sees

theorem eq_frame_of_sight {t : Captive} {s : ScopeId} (frame : m.sight t = .frame s) : t = .frame s := by
  cases t with
  | frame s' =>
    cases frame
    rfl
  | value x =>
    simp only [sight] at frame
    split at frame
    · split at frame <;> cases frame
    · split at frame <;> cases frame
    · cases frame

theorem captures_value (has : ∀ i, x.identity = some i → m.Has i) :
    m.heap.captures (.value x) = m.captures x := by
  cases identity : x.identity with
  | some i => exact Heap.captures_eq (sight_value identity (has i identity))
  | none =>
    unfold Heap.captures heap sight
    simp only [identity]
    cases x <;> first | rfl | cases identity

end Machine

namespace Mirror

variable {w : World} {m n : Machine} {a : Arena Int Value} {c : Chain Int Value} {roots : List Captive}
  {x y : Value}

theorem World.Values.live (both : w.Values x y) {i : Identity} (identity : x.identity = some i) :
    w.live x := by
  cases both with
  | function same => exact same.live
  | classValue _ known => exact known
  | instanceOf _ _ here => exact here
  | _ => cases identity

def World.Knows (w : World) : ScopeId ⊕ Captive → Prop
  | .inl s | .inr (.frame s) => ∃ t, w.image s = some t
  | .inr (.value x) => ∃ y, w.Values x y

theorem World.Values.known (both : w.Values x y) : ∀ t ∈ [Captive.value x], w.Knows (.inr t) := by
  intro t member
  rw [List.mem_singleton.1 member]
  exact ⟨y, both⟩

theorem World.Knows.captured (agree : m.Agree w.Closures w.live n) (both : w.Values x y) {u : Captive}
    (item : u ∈ m.captures x) : w.Knows (.inr u) := by
  cases both with
  | function same =>
    rw [List.mem_singleton.1 item]
    exact ⟨_, same.image⟩
  | classValue same _ =>
    obtain ⟨b, method, rfl⟩ := List.mem_map.1 item
    obtain ⟨g, both⟩ := same.methods.partner method
    exact ⟨_, .function both⟩
  | instanceOf same known here =>
    rcases List.mem_cons.1 item with rfl | field
    · exact ⟨_, .classValue same known⟩
    · obtain ⟨b, member, rfl⟩ := List.mem_map.1 field
      exact (agree.fields _ _ here).partner member
  | _ => cases item

theorem knows_of_reachable (agree : m.Agree w.Closures w.live n) (holds : w.Holds a c)
    (known : ∀ t ∈ roots, w.Knows (.inr t)) {z : ScopeId ⊕ Captive}
    (reached : a.Reachable m.heap roots z) : w.Knows z := by
  have active : ∀ {s : Int}, a.isActive s = true → w.Knows (.inl s) := fun active =>
    (holds.mirrors.domain _).2 (Arena.cell?_of_isActive active)
  induction reached with
  | opened here _ => exact active here
  | given root => exact known _ root
  | further _ leads ih =>
    cases leads with
    | bound found binds =>
      obtain ⟨t, here⟩ := ih
      obtain ⟨-, -, -, -, e, f, present, -, -, bindings⟩ := holds.mirrors.active here
      rw [found] at present
      cases present
      exact bindings.partner binds
    | parent _ _ here => exact active here
    | framed _ _ here => exact active here
    | @captured t u item =>
      cases t with
      | frame s => cases item
      | value x =>
        obtain ⟨y, both⟩ := ih
        rw [Machine.captures_value fun i same => agree.known x (both.live same) i same] at item
        exact .captured agree both item

theorem coherent (agree : m.Agree w.Closures w.live n) (holds : w.Holds a c)
    (known : ∀ t ∈ roots, w.Knows (.inr t)) : a.Coherent m.heap roots := by
  intro t u id items items' reached reached' sees sees'
  obtain ⟨x, i, rfl, identity, has, rfl, rfl⟩ := Machine.sight_eq_object sees
  obtain ⟨y, j, rfl, identity', has', same, rfl⟩ := Machine.sight_eq_object sees'
  obtain ⟨_, both⟩ := knows_of_reachable agree holds known reached
  obtain ⟨_, both'⟩ := knows_of_reachable agree holds known reached'
  cases Machine.number_inj has has' same
  rw [agree.single x y (both.live identity) (both'.live identity') i identity identity']

def World.restrict (w : World) (a : Arena Int Value) (m : Machine) (roots : List Captive) : World where
  image t := if t ∈ a.marked m.heap roots then w.image t else none
  kept t := w.kept t ∧ t ∈ a.marked m.heap roots
  live x := w.live x ∧ a.Reachable m.heap roots (.inr (.value x))

section Restrict

variable (agree : m.Agree w.Closures w.live n) (holds : w.Holds a c)
  (known : ∀ t ∈ roots, w.Knows (.inr t))

include agree in
theorem reachable_captured (alive : w.live x) (reached : a.Reachable m.heap roots (.inr (.value x)))
    {u : Captive} (item : u ∈ m.captures x) : a.Reachable m.heap roots (.inr u) := by
  rw [← Machine.captures_value (agree.known x alive)] at item
  exact reached.further (.captured item)

include agree holds known

theorem closures_restrict {f g : Closure} (same : w.Closures f g)
    (reached : a.Reachable m.heap roots (.inr (.value (.function f)))) :
    (w.restrict a m roots).Closures f g := by
  obtain ⟨e, found⟩ := (holds.mirrors.domain f.scope).1 ⟨_, same.image⟩
  have item : .frame f.scope ∈ m.heap.captures (.value (.function f)) := by
    rw [Machine.captures_value (agree.known _ same.live)]
    exact List.mem_cons_self
  have member : f.scope ∈ a.marked m.heap roots := by
    rw [Arena.mem_marked (coherent agree holds known)]
    exact reached.further (.framed item rfl (Arena.isActive_of_cell? found))
  exact ⟨same.alike, same.params, same.body, ⟨same.live, reached⟩, ⟨same.kept, member⟩,
    (if_pos member).trans same.image⟩

theorem class_restrict {d d' : ClassValue} (same : d.Related w.Closures d')
    (here : w.live (.classValue d)) (reached : a.Reachable m.heap roots (.inr (.value (.classValue d)))) :
    d.Related (w.restrict a m roots).Closures d' := by
  refine ⟨same.tag, same.name, same.methods.strengthen fun b method g both => ?_⟩
  refine closures_restrict agree holds known both ?_
  exact reachable_captured agree here reached (List.mem_map.2 ⟨b, method, rfl⟩)

theorem values_restrict (both : w.Values x y) (reached : a.Reachable m.heap roots (.inr (.value x))) :
    (w.restrict a m roots).Values x y := by
  cases both with
  | function same => exact .function (closures_restrict agree holds known same reached)
  | classValue same here =>
    exact .classValue (class_restrict agree holds known same here reached) ⟨here, reached⟩
  | instanceOf same here there =>
    have inside := reachable_captured agree there reached List.mem_cons_self
    exact .instanceOf (class_restrict agree holds known same here inside) ⟨here, inside⟩ ⟨there, reached⟩
  | _ => constructor

end Restrict

theorem tidied (agree : m.Agree w.Closures w.live n) (holds : w.Holds a c) (both : w.Values x y) :
    ∃ (w' : World) (shrunk : Bool) (a' : Arena Int Value),
      (do let _ ← Arena.collect m.heap [.value x]; Arena.compact).run a = (.ok shrunk, a') ∧
      m.Agree w'.Closures w'.live n ∧ w'.Holds a' c ∧ w'.Values x y := by
  have restricted := fun {x y : Value} => values_restrict (x := x) (y := y) agree holds both.known
  obtain ⟨shrunk, a', run, sound, -, seen, retained, -⟩ :=
    holds.mirrors.sound.tidy_run m.heap [.value x]
  have top : root ∈ a.marked m.heap [.value x] := by
    obtain ⟨b, found⟩ := holds.mirrors.sound.top
    exact Arena.marked_of_opened _ _ (Arena.isActive_of_cell? found) holds.mirrors.sound.rootOpen
  have mirrors : Mirrors (w.restrict a m [.value x]).image (w.restrict a m [.value x]).Values a' c := by
    refine holds.mirrors.restrict (· ∈ a.marked m.heap [.value x]) top sound seen ?_
    intro t e member found b bound y related
    exact restricted related ((Arena.reachable_of_marked member).further (.bound found bound))
  refine ⟨w.restrict a m [.value x], shrunk, a', run, ?_, ⟨mirrors, fun t => ?_⟩, ?_⟩
  · refine ⟨agree.size, fun y alive => agree.known y alive.1, fun y z alive alive' =>
      agree.single y z alive.1 alive'.1, fun d r alive => ?_, agree.nextTag, agree.printed, agree.clock,
      agree.readings⟩
    refine (agree.fields d r alive.1).strengthen fun b bound y related => restricted related ?_
    have item : .value b.2 ∈ m.captures (.instanceOf d r) :=
      List.mem_cons_of_mem _ (List.mem_map.2 ⟨b, bound, rfl⟩)
    exact reachable_captured agree alive.1 alive.2 item
  · rw [retained, ← holds.kept]
    exact .rfl
  · exact restricted both (.given List.mem_cons_self)

end Mirror
end Lox
