import Mathlib.Data.Option.Basic
import Lox.Proofs.Run.Lockstep
import Lox.Proofs.Tree.Renamed
import Lox.Scope

set_option autoImplicit false

namespace Lox

section Paired

variable {α β : Type}

structure Paired (E : α → β → Prop) (xs : Array α) (ys : Array β) : Prop where
  size : xs.size = ys.size
  entry : ∀ i : Nat, Option.Rel E xs[i]? ys[i]?

variable {E E' : α → β → Prop} {xs : Array α} {ys : Array β}

theorem Option.Rel.imp {x : Option α} {y : Option β} (h : Option.Rel E x y)
    (sub : ∀ a b, E a b → E' a b) : Option.Rel E' x y := by
  cases h with
  | some both => exact .some (sub _ _ both)
  | none => exact .none

namespace Paired

theorem empty : Paired E #[] #[] := ⟨rfl, fun _ => .none⟩

theorem imp (h : Paired E xs ys) (sub : ∀ a b, E a b → E' a b) : Paired E' xs ys :=
  ⟨h.size, fun i => Option.Rel.imp (h.entry i) sub⟩

theorem push (h : Paired E xs ys) {a : α} {b : β} (both : E a b) :
    Paired E (xs.push a) (ys.push b) := by
  refine ⟨by simp [h.size], fun i => ?_⟩
  rw [Array.getElem?_push, Array.getElem?_push, h.size]
  split
  · exact .some both
  · exact h.entry i

theorem modify (h : Paired E xs ys) (i : Nat) {f : α → α} {g : β → β}
    (both : ∀ a b, E a b → E (f a) (g b)) : Paired E (xs.modify i f) (ys.modify i g) := by
  refine ⟨by simp [h.size], fun j => ?_⟩
  rw [Array.getElem?_modify, Array.getElem?_modify]
  have entry := h.entry j
  split
  · generalize xs[j]? = a at entry ⊢
    generalize ys[j]? = b at entry ⊢
    cases entry with
    | some same => exact .some (both _ _ same)
    | none => exact .none
  · exact entry

theorem take (h : Paired E xs ys) (n : Nat) : Paired E (xs.take n) (ys.take n) := by
  refine ⟨by simp [h.size], fun i => ?_⟩
  simp only [Array.take_eq_extract, Array.getElem?_extract, Nat.zero_add, h.size]
  split
  · exact h.entry i
  · exact .none

end Paired
end Paired

namespace Bindings

variable {μ ν : Type}

def Renamed (R : Renaming) (V : μ → ν → Prop) : Bindings Int μ → Bindings Int ν → Prop :=
  List.Forall₂ fun p q => R.pairs p.1 q.1 ∧ V p.2 q.2

variable {R R' : Renaming} {V V' : μ → ν → Prop} {b : Bindings Int μ} {c : Bindings Int ν}

theorem Renamed.mono (h : Renamed R V b c) (le : R ≤ R') (values : ∀ x y, V x y → V' x y) :
    Renamed R' V' b c :=
  List.Forall₂.imp (fun _ _ both => ⟨le _ _ both.1, values _ _ both.2⟩) h

variable {k k' : Int}

theorem Renamed.get? (h : Renamed R V b c) (same : R.pairs k k') :
    Option.Rel V (b.get? k) (c.get? k') := by
  induction h with
  | nil => exact .none
  | @cons p q b c both _ ih =>
    simp only [Bindings.get?, R.unique both.1 same]
    split
    · exact .some both.2
    · exact ih

theorem Renamed.put (h : Renamed R V b c) (same : R.pairs k k') {x : μ} {y : ν} (value : V x y) :
    Renamed R V (b.put k x) (c.put k' y) := by
  induction h with
  | nil => exact .cons ⟨same, value⟩ .nil
  | @cons p q b c both rest ih =>
    simp only [Bindings.put, R.unique both.1 same]
    split
    · exact .cons ⟨same, value⟩ rest
    · exact .cons both ih

theorem Renamed.holds (h : Renamed R V b c) (same : R.pairs k k') : b.holds k = c.holds k' := by
  have found := h.get? same
  unfold Bindings.holds
  generalize b.get? k = x at found ⊢
  generalize c.get? k' = y at found ⊢
  cases found <;> rfl

end Bindings

section Scopes

variable {ν : Type} {R R' : Renaming} {V V' : ν → ν → Prop} {k k' : Int} {scope : ScopeId} {x y : ν}

namespace Chain

structure Entry.Renamed (R : Renaming) (V : ν → ν → Prop) (e e' : Entry Int ν) : Prop where
  parent : e.parent = e'.parent
  bindings : Bindings.Renamed R V e.bindings e'.bindings

def Renamed (R : Renaming) (V : ν → ν → Prop) (c d : Chain Int ν) : Prop :=
  Paired (Entry.Renamed R V) c.table d.table

variable {c d : Chain Int ν}

theorem Renamed.mono (h : Renamed R V c d) (le : R ≤ R') (values : ∀ x y, V x y → V' x y) :
    Renamed R' V' c d :=
  Paired.imp h fun _ _ both => ⟨both.parent, both.bindings.mono le values⟩

theorem Renamed.child (h : Renamed R V c d) (parent : ScopeId) :
    (c.child parent).1 = (d.child parent).1 ∧ Renamed R V (c.child parent).2 (d.child parent).2 :=
  ⟨congrArg Nat.cast (Paired.size h), Paired.push h ⟨rfl, .nil⟩⟩

theorem Renamed.bindingsOf (h : Renamed R V c d) (scope : ScopeId) :
    Bindings.Renamed R V (c.bindingsOf scope) (d.bindingsOf scope) := by
  have entry := Paired.entry h scope.toNat
  unfold Chain.bindingsOf Chain.frame?
  generalize c.table[scope.toNat]? = a at entry ⊢
  generalize d.table[scope.toNat]? = b at entry ⊢
  cases entry with
  | some both => exact both.bindings
  | none => exact .nil

theorem Renamed.findIn (h : Renamed R V c d) (same : R.pairs k k') (steps : Nat) (scope : ScopeId) :
    c.findIn k steps scope = d.findIn k' steps scope := by
  induction steps generalizing scope with
  | zero => rfl
  | succ steps ih =>
    have entry := Paired.entry h scope.toNat
    unfold Chain.findIn Chain.frame?
    generalize c.table[scope.toNat]? = a at entry ⊢
    generalize d.table[scope.toNat]? = b at entry ⊢
    cases entry with
    | none => rfl
    | some both =>
      dsimp only
      rw [both.bindings.holds same, both.parent, funext ih]

theorem Renamed.define (h : Renamed R V c d) (same : R.pairs k k') (scope : ScopeId) (value : V x y) :
    Option.Rel V (c.define scope k x).1 (d.define scope k' y).1 ∧
      Renamed R V (c.define scope k x).2 (d.define scope k' y).2 := by
  refine ⟨(h.bindingsOf scope).get? same, ?_⟩
  unfold Renamed Chain.define Chain.bind
  dsimp only
  refine Paired.modify h scope.toNat ?_
  exact fun e e' both => ⟨both.parent, both.bindings.put same value⟩

theorem Renamed.get? (h : Renamed R V c d) (same : R.pairs k k') (scope : ScopeId) :
    Option.Rel V (c.get? scope k) (d.get? scope k') := by
  unfold Chain.get? Chain.find?
  rw [h.findIn same]
  cases d.findIn k' (scope.toNat + 1) scope with
  | none => exact .none
  | some s => exact (h.bindingsOf s).get? same

theorem Renamed.assign (h : Renamed R V c d) (same : R.pairs k k') (scope : ScopeId) (value : V x y) :
    Option.Rel V (c.assign scope k x).1 (d.assign scope k' y).1 ∧
      Renamed R V (c.assign scope k x).2 (d.assign scope k' y).2 := by
  unfold Chain.assign Chain.find?
  rw [h.findIn same]
  cases d.findIn k' (scope.toNat + 1) scope with
  | none => exact ⟨.none, h⟩
  | some s => exact h.define same s value

end Chain

section Heaps

variable {τ : Type} {T : τ → τ → Prop}

inductive Sight.Same (T : τ → τ → Prop) : Sight τ → Sight τ → Prop
  | plain : Same T .plain .plain
  | frame (scope : ScopeId) : Same T (.frame scope) (.frame scope)
  | object (id : Nat) {items items' : List τ} :
      List.Forall₂ T items items' → Same T (.object id items) (.object id items')

structure Heap.Same (V : ν → ν → Prop) (T : τ → τ → Prop) (h h' : Heap ν τ) : Prop where
  ofValue : ∀ {x y}, V x y → T (h.ofValue x) (h'.ofValue y)
  sight : ∀ {t u}, T t u → (h.sight t).Same T (h'.sight u)
  objects : h.objects = h'.objects

structure Marking.Same (T : τ → τ → Prop) (m m' : Marking τ) : Prop where
  marked : m.marked = m'.marked
  seen : m.seen = m'.seen
  pending : m.pending = m'.pending
  values : List.Forall₂ T m.values m'.values

variable {h h' : Heap ν τ} {m m' : Marking τ}

theorem Marking.Same.take (related : m.Same T m') (same : h.Same V T h') {t u : τ} (both : T t u) :
    (m.take h t).Same T (m'.take h' u) := by
  have sight := same.sight both
  unfold Marking.take
  generalize h.sight t = x at sight ⊢
  generalize h'.sight u = y at sight ⊢
  cases sight with
  | frame s => exact ⟨related.marked, related.seen, congrArg (s :: ·) related.pending, related.values⟩
  | _ => exact ⟨related.marked, related.seen, related.pending, .cons both related.values⟩

theorem Marking.Same.takeAll (related : m.Same T m') (same : h.Same V T h') {items items' : List τ}
    (both : List.Forall₂ T items items') :
    (items.foldl (·.take h) m).Same T (items'.foldl (·.take h') m') := by
  refine List.rel_foldl (fun _ _ related _ _ both => ?_) related both
  exact related.take same both

theorem Marking.Same.mark (related : m.Same T m') (same : h.Same V T h') (scope : ScopeId) {xs ys : List ν}
    (values : List.Forall₂ V xs ys) : (m.mark h scope xs).Same T (m'.mark h' scope ys) := by
  refine ⟨congrArg (scope :: ·) related.marked, related.seen, related.pending, ?_⟩
  refine List.rel_append ?_ related.values
  rw [List.forall₂_reverse_iff, List.forall₂_map_left_iff, List.forall₂_map_right_iff]
  exact values.imp fun _ _ => same.ofValue

theorem Marking.Same.waiting (related : m.Same T m') : m.waiting = m'.waiting := by
  rw [Marking.waiting, Marking.waiting, related.pending, related.values.length_eq]

end Heaps

namespace Arena

structure Entry.Renamed (R : Renaming) (V : ν → ν → Prop) (e e' : Entry Int ν) : Prop where
  parent : e.parent = e'.parent
  children : e.children = e'.children
  bindings : Bindings.Renamed R V e.bindings e'.bindings
  active : e.active = e'.active

structure Renamed (R : Renaming) (V : ν → ν → Prop) (a b : Arena Int ν) : Prop where
  table : Paired (Entry.Renamed R V) a.table b.table
  retained : a.retained = b.retained
  exited : a.exited = b.exited

variable {a b : Arena Int ν}

theorem Renamed.mono (h : Renamed R V a b) (le : R ≤ R') (values : ∀ x y, V x y → V' x y) :
    Renamed R' V' a b where
  table := h.table.imp fun _ _ both =>
    ⟨both.parent, both.children, both.bindings.mono le values, both.active⟩
  retained := h.retained
  exited := h.exited

theorem Renamed.frame? (h : Renamed R V a b) (scope : ScopeId) :
    Option.Rel (Entry.Renamed R V) (a.frame? scope) (b.frame? scope) := by
  have entry := h.table.entry scope.toNat
  unfold Arena.frame?
  split
  · generalize a.table[scope.toNat]? = e at entry ⊢
    generalize b.table[scope.toNat]? = e' at entry ⊢
    cases entry with
    | none => exact .none
    | @some e e' both =>
      simp only [Option.filter, both.active]
      split
      · exact .some both
      · exact .none
  · exact .none

theorem Renamed.isActive (h : Renamed R V a b) : a.isActive = b.isActive := by
  funext scope
  have found := h.frame? scope
  unfold Arena.isActive
  generalize a.frame? scope = e at found ⊢
  generalize b.frame? scope = e' at found ⊢
  cases found <;> rfl

theorem Renamed.activeScopes (h : Renamed R V a b) : a.activeScopes = b.activeScopes := by
  unfold Arena.activeScopes
  rw [h.table.size, h.isActive]

theorem Renamed.update (h : Renamed R V a b) (scope : ScopeId) {f g : Entry Int ν → Entry Int ν}
    (both : ∀ e e', e.Renamed R V e' → (f e).Renamed R V (g e')) :
    Renamed R V (a.update scope f) (b.update scope g) :=
  ⟨h.table.modify scope.toNat both, h.retained, h.exited⟩

variable {α : Type}

abbrev InStep (R : Renaming) (V : ν → ν → Prop) {α : Type} (Q : α → α → Prop) :
    Work Int ν α → Work Int ν α → Prop :=
  Lockstep (Renamed R V) Eq Q

theorem inStep_frame (scope : ScopeId) :
    InStep R V (Entry.Renamed R V) (frame scope) (frame scope) := by
  refine Lockstep.get.bind fun a b related => ?_
  have found := related.frame? scope
  generalize a.frame? scope = e at found ⊢
  generalize b.frame? scope = e' at found ⊢
  cases found with
  | some both => exact .pure both
  | none => exact .throw rfl

theorem inStep_add (parent : ScopeId) : InStep R V Eq (add parent) (add parent) := by
  refine (inStep_frame parent).bind fun _ _ _ => Lockstep.get.bind fun a b related => ?_
  refine (Lockstep.set ?_).bind fun _ _ _ => .pure (congrArg Nat.cast related.table.size)
  refine ⟨.push (related.update parent fun e e' both => ?_).table ⟨rfl, rfl, .nil, rfl⟩,
    related.retained, related.exited⟩
  exact ⟨both.parent, by rw [both.children, related.table.size], both.bindings, both.active⟩

theorem Renamed.unlink (h : Renamed R V a b) (scope p : ScopeId) :
    Renamed R V
      (if a.isActive p then ((), a.update p fun e => { e with children := e.children.erase scope })
        else ((), a)).2
      (if b.isActive p then ((), b.update p fun e => { e with children := e.children.erase scope })
        else ((), b)).2 := by
  rw [h.isActive]
  split
  · refine h.update p fun e e' both => ?_
    exact ⟨both.parent, by rw [both.children], both.bindings, both.active⟩
  · exact h

theorem inStep_drop (scope : ScopeId) : InStep R V (fun _ _ => True) (drop scope) (drop scope) := by
  unfold drop
  split
  · exact (Lockstep.throw (Q := fun _ _ => False) rfl).bind nofun
  refine (inStep_frame scope).bind fun e e' both => Lockstep.modifyGet fun a b related => ?_
  have cleared : Renamed R V (a.update scope fun e => { e with bindings := [], active := false })
      (b.update scope fun e => { e with bindings := [], active := false }) :=
    related.update scope fun e e' both => ⟨both.parent, both.children, .nil, rfl⟩
  have gone : Renamed R V
      { a.update scope fun e => { e with bindings := [], active := false } with
        retained := a.retained.erase scope, exited := a.exited.erase scope }
      { b.update scope fun e => { e with bindings := [], active := false } with
        retained := b.retained.erase scope, exited := b.exited.erase scope } := by
    refine ⟨cleared.table, ?_, ?_⟩
    · exact congrArg (·.erase scope) related.retained
    · exact congrArg (·.erase scope) related.exited
  refine ⟨?_, trivial⟩
  -- The parent may be gone already.
  rw [both.parent]
  cases e'.parent with
  | none => exact gone
  | some p => exact gone.unlink scope p

theorem inStep_compact : InStep R V Eq compact compact := by
  refine Lockstep.get.bind fun a b related => ?_
  rw [related.activeScopes, related.table.size]
  dsimp only
  split
  · exact .pure rfl
  · refine (Lockstep.set ?_).bind fun _ _ _ => .pure rfl
    exact ⟨related.table.take _, related.retained, related.exited⟩

theorem inStep_retainFrom (steps : Nat) (scope : ScopeId) :
    InStep R V (fun _ _ => True) (retainFrom steps scope) (retainFrom steps scope) := by
  induction steps generalizing scope with
  | zero => exact .pure trivial
  | succ steps ih =>
    refine Lockstep.get.bind fun a b related => ?_
    rw [related.retained]
    split
    · exact .pure trivial
    refine (Lockstep.modify fun a b related => ?_).bind fun _ _ _ => ?_
    · exact ⟨related.table, by rw [related.retained], related.exited⟩
    refine ((inStep_frame scope).bind fun e e' both => .pure both.parent).bind fun p p' same => ?_
    cases (same : p = p')
    cases p with
    | none => exact .pure trivial
    | some p => exact ih p

theorem inStep_retain (scope : ScopeId) :
    InStep R V (fun _ _ => True) (retain scope) (retain scope) :=
  inStep_retainFrom _ scope

theorem inStep_release (scope : ScopeId) :
    InStep R V (fun _ _ => True) (release scope) (release scope) := by
  unfold release
  split
  · exact .pure trivial
  refine Lockstep.get.bind fun a b related => ?_
  rw [related.retained]
  split
  · refine .modify fun a b related => ?_
    exact ⟨related.table, related.retained, by rw [related.exited]⟩
  · exact inStep_drop scope

theorem inStep_define (same : R.pairs k k') (scope : ScopeId) (value : V x y) :
    InStep R V (Option.Rel V) (define scope k x) (define scope k' y) := by
  refine (inStep_frame scope).bind fun e e' both => ?_
  refine (Lockstep.modify fun a b related => ?_).bind fun _ _ _ => .pure (both.bindings.get? same)
  refine related.update scope fun e e' both => ?_
  exact ⟨both.parent, both.children, both.bindings.put same value, both.active⟩

theorem inStep_findIn (same : R.pairs k k') (steps : Nat) (scope : ScopeId) :
    InStep R V Eq (findIn k steps scope) (findIn k' steps scope) := by
  induction steps generalizing scope with
  | zero => exact .pure rfl
  | succ steps ih =>
    refine (inStep_frame scope).bind fun e e' both => ?_
    rw [both.bindings.holds same, both.parent]
    split
    · exact .pure rfl
    cases e'.parent with
    | none => exact .pure rfl
    | some p => exact ih p

theorem inStep_get? (same : R.pairs k k') (scope : ScopeId) :
    InStep R V (Option.Rel V) (get? scope k) (get? scope k') := by
  refine (inStep_findIn same _ scope).bind fun s s' found => ?_
  cases found
  cases s with
  | none => exact .pure .none
  | some s => exact (inStep_frame s).bind fun e e' both => .pure (both.bindings.get? same)

theorem inStep_assign (same : R.pairs k k') (scope : ScopeId) (value : V x y) :
    InStep R V (Option.Rel V) (assign scope k x) (assign scope k' y) := by
  refine (inStep_findIn same _ scope).bind fun s s' found => ?_
  cases found
  cases s with
  | none => exact .pure .none
  | some s => exact inStep_define same s value

section Collection

variable {τ : Type} {T : τ → τ → Prop} {h h' : Heap ν τ} {m m' : Marking τ}

theorem Renamed.climb (related : Renamed R V a b) (same : h.Same V T h') (steps : Nat) (scope : ScopeId)
    (marking : m.Same T m') : (a.climb h steps scope m).Same T (b.climb h' steps scope m') := by
  induction steps generalizing scope m m' with
  | zero => exact marking
  | succ steps ih =>
    have found := related.frame? scope
    unfold Arena.climb
    generalize a.frame? scope = e at found ⊢
    generalize b.frame? scope = e' at found ⊢
    cases found with
    | none => exact marking
    | @some e e' both =>
      dsimp only
      rw [marking.marked, both.parent]
      split
      · exact marking
      have values : List.Forall₂ V (e.bindings.map (·.2)) (e'.bindings.map (·.2)) := by
        rw [List.forall₂_map_left_iff, List.forall₂_map_right_iff]
        exact both.bindings.imp fun _ _ both => both.2
      have marked := marking.mark same scope values
      split
      · exact ih _ marked
      · exact marked

theorem Renamed.turn (related : Renamed R V a b) (same : h.Same V T h') (marking : m.Same T m') :
    (a.turn h m).Same T (b.turn h' m') := by
  obtain ⟨marked, seen, pending, values⟩ := m
  obtain ⟨_, _, _, values'⟩ := m'
  obtain ⟨rfl, rfl, rfl, both⟩ := marking
  cases pending with
  | cons scope pending =>
    unfold Arena.turn
    rw [related.table.size]
    exact related.climb same _ scope ⟨rfl, rfl, rfl, both⟩
  | nil =>
    cases both with
    | nil => exact ⟨rfl, rfl, rfl, .nil⟩
    | @cons t u rest rest' first others =>
      have left : Marking.Same T ⟨marked, seen, [], rest⟩ ⟨marked, seen, [], rest'⟩ :=
        ⟨rfl, rfl, rfl, others⟩
      have sight := same.sight first
      unfold Arena.turn
      dsimp only
      generalize h.sight t = x at sight ⊢
      generalize h'.sight u = y at sight ⊢
      cases sight with
      | object id items =>
        dsimp only
        split
        · exact left
        · have next : Marking.Same T ⟨marked, id :: seen, [], rest⟩ ⟨marked, id :: seen, [], rest'⟩ :=
            ⟨rfl, rfl, rfl, others⟩
          exact next.takeAll same items
      | _ => exact left

theorem Renamed.turns (related : Renamed R V a b) (same : h.Same V T h') (n : Nat)
    (marking : m.Same T m') : (a.turns h n m).Same T (b.turns h' n m') := by
  induction n generalizing m m' with
  | zero => exact marking
  | succ n ih => exact ih (related.turn same marking)

theorem Renamed.sweep (related : Renamed R V a b) (same : h.Same V T h') (rounds : Nat)
    (marking : m.Same T m') : (a.sweep h rounds m).Same T (b.sweep h' rounds m') := by
  induction rounds generalizing m m' with
  | zero => exact marking
  | succ rounds ih =>
    unfold Arena.sweep
    rw [marking.waiting]
    split
    · exact marking
    · exact ih (related.turns same _ marking)

theorem Renamed.marked (related : Renamed R V a b) (same : h.Same V T h') {roots roots' : List τ}
    (both : List.Forall₂ T roots roots') : a.marked h roots = b.marked h' roots' := by
  have seeds : (a.seeds roots).Same T (b.seeds roots') := by
    refine ⟨rfl, rfl, ?_, List.forall₂_reverse_iff.2 both⟩
    rw [Arena.seeds, Arena.seeds, related.activeScopes, related.exited]
  unfold Arena.marked
  rw [related.table.size, same.objects]
  exact (related.sweep same _ seeds).marked

theorem inStep_dropAll (scopes : List ScopeId) :
    InStep R V (fun _ _ => True) (dropAll scopes) (dropAll scopes) := by
  induction scopes with
  | nil => exact .pure trivial
  | cons scope scopes ih => exact (inStep_drop scope).bind fun _ _ _ => ih

theorem inStep_collect (same : h.Same V T h') {roots roots' : List τ}
    (both : List.Forall₂ T roots roots') : InStep R V Eq (collect h roots) (collect h' roots') := by
  refine Lockstep.get.bind fun a b related => ?_
  rw [related.marked same both, related.exited]
  exact (inStep_dropAll _).bind fun _ _ _ => .pure rfl

end Collection

end Arena

namespace Scopes

inductive Renamed (R : Renaming) (V : ν → ν → Prop) : Scopes Int ν → Scopes Int ν → Prop
  | chain {c d : Chain Int ν} : c.Renamed R V d → Renamed R V (.chain c) (.chain d)
  | arena {a b : Arena Int ν} : a.Renamed R V b → Renamed R V (.arena a) (.arena b)

theorem Renamed.mono {s t : Scopes Int ν} (h : Renamed R V s t) (le : R ≤ R')
    (values : ∀ x y, V x y → V' x y) : Renamed R' V' s t := by
  cases h with
  | chain both => exact .chain (both.mono le values)
  | arena both => exact .arena (both.mono le values)

abbrev InStep (R : Renaming) (V : ν → ν → Prop) {α : Type} (Q : α → α → Prop) :
    Work Int ν α → Work Int ν α → Prop :=
  Lockstep (Renamed R V) Eq Q

theorem inStep_either {α : Type} {Q : α → α → Prop} {f f' : Chain Int ν → α × Chain Int ν}
    {g g' : Arena.Work Int ν α}
    (chains : ∀ c d, c.Renamed R V d → Q (f c).1 (f' d).1 ∧ (f c).2.Renamed R V (f' d).2)
    (arenas : Arena.InStep R V Q g g') : InStep R V Q (either f g) (either f' g') := by
  intro s t related
  cases related with
  | chain both =>
    obtain ⟨result, both'⟩ := chains _ _ both
    exact ⟨.chain both', .ok result⟩
  | arena both =>
    obtain ⟨both', result⟩ := arenas _ _ both
    exact ⟨.arena both', result⟩

theorem inStep_child (scope : ScopeId) : InStep R V Eq (child scope) (child scope) :=
  inStep_either (fun _ _ both => both.child scope) (Arena.inStep_add scope)

theorem inStep_retain (scope : ScopeId) :
    InStep R V (fun _ _ => True) (retain scope) (retain scope) :=
  inStep_either (fun _ _ both => ⟨trivial, both⟩) (Arena.inStep_retain scope)

theorem inStep_release (scope : ScopeId) :
    InStep R V (fun _ _ => True) (release scope) (release scope) :=
  inStep_either (fun _ _ both => ⟨trivial, both⟩) (Arena.inStep_release scope)

theorem inStep_define (same : R.pairs k k') (scope : ScopeId) (value : V x y) :
    InStep R V (Option.Rel V) (define scope k x) (define scope k' y) :=
  inStep_either (fun _ _ both => both.define same scope value) (Arena.inStep_define same scope value)

theorem inStep_get? (same : R.pairs k k') (scope : ScopeId) :
    InStep R V (Option.Rel V) (get? scope k) (get? scope k') :=
  inStep_either (fun _ _ both => ⟨both.get? same scope, both⟩) (Arena.inStep_get? same scope)

theorem inStep_assign (same : R.pairs k k') (scope : ScopeId) (value : V x y) :
    InStep R V (Option.Rel V) (assign scope k x) (assign scope k' y) :=
  inStep_either (fun _ _ both => both.assign same scope value) (Arena.inStep_assign same scope value)

end Scopes

end Scopes

end Lox
