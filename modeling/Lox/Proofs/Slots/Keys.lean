import Lox.Proofs.Run.Lockstep
import Lox.Proofs.Slots.Paired
import Lox.Proofs.Slots.Resolves
import Lox.Proofs.Tree.Alike
import Lox.Proofs.Tree.Renamed

set_option autoImplicit false

namespace Lox

inductive ResolveError.SameTag : ResolveError → ResolveError → Prop
  | undefined {i j} : SameTag (.undefined i) (.undefined j)
  | mismatch {x y} : SameTag (.mismatch x) (.mismatch y)

structure Ident.Corresponds (R : Renaming) (i j : Ident) : Prop where
  left : i.isResolved = false
  right : j.isResolved = false
  key : R.pairs i.key j.key

def Ident.rename (f : String → String) : Ident → Ident
  | .name text span => .name (f text) span
  | i => i

theorem Ident.isResolved_rename (f : String → String) (i : Ident) :
    (i.rename f).isResolved = i.isResolved := by
  cases i <;> rfl

inductive Ident.Digested : Ident → Ident → Prop
  | kept {i} : i.isResolved = false → Digested i i
  | digest {text span} : Digested (.name text span) (.ofText text)

abbrev Ident.Same (i j : Ident) : Prop := i.same j = true

def StaticScope.Corresponds (R : Renaming) : StaticScope → StaticScope → Prop :=
  List.Forall₂ fun d d' => R.pairs d.1 d'.1 ∧ d.2.Same d'.2

theorem StaticScope.Corresponds.find? {R : Renaming} {f g : StaticScope} (h : f.Corresponds R g)
    {key key' : Int} (keys : R.pairs key key') :
    Option.Rel Ident.Same (f.find? key) (g.find? key') := by
  induction h with
  | nil => exact .none
  | @cons d d' f g both _ ih =>
    obtain ⟨known, slot⟩ := d
    obtain ⟨known', slot'⟩ := d'
    -- One side finds its key here just when the other does.
    have here : (key == known) = (key' == known') := by
      rw [Bool.eq_iff_iff, beq_iff_eq, beq_iff_eq]
      exact R.unique keys both.1
    simp only [StaticScope.find?, List.lookup_cons, here] at ih ⊢
    split
    · exact .some both.2
    · exact ih

namespace Slots

structure Corresponds (R : Renaming) (s t : Slots) : Prop where
  inner : List.Forall₂ (StaticScope.Corresponds R) s.inner t.inner
  globals : s.globals.Corresponds R t.globals
  next : s.next = t.next

variable {R : Renaming} {s t : Slots} {key key' : Int}

namespace Corresponds

theorem paired (h : Corresponds R s t) : Paired (StaticScope.Corresponds R) s t :=
  ⟨h.inner, h.globals⟩

theorem depth (h : Corresponds R s t) : s.depth = t.depth :=
  congrArg (· + 1) h.inner.length_eq

theorem enter (h : Corresponds R s t) : Corresponds R s.enter t.enter :=
  ⟨.cons .nil h.inner, h.globals, h.next⟩

theorem leave (h : Corresponds R s t) : Corresponds R s.leave t.leave :=
  ⟨h.paired.leave.inner, h.globals, h.next⟩

theorem find? (h : Corresponds R s t) (keys : R.pairs key key') :
    Option.Rel Ident.Same (s.find? key) (t.find? key') :=
  h.paired.find? fun _ _ both => both.find? keys

theorem add (h : Corresponds R s t) (keys : R.pairs key key') {x y : Ident} (same : x.Same y) :
    Corresponds R { s.add key x with next := s.next + 1 } { t.add key' y with next := t.next + 1 } := by
  have added : Paired (StaticScope.Corresponds R) (s.add key x) (t.add key' y) :=
    h.paired.add (fun _ _ both => both) fun _ _ both =>
      List.rel_append both (.cons ⟨keys, same⟩ .nil)
  exact ⟨added.inner, added.globals, congrArg (· + 1) h.next⟩

end Corresponds

abbrev InStep (R : Renaming) {α β : Type} (Q : α → β → Prop) : Walk α → Walk β → Prop :=
  Lockstep (Corresponds R) ResolveError.SameTag Q

theorem InStep.enclosed {α β : Type} {Q : α → β → Prop} {x : Walk α} {y : Walk β} (h : InStep R Q x y) :
    InStep R Q (enclosed x) (Slots.enclosed y) := by
  intro s t related
  obtain ⟨related', both⟩ := h s.enter t.enter related.enter
  exact ⟨related'.leave, both⟩

theorem InStep.thenPure {α β γ δ : Type} {Q : α → β → Prop} {P : γ → δ → Prop} {x : Walk α} {y : Walk β}
    {f : α → γ} {g : β → δ} (first : InStep R Q x y) (next : ∀ a b, Q a b → P (f a) (g b)) :
    InStep R P (do return f (← x)) (do return g (← y)) :=
  first.bind fun a b both => .pure (next a b both)

section Walks

variable {i j : Ident}

theorem inStep_keyOf (h : i.Corresponds R j) : InStep R R.pairs (keyOf i) (keyOf j) := by
  unfold keyOf
  rw [h.left, h.right]
  exact .pure h.key

theorem inStep_use (h : i.Corresponds R j) : InStep R Ident.Same (use i) (use j) := by
  refine (inStep_keyOf h).bind fun key key' keys => Lockstep.get.bind fun s t related => ?_
  have found := related.find? keys
  generalize s.find? key = x at found ⊢
  generalize t.find? key' = y at found ⊢
  cases found with
  | some both => exact .pure both
  | none => exact .throw .undefined

theorem inStep_declare (h : i.Corresponds R j) : InStep R Ident.Same (declare i) (declare j) := by
  refine (inStep_keyOf h).bind fun key key' keys => Lockstep.get.bind fun s t related => ?_
  have found := related.paired.current.find? keys
  generalize s.current.find? key = x at found ⊢
  generalize t.current.find? key' = y at found ⊢
  cases found with
  | some both => exact .pure both
  | none =>
    -- The texts of the new slots may differ; the counters do not.
    have same : (Ident.slot s.next (some i.shown)).Same (.slot t.next (some j.shown)) := by
      rw [related.next]
      exact beq_self_eq_true _
    exact (Lockstep.set (related.add keys same)).bind fun _ _ _ => .pure same

theorem inStep_declareAll {is js : List Ident} (h : List.Forall₂ (Ident.Corresponds R) is js) :
    InStep R (List.Forall₂ Ident.Same) (declareAll is) (declareAll js) := by
  induction h with
  | nil => exact .pure .nil
  | cons first _ ih =>
    refine (inStep_declare first).bind fun x y same => ?_
    exact ih.thenPure fun xs ys rest => .cons same rest

theorem inStep_body {ps qs : List Ident} {xs ys : List Tree}
    (params : List.Forall₂ (Ident.Corresponds R) ps qs)
    (walked : InStep R (Tree.AlikeAll Ident.Same) (trees xs) (trees ys)) :
    InStep R (fun p q => List.Forall₂ Ident.Same p.1 q.1 ∧ Tree.AlikeAll Ident.Same p.2 q.2)
      (enclosed do return (← declareAll ps, ← trees xs))
      (enclosed do return (← declareAll qs, ← trees ys)) := by
  apply InStep.enclosed
  refine (inStep_declareAll params).bind fun ps' qs' names => ?_
  exact walked.thenPure fun _ _ rest => ⟨names, rest⟩

end Walks

mutual

theorem inStep_tree {x y : Tree} (h : x.Alike (Ident.Corresponds R) y) :
    InStep R (Tree.Alike Ident.Same) (tree x) (tree y) := by
  cases h with
  | literal => exact .pure .literal
  | reference i => exact (inStep_use i).thenPure fun _ _ i => .reference i
  | assign i x =>
    refine (inStep_tree x).bind fun _ _ x => ?_
    exact (inStep_use i).thenPure fun _ _ i => .assign i x
  | binary a x =>
    refine (inStep_tree a).bind fun _ _ a => ?_
    exact (inStep_tree x).thenPure fun _ _ x => .binary a x
  | unary x => exact (inStep_tree x).thenPure fun _ _ x => .unary x
  | call f xs =>
    refine (inStep_tree f).bind fun _ _ f => ?_
    exact (inStep_trees xs).thenPure fun _ _ xs => .call f xs
  | grouping x => exact (inStep_tree x).thenPure fun _ _ x => .grouping x
  | lambda ps xs =>
    exact (inStep_body ps (inStep_trees xs)).thenPure fun _ _ both => .lambda both.1 both.2
  | get x => exact (inStep_tree x).thenPure fun _ _ x => .get x
  | set a x =>
    refine (inStep_tree a).bind fun _ _ a => ?_
    exact (inStep_tree x).thenPure fun _ _ x => .set a x
  | expression x => exact (inStep_tree x).thenPure fun _ _ x => .expression x
  | ifThen a x =>
    refine (inStep_tree a).bind fun _ _ a => ?_
    exact (inStep_tree x).thenPure fun _ _ x => .ifThen a x
  | ifElse a x u =>
    refine (inStep_tree u).bind fun _ _ u => ?_
    refine (inStep_tree a).bind fun _ _ a => ?_
    exact (inStep_tree x).thenPure fun _ _ x => .ifElse a x u
  | whileLoop a x =>
    refine (inStep_tree a).bind fun _ _ a => ?_
    exact (inStep_tree x).thenPure fun _ _ x => .whileLoop a x
  | print x => exact (inStep_tree x).thenPure fun _ _ x => .print x
  | declare i x =>
    refine (inStep_tree x).bind fun _ _ x => ?_
    exact (inStep_declare i).thenPure fun _ _ i => .declare i x
  | function i ps xs =>
    refine (inStep_declare i).bind fun _ _ i => ?_
    exact (inStep_body ps (inStep_trees xs)).thenPure fun _ _ both => .function i both.1 both.2
  | ret x => exact (inStep_tree x).thenPure fun _ _ x => .ret x
  | classDef i xs =>
    refine (inStep_declare i).bind fun _ _ i => ?_
    exact (inStep_trees xs).enclosed.thenPure fun _ _ xs => .classDef i xs
  | block xs => exact (inStep_trees xs).enclosed.thenPure fun _ _ xs => .block xs

theorem inStep_trees {xs ys : List Tree} (h : Tree.AlikeAll (Ident.Corresponds R) xs ys) :
    InStep R (Tree.AlikeAll Ident.Same) (trees xs) (trees ys) := by
  cases h with
  | nil => exact .pure .nil
  | cons x xs =>
    refine (inStep_tree x).bind fun _ _ x => ?_
    exact (inStep_trees xs).thenPure fun _ _ xs => .cons x xs

end

theorem isStatement_of_alike {P : Ident → Ident → Prop} {x y : Tree} (h : x.Alike P y) :
    x.isStatement = y.isStatement := by
  cases h <;> rfl

theorem statements_alike {P : Ident → Ident → Prop} {xs ys : List Tree} (h : Tree.AlikeAll P xs ys) :
    Both ResolveError.SameTag (fun us vs => us = xs ∧ vs = ys) (statements (xs.map .tree))
      (statements (ys.map .tree)) := by
  induction xs generalizing ys with
  | nil =>
    cases h
    exact .ok ⟨rfl, rfl⟩
  | cons x xs ih =>
    obtain _ | @⟨_, y, _, ys, first, rest⟩ := h
    have others := ih rest
    rw [List.map_cons, List.map_cons, statements, statements, isStatement_of_alike first]
    by_cases statement : y.isStatement = true
    · rw [if_pos statement, if_pos statement]
      generalize statements (xs.map .tree) = left at others ⊢
      generalize statements (ys.map .tree) = right at others ⊢
      cases others with
      | error same => exact .error same
      | ok both =>
        obtain ⟨rfl, rfl⟩ := both
        exact .ok ⟨rfl, rfl⟩
    · rw [if_neg statement, if_neg statement]
      exact .error .mismatch

theorem Corresponds.resolveProgram (h : Corresponds R s t) {xs ys : List Tree}
    (alike : Tree.AlikeAll (Ident.Corresponds R) xs ys) :
    Corresponds R (s.resolveProgram xs).2 (t.resolveProgram ys).2 ∧
      Both ResolveError.SameTag (Tree.AlikeAll Ident.Same) (s.resolveProgram xs).1
        (t.resolveProgram ys).1 := by
  have accepted := statements_alike alike
  unfold Slots.resolveProgram resolve
  generalize statements (xs.map .tree) = left at accepted ⊢
  generalize statements (ys.map .tree) = right at accepted ⊢
  cases accepted with
  | error same => exact ⟨h, .error same⟩
  | ok both =>
    obtain ⟨rfl, rfl⟩ := both
    obtain ⟨related, both⟩ := inStep_trees alike s t h
    dsimp only
    generalize (trees _).run s = left at related both ⊢
    generalize (trees _).run t = right at related both ⊢
    obtain ⟨a, s'⟩ := left
    obtain ⟨b, t'⟩ := right
    cases both with
    | ok both => exact ⟨related, .ok both⟩
    | error same => exact ⟨⟨related.inner, h.globals, related.next⟩, .error same⟩

theorem corresponds_ofNames {names names' : List String}
    (h : List.Forall₂ (fun a b => Ident.Corresponds R (.name a none) (.name b none)) names names') :
    Corresponds R (ofNames names) (ofNames names') := by
  have fold : ∀ s t, Corresponds R s t →
      Corresponds R (names.foldl (fun s text => ((declare (.name text none)).run s).2) s)
        (names'.foldl (fun s text => ((declare (.name text none)).run s).2) t) := by
    induction h with
    | nil => exact fun _ _ related => related
    | cons first _ ih => exact fun s t related => ih _ _ (inStep_declare first s t related).1
  exact fold empty empty ⟨.nil, .nil, rfl⟩

/-- Resolved by new resolvers that have these names declared, the programs are refused with the same tag
or become trees with equal slots; depth and next slot are the same afterwards. -/
structure ResolvedAlike (names names' : List String) (program program' : List Tree) : Prop where
  outcome : Both ResolveError.SameTag (Tree.AlikeAll Ident.Same)
    ((ofNames names).resolveProgram program).1 ((ofNames names').resolveProgram program').1
  next : ((ofNames names).resolveProgram program).2.next =
    ((ofNames names').resolveProgram program').2.next
  depth : ((ofNames names).resolveProgram program).2.depth =
    ((ofNames names').resolveProgram program').2.depth

theorem resolvedAlike {names names' : List String} {program program' : List Tree}
    (declared : List.Forall₂ (fun a b => Ident.Corresponds R (.name a none) (.name b none)) names names')
    (alike : Tree.AlikeAll (Ident.Corresponds R) program program') :
    ResolvedAlike names names' program program' := by
  obtain ⟨related, both⟩ := (corresponds_ofNames declared).resolveProgram alike
  exact ⟨both, related.next, related.depth⟩

theorem resolvedAlike_rename (f : String → String) (names : List String) (program : List Tree)
    (unresolved : ∀ i ∈ Tree.identsAll program, i.isResolved = false)
    (apart : ∀ i ∈ names.map (Ident.name · none) ++ Tree.identsAll program,
      ∀ j ∈ names.map (Ident.name · none) ++ Tree.identsAll program,
        i.key = j.key ↔ (i.rename f).key = (j.rename f).key) :
    ResolvedAlike names (names.map f) program (Tree.mapIdentsAll (.rename f) program) := by
  generalize all : names.map (Ident.name · none) ++ Tree.identsAll program = is at apart
  -- Each key beside the key of the new name.
  let R : Renaming := {
    pairs a b := ∃ i ∈ is, i.key = a ∧ (i.rename f).key = b
    unique := by
      rintro _ _ _ _ ⟨i, member, rfl, rfl⟩ ⟨j, member', rfl, rfl⟩
      exact apart i member j member' }
  have related : ∀ i ∈ is, i.isResolved = false → Ident.Corresponds R i (i.rename f) := by
    intro i member plain
    exact ⟨plain, (i.isResolved_rename f).trans plain, i, member, rfl, rfl⟩
  rw [← all, List.forall_mem_append, List.forall_mem_map] at related
  refine resolvedAlike ?_ (Tree.alikeAll_mapIdents program fun i member =>
    related.2 i member (unresolved i member))
  rw [List.forall₂_map_right_iff, List.forall₂_same]
  exact fun text member => related.1 text member rfl

theorem resolvedAlike_digested (names : List String) {program program' : List Tree}
    (alike : Tree.AlikeAll Ident.Digested program program') :
    ResolvedAlike names names program program' := by
  -- A name and its digest share their key.
  let R : Renaming := {
    pairs a b := a = b
    unique := by
      rintro _ _ _ _ rfl rfl
      exact Iff.rfl }
  have declared : List.Forall₂ (fun a b => Ident.Corresponds R (.name a none) (.name b none)) names names :=
    List.forall₂_same.2 fun _ _ => ⟨rfl, rfl, rfl⟩
  have keys : ∀ i j, Ident.Digested i j → Ident.Corresponds R i j := by
    rintro _ _ (plain | _)
    · exact ⟨plain, plain, rfl⟩
    · exact ⟨rfl, rfl, rfl⟩
  exact resolvedAlike declared (alike.imp keys)

/-- Resolution depends on which identifiers share a key and on nothing else about them. Take two programs
that are the same but for their identifiers, none of which is a slot, and two lists of names to be
declared beforehand. If some `R` relates the keys in corresponding places of the programs and of the
lists one to one, both are resolved alike. So it is when names are changed throughout and no two keys
fall together or come apart, and when the digests of some names stand in their places. -/
theorem resolveProgram_by_keys :
    (∀ {R : Renaming} {names names' : List String} {program program' : List Tree},
      List.Forall₂ (fun a b => Ident.Corresponds R (.name a none) (.name b none)) names names' →
      Tree.AlikeAll (Ident.Corresponds R) program program' →
      ResolvedAlike names names' program program') ∧
    (∀ (f : String → String) (names : List String) (program : List Tree),
      (∀ i ∈ Tree.identsAll program, i.isResolved = false) →
      (∀ i ∈ names.map (Ident.name · none) ++ Tree.identsAll program,
        ∀ j ∈ names.map (Ident.name · none) ++ Tree.identsAll program,
          i.key = j.key ↔ (i.rename f).key = (j.rename f).key) →
      ResolvedAlike names (names.map f) program (Tree.mapIdentsAll (.rename f) program)) ∧
    ∀ (names : List String) {program program' : List Tree},
      Tree.AlikeAll Ident.Digested program program' → ResolvedAlike names names program program' :=
  ⟨resolvedAlike, resolvedAlike_rename, resolvedAlike_digested⟩

-- `{var a = a;}` beside `{var b = b;}`, where the digest of the one name stands for it in one place.
theorem resolveProgram_by_keys_digest :
    ∃ R : Renaming, Ident.Corresponds R (.name "a" none) (.name "b" none) ∧
      Ident.Corresponds R (.name "a" none) (.ofText "b") ∧
      ResolvedAlike ["a"] ["b"] [.block [.declare (.name "a" none) (.reference (.name "a" none))]]
        [.block [.declare (.ofText "b") (.reference (.name "b" none))]] := by
  have one : ∀ {a b a' b' : Int}, a = (Ident.name "a" none).key ∧ b = (Ident.name "b" none).key →
      a' = (Ident.name "a" none).key ∧ b' = (Ident.name "b" none).key → (a = a' ↔ b = b') := by
    rintro _ _ _ _ ⟨rfl, rfl⟩ ⟨rfl, rfl⟩
    exact iff_of_true rfl rfl
  let R : Renaming := ⟨fun a b => a = (Ident.name "a" none).key ∧ b = (Ident.name "b" none).key, one⟩
  have plain : Ident.Corresponds R (.name "a" none) (.name "b" none) := ⟨rfl, rfl, rfl, rfl⟩
  have digest : Ident.Corresponds R (.name "a" none) (.ofText "b") := ⟨rfl, rfl, rfl, rfl⟩
  refine ⟨R, plain, digest, resolveProgram_by_keys.1 (.cons plain .nil) ?_⟩
  exact .cons (.block (.cons (.declare digest (.reference plain)) .nil)) .nil

end Slots
end Lox
