import Lox.Proofs.Slots.Calls
import Lox.Proofs.Tree.Alike

set_option autoImplicit false

namespace Lox

namespace Slots

variable {α β : Type} {S : Slots → Prop} {Q : α → Prop} {R : β → Prop}

abbrev Keeps (S : Slots → Prop) (walk : Walk α) (Q : α → Prop) : Prop :=
  Ends S walk (fun a s => S s ∧ Q a) fun _ => S

namespace Keeps

theorem pure {a : α} (h : Q a) : Keeps S (pure a) Q := Ends.pure fun _ kept => ⟨kept, h⟩

theorem bind {x : Walk α} {f : α → Walk β} (first : Keeps S x Q)
    (next : ∀ a, Q a → Keeps S (f a) R) : Keeps S (x >>= f) R :=
  Ends.bind first fun a s both => next a both.2 s both.1

theorem thenPure {x : Walk α} {f : α → β} (first : Keeps S x Q) (next : ∀ a, Q a → R (f a)) :
    Keeps S (do return f (← x)) R :=
  first.bind fun a h => .pure (next a h)

end Keeps

def Declared (D : Int → Ident → Prop) (s : Slots) : Prop :=
  ∀ f ∈ s.frames, ∀ d ∈ f, D d.1 d.2

namespace Declared

variable {D : Int → Ident → Prop} {s s' : Slots} {key : Int} {slot : Ident}

theorem enter (h : Declared D s) : Declared D s.enter := by
  rw [Declared, frames_enter, List.forall_mem_cons]
  exact ⟨nofun, h⟩

theorem leave (h : Declared D s) : Declared D s.leave := by
  intro f here
  have kept : f ∈ s.frames := by
    unfold frames at here ⊢
    rcases List.mem_append.1 here with inner | globals
    · exact List.mem_append_left _ (List.mem_of_mem_tail inner)
    · exact List.mem_append_right _ globals
  exact h f kept

theorem current (h : Declared D s) (found : s.current.find? key = some slot) : D key slot := by
  have here : s.current ∈ s.frames := frames_eq s ▸ List.mem_cons_self
  exact h _ here _ (mem_of_find? found)

theorem found (h : Declared D s) (found : s.find? key = some slot) : D key slot := by
  rw [find?_eq] at found
  obtain ⟨f, here, found⟩ := List.exists_of_findSome?_eq_some found
  exact h f here _ (mem_of_find? found)

theorem add (h : Declared D s) (new : D key slot) (next : Nat) :
    Declared D { s.add key slot with next } := by
  have old := h
  rw [Declared, frames_eq s, List.forall_mem_cons] at old
  rw [Declared, frames_add, List.forall_mem_cons, List.forall_mem_append, List.forall_mem_singleton]
  exact ⟨⟨old.1, new⟩, old.2⟩

theorem restore (h : Declared D s) (later : Declared D s') :
    Declared D { s' with globals := s.globals } := by
  unfold Declared frames at h later ⊢
  rw [List.forall_mem_append] at h later ⊢
  exact ⟨later.1, h.2⟩

theorem enclosed {x : Walk α} (inner : Keeps (Declared D) x Q) :
    Keeps (Declared D) (Slots.enclosed x) Q := by
  intro s before
  have after := inner s.enter before.enter
  rw [enclosed_run]
  generalize x.run s.enter = outcome at after ⊢
  obtain ⟨_ | a, s'⟩ := outcome
  · exact after.leave
  · exact ⟨after.1.leave, after.2⟩

end Declared

/-- Among identifiers that are `known`, a declaration of an identifier satisfies `D`, and all that is
declared so stands to the identifiers with its key as `P` says. -/
structure Tracks (known : Ident → Prop) (D : Int → Ident → Prop) (P : Ident → Ident → Prop) : Prop where
  declared : ∀ {i}, known i → i.isResolved = false → ∀ n : Nat, D i.key (.slot n (some i.shown))
  answered : ∀ {i slot}, known i → i.isResolved = false → D i.key slot → P i slot

namespace Tracks

variable {known : Ident → Prop} {D : Int → Ident → Prop} {P : Ident → Ident → Prop}

theorem keeps_keyOf (i : Ident) :
    Keeps S (keyOf i) fun key => i.isResolved = false ∧ key = i.key := by
  unfold keyOf
  split
  · exact .throw fun _ kept => kept
  · next unresolved => exact .pure ⟨Bool.eq_false_iff.2 unresolved, rfl⟩

variable (h : Tracks known D P)

include h

theorem declare {i : Ident} (given : known i) : Keeps (Declared D) (Slots.declare i) (P i) := by
  refine (keeps_keyOf i).bind fun key ⟨unresolved, same⟩ => ?_
  subst same
  intro s before
  rw [run_bind, run_get]
  dsimp only
  cases found : s.current.find? i.key with
  | some slot => exact ⟨before, h.answered given unresolved (before.current found)⟩
  | none =>
    have new := h.declared given unresolved s.next
    exact ⟨before.add new _, h.answered given unresolved new⟩

theorem use {i : Ident} (given : known i) : Keeps (Declared D) (Slots.use i) (P i) := by
  refine (keeps_keyOf i).bind fun key ⟨unresolved, same⟩ => ?_
  subst same
  intro s before
  rw [run_bind, run_get]
  dsimp only
  cases found : s.find? i.key with
  | some slot => exact ⟨before, h.answered given unresolved (before.found found)⟩
  | none => exact before

theorem declareAll {is : List Ident} (given : ∀ i ∈ is, known i) :
    Keeps (Declared D) (Slots.declareAll is) (List.Forall₂ P is) := by
  induction is with
  | nil => exact .pure .nil
  | cons i is ih =>
    rw [List.forall_mem_cons] at given
    refine (h.declare given.1).bind fun j first => ?_
    exact (ih given.2).thenPure fun js rest => .cons first rest

theorem body {params : List Ident} {body : List Tree} (given : ∀ i ∈ params, known i)
    (walked : Keeps (Declared D) (trees body) (Tree.AlikeAll P body)) :
    Keeps (Declared D) (enclosed do return (← Slots.declareAll params, ← trees body))
      fun parts => List.Forall₂ P params parts.1 ∧ Tree.AlikeAll P body parts.2 := by
  apply Declared.enclosed
  refine (h.declareAll given).bind fun params' names => ?_
  exact walked.thenPure fun body' rest => ⟨names, rest⟩

end Tracks

mutual

theorem Tracks.tree {known : Ident → Prop} {D : Int → Ident → Prop} {P : Ident → Ident → Prop}
    (h : Tracks known D P) (t : Tree) (given : ∀ i ∈ t.idents, known i) :
    Keeps (Declared D) (tree t) (t.Alike P) := by
  cases t with
  | literal value => exact .pure .literal
  | reference name => exact (h.use (given name (.head _))).thenPure fun _ i => .reference i
  | assign target value =>
    obtain ⟨name, rest⟩ := List.forall_mem_cons.1 given
    refine (h.tree value rest).bind fun value' x => ?_
    exact (h.use name).thenPure fun _ i => .assign i x
  | binary op lhs rhs =>
    obtain ⟨left, right⟩ := List.forall_mem_append.1 given
    refine (h.tree lhs left).bind fun lhs' a => ?_
    exact (h.tree rhs right).thenPure fun _ x => .binary a x
  | unary op e => exact (h.tree e given).thenPure fun _ x => .unary x
  | call callee arguments =>
    obtain ⟨left, right⟩ := List.forall_mem_append.1 given
    refine (h.tree callee left).bind fun callee' f => ?_
    exact (h.trees arguments right).thenPure fun _ xs => .call f xs
  | grouping e => exact (h.tree e given).thenPure fun _ x => .grouping x
  | lambda params body =>
    obtain ⟨names, rest⟩ := List.forall_mem_append.1 given
    exact (h.body names (h.trees body rest)).thenPure fun _ both => .lambda both.1 both.2
  | get object field => exact (h.tree object given).thenPure fun _ x => .get x
  | set object field value =>
    obtain ⟨left, right⟩ := List.forall_mem_append.1 given
    refine (h.tree object left).bind fun object' a => ?_
    exact (h.tree value right).thenPure fun _ x => .set a x
  | expression e => exact (h.tree e given).thenPure fun _ x => .expression x
  | ifThen cond body =>
    obtain ⟨left, right⟩ := List.forall_mem_append.1 given
    refine (h.tree cond left).bind fun cond' a => ?_
    exact (h.tree body right).thenPure fun _ x => .ifThen a x
  | ifElse cond body other =>
    obtain ⟨first, rest⟩ := List.forall_mem_append.1 given
    obtain ⟨second, third⟩ := List.forall_mem_append.1 rest
    refine (h.tree other third).bind fun other' u => ?_
    refine (h.tree cond first).bind fun cond' a => ?_
    exact (h.tree body second).thenPure fun _ x => .ifElse a x u
  | whileLoop cond body =>
    obtain ⟨left, right⟩ := List.forall_mem_append.1 given
    refine (h.tree cond left).bind fun cond' a => ?_
    exact (h.tree body right).thenPure fun _ x => .whileLoop a x
  | print e => exact (h.tree e given).thenPure fun _ x => .print x
  | declare name initial =>
    obtain ⟨first, rest⟩ := List.forall_mem_cons.1 given
    refine (h.tree initial rest).bind fun initial' x => ?_
    exact (h.declare first).thenPure fun _ i => .declare i x
  | function name params body =>
    obtain ⟨first, rest⟩ := List.forall_mem_cons.1 given
    obtain ⟨names, rest⟩ := List.forall_mem_append.1 rest
    refine (h.declare first).bind fun name' i => ?_
    exact (h.body names (h.trees body rest)).thenPure fun _ both => .function i both.1 both.2
  | ret e => exact (h.tree e given).thenPure fun _ x => .ret x
  | classDef name methods =>
    obtain ⟨first, rest⟩ := List.forall_mem_cons.1 given
    refine (h.declare first).bind fun name' i => ?_
    exact (Declared.enclosed (h.trees methods rest)).thenPure fun _ xs => .classDef i xs
  | block body => exact (Declared.enclosed (h.trees body given)).thenPure fun _ xs => .block xs

theorem Tracks.trees {known : Ident → Prop} {D : Int → Ident → Prop} {P : Ident → Ident → Prop}
    (h : Tracks known D P) (ts : List Tree) (given : ∀ i ∈ Tree.identsAll ts, known i) :
    Keeps (Declared D) (trees ts) (Tree.AlikeAll P ts) := by
  cases ts with
  | nil => exact .pure .nil
  | cons t ts =>
    obtain ⟨first, rest⟩ := List.forall_mem_append.1 given
    refine (h.tree t first).bind fun t' x => ?_
    exact (h.trees ts rest).thenPure fun _ xs => .cons x xs

end

end Slots

def Subject.idents : Subject → List Ident
  | .tree t => t.idents
  | .ident i => [i]

namespace Slots

namespace Call

def subjects : Call → List Subject
  | program subjects => subjects
  | expression subject => [subject]

def idents (call : Call) : List Ident := call.subjects.flatMap Subject.idents

end Call

def given (names : List String) (calls : List Call) : List Ident :=
  names.map (.name · none) ++ calls.flatMap Call.idents

theorem subjects_of_statements {subjects : List Subject} {ts : List Tree}
    (run : statements subjects = .ok ts) : subjects = ts.map .tree := by
  induction subjects generalizing ts with
  | nil =>
    cases run
    rfl
  | cons subject rest ih =>
    cases subject with
    | ident i => cases run
    | tree t =>
      rw [statements] at run
      split at run
      · cases others : statements rest with
        | error e =>
          rw [others] at run
          cases run
        | ok us =>
          rw [others] at run
          cases run
          rw [ih others, List.map_cons]
      · cases run

theorem identsAll_eq (ts : List Tree) :
    Tree.identsAll ts = (ts.map Subject.tree).flatMap Subject.idents := by
  induction ts with
  | nil => rfl
  | cons t ts ih => rw [Tree.identsAll, ih, List.map_cons, List.flatMap_cons, Subject.idents]

section Calls

variable {known : Ident → Prop} {D : Int → Ident → Prop} {P : Ident → Ident → Prop} {s : Slots}
  (h : Tracks known D P)

include h

theorem Tracks.run (call : Call) (given : ∀ i ∈ call.idents, known i) (before : Declared D s) :
    Declared D (call.run s).2 ∧ ∀ resolved, (call.run s).1 = .ok resolved →
      ∃ ts, call.subjects = ts.map .tree ∧ Tree.AlikeAll P ts resolved := by
  cases call with
  | program subjects =>
    simp only [Call.run, resolve]
    cases accepted : statements subjects with
    | error e =>
      refine ⟨before, ?_⟩
      rintro _ ⟨⟩
    | ok ts =>
      have same := subjects_of_statements accepted
      rw [Call.idents, Call.subjects, same, ← identsAll_eq] at given
      have walked := h.trees ts given s before
      dsimp only
      generalize (Slots.trees ts).run s = outcome at walked ⊢
      obtain ⟨_ | resolved, s'⟩ := outcome
      · refine ⟨before.restore walked, ?_⟩
        rintro _ ⟨⟩
      · refine ⟨walked.1, ?_⟩
        rintro _ ⟨⟩
        exact ⟨ts, same, walked.2⟩
  | expression subject =>
    cases subject with
    | ident i =>
      refine ⟨before, ?_⟩
      rintro _ ⟨⟩
    | tree t =>
      simp only [Call.run, resolveExpression]
      split
      · rw [Call.idents, Call.subjects, List.flatMap_singleton, Subject.idents] at given
        have walked := h.tree t given s before
        generalize (Slots.tree t).run s = outcome at walked ⊢
        obtain ⟨_ | t', s'⟩ := outcome
        · refine ⟨walked, ?_⟩
          rintro _ ⟨⟩
        · refine ⟨walked.1, ?_⟩
          rintro _ ⟨⟩
          exact ⟨[t], rfl, .cons walked.2 .nil⟩
      · refine ⟨before, ?_⟩
        rintro _ ⟨⟩

theorem Tracks.ofNames {names : List String} (given : ∀ text ∈ names, known (.name text none)) :
    Declared D (ofNames names) := by
  have fold : ∀ s, Declared D s →
      Declared D (names.foldl (fun s text => ((Slots.declare (.name text none)).run s).2) s) := by
    induction names with
    | nil => exact fun s before => before
    | cons text names ih =>
      rw [List.forall_mem_cons] at given
      intro s before
      have after := h.declare given.1 s before
      rw [List.foldl_cons]
      generalize (Slots.declare (.name text none)).run s = outcome at after ⊢
      obtain ⟨_ | slot, s'⟩ := outcome
      · exact ih given.2 s' after
      · exact ih given.2 s' after.1
  exact fold empty (by simp [Declared, frames, empty])

theorem Tracks.after {calls : List Call} (given : ∀ i ∈ calls.flatMap Call.idents, known i)
    (before : Declared D s) : Declared D (after s calls) := by
  induction calls generalizing s with
  | nil => exact before
  | cons call calls ih =>
    rw [List.flatMap_cons, List.forall_mem_append] at given
    exact ih given.2 (h.run call given.1 before).1

end Calls

theorem tracks_slots :
    Tracks (fun _ => True) (fun _ slot => slot.isResolved = true)
      fun i j => i.isResolved = false ∧ j.isResolved = true where
  declared _ _ _ := rfl
  answered _ unresolved slot := ⟨unresolved, slot⟩

structure NamesApart (is : List Ident) : Prop where
  names : ∀ i ∈ is, ∃ text span, i = .name text span
  apart : ∀ i ∈ is, ∀ j ∈ is, i.key = j.key → i.same j = true

-- A slot has the text of the name that was declared, and with it the text of every name with its key.
theorem NamesApart.tracks {is : List Ident} (h : NamesApart is) :
    Tracks (· ∈ is) (fun key slot => ∃ i ∈ is, i.key = key ∧ slot.named = i.unplaced)
      fun i j => i.unplaced = j.named where
  declared {i} member _ n := by
    refine ⟨i, member, rfl, ?_⟩
    obtain ⟨text, span, rfl⟩ := h.names i member
    rfl
  answered {i slot} member _ := by
    rintro ⟨j, member', key, same⟩
    have equal := h.apart j member' i member key
    obtain ⟨text, span, rfl⟩ := h.names i member
    obtain ⟨text', span', rfl⟩ := h.names j member'
    rw [same]
    exact congrArg (Ident.name · none) (eq_of_beq equal).symm

/-- Whatever a resolver has been given before, what it makes of a program or an expression has slots in
the place of all identifiers, none of which was a slot, and is the same otherwise. If it has never been
given anything but names, of which no two have the same digest, then each slot carries the text of the
name that stood in its place; so the names can be put back, and the rendering is the same. -/
theorem run_replaces_idents (names : List String) (calls : List Call) (call : Call)
    {resolved : List Tree} (run : (call.run (after (ofNames names) calls)).1 = .ok resolved) :
    ∃ ts, call.subjects = ts.map .tree ∧
      Tree.AlikeAll (fun i j => i.isResolved = false ∧ j.isResolved = true) ts resolved ∧
      (NamesApart (given names (calls ++ [call])) →
        Tree.mapIdentsAll .named resolved = Tree.mapIdentsAll .unplaced ts ∧
          Tree.renderAll resolved = Tree.renderAll ts) := by
  have before : Declared (fun _ slot => slot.isResolved = true) (after (ofNames names) calls) :=
    tracks_slots.after (fun _ _ => trivial) (tracks_slots.ofNames fun _ _ => trivial)
  obtain ⟨ts, same, alike⟩ := (tracks_slots.run call (fun _ _ => trivial) before).2 resolved run
  refine ⟨ts, same, alike, fun apart => ?_⟩
  have tracks := apart.tracks
  have members : ∀ i ∈ names.map (Ident.name · none) ++ (calls.flatMap Call.idents ++ call.idents),
      i ∈ given names (calls ++ [call]) := by simp [given]
  simp only [List.forall_mem_append, List.forall_mem_map] at members
  obtain ⟨first, earlier, now⟩ := members
  have before := tracks.after earlier (tracks.ofNames first)
  obtain ⟨us, same', alike'⟩ := (tracks.run call now before).2 resolved run
  rw [same] at same'
  cases List.map_injective_iff.2 (fun _ _ equal => Subject.tree.inj equal) same'
  have back := (alike'.mapIdents_eq fun _ _ equal => equal).symm
  refine ⟨back, ?_⟩
  rw [← Tree.renderAll_mapIdents Ident.shown_named resolved, back,
    Tree.renderAll_mapIdents Ident.shown_unplaced]

-- `{var a = a;}`, where the name that the resolver was made with is hidden by its own copy.
theorem run_replaces_idents_hidden :
    NamesApart (given ["a"]
        [.program [.tree (.block [.declare (.name "a" none) (.reference (.name "a" none))])]]) ∧
      ∃ resolved, ((Call.program [.tree (.block [.declare (.name "a" none)
          (.reference (.name "a" none))])]).run (ofNames ["a"])).1 = .ok resolved ∧
        Tree.mapIdentsAll .named resolved =
          [.block [.declare (.name "a" none) (.reference (.name "a" none))]] ∧
        Tree.renderAll resolved =
          Tree.renderAll [.block [.declare (.name "a" none) (.reference (.name "a" none))]] := by
  generalize hidden : Tree.block [.declare (.name "a" none) (.reference (.name "a" none))] = block
  have names : ∀ i ∈ given ["a"] [.program [.tree block]], i = .name "a" none := by
    simp [given, Call.idents, Call.subjects, Subject.idents, Tree.idents, Tree.identsAll, ← hidden]
  have apart : NamesApart (given ["a"] [.program [.tree block]]) := by
    refine ⟨fun i member => ⟨"a", none, names i member⟩, fun i member j member' _ => ?_⟩
    rw [names i member, names j member']
    exact beq_self_eq_true "a"
  have ran : ((Call.program [.tree block]).run (ofNames ["a"])).1.isOk = true := by
    rw [← hidden]
    decide +kernel
  have unplaced : Tree.mapIdentsAll .unplaced [block] = [block] := by
    rw [← hidden]
    rfl
  refine ⟨apart, ?_⟩
  cases run : ((Call.program [.tree block]).run (ofNames ["a"])).1 with
  | error e =>
    rw [run] at ran
    cases ran
  | ok resolved =>
    obtain ⟨ts, same, -, back⟩ := run_replaces_idents ["a"] [] _ run
    cases List.map_injective_iff.2 (fun _ _ equal => Subject.tree.inj equal)
      (show [block].map Subject.tree = ts.map Subject.tree from same)
    obtain ⟨names, rendering⟩ := back apart
    exact ⟨resolved, rfl, names.trans unplaced, rendering⟩

end Slots
end Lox
