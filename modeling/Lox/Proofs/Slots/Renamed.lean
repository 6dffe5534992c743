import Lox.Proofs.Run.Lockstep
import Lox.Proofs.Slots.Issued
import Lox.Proofs.Slots.Paired
import Lox.Proofs.Tree.Renamed

set_option autoImplicit false

namespace Lox

def StaticScope.Renamed (R : Renaming) : StaticScope → StaticScope → Prop :=
  List.Forall₂ fun d d' => d.1 = d'.1 ∧ d.2.Renamed R d'.2

namespace StaticScope

variable {R R' : Renaming} {f g : StaticScope}

theorem Renamed.mono (h : f.Renamed R g) (le : R ≤ R') : f.Renamed R' g :=
  List.Forall₂.imp (fun _ _ both => ⟨both.1, both.2.mono le⟩) h

theorem Renamed.find? (h : f.Renamed R g) (key : Int) :
    Option.Rel (Ident.Renamed R) (f.find? key) (g.find? key) := by
  induction h with
  | nil => exact .none
  | @cons d d' f g both _ ih =>
    obtain ⟨_, slot⟩ := d
    obtain ⟨_, slot'⟩ := d'
    obtain ⟨rfl, same⟩ := both
    simp only [StaticScope.find?, List.lookup_cons] at ih ⊢
    split
    · exact .some same
    · exact ih

end StaticScope

namespace Slots

structure Aligned (R : Renaming) (s t : Slots) : Prop where
  inner : List.Forall₂ (StaticScope.Renamed R) s.inner t.inner
  globals : s.globals.Renamed R t.globals
  left : ∀ a b, R.pairs a b → a < s.next
  right : ∀ a b, R.pairs a b → b < t.next

variable {R R' : Renaming} {s t : Slots}

namespace Aligned

theorem paired (h : Aligned R s t) : Paired (StaticScope.Renamed R) s t := ⟨h.inner, h.globals⟩

theorem enter (h : Aligned R s t) : Aligned R s.enter t.enter :=
  ⟨.cons .nil h.inner, h.globals, h.left, h.right⟩

theorem leave (h : Aligned R s t) : Aligned R s.leave t.leave :=
  ⟨h.paired.leave.inner, h.globals, h.left, h.right⟩

theorem find? (h : Aligned R s t) (key : Int) :
    Option.Rel (Ident.Renamed R) (s.find? key) (t.find? key) :=
  h.paired.find? fun _ _ both => both.find? key

theorem restore (h : Aligned R s t) {s' t' : Slots} (later : Aligned R' s' t') (le : R ≤ R') :
    Aligned R' { s' with globals := s.globals } { t' with globals := t.globals } :=
  ⟨later.inner, h.globals.mono le, later.left, later.right⟩

def next (h : Aligned R s t) : Renaming :=
  R.extend s.next t.next (fun a b known => Int.ne_of_lt (h.left a b known))
    fun a b known => Int.ne_of_lt (h.right a b known)

theorem next_le (h : Aligned R s t) : R ≤ h.next := fun _ _ => .inl

theorem next_slot (h : Aligned R s t) (text : String) :
    (Ident.slot s.next (some text)).Renamed h.next (.slot t.next (some text)) :=
  ⟨.inr ⟨rfl, rfl⟩, rfl, rfl⟩

theorem add (h : Aligned R s t) (key : Int) (text : String) :
    Aligned h.next { s.add key (.slot s.next (some text)) with next := s.next + 1 }
      { t.add key (.slot t.next (some text)) with next := t.next + 1 } := by
  have added : Paired (StaticScope.Renamed h.next) (s.add key (.slot s.next (some text)))
      (t.add key (.slot t.next (some text))) :=
    h.paired.add (fun _ _ both => both.mono h.next_le) fun _ _ both =>
      List.rel_append (both.mono h.next_le) (.cons ⟨rfl, h.next_slot text⟩ .nil)
  have bounds : ∀ a b, h.next.pairs a b → a < s.next + 1 ∧ b < t.next + 1 := by
    rintro a b (known | ⟨rfl, rfl⟩)
    · have := h.left a b known
      have := h.right a b known
      omega
    · omega
  exact ⟨added.inner, added.globals, fun a b known => (bounds a b known).1,
    fun a b known => (bounds a b known).2⟩

end Aligned

abbrev Alongside (R : Renaming) {α : Type} (Q : Renaming → α → α → Prop) : Walk α → Walk α → Prop :=
  Unison Aligned Eq R Q

theorem Alongside.enclosed {α : Type} {Q : Renaming → α → α → Prop} {x y : Walk α}
    (inner : Alongside R Q x y) : Alongside R Q (enclosed x) (Slots.enclosed y) := by
  intro s t aligned
  obtain ⟨R', le, aligned', both⟩ := inner s.enter t.enter aligned.enter
  exact ⟨R', le, aligned'.leave, both⟩

theorem alongside_keyOf (name : Ident) : Alongside R (fun _ => Eq) (keyOf name) (keyOf name) := by
  unfold keyOf
  split
  · exact .throw rfl
  · exact .pure rfl

theorem alongside_use (name : Ident) : Alongside R Ident.Renamed (use name) (use name) := by
  refine (alongside_keyOf name).bind fun R₁ le key key' same => ?_
  cases same
  intro s t aligned
  have found := aligned.find? key
  refine ⟨R₁, le_rfl, ?_⟩
  rw [run_bind, run_bind, run_get, run_get]
  dsimp only
  generalize s.find? key = x at found ⊢
  generalize t.find? key = y at found ⊢
  cases found with
  | some both => exact ⟨aligned, .ok both⟩
  | none => exact ⟨aligned, .error rfl⟩

theorem alongside_declare (name : Ident) : Alongside R Ident.Renamed (declare name) (declare name) := by
  refine (alongside_keyOf name).bind fun R₁ le key key' same => ?_
  cases same
  intro s t aligned
  have found := aligned.paired.current.find? key
  rw [run_bind, run_bind, run_get, run_get]
  dsimp only
  generalize s.current.find? key = x at found ⊢
  generalize t.current.find? key = y at found ⊢
  cases found with
  | some both => exact ⟨R₁, le_rfl, aligned, .ok both⟩
  | none => exact ⟨aligned.next, aligned.next_le, aligned.add key name.shown, .ok (aligned.next_slot _)⟩

theorem alongside_declareAll (names : List Ident) :
    Alongside R (fun R' => List.Forall₂ (Ident.Renamed R')) (declareAll names) (declareAll names) := by
  induction names generalizing R with
  | nil => exact .pure .nil
  | cons name names ih =>
    refine (alongside_declare name).bind fun R₁ le₁ i j first => ?_
    exact ih.thenPure fun R₂ le₂ ps qs rest => .cons (first.mono le₂) rest

theorem alongside_body (params : List Ident) {body : List Tree}
    (walked : ∀ {R}, Alongside R Tree.RenamedAll (trees body) (trees body)) :
    Alongside R (fun R' p q => List.Forall₂ (Ident.Renamed R') p.1 q.1 ∧ Tree.RenamedAll R' p.2 q.2)
      (enclosed do return (← declareAll params, ← trees body))
      (enclosed do return (← declareAll params, ← trees body)) := by
  apply Alongside.enclosed
  refine (alongside_declareAll params).bind fun R₁ le₁ ps qs names => ?_
  exact walked.thenPure fun R₂ le₂ xs ys rest => ⟨names.imp fun _ _ both => both.mono le₂, rest⟩

mutual

theorem alongside_tree (t : Tree) {R : Renaming} : Alongside R Tree.Renamed (tree t) (tree t) := by
  cases t with
  | literal value => exact .pure .literal
  | reference name => exact (alongside_use name).thenPure fun _ _ _ _ i => .reference i
  | assign target value =>
    refine (alongside_tree value).bind fun R₁ le₁ x y value => ?_
    exact (alongside_use target).thenPure fun R₂ le₂ _ _ i => .assign i (value.mono le₂)
  | binary op lhs rhs =>
    refine (alongside_tree lhs).bind fun R₁ le₁ a b lhs => ?_
    exact (alongside_tree rhs).thenPure fun R₂ le₂ _ _ rhs => .binary (lhs.mono le₂) rhs
  | unary op e => exact (alongside_tree e).thenPure fun _ _ _ _ x => .unary x
  | call callee arguments =>
    refine (alongside_tree callee).bind fun R₁ le₁ f g callee => ?_
    exact (alongside_trees arguments).thenPure fun R₂ le₂ _ _ xs => .call (callee.mono le₂) xs
  | grouping e => exact (alongside_tree e).thenPure fun _ _ _ _ x => .grouping x
  | lambda params body =>
    exact (alongside_body params (alongside_trees body)).thenPure fun _ _ _ _ both =>
      .lambda both.1 both.2
  | get object field => exact (alongside_tree object).thenPure fun _ _ _ _ x => .get x
  | set object field value =>
    refine (alongside_tree object).bind fun R₁ le₁ a b object => ?_
    exact (alongside_tree value).thenPure fun R₂ le₂ _ _ x => .set (object.mono le₂) x
  | expression e => exact (alongside_tree e).thenPure fun _ _ _ _ x => .expression x
  | ifThen cond body =>
    refine (alongside_tree cond).bind fun R₁ le₁ a b cond => ?_
    exact (alongside_tree body).thenPure fun R₂ le₂ _ _ x => .ifThen (cond.mono le₂) x
  | ifElse cond body other =>
    refine (alongside_tree other).bind fun R₁ le₁ u v other => ?_
    refine (alongside_tree cond).bind fun R₂ le₂ a b cond => ?_
    exact (alongside_tree body).thenPure fun R₃ le₃ _ _ x =>
      .ifElse (cond.mono le₃) x (other.mono (le_trans le₂ le₃))
  | whileLoop cond body =>
    refine (alongside_tree cond).bind fun R₁ le₁ a b cond => ?_
    exact (alongside_tree body).thenPure fun R₂ le₂ _ _ x => .whileLoop (cond.mono le₂) x
  | print e => exact (alongside_tree e).thenPure fun _ _ _ _ x => .print x
  | declare name initial =>
    refine (alongside_tree initial).bind fun R₁ le₁ x y initial => ?_
    exact (alongside_declare name).thenPure fun R₂ le₂ _ _ i => .declare i (initial.mono le₂)
  | function name params body =>
    refine (alongside_declare name).bind fun R₁ le₁ i j name => ?_
    exact (alongside_body params (alongside_trees body)).thenPure fun R₂ le₂ _ _ both =>
      .function (name.mono le₂) both.1 both.2
  | ret e => exact (alongside_tree e).thenPure fun _ _ _ _ x => .ret x
  | classDef name methods =>
    refine (alongside_declare name).bind fun R₁ le₁ i j name => ?_
    exact (alongside_trees methods).enclosed.thenPure fun R₂ le₂ _ _ xs =>
      .classDef (name.mono le₂) xs
  | block body => exact (alongside_trees body).enclosed.thenPure fun _ _ _ _ xs => .block xs

theorem alongside_trees (ts : List Tree) {R : Renaming} :
    Alongside R Tree.RenamedAll (trees ts) (trees ts) := by
  cases ts with
  | nil => exact .pure .nil
  | cons t ts =>
    refine (alongside_tree t).bind fun R₁ le₁ x y first => ?_
    exact (alongside_trees ts).thenPure fun R₂ le₂ _ _ rest => .cons (first.mono le₂) rest

end

theorem Aligned.resolveProgram (h : Aligned R s t) (program : List Tree) :
    ∃ R', R ≤ R' ∧ Aligned R' (s.resolveProgram program).2 (t.resolveProgram program).2 ∧
      Both Eq (Tree.RenamedAll R') (s.resolveProgram program).1 (t.resolveProgram program).1 := by
  unfold Slots.resolveProgram resolve
  cases statements (program.map .tree) with
  | error e => exact ⟨R, le_rfl, h, .error rfl⟩
  | ok ts =>
    obtain ⟨R', le, aligned, both⟩ := alongside_trees ts s t h
    dsimp only
    generalize (trees ts).run s = left at aligned both ⊢
    generalize (trees ts).run t = right at aligned both ⊢
    obtain ⟨a, s'⟩ := left
    obtain ⟨b, t'⟩ := right
    cases both with
    | ok both => exact ⟨R', le, aligned, .ok both⟩
    | error same => exact ⟨R', le, h.restore aligned le, .error same⟩

-- A program that is refused may have been given slots, but it leaves no declarations.
theorem resolveProgram_outside (program : List Tree) (top : s.depth = 1) :
    (s.resolveProgram program).2.depth = 1 ∧ s.next ≤ (s.resolveProgram program).2.next ∧
      ∀ e, (s.resolveProgram program).1 = .error e →
        (s.resolveProgram program).2.globals = s.globals := by
  unfold Slots.resolveProgram resolve
  cases statements (program.map .tree) with
  | error e => exact ⟨top, Nat.le_refl _, fun _ _ => rfl⟩
  | ok ts =>
    have told := stepping.tells_walkAll ts s
    have same : ∀ {s' : Slots}, s'.inner.length = s.inner.length → s'.depth = 1 := fun length => by
      rw [depth, length]
      exact top
    dsimp only
    generalize (trees ts).run s = outcome at told ⊢
    obtain ⟨err | resolved, s₁⟩ := outcome
    · obtain ⟨before, e, rest, out, s₂, -, steps, -, -, next, inner⟩ := told
      exact ⟨same inner, next ▸ steps.next_le, fun _ _ => rfl⟩
    · obtain ⟨_, -, steps, inner⟩ := told
      refine ⟨same inner, steps.next_le, fun e failed => ?_⟩
      cases failed

theorem Aligned.refused (h : Aligned R s t) (top : s.depth = 1) {program : List Tree} {e : ResolveError}
    (refused : (s.resolveProgram program).1 = .error e) :
    Aligned R (s.resolveProgram program).2 t := by
  obtain ⟨top', next, globals⟩ := resolveProgram_outside program top
  have inner : (s.resolveProgram program).2.inner = s.inner := by
    simp only [depth] at top top'
    rw [List.length_eq_zero_iff.1 (Nat.succ.inj top), List.length_eq_zero_iff.1 (Nat.succ.inj top')]
  refine ⟨inner ▸ h.inner, globals e refused ▸ h.globals, fun a b known => ?_, h.right⟩
  exact Int.lt_of_lt_of_le (h.left a b known) (Int.ofNat_le.2 next)

theorem Aligned.declareNames (h : Aligned R s t) (texts : List String) :
    ∃ R', Aligned R' (texts.foldl (fun s text => ((declare (.name text none)).run s).2) s)
      (texts.foldl (fun s text => ((declare (.name text none)).run s).2) t) := by
  induction texts generalizing R s t with
  | nil => exact ⟨R, h⟩
  | cons text texts ih =>
    obtain ⟨R', -, aligned, -⟩ := alongside_declare (.name text none) s t h
    exact ih aligned

theorem aligned_empty : Aligned .none empty empty := ⟨.nil, .nil, nofun, nofun⟩

theorem aligned_ofNames (texts : List String) : ∃ R, Aligned R (ofNames texts) (ofNames texts) :=
  aligned_empty.declareNames texts

theorem Aligned.globalSlot (h : Aligned R s t) (text : String) :
    Both Eq (Ident.Renamed R) (s.globalSlot text) (t.globalSlot text) := by
  have found := h.globals.find? (Ident.name text none).key
  unfold Slots.globalSlot
  generalize s.globals.find? _ = x at found ⊢
  generalize t.globals.find? _ = y at found ⊢
  cases found with
  | some both => exact .ok both
  | none => exact .error rfl

end Slots
end Lox
