import Lox.Proofs.Slots.Resolves

set_option autoImplicit false

namespace Lox

namespace Tree

def isDeclaration : Tree → Bool
  | declare .. | function .. | classDef .. => true
  | _ => false

def isFunction : Tree → Bool
  | function .. => true
  | _ => false

def Part (t : Tree) (formed : Prop) : Prop := t.isDeclaration = false ∧ formed

mutual

/-- Declarations stand only in programs, blocks and bodies, where one statement follows another, and
the members of a class are functions. All identifiers satisfy `known`. -/
def Orderly (known : Ident → Prop) : Tree → Prop
  | assign target value => known target ∧ value.Part (Orderly known value)
  | binary _ lhs rhs => lhs.Part (Orderly known lhs) ∧ rhs.Part (Orderly known rhs)
  | unary _ e => e.Part (Orderly known e)
  | call callee arguments => callee.Part (Orderly known callee) ∧ OrderlyAll known arguments ∧
      ∀ a ∈ arguments, a.isDeclaration = false
  | literal _ => True
  | grouping e => e.Part (Orderly known e)
  | lambda params body => (∀ p ∈ params, known p) ∧ OrderlyAll known body
  | reference name => known name
  | get object _ => object.Part (Orderly known object)
  | set object _ value => object.Part (Orderly known object) ∧ value.Part (Orderly known value)
  | expression e => e.Part (Orderly known e)
  | ifThen cond body => cond.Part (Orderly known cond) ∧ body.Part (Orderly known body)
  | ifElse cond body other =>
    cond.Part (Orderly known cond) ∧ body.Part (Orderly known body) ∧ other.Part (Orderly known other)
  | whileLoop cond body => cond.Part (Orderly known cond) ∧ body.Part (Orderly known body)
  | print e => e.Part (Orderly known e)
  | declare name initial => known name ∧ initial.Part (Orderly known initial)
  | function name params body => known name ∧ (∀ p ∈ params, known p) ∧ OrderlyAll known body
  | ret e => e.Part (Orderly known e)
  | classDef name methods => known name ∧ OrderlyAll known methods ∧
      ∀ m ∈ methods, m.isFunction = true
  | block body => OrderlyAll known body

def OrderlyAll (known : Ident → Prop) : List Tree → Prop
  | [] => True
  | t :: ts => Orderly known t ∧ OrderlyAll known ts

end

end Tree

namespace Slots

variable {s s' s'' : Slots}

def frames (s : Slots) : List StaticScope := s.inner ++ [s.globals]

@[simp] theorem frames_enter (s : Slots) : s.enter.frames = [] :: s.frames := rfl

theorem frames_eq (s : Slots) : s.frames = s.current :: s.frames.tail := by
  unfold frames current
  cases s.inner <;> rfl

theorem frames_add (s : Slots) (key : Int) (slot : Ident) (next : Nat) :
    ({ s.add key slot with next := next } : Slots).frames =
      (s.current ++ [(key, slot)]) :: s.frames.tail := by
  unfold frames add current
  cases s.inner <;> rfl

theorem find?_eq (s : Slots) (key : Int) : s.find? key = s.frames.findSome? (·.find? key) := by
  unfold find? frames
  rw [List.findSome?_append]
  simp

theorem frames_leave {f : StaticScope} (h : s'.frames = f :: s.frames) : s'.leave.frames = s.frames := by
  unfold frames leave at *
  cases inner : s'.inner with
  | nil =>
    rw [inner] at h
    have := congrArg List.length h
    simp at this
  | cons g gs =>
    rw [inner] at h
    exact (List.cons.inj h).2

def Sound (s : Slots) : Prop :=
  ∀ f ∈ s.frames, ∀ d ∈ f, ∃ (i : Nat) (text : Option String), d.2 = .slot i text ∧ i < s.next

structure Grows (s s' : Slots) : Prop where
  next : s.next ≤ s'.next
  frames : ∃ new, s'.frames = (s.current ++ new) :: s.frames.tail ∧
    ∀ d ∈ new, ∃ (i : Nat) (text : Option String), d.2 = .slot i text ∧ s.next ≤ i ∧ i < s'.next

structure Level (s s' : Slots) : Prop where
  next : s.next ≤ s'.next
  frames : s'.frames = s.frames

theorem Level.refl (s : Slots) : Level s s := ⟨Nat.le_refl _, rfl⟩

theorem Level.trans (h : Level s s') (h' : Level s' s'') : Level s s'' :=
  ⟨Nat.le_trans h.next h'.next, h'.frames.trans h.frames⟩

theorem Level.grows (h : Level s s') : Grows s s' := by
  refine ⟨h.next, [], ?_, nofun⟩
  rw [h.frames, List.append_nil]
  exact frames_eq s

theorem Level.sound (h : Level s s') (sound : s.Sound) : s'.Sound := by
  intro f member d declared
  rw [h.frames] at member
  obtain ⟨i, text, same, below⟩ := sound f member d declared
  exact ⟨i, text, same, Nat.lt_of_lt_of_le below h.next⟩

theorem Grows.current {new : StaticScope} (h : s'.frames = (s.current ++ new) :: s.frames.tail) :
    s'.current = s.current ++ new ∧ s'.frames.tail = s.frames.tail := by
  have whole := frames_eq s'
  rw [h] at whole ⊢
  exact ⟨(List.cons.inj whole).1.symm, rfl⟩

theorem Grows.trans (h : Grows s s') (h' : Grows s' s'') : Grows s s'' := by
  obtain ⟨next, new, frames, fresh⟩ := h
  obtain ⟨next', new', frames', fresh'⟩ := h'
  obtain ⟨current, tail⟩ := Grows.current frames
  refine ⟨Nat.le_trans next next', new ++ new', ?_, ?_⟩
  · rw [frames', current, tail, List.append_assoc]
  · intro d member
    rcases List.mem_append.1 member with old | late
    · obtain ⟨i, text, same, above, below⟩ := fresh d old
      exact ⟨i, text, same, above, Nat.lt_of_lt_of_le below next'⟩
    · obtain ⟨i, text, same, above, below⟩ := fresh' d late
      exact ⟨i, text, same, Nat.le_trans next above, below⟩

theorem Grows.sound (h : Grows s s') (sound : s.Sound) : s'.Sound := by
  obtain ⟨next, new, frames, fresh⟩ := h
  have old : ∀ f ∈ s.frames, ∀ d ∈ f, ∃ (i : Nat) (text : Option String),
      d.2 = .slot i text ∧ i < s'.next := by
    intro f member d declared
    obtain ⟨i, text, same, below⟩ := sound f member d declared
    exact ⟨i, text, same, Nat.lt_of_lt_of_le below next⟩
  rw [frames_eq s] at old
  intro f member d declared
  rw [frames] at member
  rcases List.mem_cons.1 member with rfl | outer
  · rcases List.mem_append.1 declared with known | added
    · exact old _ List.mem_cons_self d known
    · obtain ⟨i, text, same, -, below⟩ := fresh d added
      exact ⟨i, text, same, below⟩
  · exact old f (List.mem_cons_of_mem _ outer) d declared

theorem Sound.enter (sound : s.Sound) : s.enter.Sound := by
  intro f member d declared
  rcases List.mem_cons.1 member with rfl | outer
  · cases declared
  · exact sound f outer d declared

theorem Grows.leave (h : Grows s.enter s') : Level s s'.leave := by
  obtain ⟨next, new, frames, -⟩ := h
  exact ⟨next, frames_leave frames⟩

theorem Declares.grows {name slot : Ident} (h : Declares s name slot s') : Grows s s' := by
  cases h with
  | again found => exact (Level.refl s).grows
  | new absent =>
    refine ⟨Nat.le_succ _, [(name.key, .slot s.next (some name.shown))], frames_add .., ?_⟩
    intro d member
    cases List.mem_singleton.1 member
    exact ⟨s.next, _, rfl, Nat.le_refl _, Nat.lt_succ_self _⟩

theorem DeclaresAll.grows {names slots : List Ident} (h : DeclaresAll s names slots s') :
    Grows s s' := by
  induction h with
  | nil => exact (Level.refl _).grows
  | cons first _ ih => exact first.grows.trans ih

theorem DeclaresAll.length_eq {names slots : List Ident} (h : DeclaresAll s names slots s') :
    slots.length = names.length := by
  induction h with
  | nil => rfl
  | cons _ _ ih => simp [ih]

variable {known : Ident → Prop}

theorem Level.outcome {t : Tree} (h : Level s s') :
    Grows s s' ∧ (t.isDeclaration = false → Level s s') :=
  ⟨h.grows, fun _ => h⟩

mutual

theorem Resolves.outcome (t : Tree) {t' : Tree} {s s' : Slots} (h : Resolves s t t' s')
    (orderly : t.Orderly known) : Grows s s' ∧ (t.isDeclaration = false → Level s s') := by
  -- Parts declare nothing, so a tree of parts leaves the scopes as they were.
  have part : ∀ {u : Tree} {r r' : Slots}, u.Part (u.Orderly known) →
      (u.Orderly known → Grows r r' ∧ (u.isDeclaration = false → Level r r')) → Level r r' :=
    fun formed walked => (walked formed.2).2 formed.1
  cases t with
  | literal value =>
    cases h
    exact (Level.refl s).outcome
  | reference name =>
    cases h
    exact (Level.refl s).outcome
  | assign target value =>
    cases h with
    | assign first _ => exact (part orderly.2 (Resolves.outcome value first)).outcome
  | binary op lhs rhs =>
    cases h with
    | binary first second =>
      have left := part orderly.1 (Resolves.outcome lhs first)
      exact (left.trans (part orderly.2 (Resolves.outcome rhs second))).outcome
  | unary op e =>
    cases h with
    | unary first => exact (part orderly (Resolves.outcome e first)).outcome
  | call callee arguments =>
    cases h with
    | call first rest =>
      have left := part orderly.1 (Resolves.outcome callee first)
      have right := (ResolvesAll.outcome arguments rest orderly.2.1).2 orderly.2.2
      exact (left.trans right).outcome
  | grouping e =>
    cases h with
    | grouping first => exact (part orderly (Resolves.outcome e first)).outcome
  | lambda params body =>
    cases h with
    | lambda declared walked =>
      exact (declared.grows.trans (ResolvesAll.outcome body walked orderly.2).1).leave.outcome
  | get object field =>
    cases h with
    | get first => exact (part orderly (Resolves.outcome object first)).outcome
  | set object field value =>
    cases h with
    | set first second =>
      have left := part orderly.1 (Resolves.outcome object first)
      exact (left.trans (part orderly.2 (Resolves.outcome value second))).outcome
  | expression e =>
    cases h with
    | expression first => exact (part orderly (Resolves.outcome e first)).outcome
  | ifThen cond body =>
    cases h with
    | ifThen first second =>
      have left := part orderly.1 (Resolves.outcome cond first)
      exact (left.trans (part orderly.2 (Resolves.outcome body second))).outcome
  | ifElse cond body other =>
    cases h with
    | ifElse first second third =>
      have left := part orderly.2.2 (Resolves.outcome other first)
      have middle := part orderly.1 (Resolves.outcome cond second)
      exact ((left.trans middle).trans (part orderly.2.1 (Resolves.outcome body third))).outcome
  | whileLoop cond body =>
    cases h with
    | whileLoop first second =>
      have left := part orderly.1 (Resolves.outcome cond first)
      exact (left.trans (part orderly.2 (Resolves.outcome body second))).outcome
  | print e =>
    cases h with
    | print first => exact (part orderly (Resolves.outcome e first)).outcome
  | declare name initial =>
    cases h with
    | declare first declared =>
      have left := part orderly.2 (Resolves.outcome initial first)
      exact ⟨left.grows.trans declared.grows, nofun⟩
  | function name params body =>
    cases h with
    | function named declared walked =>
      have inner := declared.grows.trans (ResolvesAll.outcome body walked orderly.2.2).1
      exact ⟨named.grows.trans inner.leave.grows, nofun⟩
  | ret e =>
    cases h with
    | ret first => exact (part orderly (Resolves.outcome e first)).outcome
  | classDef name methods =>
    cases h with
    | classDef named walked =>
      have inner := (ResolvesAll.outcome methods walked orderly.2.1).1
      exact ⟨named.grows.trans inner.leave.grows, nofun⟩
  | block body =>
    cases h with
    | block walked => exact (ResolvesAll.outcome body walked orderly).1.leave.outcome

theorem ResolvesAll.outcome (ts : List Tree) {ts' : List Tree} {s s' : Slots}
    (h : ResolvesAll s ts ts' s') (orderly : Tree.OrderlyAll known ts) :
    Grows s s' ∧ ((∀ t ∈ ts, t.isDeclaration = false) → Level s s') := by
  cases ts with
  | nil =>
    cases h
    exact ⟨(Level.refl s).grows, fun _ => .refl s⟩
  | cons t ts =>
    cases h with
    | cons first rest =>
      obtain ⟨grows, level⟩ := Resolves.outcome t first orderly.1
      obtain ⟨grows', level'⟩ := ResolvesAll.outcome ts rest orderly.2
      refine ⟨grows.trans grows', fun plain => (level (plain t List.mem_cons_self)).trans (level' ?_)⟩
      exact fun u member => plain u (List.mem_cons_of_mem _ member)

end

theorem Resolves.grows {t t' : Tree} (h : Resolves s t t' s') (orderly : t.Orderly known) :
    Grows s s' :=
  (Resolves.outcome t h orderly).1

theorem Resolves.level {t t' : Tree} (h : Resolves s t t' s') (part : t.Part (t.Orderly known)) :
    Level s s' :=
  (Resolves.outcome t h part.2).2 part.1

theorem ResolvesAll.grows {ts ts' : List Tree} (h : ResolvesAll s ts ts' s')
    (orderly : Tree.OrderlyAll known ts) : Grows s s' :=
  (ResolvesAll.outcome ts h orderly).1

end Slots
end Lox
