import Lox.Proofs.Slots.Traces

set_option autoImplicit false

namespace Lox.Slots

open Event (scopes Binds)

inductive Step : Slots → Event → Event → Slots → Prop
  | enter {s} : Step s .enter .enter s.enter
  | leave {s depth} : s.inner.length = depth + 1 → Step s .leave .leave s.leave
  | declares {s name slot s'} : (declare name).run s = (.ok slot, s') →
      Step s (.declares name) (.declares slot) s'
  | uses {s name slot s'} : (use name).run s = (.ok slot, s') → Step s (.uses name) (.uses slot) s'

inductive Steps : Slots → List Event → List Event → Slots → Prop
  | nil {s} : Steps s [] [] s
  | cons {s s₁ s₂ e e' E out} : Step s e e' s₁ → Steps s₁ E out s₂ → Steps s (e :: E) (e' :: out) s₂

inductive Halts (s : Slots) : Event → Prop
  | declares {name err s'} : (declare name).run s = (.error err, s') → Halts s (.declares name)
  | uses {name err s'} : (use name).run s = (.error err, s') → Halts s (.uses name)

def issued : List Event → Slots → List Ident
  | [], _ => []
  | .enter :: rest, s => issued rest s.enter
  | .leave :: rest, s => issued rest s.leave
  | .declares name :: rest, s =>
    match (declare name).run s with
    | (.error _, _) => []
    | (.ok slot, s') =>
      if (s.current.find? name.key).isSome then issued rest s' else slot :: issued rest s'
  | .uses name :: rest, s =>
    match (use name).run s with
    | (.error _, _) => []
    | (.ok _, s') => issued rest s'

variable {s s' s₁ s₂ : Slots} {e e' : Event} {E E' out out' : List Event}

theorem Steps.append (h : Steps s E out s₁) (h' : Steps s₁ E' out' s₂) :
    Steps s (E ++ E') (out ++ out') s₂ := by
  induction h with
  | nil => exact h'
  | cons first _ ih => exact .cons first (ih h')

theorem Step.meets (h : Step s e e' s') : Meets false s.frames e e' s'.frames := by
  cases h with
  | enter => exact .enter
  | leave inside =>
    obtain ⟨f, g, F, opened, left⟩ := leave_frames inside
    rw [opened, left]
    exact .leave
  | declares run => exact (declares_of_run run).meets.1
  | uses run =>
    obtain ⟨found, rfl⟩ := use_ok run
    exact .finds (by rwa [find?_eq] at found)

theorem Steps.traces (h : Steps s E out s') : Traces false s.frames E out s'.frames := by
  induction h with
  | nil => exact .nil
  | cons first _ ih => exact .cons first.meets ih

theorem Steps.at_place {place : Nat} (h : Steps s E out s') (here : E[place]? = some e) :
    ∃ e' s₁ s₂, out[place]? = some e' ∧ Steps s (E.take place) (out.take place) s₁ ∧
      Step s₁ e e' s₂ ∧ Steps s₂ (E.drop (place + 1)) (out.drop (place + 1)) s' := by
  induction h generalizing place with
  | nil => cases here
  | cons first rest ih =>
    cases place with
    | zero =>
      cases here
      exact ⟨_, _, _, rfl, .nil, first, rest⟩
    | succ place =>
      obtain ⟨e', s₁, s₂, placed, before, step, after⟩ := ih here
      exact ⟨e', s₁, s₂, placed, .cons first before, step, after⟩

theorem Step.next_le (h : Step s e e' s') : s.next ≤ s'.next := by
  cases h with
  | enter | leave => exact Nat.le_refl _
  | declares run => exact (declares_of_run run).grows.next
  | uses run =>
    obtain ⟨-, rfl⟩ := use_ok run
    exact Nat.le_refl _

theorem Steps.next_le (h : Steps s E out s') : s.next ≤ s'.next := by
  induction h with
  | nil => exact Nat.le_refl _
  | cons first _ ih => exact Nat.le_trans first.next_le ih

def stepping : Account where
  done s E out s' := Steps s E out s' ∧ s'.inner.length = s.inner.length
  failed s E _ s' := ∃ before e after out s₁, E = before ++ e :: after ∧ Steps s before out s₁ ∧
    Halts s₁ e ∧ s'.globals = s₁.globals ∧ s'.next = s₁.next ∧ s'.inner.length = s.inner.length
  nil _ := ⟨.nil, rfl⟩
  trans h h' := ⟨h.1.append h'.1, h'.2.trans h.2⟩
  stop E' := by
    rintro ⟨before, e, after, out, s₁, rfl, rest⟩
    exact ⟨before, e, after ++ E', out, s₁, by simp, rest⟩
  later h := by
    rintro ⟨before, e, after, out', s₁, rfl, run, halts, globals, next, depth⟩
    exact ⟨_, e, after, _, s₁, by simp, h.1.append run, halts, globals, next, depth.trans h.2⟩
  scope h := by
    constructor
    · exact .cons .enter (h.1.append (.cons (.leave h.2) .nil))
    · simp [leave, h.2, enter]
  inside := by
    rintro s s₂ E err ⟨before, e, after, out, s₁, rfl, run, halts, globals, next, depth⟩
    refine ⟨.enter :: before, e, after ++ [.leave], _, s₁, by simp, .cons .enter run, halts, globals,
      next, ?_⟩
    simp [leave, depth, enter]
  declare_ok run := ⟨.cons (.declares run) .nil, (declares_of_run run).meets.2⟩
  declare_error run := by
    obtain ⟨-, rfl⟩ := declare_failed run
    exact ⟨[], _, [], [], _, rfl, .nil, .declares run, rfl, rfl, rfl⟩
  use_ok run := by
    obtain ⟨-, rfl⟩ := Slots.use_ok run
    exact ⟨.cons (.uses run) .nil, rfl⟩
  use_error run := by
    obtain ⟨rfl, -⟩ := use_failed run
    exact ⟨[], _, [], [], _, rfl, .nil, .uses run, rfl, rfl, rfl⟩

-- Different keys have different slots.
def Apart (f : StaticScope) : Prop :=
  ∀ key key' x y, f.find? key = some x → f.find? key' = some y → x.key = y.key → key = key'

structure Logged (log : List Ident) (s : Slots) : Prop where
  indices : log.map Ident.key = (List.range s.next).map Int.ofNat
  slots : ∀ x ∈ log, x.isResolved
  held : ∀ f ∈ s.frames, ∀ d ∈ f, d.2 ∈ log
  apart : Apart s.globals

variable {log : List Ident}

theorem Logged.below (h : Logged log s) {x : Ident} (member : x ∈ log) : x.key < s.next := by
  have index := List.mem_map_of_mem (f := Ident.key) member
  rw [h.indices] at index
  obtain ⟨i, below, same⟩ := List.mem_map.1 index
  have := List.mem_range.1 below
  simp only [Int.ofNat_eq_natCast] at same
  omega

theorem mem_of_find? {f : StaticScope} {key : Int} {slot : Ident} (h : f.find? key = some slot) :
    (key, slot) ∈ f := by
  induction f with
  | nil => cases h
  | cons d f ih =>
    obtain ⟨key', slot'⟩ := d
    simp only [StaticScope.find?, List.lookup_cons] at h ih
    split at h
    next same =>
      cases h
      rw [beq_iff_eq.1 same]
      exact .head _
    next => exact .tail _ (ih h)

theorem Logged.found (h : Logged log s) {f : StaticScope} {key : Int} {slot : Ident}
    (here : f ∈ s.frames) (found : f.find? key = some slot) : slot ∈ log :=
  h.held f here _ (mem_of_find? found)

theorem same_iff_key {x y : Ident} (hx : x.isResolved) (hy : y.isResolved) :
    x.same y ↔ x.key = y.key := by
  cases x <;> cases y <;> simp_all [Ident.isResolved, Ident.same, Ident.key]

theorem Logged.fresh (h : Logged log s) {key : Int} {slot : Ident} {text : Option String}
    (found : s.globals.find? key = some slot) : slot.key ≠ (Ident.slot s.next text).key := by
  have below := h.below (h.found (by simp [frames]) found)
  exact Int.ne_of_lt below

theorem Logged.apart_add (h : Logged log s) (key : Int) (text : Option String) :
    Apart (s.globals ++ [(key, .slot s.next text)]) := by
  intro key₁ key₂ x y first second same
  simp only [find?_snoc, Option.or_eq_some_iff, Option.ite_none_right_eq_some, Option.some.injEq]
    at first second
  obtain first | ⟨-, rfl, rfl⟩ := first <;> obtain second | ⟨-, rfl, rfl⟩ := second
  · exact h.apart _ _ _ _ first second same
  · exact absurd same (h.fresh first)
  · exact absurd same.symm (h.fresh second)
  · rfl

theorem Logged.add (h : Logged log s) (name : Ident) :
    Logged (log ++ [.slot s.next (some name.shown)])
      { s.add name.key (.slot s.next (some name.shown)) with next := s.next + 1 } where
  indices := by simp [h.indices, List.range_succ, Ident.key]
  slots := by
    simp only [List.forall_mem_append, List.forall_mem_singleton]
    exact ⟨h.slots, rfl⟩
  held := by
    have old := h.held
    rw [frames_eq s, List.forall_mem_cons] at old
    rw [frames_add, List.forall_mem_cons, List.forall_mem_append, List.forall_mem_singleton]
    refine ⟨⟨fun d member => ?_, ?_⟩, fun f here d member => ?_⟩
    · exact List.mem_append_left _ (old.1 d member)
    · simp
    · exact List.mem_append_left _ (old.2 f here d member)
  apart := by
    have globals := h.apart_add name.key (some name.shown)
    unfold Slots.add
    cases s.inner with
    | nil => exact globals
    | cons => exact h.apart

theorem Step.logged (h : Step s e e' s') (logged : Logged log s) :
    ∃ new, Logged (log ++ new) s' ∧ (∀ rest, issued (e :: rest) s = new ++ issued rest s') ∧
      ∀ x, e' = .declares x ∨ e' = .uses x → x ∈ log ++ new := by
  cases h with
  | enter =>
    refine ⟨[], ?_, fun _ => rfl, nofun⟩
    rw [List.append_nil]
    exact ⟨logged.indices, logged.slots, by simpa using logged.held, logged.apart⟩
  | leave inside =>
    refine ⟨[], ?_, fun _ => rfl, nofun⟩
    obtain ⟨f, g, F, opened, left⟩ := leave_frames inside
    have held := logged.held
    rw [opened, List.forall_mem_cons, ← left] at held
    rw [List.append_nil]
    exact ⟨logged.indices, logged.slots, held.2, logged.apart⟩
  | uses run =>
    obtain ⟨found, rfl⟩ := use_ok run
    rw [find?_eq] at found
    obtain ⟨f, here, found⟩ := List.exists_of_findSome?_eq_some found
    refine ⟨[], by simpa using logged, by simp [issued, run], ?_⟩
    rintro x (same | same) <;> cases same
    exact List.mem_append_left _ (logged.found here found)
  | declares run =>
    cases declares_of_run run with
    | again found =>
      have here : s.current ∈ s.frames := by
        rw [frames_eq s]
        exact .head _
      refine ⟨[], by simpa using logged, by simp [issued, run, found], ?_⟩
      rintro x (same | same) <;> cases same
      exact List.mem_append_left _ (logged.found here found)
    | new absent => exact ⟨[_], logged.add _, by simp [issued, run, absent], by simp⟩

theorem Steps.logged (h : Steps s E out s') (logged : Logged log s) :
    ∃ new, Logged (log ++ new) s' ∧ (∀ rest, issued (E ++ rest) s = new ++ issued rest s') ∧
      ∀ x, .declares x ∈ out ∨ .uses x ∈ out → x ∈ log ++ new := by
  induction h generalizing log with
  | nil => exact ⟨[], by simpa using logged, fun _ => rfl, nofun⟩
  | cons first _ ih =>
    obtain ⟨new, logged, given, placed⟩ := first.logged logged
    obtain ⟨more, logged, given', placed'⟩ := ih logged
    rw [List.append_assoc] at logged placed'
    refine ⟨new ++ more, logged, fun rest => ?_, fun x member => ?_⟩
    · rw [List.cons_append, given, given', List.append_assoc]
    · simp only [List.mem_cons] at member
      have := placed x
      have := placed' x
      grind

theorem Halts.issued (h : Halts s e) (rest : List Event) : issued (e :: rest) s = [] := by
  cases h with
  | declares run => simp [Slots.issued, run]
  | uses run => simp [Slots.issued, run]

theorem Step.globals (h : Step s e e' s') {key : Int} {slot : Ident}
    (known : s.globals.find? key = some slot) : s'.globals.find? key = some slot := by
  cases h with
  | enter | leave => exact known
  | uses run =>
    obtain ⟨-, rfl⟩ := use_ok run
    exact known
  | declares run =>
    cases declares_of_run run with
    | again => exact known
    | new absent =>
      unfold add
      cases s.inner with
      | nil => simp [find?_snoc, known]
      | cons => exact known

theorem Steps.globals (h : Steps s E out s') {key : Int} {slot : Ident}
    (known : s.globals.find? key = some slot) : s'.globals.find? key = some slot := by
  induction h with
  | nil => exact known
  | cons first _ ih => exact ih (first.globals known)

-- Events that declare nothing outside their own scopes leave the global scope alone, wherever they end.
theorem Steps.confined (rest : List Event) (h : Steps s E out s')
    (within : Event.confined s.inner.length (E ++ rest)) : s'.globals = s.globals := by
  induction h with
  | nil => rfl
  | cons first _ ih =>
    cases first with
    | enter => exact ih within
    | leave inside =>
      simp only [List.cons_append, Event.confined, Bool.and_eq_true] at within
      exact ih (by simpa [leave] using within.2)
    | uses run =>
      obtain ⟨-, rfl⟩ := use_ok run
      exact ih within
    | declares run =>
      simp only [List.cons_append, Event.confined, Bool.and_eq_true, bne_iff_ne] at within
      have declared := declares_of_run run
      rw [ih (by rw [declared.meets.2]; exact within.2)]
      cases declared with
      | again => rfl
      | new absent =>
        unfold add
        split
        next outermost => simp [outermost] at within
        next => rfl

def OneEach (E out : List Event) : Prop :=
  ∀ i j a b x y, E[i]? = some (.declares a) → out[i]? = some (.declares x) →
    E[j]? = some (.declares b) → out[j]? = some (.declares y) →
    (x.same y ↔ a.key = b.key ∧ (scopes E i).head? = (scopes E j).head?)

theorem Fits.current {globals f : StaticScope} {n : Nat} {F : List StaticScope}
    (h : Fits globals E out n (f :: F)) :
    ∃ scope, (scopes E n).head? = some scope ∧ Holds globals E out n scope f := by
  have held := h.held
  generalize scopes E n = around at held ⊢
  cases held with
  | cons first _ => exact ⟨_, rfl, first⟩

section Places

variable {i j : Nat} {a b x y : Ident}

-- A declaration is the first of its key in its scope and takes the next slot, or it has the slot of the
-- earlier ones; in the global scope these may be from before.
theorem Steps.declared (h : Steps s E out s') (top : s.depth = 1) (here : E[i]? = some (.declares a))
    (placed : out[i]? = some (.declares x)) :
    ∃ s₁ scope, Steps s (E.take i) (out.take i) s₁ ∧ (scopes E i).head? = some scope ∧
      (x = .slot s₁.next (some a.shown) ∧ (∀ d < i, ¬ Binds E a.key scope d) ∨
        (∀ d < i, Binds E a.key scope d → out[d]? = some (.declares x)) ∧
          ((∃ d < i, Binds E a.key scope d) ∨ scope = 0 ∧ s.globals.find? a.key = some x)) := by
  obtain ⟨e', s₁, s₂, there, before, step, after⟩ := h.at_place here
  cases placed.symm.trans there
  have traces := before.traces
  rw [frames_top top] at traces
  have fits := traces.fits (Nat.le_of_lt (List.getElem?_eq_some_iff.1 here).1)
  rw [frames_eq s₁] at fits
  obtain ⟨scope, home, holds⟩ := fits.current
  refine ⟨s₁, scope, before, home, ?_⟩
  cases step with
  | declares run =>
    cases declares_of_run run with
    | again found =>
      refine .inr ⟨fun d lt binds => ?_, (holds.source found).imp_left ?_⟩
      · obtain ⟨slot, earlier, known⟩ := holds.declared lt binds
        cases found.symm.trans known
        rwa [List.getElem?_take_of_lt lt] at earlier
      · rintro ⟨d, lt, binds, -⟩
        exact ⟨d, lt, binds⟩
    | new absent =>
      refine .inl ⟨rfl, fun d lt binds => ?_⟩
      obtain ⟨_, -, found⟩ := holds.declared lt binds
      exact nomatch absent.symm.trans found

-- Slots from before are those of global declarations.
theorem Steps.origin (h : Steps s E out s') (top : s.depth = 1) (here : E[i]? = some (.declares a))
    (placed : out[i]? = some (.declares x)) :
    (scopes E i).head? = some 0 ∧ s.globals.find? a.key = some x ∨ s.next ≤ x.key := by
  induction i using Nat.strongRecOn generalizing a with
  | _ i ih =>
    obtain ⟨s₁, scope, before, home, ⟨rfl, -⟩ | ⟨slots, ⟨d, lt, binds⟩ | ⟨rfl, known⟩⟩⟩ :=
      h.declared top here placed
    · exact .inr (Int.ofNat_le.2 before.next_le)
    · have earlier := slots d lt binds
      obtain ⟨home', name, there, key⟩ := binds
      rw [home, ← home', ← key]
      exact ih d lt there earlier
    · exact .inl ⟨home, known⟩

theorem Steps.key_lt (h : Steps s E out s') (logged : Logged log s) (placed : .declares x ∈ out) :
    x.key < s'.next := by
  obtain ⟨new, logged, -, slots⟩ := h.logged logged
  exact logged.below (slots x (.inl placed))

theorem Steps.same_place (h : Steps s E out s') (top : s.depth = 1) (logged : Logged log s)
    (lt : i < j) (here : E[i]? = some (.declares a)) (placed : out[i]? = some (.declares x))
    (there : E[j]? = some (.declares b)) (placed' : out[j]? = some (.declares y))
    (same : x.key = y.key) : a.key = b.key ∧ (scopes E i).head? = (scopes E j).head? := by
  induction j using Nat.strongRecOn generalizing i a x b y with
  | _ j ih =>
    obtain ⟨s₁, scope, before, home, ⟨rfl, -⟩ | ⟨slots, ⟨d, earlier, binds⟩ | ⟨rfl, known⟩⟩⟩ :=
      h.declared top there placed'
    · -- A slot that has just been given out is none of those before it.
      have below := before.key_lt logged (x := x) (List.mem_of_getElem? (by
        rw [List.getElem?_take_of_lt lt]
        exact placed))
      exact absurd same (Int.ne_of_lt below)
    · have found := slots d earlier binds
      obtain ⟨home', name, at_d, key⟩ := binds
      rw [home, ← home', ← key]
      obtain before_i | rfl | after_i := Nat.lt_trichotomy d i
      · have := ih i lt before_i at_d found here placed same.symm
        exact ⟨this.1.symm, this.2.symm⟩
      · cases here.symm.trans at_d
        exact ⟨rfl, rfl⟩
      · exact ih d earlier after_i here placed at_d found same
    · obtain ⟨home', known'⟩ | above := h.origin top here placed
      · exact ⟨logged.apart _ _ _ _ known' known same, home'.trans home.symm⟩
      · have below := logged.below (logged.found (by simp [frames]) known)
        omega

theorem Steps.oneEach (h : Steps s E out s') (top : s.depth = 1) (logged : Logged log s) :
    OneEach E out := by
  have resolved : ∀ {x}, .declares x ∈ out → x.isResolved := by
    intro x member
    obtain ⟨new, logged, -, slots⟩ := h.logged logged
    exact logged.slots x (slots x (.inl member))
  -- It is enough to look at declarations in their order.
  have ordered : ∀ {i j a b x y}, i < j → E[i]? = some (.declares a) → out[i]? = some (.declares x) →
      E[j]? = some (.declares b) → out[j]? = some (.declares y) →
      (x.key = y.key ↔ a.key = b.key ∧ (scopes E i).head? = (scopes E j).head?) := by
    intro i j a b x y lt here placed there placed'
    refine ⟨h.same_place top logged lt here placed there placed', ?_⟩
    rintro ⟨key, home⟩
    obtain ⟨s₁, scope, -, home', ⟨-, first⟩ | ⟨slots, -⟩⟩ := h.declared top there placed'
    · exact absurd ⟨home.trans home', a, here, key⟩ (first i lt)
    · cases placed.symm.trans (slots i lt ⟨home.trans home', a, here, key⟩)
      rfl
  intro i j a b x y here placed there placed'
  rw [same_iff_key (resolved (List.mem_of_getElem? placed)) (resolved (List.mem_of_getElem? placed'))]
  obtain lt | rfl | gt := Nat.lt_trichotomy i j
  · exact ordered lt here placed there placed'
  · cases here.symm.trans there
    cases placed.symm.trans placed'
    simp
  · rw [eq_comm, ordered gt there placed' here placed]
    exact and_congr eq_comm eq_comm

end Places

end Lox.Slots
