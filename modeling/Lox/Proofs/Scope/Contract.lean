import Lox.Proofs.Scope.Mirror

set_option autoImplicit false

namespace Lox.Scopes

variable {κ ν : Type}

inductive Ask (κ ν : Type) where
  | child
  | define (key : κ) (value : ν)
  | assign (key : κ) (value : ν)
  | get (key : κ)
  | holds (key : κ)
  | retain
  | release

/-- Frames are known by their places in the order of their creation; the root comes first. -/
structure Request (κ ν : Type) where
  frame : Nat
  ask : Ask κ ν

inductive Answer (ν : Type) where
  | done
  | value (found : Option ν)
  | flag (holds : Bool)
  deriving DecidableEq, Repr

section Perform

variable [DecidableEq κ]

def Ask.perform (held : List ScopeId) (s : ScopeId) :
    Ask κ ν → Work κ ν (Answer ν × List ScopeId)
  | .child => do return (.done, held ++ [← Scopes.child s])
  | .define key value => do return (.value (← Scopes.define s key value), held)
  | .assign key value => do return (.value (← Scopes.assign s key value), held)
  | .get key => do return (.value (← Scopes.get? s key), held)
  | .holds key => do return (.flag (← Scopes.holds s key), held)
  | .retain => do
    Scopes.retain s
    return (.done, held)
  | .release => do
    Scopes.release s
    return (.done, held)

def performAll (held : List ScopeId) : List (Request κ ν) → Work κ ν (List (Answer ν))
  | [] => return []
  | request :: rest => do
    let (answer, held) ← request.ask.perform held (held.getD request.frame root)
    return answer :: (← performAll held rest)

end Perform

structure Frames where
  /-- For each frame, itself and the frames that it lies in, from the inside out. -/
  lines : List (List Nat)
  retained : List Nat
  gone : List Nat

namespace Frames

def start : Frames := ⟨[[0]], [], []⟩

def line (F : Frames) (f : Nat) : List Nat := F.lines.getD f []

def Open (F : Frames) (f : Nat) : Prop := f < F.lines.length ∧ ∀ g ∈ F.line f, g ∉ F.gone

def Kept (F : Frames) (f : Nat) : Prop := ∃ r ∈ F.retained, f ∈ F.line r

instance (F : Frames) (f : Nat) : Decidable (F.Open f) :=
  inferInstanceAs (Decidable (f < F.lines.length ∧ ∀ g ∈ F.line f, g ∉ F.gone))

instance (F : Frames) (f : Nat) : Decidable (F.Kept f) :=
  inferInstanceAs (Decidable (∃ r ∈ F.retained, f ∈ F.line r))

def extend (F : Frames) (f : Nat) : Frames :=
  { F with lines := F.lines ++ [F.lines.length :: F.line f] }

def after (F : Frames) (f : Nat) : Ask κ ν → Frames
  | .child => F.extend f
  | .retain => { F with retained := f :: F.retained }
  | .release => if f = 0 ∨ F.Kept f then F else { F with gone := f :: F.gone }
  | _ => F

def Obeys (F : Frames) : List (Request κ ν) → Prop
  | [] => True
  | request :: rest => F.Open request.frame ∧ (F.after request.frame request.ask).Obeys rest

instance decidableObeys (F : Frames) : (requests : List (Request κ ν)) → Decidable (F.Obeys requests)
  | [] => .isTrue trivial
  | request :: rest =>
    have := decidableObeys (F.after request.frame request.ask) rest
    inferInstanceAs (Decidable (_ ∧ _))

variable (F : Frames) (f : Nat) {g : Nat}

theorem length_extend : (F.extend f).lines.length = F.lines.length + 1 := by
  simp [extend]

theorem line_extend (below : g < F.lines.length) : (F.extend f).line g = F.line g := by
  simp [extend, line, List.getD_eq_getElem?_getD, List.getElem?_append_left below]

theorem line_extend_new : (F.extend f).line F.lines.length = F.lines.length :: F.line f := by
  simp [extend, line, List.getD_eq_getElem?_getD]

theorem new_or_open (opened : (F.extend f).Open g) : g = F.lines.length ∨ F.Open g := by
  rcases Nat.lt_succ_iff_lt_or_eq.1 (F.length_extend f ▸ opened.1) with below | same
  · exact .inr ⟨below, F.line_extend f below ▸ opened.2⟩
  · exact .inl same

end Frames

structure Abreast (F : Frames) (held : List ScopeId) (c : Chain κ ν) (a : Arena κ ν) : Prop where
  held : held = (List.range F.lines.length).map Int.ofNat
  sizes : c.table.size = F.lines.length ∧ a.table.size = F.lines.length
  above : ∀ f < F.lines.length, ∃ (up : Option Nat) (b : Bindings κ ν),
    c.frame? f = some ⟨up.map Int.ofNat, b⟩ ∧ F.line f = f :: up.elim [] F.line ∧ ∀ q ∈ up, q < f
  alike : ∀ f, F.Open f → a.cell? f = c.frame? f
  retained : ∀ f, F.Open f → ((f : Int) ∈ a.retained ↔ F.Kept f)
  marks : ∀ s : Int, s ∈ a.retained → s < F.lines.length
  known : ∀ f ∈ F.retained, f < F.lines.length

namespace Abreast

variable {F : Frames} {held : List ScopeId} {c : Chain κ ν} {a : Arena κ ν} {f g : Nat}

theorem new : Abreast .start [root] (.new : Chain κ ν) .new where
  held := rfl
  sizes := ⟨rfl, rfl⟩
  above f below := by
    obtain rfl : f = 0 := Nat.lt_one_iff.1 below
    exact ⟨none, [], rfl, rfl, nofun⟩
  alike f opened := by
    obtain rfl : f = 0 := Nat.lt_one_iff.1 opened.1
    rfl
  retained f _ := by simp [Frames.Kept, Frames.start, Arena.new]
  marks := nofun
  known := nofun

theorem mem_line_self (h : Abreast F held c a) (below : f < F.lines.length) : f ∈ F.line f := by
  obtain ⟨up, b, -, line, -⟩ := h.above f below
  rw [line]
  exact List.mem_cons_self

theorem of_mem_line (h : Abreast F held c a) (below : f < F.lines.length) (mem : g ∈ F.line f) :
    g ≤ f ∧ F.line g ⊆ F.line f := by
  induction f using Nat.strongRecOn with
  | ind f ih =>
    obtain ⟨up, b, -, line, older⟩ := h.above f below
    rw [line] at mem
    rcases List.mem_cons.1 mem with rfl | mem
    · exact ⟨Nat.le_refl g, List.Subset.refl _⟩
    · cases up with
      | none => cases mem
      | some q =>
        have less := older q rfl
        obtain ⟨bound, sub⟩ := ih q less (by omega) mem
        refine ⟨by omega, ?_⟩
        rw [line]
        exact List.subset_cons_of_subset f sub

theorem open_of_mem_line (h : Abreast F held c a) (opened : F.Open f) (mem : g ∈ F.line f) :
    F.Open g := by
  obtain ⟨bound, sub⟩ := h.of_mem_line opened.1 mem
  exact ⟨Nat.lt_of_le_of_lt bound opened.1, fun k within => opened.2 k (sub within)⟩

theorem entry (h : Abreast F held c a) (opened : F.Open f) :
    ∃ (up : Option Nat) (b : Bindings κ ν), a.cell? f = some ⟨up.map Int.ofNat, b⟩ ∧
      c.frame? f = some ⟨up.map Int.ofNat, b⟩ ∧ F.line f = f :: up.elim [] F.line ∧
      ∀ q ∈ up, q < f ∧ F.Open q := by
  obtain ⟨up, b, frame, line, older⟩ := h.above f opened.1
  refine ⟨up, b, (h.alike f opened).trans frame, frame, line, ?_⟩
  rintro q ⟨⟩
  have less := older q rfl
  refine ⟨less, h.open_of_mem_line opened ?_⟩
  rw [line]
  exact List.mem_cons_of_mem f (h.mem_line_self (Nat.lt_trans less opened.1))

theorem getD_held (h : Abreast F held c a) (below : f < F.lines.length) :
    held.getD f root = f := by
  rw [h.held]
  simp [List.getD_eq_getElem?_getD, below]

section Asks

variable [DecidableEq κ]

theorem findIn_run (h : Abreast F held c a) (key : κ) (steps : Nat) (opened : F.Open f) :
    (Arena.findIn key steps f).run a = (.ok (c.findIn key steps f), a) ∧
      ∀ s, c.findIn key steps f = some s → ∃ g : Nat, s = g ∧ F.Open g := by
  induction steps generalizing f with
  | zero =>
    refine ⟨rfl, ?_⟩
    rintro s ⟨⟩
  | succ steps ih =>
    obtain ⟨up, b, cell, frame, -, above⟩ := h.entry opened
    rw [Arena.findIn_step, cell, Chain.findIn, frame]
    dsimp only
    by_cases holds : b.holds key
    · rw [if_pos holds, if_pos holds]
      refine ⟨rfl, ?_⟩
      rintro s ⟨⟩
      exact ⟨f, rfl, opened⟩
    · rw [if_neg holds, if_neg holds]
      cases up with
      | none =>
        refine ⟨rfl, ?_⟩
        rintro s ⟨⟩
      | some q => exact ih (above q rfl).2

theorem get?_run (h : Abreast F held c a) (key : κ) (opened : F.Open f) :
    (Arena.get? f key).run a = (.ok (c.get? f key), a) := by
  obtain ⟨run, found⟩ := h.findIn_run key ((f : Int).toNat + 1) opened
  unfold Arena.get? Arena.find Chain.get? Chain.find?
  rw [run_bind, run]
  dsimp only
  cases place : c.findIn key ((f : Int).toNat + 1) f with
  | none => rfl
  | some s =>
    obtain ⟨g, rfl, there⟩ := found s place
    obtain ⟨up, b, cell, frame, -⟩ := h.entry there
    obtain ⟨children, run'⟩ := Arena.frame_run cell
    dsimp only
    rw [run_bind, run', Option.bind_some, Chain.bindingsOf, frame]
    rfl

theorem holds_run (h : Abreast F held c a) (key : κ) (opened : F.Open f) :
    (Arena.holds f key).run a = (.ok ((c.bindingsOf f).holds key), a) := by
  obtain ⟨up, b, cell, frame, -⟩ := h.entry opened
  obtain ⟨children, run⟩ := Arena.frame_run cell
  unfold Arena.holds
  rw [run_bind, run, Chain.bindingsOf, frame]
  rfl

theorem define_run (h : Abreast F held c a) (key : κ) (value : ν) (opened : F.Open f) :
    ∃ a', (Arena.define f key value).run a = (.ok (c.define f key value).1, a') ∧
      Abreast F held (c.define f key value).2 a' := by
  obtain ⟨up, b, cell, frame, -⟩ := h.entry opened
  obtain ⟨a', run, seen, size, retained, -⟩ := Arena.define_run cell key value
  have bound : ∀ g : Nat, (c.bind f key value).frame? g =
      if (g : Int) = f then some ⟨up.map Int.ofNat, b.put key value⟩ else c.frame? g := by
    intro g
    rw [Chain.frame?_bind c key value (Int.natCast_nonneg f) (Int.natCast_nonneg g), frame]
    rfl
  refine ⟨a', ?_, h.held, ⟨?_, size.trans h.sizes.2⟩, ?_, ?_, ?_, ?_, h.known⟩
  · rw [run, Chain.define, Chain.bindingsOf, frame]
    rfl
  · simpa [Chain.define, Chain.bind] using h.sizes.1
  · intro g below
    obtain ⟨up', b', frame', line, older⟩ := h.above g below
    by_cases same : (g : Int) = f
    · cases Int.ofNat.inj same
      obtain ⟨parent, -⟩ := Chain.Entry.mk.inj (Option.some.inj (frame.symm.trans frame'))
      exact ⟨up', b.put key value, parent ▸ (bound f).trans (if_pos rfl), line, older⟩
    · exact ⟨up', b', (bound g).trans ((if_neg same).trans frame'), line, older⟩
  · intro g opened'
    rw [seen]
    refine Eq.trans ?_ (bound g).symm
    rw [h.alike g opened']
  · intro g opened'
    rw [retained]
    exact h.retained g opened'
  · rw [retained]
    exact h.marks

theorem assign_run (h : Abreast F held c a) (key : κ) (value : ν) (opened : F.Open f) :
    ∃ a', (Arena.assign f key value).run a = (.ok (c.assign f key value).1, a') ∧
      Abreast F held (c.assign f key value).2 a' := by
  obtain ⟨run, found⟩ := h.findIn_run key ((f : Int).toNat + 1) opened
  unfold Arena.assign Arena.find Chain.assign Chain.find?
  rw [run_bind, run]
  dsimp only
  cases place : c.findIn key ((f : Int).toNat + 1) f with
  | none => exact ⟨a, rfl, h⟩
  | some s =>
    obtain ⟨g, rfl, there⟩ := found s place
    exact h.define_run key value there

end Asks

theorem child_run (h : Abreast F held c a) (opened : F.Open f) :
    ∃ a', (Arena.add f).run a = (.ok (c.child f).1, a') ∧
      Abreast (F.extend f) (held ++ [(c.child f).1]) (c.child f).2 a' := by
  obtain ⟨up, b, cell, -⟩ := h.entry opened
  obtain ⟨a', run, seen, size, retained, -⟩ := Arena.add_run cell
  obtain ⟨chain, arena⟩ := h.sizes
  have added : ∀ g : Nat, (c.child f).2.frame? g =
      if g = F.lines.length then some ⟨some (f : Int), []⟩ else c.frame? g := by
    intro g
    rw [Chain.frame?_child c f (Int.natCast_nonneg g), chain]
    simp only [Int.natCast_inj]
  have kept : ∀ g, (F.extend f).Kept g ↔ F.Kept g := by
    intro g
    refine exists_congr fun r => and_congr_right fun member => ?_
    rw [F.line_extend f (h.known r member)]
  refine ⟨a', ?_, ?_, ⟨?_, ?_⟩, ?_, ?_, ?_, ?_, ?_⟩
  · rw [run, arena, Chain.child, chain]
  · rw [h.held, F.length_extend, List.range_succ, List.map_append, Chain.child, chain]
    rfl
  · simp [Chain.child, F.length_extend, chain]
  · rw [size, F.length_extend, arena]
  · intro g below
    rcases Nat.lt_succ_iff_lt_or_eq.1 (F.length_extend f ▸ below) with below | rfl
    · obtain ⟨up', b', frame, line, older⟩ := h.above g below
      refine ⟨up', b', ?_, ?_, older⟩
      · rw [added, if_neg (Nat.ne_of_lt below), frame]
      · rw [F.line_extend f below, line]
        cases up' with
        | none => rfl
        | some q => exact congrArg _ (F.line_extend f (Nat.lt_trans (older q rfl) below)).symm
    · refine ⟨some f, [], ?_, ?_, ?_⟩
      · rw [added, if_pos rfl]
        rfl
      · rw [F.line_extend_new]
        exact congrArg _ (F.line_extend f opened.1).symm
      · rintro q ⟨⟩
        exact opened.1
  · intro g opened'
    rw [seen, added, arena]
    simp only [Int.natCast_inj]
    rcases F.new_or_open f opened' with rfl | there
    · simp only [if_true]
    · rw [h.alike g there]
  · intro g opened'
    rw [retained, kept]
    rcases F.new_or_open f opened' with rfl | there
    · -- The new frame bears no mark yet, and nothing that is retained lies in it.
      constructor
      · intro member
        exact absurd (h.marks _ member) (Int.lt_irrefl _)
      · rintro ⟨r, member, within⟩
        have below := h.known r member
        exact absurd (h.of_mem_line below within).1 (Nat.not_le_of_lt below)
    · exact h.retained g there
  · rw [retained, F.length_extend]
    intro s member
    have := h.marks s member
    omega
  · intro g member
    rw [F.length_extend]
    exact Nat.lt_succ_of_lt (h.known g member)

/-- Retaining marks the frame and all that it lies in. It goes up no further than to the first frame
that bears a mark, for from there on all of them do. -/
theorem retainFrom_run (h : Abreast F held c a) (steps : Nat) {marks : List ScopeId}
    (enough : f < steps) (opened : F.Open f)
    (upward : ∀ g ∈ F.line f, (g : Int) ∈ marks → ∀ k ∈ F.line g, (k : Int) ∈ marks) :
    ∃ marks', (Arena.retainFrom steps f).run { a with retained := marks } =
        (.ok (), { a with retained := marks' }) ∧
      ∀ s, s ∈ marks' ↔ s ∈ marks ∨ ∃ g ∈ F.line f, s = (g : Int) := by
  induction steps generalizing f marks with
  | zero => omega
  | succ steps ih =>
    obtain ⟨up, b, cell, -, line, above⟩ := h.entry opened
    rw [Arena.retainFrom_step]
    by_cases marked : (f : Int) ∈ marks
    · rw [if_pos marked]
      refine ⟨marks, rfl, ?_⟩
      intro s
      constructor
      · exact .inl
      · rintro (member | ⟨g, within, rfl⟩)
        · exact member
        · exact upward f (h.mem_line_self opened.1) marked g within
    · have here : ({ a with retained := marks } : Arena κ ν).cell? f =
        some ⟨up.map Int.ofNat, b⟩ := cell
      rw [if_neg marked, here]
      dsimp only
      cases up with
      | none =>
        refine ⟨(f : Int) :: marks, rfl, ?_⟩
        intro s
        rw [line]
        simp [or_comm]
      | some q =>
        obtain ⟨less, there⟩ := above q rfl
        have upward' : ∀ g ∈ F.line q, (g : Int) ∈ (f : Int) :: marks →
            ∀ k ∈ F.line g, (k : Int) ∈ (f : Int) :: marks := by
          intro g within member k inside
          have bound := (h.of_mem_line there.1 within).1
          have member : (g : Int) ∈ marks := by
            rcases List.mem_cons.1 member with same | member
            · omega
            · exact member
          refine List.mem_cons_of_mem _ (upward g ?_ member k inside)
          rw [line]
          exact List.mem_cons_of_mem f within
        obtain ⟨marks', run', all⟩ := ih (by omega) there upward'
        refine ⟨marks', run', ?_⟩
        intro s
        rw [all, line]
        simp [or_assoc, or_comm]

theorem retain_run (h : Abreast F held c a) (opened : F.Open f) :
    ∃ a', (Arena.retain f).run a = (.ok (), a') ∧
      Abreast { F with retained := f :: F.retained } held c a' := by
  have upward : ∀ g ∈ F.line f, (g : Int) ∈ a.retained → ∀ k ∈ F.line g, (k : Int) ∈ a.retained := by
    intro g within marked k inside
    have there := h.open_of_mem_line opened within
    obtain ⟨r, member, below⟩ := (h.retained g there).1 marked
    refine (h.retained k (h.open_of_mem_line there inside)).2 ⟨r, member, ?_⟩
    exact (h.of_mem_line (h.known r member) below).2 inside
  obtain ⟨marks, run, all⟩ := h.retainFrom_run ((f : Int).toNat + 1) (by omega) opened upward
  refine ⟨_, run, h.held, h.sizes, h.above, h.alike, ?_, ?_, ?_⟩
  · intro g opened'
    rw [all, h.retained g opened', Frames.Kept, Frames.Kept]
    simp only [List.exists_mem_cons_iff, Int.natCast_inj, exists_eq_right']
    exact or_comm
  · intro s member
    rcases (all s).1 member with member | ⟨g, within, rfl⟩
    · exact h.marks s member
    · exact_mod_cast (h.open_of_mem_line opened within).1
  · intro g member
    rcases List.mem_cons.1 member with rfl | member
    · exact opened.1
    · exact h.known g member

theorem release_run [DecidableEq κ] (h : Abreast F held c a) (opened : F.Open f) :
    ∃ a', (Arena.release f).run a = (.ok (), a') ∧
      Abreast (F.after f (.release : Ask κ ν)) held c a' := by
  unfold Frames.after
  by_cases top : f = 0
  · rw [if_pos (.inl top), Arena.release, if_pos (by rw [top]; rfl)]
    exact ⟨a, rfl, h⟩
  have inner : (f : Int) ≠ root := by
    change (f : Int) ≠ 0
    omega
  rw [Arena.release_eq inner]
  by_cases kept : F.Kept f
  · rw [if_pos ((h.retained f opened).2 kept), if_pos (.inr kept)]
    exact ⟨_, rfl, h.held, h.sizes, h.above, h.alike, h.retained, h.marks, h.known⟩
  · have unmarked : (f : Int) ∉ a.retained := fun marked => kept ((h.retained f opened).1 marked)
    obtain ⟨up, b, cell, -⟩ := h.entry opened
    obtain ⟨a', run, seen, size, retained, -⟩ := Arena.drop_run cell inner
    rw [List.erase_of_not_mem unmarked] at retained
    rw [if_neg unmarked, if_neg (by simp [top, kept])]
    have before : ∀ g, ({ F with gone := f :: F.gone } : Frames).Open g → F.Open g ∧ g ≠ f := by
      rintro g ⟨below, apart⟩
      refine ⟨⟨below, fun k within member => apart k within (List.mem_cons_of_mem f member)⟩, ?_⟩
      rintro rfl
      exact apart g (h.mem_line_self below) List.mem_cons_self
    refine ⟨a', run, h.held, ⟨h.sizes.1, size.trans h.sizes.2⟩, h.above, ?_, ?_, ?_, h.known⟩
    · intro g opened'
      obtain ⟨there, other⟩ := before g opened'
      rw [seen, if_neg (by omega), h.alike g there]
    · intro g opened'
      rw [retained]
      exact h.retained g (before g opened').1
    · rw [retained]
      exact h.marks

theorem answered {α : Type} {F' : Frames} {a' : Arena κ ν} (onChain : Chain κ ν → α × Chain κ ν)
    {onArena : Arena.Work κ ν α} (run : onArena.run a = (.ok (onChain c).1, a'))
    (answer : α → Answer ν × List ScopeId)
    (after : Abreast F' (answer (onChain c).1).2 (onChain c).2 a') :
    ∃ x held' c' a',
      (do return answer (← either onChain onArena) : Work κ ν _).run (.chain c) =
        (.ok (x, held'), .chain c') ∧
      (do return answer (← either onChain onArena) : Work κ ν _).run (.arena a) =
        (.ok (x, held'), .arena a') ∧
      Abreast F' held' c' a' := by
  have arena : (either onChain onArena).run (.arena a) = (.ok (onChain c).1, .arena a') := by
    change ((onArena.run a).1, Scopes.arena (onArena.run a).2) = _
    rw [run]
  refine ⟨_, _, _, a', rfl, ?_, after⟩
  rw [run_bind, arena]
  rfl

variable [DecidableEq κ]

theorem perform_run (h : Abreast F held c a) (opened : F.Open f) (ask : Ask κ ν) :
    ∃ answer held' c' a',
      (ask.perform held f).run (.chain c) = (.ok (answer, held'), .chain c') ∧
      (ask.perform held f).run (.arena a) = (.ok (answer, held'), .arena a') ∧
      Abreast (F.after f ask) held' c' a' := by
  cases ask with
  | child =>
    obtain ⟨a', run, after⟩ := h.child_run opened
    exact answered (·.child f) run (fun s => (.done, held ++ [s])) after
  | define key value =>
    obtain ⟨a', run, after⟩ := h.define_run key value opened
    exact answered (·.define f key value) run (fun x => (.value x, held)) after
  | assign key value =>
    obtain ⟨a', run, after⟩ := h.assign_run key value opened
    exact answered (·.assign f key value) run (fun x => (.value x, held)) after
  | get key =>
    exact answered (fun c => (c.get? f key, c)) (h.get?_run key opened) (fun x => (.value x, held)) h
  | holds key =>
    exact answered (fun c => ((c.bindingsOf f).holds key, c)) (h.holds_run key opened)
      (fun x => (.flag x, held)) h
  | retain =>
    obtain ⟨a', run, after⟩ := h.retain_run opened
    exact answered (fun c => ((), c)) run (fun _ => (.done, held)) after
  | release =>
    obtain ⟨a', run, after⟩ := h.release_run opened
    exact answered (fun c => ((), c)) run (fun _ => (.done, held)) after

theorem performAll_run (h : Abreast F held c a) (requests : List (Request κ ν))
    (obeys : F.Obeys requests) :
    ∃ answers c' a',
      (performAll held requests).run (.chain c) = (.ok answers, .chain c') ∧
      (performAll held requests).run (.arena a) = (.ok answers, .arena a') := by
  induction requests generalizing F held c a with
  | nil => exact ⟨[], c, a, rfl, rfl⟩
  | cons request rest ih =>
    obtain ⟨opened, obeys⟩ := obeys
    obtain ⟨answer, held', c', a', chain, arena, after⟩ := h.perform_run opened request.ask
    obtain ⟨answers, c'', a'', chain', arena'⟩ := ih after obeys
    refine ⟨answer :: answers, c'', a'', ?_, ?_⟩
    · unfold performAll
      rw [h.getD_held opened.1, run_bind, chain]
      dsimp only
      rw [run_bind, chain']
      rfl
    · unfold performAll
      rw [h.getD_held opened.1, run_bind, arena]
      dsimp only
      rw [run_bind, arena']
      rfl

end Abreast

variable [DecidableEq κ]

/-- However scopes are kept, requests that obey the rule get the same answers, and none of them
fails. -/
theorem same_answers (requests : List (Request κ ν)) (obeys : Frames.start.Obeys requests) :
    ∃ answers c a,
      (performAll [root] requests).run (.chain .new) = (.ok answers, .chain c) ∧
      (performAll [root] requests).run (.arena .new) = (.ok answers, .arena a) :=
  Abreast.new.performAll_run requests obeys

-- Frame 1 is released with its child retained, and stays; frame 3 goes.
def capturing : List (Request Nat Nat) :=
  [⟨0, .define 1 10⟩, ⟨0, .child⟩, ⟨1, .define 1 20⟩, ⟨1, .child⟩, ⟨2, .retain⟩, ⟨1, .release⟩,
    ⟨2, .assign 1 30⟩, ⟨0, .child⟩, ⟨3, .release⟩, ⟨0, .child⟩, ⟨1, .holds 1⟩, ⟨1, .get 1⟩, ⟨4, .get 1⟩,
    ⟨4, .get 2⟩]

theorem same_answers_capturing :
    ∃ answers c a,
      (performAll [root] capturing).run (.chain .new) = (.ok answers, .chain c) ∧
      (performAll [root] capturing).run (.arena .new) = (.ok answers, .arena a) :=
  same_answers capturing (by decide)

end Lox.Scopes
