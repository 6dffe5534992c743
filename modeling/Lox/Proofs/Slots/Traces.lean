import Mathlib.Data.List.Forall2
import Lox.Proofs.Slots.Events

set_option autoImplicit false

namespace Lox

namespace Event

/-- The scopes around a place, the innermost first. A scope is known by the place where it begins; the
global one is 0. -/
def scopes (E : List Event) : Nat → List Nat
  | 0 => [0]
  | place + 1 =>
    match E[place]? with
    | some .enter => (place + 1) :: scopes E place
    | some .leave => (scopes E place).tail
    | _ => scopes E place

def Binds (E : List Event) (key : Int) (scope place : Nat) : Prop :=
  (scopes E place).head? = some scope ∧ ∃ name, E[place]? = some (.declares name) ∧ name.key = key

variable {E : List Event} {key : Int} {scope place n : Nat}

theorem scopes_le (E : List Event) (n : Nat) : ∀ scope ∈ scopes E n, scope ≤ n := by
  induction n with
  | zero => simp [scopes]
  | succ n ih =>
    have earlier : ∀ scope ∈ scopes E n, scope ≤ n + 1 := fun scope h => Nat.le_succ_of_le (ih scope h)
    unfold scopes
    split
    · simpa using earlier
    · exact fun scope h => earlier scope (List.mem_of_mem_tail h)
    · exact earlier

theorem scopes_sorted (E : List Event) (n : Nat) : (scopes E n).Pairwise (· > ·) := by
  induction n with
  | zero => simp [scopes]
  | succ n ih =>
    unfold scopes
    split
    · exact List.pairwise_cons.2 ⟨fun scope h => Nat.lt_succ_of_le (scopes_le E n scope h), ih⟩
    · exact ih.tail
    · exact ih

theorem Binds.le (h : Binds E key scope place) : scope ≤ place :=
  scopes_le E place scope (List.mem_of_mem_head? h.1)

end Event

namespace Slots

open Event (scopes Binds)

def lookup (F : List StaticScope) (key : Int) : Option Ident := F.findSome? (·.find? key)

/-- One event, met with these scopes open, of which the last is never left. A new declaration may get
any slot; a use may go without one where `lax` allows it. -/
inductive Meets (lax : Bool) : List StaticScope → Event → Event → List StaticScope → Prop
  | enter {F} : Meets lax F .enter .enter ([] :: F)
  | leave {f g F} : Meets lax (f :: g :: F) .leave .leave (g :: F)
  | again {f F name slot} : f.find? name.key = some slot →
      Meets lax (f :: F) (.declares name) (.declares slot) (f :: F)
  | new {f F name} (slot : Ident) : f.find? name.key = none →
      Meets lax (f :: F) (.declares name) (.declares slot) ((f ++ [(name.key, slot)]) :: F)
  | finds {F name slot} : lookup F name.key = some slot → Meets lax F (.uses name) (.uses slot) F
  | misses {F name} : lax = true → lookup F name.key = none → Meets lax F (.uses name) (.uses name) F

inductive Traces (lax : Bool) : List StaticScope → List Event → List Event → List StaticScope → Prop
  | nil {F} : Traces lax F [] [] F
  | cons {F F₁ F₂ e e' E out} :
      Meets lax F e e' F₁ → Traces lax F₁ E out F₂ → Traces lax F (e :: E) (e' :: out) F₂

variable {lax : Bool} {F F₁ F₂ : List StaticScope} {e e' : Event} {E E' out out' : List Event}

theorem Meets.after_enter (h : Meets lax F .enter e' F₁) : F₁ = [] :: F := by
  cases h
  rfl

theorem Meets.after_leave (h : Meets lax F .leave e' F₁) : F₁ = F.tail := by
  cases h
  rfl

theorem Meets.after_uses {name : Ident} (h : Meets lax F (.uses name) e' F₁) : F₁ = F := by
  cases h <;> rfl

theorem Meets.after_declares {f : StaticScope} {name : Ident}
    (h : Meets lax (f :: F) (.declares name) e' F₁) : ∃ f', F₁ = f' :: F := by
  cases h with
  | again => exact ⟨f, rfl⟩
  | new slot => exact ⟨f ++ [(name.key, slot)], rfl⟩

theorem Meets.relax (h : Meets lax F e e' F₁) : Meets true F e e' F₁ := by
  cases h with
  | enter => exact .enter
  | leave => exact .leave
  | again found => exact .again found
  | new slot absent => exact .new slot absent
  | finds found => exact .finds found
  | misses _ absent => exact .misses rfl absent

theorem Traces.relax (h : Traces lax F E out F₁) : Traces true F E out F₁ := by
  induction h with
  | nil => exact .nil
  | cons first _ ih => exact .cons first.relax ih

theorem Traces.one (h : Meets lax F e e' F₁) : Traces lax F [e] [e'] F₁ := .cons h .nil

theorem Traces.append (h : Traces lax F E out F₁) (h' : Traces lax F₁ E' out' F₂) :
    Traces lax F (E ++ E') (out ++ out') F₂ := by
  induction h with
  | nil => exact h'
  | cons first _ ih => exact .cons first (ih h')

theorem Traces.split (h : Traces lax F (E ++ E') out F₂) :
    ∃ out₁ out₂ F₁, out = out₁ ++ out₂ ∧ Traces lax F E out₁ F₁ ∧ Traces lax F₁ E' out₂ F₂ := by
  induction E generalizing F out with
  | nil => exact ⟨[], out, F, rfl, .nil, h⟩
  | cons e E ih =>
    cases h with
    | cons first rest =>
      obtain ⟨out₁, out₂, F₁, rfl, before, after⟩ := ih rest
      exact ⟨_ :: out₁, out₂, F₁, rfl, .cons first before, after⟩

theorem Traces.length_eq (h : Traces lax F E out F₁) : out.length = E.length := by
  induction h with
  | nil => rfl
  | cons _ _ ih => simp [ih]

theorem Traces.at_place {place : Nat} (h : Traces lax F E out F₂) (here : E[place]? = some e) :
    ∃ e' F₁ F', out[place]? = some e' ∧ Traces lax F (E.take place) (out.take place) F₁ ∧
      Meets lax F₁ e e' F' := by
  induction h generalizing place with
  | nil => cases here
  | cons first _ ih =>
    cases place with
    | zero =>
      cases here
      exact ⟨_, _, _, rfl, .nil, first⟩
    | succ place =>
      obtain ⟨e', F₁, F', placed, before, meets⟩ := ih here
      exact ⟨e', F₁, F', placed, .cons first before, meets⟩

-- Events that close what they open and declare nothing outside leave the outer scopes alone.
theorem Traces.level {depth : Nat} {G : List StaticScope} (h : Traces lax (G ++ F) E out F₁)
    (within : Event.confined depth E) (opened : G.length = depth) : F₁ = F := by
  induction E generalizing depth G out with
  | nil =>
    cases h
    simp only [Event.confined, beq_iff_eq] at within
    rw [List.length_eq_zero_iff.1 (opened.trans within), List.nil_append]
  | cons e E ih =>
    obtain _ | ⟨first, rest⟩ := h
    cases e with
    | enter =>
      cases first.after_enter
      exact ih (G := [] :: G) rest within (by simp [opened])
    | uses name =>
      cases first.after_uses
      exact ih rest within opened
    | leave =>
      simp only [Event.confined, Bool.and_eq_true, bne_iff_ne] at within
      have after := first.after_leave
      cases G with
      | nil => exact absurd opened.symm within.1
      | cons g G =>
        rw [after] at rest
        exact ih (G := G) rest within.2 (by simp [← opened])
    | declares name =>
      simp only [Event.confined, Bool.and_eq_true, bne_iff_ne] at within
      -- The scope of the declaration is among those opened since.
      cases G with
      | nil => exact absurd opened.symm within.1
      | cons g G =>
        obtain ⟨g', rfl⟩ := first.after_declares
        exact ih (G := g' :: G) rest within.2 opened

theorem Traces.still (h : Traces lax F E out F₁) (within : Event.confined 0 E) : F₁ = F :=
  h.level (G := []) within rfl

-- The induction is over the events, with the scopes opened since in `G`.
theorem exists_traces {depth : Nat} {G : List StaticScope} (outer : F ≠ [])
    (within : Event.confined depth E) (opened : G.length = depth) :
    ∃ out, Traces true (G ++ F) E out F := by
  induction E generalizing depth G with
  | nil =>
    simp only [Event.confined, beq_iff_eq] at within
    rw [List.length_eq_zero_iff.1 (opened.trans within)]
    exact ⟨[], .nil⟩
  | cons e E ih =>
    cases e with
    | enter =>
      obtain ⟨out, rest⟩ := ih (G := [] :: G) within (by simp [opened])
      exact ⟨_, .cons .enter rest⟩
    | uses name =>
      obtain ⟨out, rest⟩ := ih within opened
      cases found : lookup (G ++ F) name.key with
      | none => exact ⟨_, .cons (.misses rfl found) rest⟩
      | some slot => exact ⟨_, .cons (.finds found) rest⟩
    | leave =>
      simp only [Event.confined, Bool.and_eq_true, bne_iff_ne] at within
      cases G with
      | nil => exact absurd opened.symm within.1
      | cons g G =>
        obtain ⟨out, rest⟩ := ih (G := G) within.2 (by simp [← opened])
        have below := List.append_ne_nil_of_right_ne_nil G outer
        obtain ⟨g', F', below⟩ := List.exists_cons_of_ne_nil below
        have left : Meets true (g :: G ++ F) .leave .leave (G ++ F) := by
          rw [List.cons_append, below]
          exact .leave
        exact ⟨_, .cons left rest⟩
    | declares name =>
      simp only [Event.confined, Bool.and_eq_true, bne_iff_ne] at within
      cases G with
      | nil => exact absurd opened.symm within.1
      | cons g G =>
        cases found : g.find? name.key with
        | some slot =>
          obtain ⟨out, rest⟩ := ih (G := g :: G) within.2 opened
          exact ⟨_, .cons (.again found) rest⟩
        | none =>
          obtain ⟨out, rest⟩ := ih (G := (g ++ [(name.key, name)]) :: G) within.2 opened
          exact ⟨_, .cons (.new name found) rest⟩

structure Holds (globals : StaticScope) (E out : List Event) (n scope : Nat) (f : StaticScope) :
    Prop where
  declared : ∀ {key place}, place < n → Binds E key scope place →
    ∃ slot, out[place]? = some (.declares slot) ∧ f.find? key = some slot
  source : ∀ {key slot}, f.find? key = some slot →
    (∃ place < n, Binds E key scope place ∧ out[place]? = some (.declares slot)) ∨
      scope = 0 ∧ globals.find? key = some slot
  known : scope = 0 → ∀ {key slot}, globals.find? key = some slot → f.find? key = some slot

variable {globals f : StaticScope} {n scope : Nat}

theorem getElem?_snoc {place : Nat} {found : Event} (h : out[place]? = some found) :
    (out ++ [e'])[place]? = some found := by
  rw [List.getElem?_append_left (List.getElem?_eq_some_iff.1 h).1, h]

theorem Holds.pass (h : Holds globals E out n scope f) (other : ∀ key, ¬ Binds E key scope n) :
    Holds globals E (out ++ [e']) (n + 1) scope f where
  declared {key place} before binds := by
    obtain earlier | rfl := Nat.lt_succ_iff_lt_or_eq.1 before
    · obtain ⟨slot, placed, found⟩ := h.declared earlier binds
      exact ⟨slot, getElem?_snoc placed, found⟩
    · exact absurd binds (other key)
  source found := by
    refine (h.source found).imp_left ?_
    rintro ⟨place, before, binds, placed⟩
    exact ⟨place, Nat.lt_succ_of_lt before, binds, getElem?_snoc placed⟩
  known := h.known

theorem holds_fresh : Holds globals E out (n + 1) (n + 1) [] where
  declared before binds := by
    have := binds.le
    omega
  source found := by simp [StaticScope.find?] at found
  known := nofun

theorem holds_globals : Holds globals E [] 0 0 globals where
  declared := nofun
  source found := .inr ⟨rfl, found⟩
  known _ _ _ found := found

theorem Holds.declares {f' : StaticScope} {name slot : Ident} (h : Holds globals E out n scope f)
    (here : E[n]? = some (.declares name)) (home : (scopes E n).head? = some scope)
    (reached : out.length = n) (placed : f'.find? name.key = some slot)
    (kept : ∀ {key found}, f.find? key = some found → f'.find? key = some found)
    (only : ∀ {key found}, f'.find? key = some found →
      f.find? key = some found ∨ name.key = key ∧ slot = found) :
    Holds globals E (out ++ [.declares slot]) (n + 1) scope f' where
  declared {key place} before binds := by
    obtain earlier | rfl := Nat.lt_succ_iff_lt_or_eq.1 before
    · obtain ⟨old, placed, found⟩ := h.declared earlier binds
      exact ⟨old, getElem?_snoc placed, kept found⟩
    · obtain ⟨-, other, there, rfl⟩ := binds
      cases here.symm.trans there
      exact ⟨slot, by simp [← reached], placed⟩
  source found := by
    obtain old | ⟨rfl, rfl⟩ := only found
    · refine (h.source old).imp_left ?_
      rintro ⟨place, before, binds, placed⟩
      exact ⟨place, Nat.lt_succ_of_lt before, binds, getElem?_snoc placed⟩
    · exact .inl ⟨n, Nat.lt_succ_self n, ⟨home, name, here, rfl⟩, by simp [← reached]⟩
  known bottom _ _ found := kept (h.known bottom found)

theorem find?_snoc (f : StaticScope) (key other : Int) (slot : Ident) :
    (f ++ [(key, slot)] : StaticScope).find? other =
      (f.find? other).or (if other = key then some slot else none) := by
  unfold StaticScope.find?
  rw [List.lookup_append]
  by_cases same : other = key
  · simp [same]
  · simp [List.lookup_cons, beq_eq_false_iff_ne.2 same, same]

theorem holds_pass {scopes : List Nat} (others : ∀ scope ∈ scopes, ∀ key, ¬ Binds E key scope n)
    (fits : List.Forall₂ (Holds globals E out n) scopes F) :
    List.Forall₂ (Holds globals E (out ++ [e']) (n + 1)) scopes F := by
  induction fits with
  | nil => exact .nil
  | cons first _ ih =>
    exact .cons (first.pass (others _ List.mem_cons_self))
      (ih fun scope member => others scope (List.mem_cons_of_mem _ member))

theorem holds_declares {F : List StaticScope} {f f' : StaticScope} {name slot : Ident}
    (here : E[n]? = some (.declares name)) (reached : out.length = n)
    (placed : f'.find? name.key = some slot)
    (kept : ∀ {key found}, f.find? key = some found → f'.find? key = some found)
    (only : ∀ {key found}, f'.find? key = some found →
      f.find? key = some found ∨ name.key = key ∧ slot = found)
    (fits : List.Forall₂ (Holds globals E out n) (scopes E n) (f :: F)) :
    List.Forall₂ (Holds globals E (out ++ [.declares slot]) (n + 1)) (scopes E n) (f' :: F) := by
  have sorted := Event.scopes_sorted E n
  generalize around : scopes E n = scopes' at fits sorted ⊢
  cases fits with
  | cons first rest =>
    have home := congrArg List.head? around
    refine .cons (first.declares here home reached placed kept only) (holds_pass ?_ rest)
    intro scope member key binds
    cases binds.1.symm.trans home
    exact Nat.lt_irrefl _ (List.rel_of_pairwise_cons sorted member)

structure Fits (globals : StaticScope) (E out : List Event) (n : Nat) (F : List StaticScope) : Prop where
  held : List.Forall₂ (Holds globals E out n) (scopes E n) F
  bottom : (scopes E n).getLast? = some 0

theorem Meets.fits (h : Meets lax F e e' F₁) (here : E[n]? = some e) (reached : out.length = n)
    (fits : Fits globals E out n F) : Fits globals E (out ++ [e']) (n + 1) F₁ := by
  obtain ⟨held, bottom⟩ := fits
  -- Any event but a declaration leaves what the scopes hold as it is.
  have pass : (∀ name, e ≠ .declares name) →
      List.Forall₂ (Holds globals E (out ++ [e']) (n + 1)) (scopes E n) F := by
    refine fun plain => holds_pass ?_ held
    rintro scope - key ⟨-, name, there, -⟩
    exact plain name (Option.some.inj (here.symm.trans there))
  cases h with
  | enter =>
    constructor
    · simpa only [scopes, here] using .cons holds_fresh (pass nofun)
    · simp [scopes, here, List.getLast?_cons, bottom]
  | leave =>
    have passed := pass nofun
    constructor
    all_goals simp only [scopes, here]
    all_goals generalize scopes E n = around at passed bottom ⊢
    · obtain _ | ⟨_, rest⟩ := passed
      exact rest
    · obtain _ | ⟨_, _ | ⟨_, _⟩⟩ := passed
      simpa [List.getLast?_cons] using bottom
  | finds | misses =>
    constructor
    · simpa only [scopes, here] using pass nofun
    · simpa only [scopes, here] using bottom
  | again found =>
    have next := holds_declares here reached found (fun known => known) .inl held
    exact ⟨by simpa only [scopes, here] using next, by simpa only [scopes, here] using bottom⟩
  | @new f F name slot absent =>
    refine ⟨?_, by simpa only [scopes, here] using bottom⟩
    simp only [scopes, here]
    refine holds_declares here reached ?_ ?_ ?_ held
    · simp [find?_snoc, absent]
    · intro key found known
      simp [find?_snoc, known]
    · intro key found known
      rw [find?_snoc, Option.or_eq_some_iff] at known
      refine known.imp_right ?_
      rintro ⟨-, added⟩
      split at added
      next same => exact ⟨same.symm, Option.some.inj added⟩
      next => cases added

theorem Traces.fits (h : Traces lax [globals] (E.take n) out F) (reached : n ≤ E.length) :
    Fits globals E out n F := by
  induction n generalizing out F with
  | zero =>
    rw [List.take_zero] at h
    cases h
    exact ⟨.cons holds_globals .nil, rfl⟩
  | succ n ih =>
    rw [List.take_succ_eq_append_getElem reached] at h
    obtain ⟨out₁, out₂, F₁, rfl, before, last⟩ := h.split
    obtain _ | ⟨last, ⟨⟩⟩ := last
    have length := before.length_eq
    rw [List.length_take, Nat.min_eq_left (Nat.le_of_succ_le reached)] at length
    exact last.fits (List.getElem?_eq_getElem reached) length (ih before (Nat.le_of_succ_le reached))

theorem frames_ne_nil (s : Slots) : s.frames ≠ [] := by simp [frames]

theorem leave_frames {s : Slots} {depth : Nat} (inside : s.inner.length = depth + 1) :
    ∃ f g F, s.frames = f :: g :: F ∧ s.leave.frames = g :: F := by
  unfold frames leave
  obtain ⟨_ | ⟨f, _ | ⟨g, F⟩⟩, globals, next⟩ := s
  · cases inside
  · exact ⟨f, globals, [], rfl, rfl⟩
  · exact ⟨f, g, F ++ [globals], rfl, rfl⟩

theorem Declares.meets {s s' : Slots} {name slot : Ident} (h : Declares s name slot s') :
    Meets false s.frames (.declares name) (.declares slot) s'.frames ∧
      s'.inner.length = s.inner.length := by
  cases h with
  | again found =>
    rw [frames_eq s]
    exact ⟨.again found, rfl⟩
  | new absent =>
    rw [frames_add, frames_eq s]
    refine ⟨.new _ absent, ?_⟩
    unfold add
    cases s.inner <;> simp

theorem frames_top {s : Slots} (top : s.depth = 1) : s.frames = [s.globals] := by
  have inner : s.inner = [] := by simpa [depth] using top
  simp [frames, inner]

end Slots
end Lox
