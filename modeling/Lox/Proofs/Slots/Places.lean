import Lox.Proofs.Slots.Ordering

set_option autoImplicit false

namespace Lox

inductive Portion where
  | own (e : Event)
  | part (t : Tree)

def Portion.events : Portion → List Event
  | own e => [e]
  | part t => t.events .walk

namespace Tree

def portions : Tree → List Portion
  | assign target value => [.part value, .own (.uses target)]
  | binary _ lhs rhs => [.part lhs, .part rhs]
  | unary _ e => [.part e]
  | call callee arguments => .part callee :: arguments.map .part
  | literal _ => []
  | grouping e => [.part e]
  | lambda params body =>
    .own .enter :: (params.map (.own <| .declares ·) ++ body.map .part) ++ [.own .leave]
  | reference name => [.own (.uses name)]
  | get object _ => [.part object]
  | set object _ value => [.part object, .part value]
  | expression e => [.part e]
  | ifThen cond body => [.part cond, .part body]
  | ifElse cond body other => [.part other, .part cond, .part body]
  | whileLoop cond body => [.part cond, .part body]
  | print e => [.part e]
  | declare name initial => [.part initial, .own (.declares name)]
  | function name params body =>
    .own (.declares name) ::
      (.own .enter :: (params.map (.own <| .declares ·) ++ body.map .part) ++ [.own .leave])
  | ret e => [.part e]
  | classDef name methods => .own (.declares name) :: (.own .enter :: methods.map .part ++ [.own .leave])
  | block body => .own .enter :: body.map .part ++ [.own .leave]

theorem events_parts (ts : List Tree) : (ts.map Portion.part).flatMap Portion.events = eventsAll .walk ts := by
  induction ts with
  | nil => rfl
  | cons t ts ih => rw [List.map_cons, List.flatMap_cons, ih, Portion.events, eventsAll]

theorem events_declares (names : List Ident) :
    (names.map fun name => Portion.own (.declares name)).flatMap Portion.events = names.map .declares := by
  induction names with
  | nil => rfl
  | cons name names ih => rw [List.map_cons, List.flatMap_cons, ih, Portion.events, List.map_cons, List.singleton_append]

theorem events_portions (t : Tree) : t.portions.flatMap Portion.events = t.events .walk := by
  cases t <;> simp [portions, events, Portion.events, events_parts, events_declares, Order.arrange]

/-- `u` stands in the tree, or is the tree, with these events of the walk before it and after it. -/
inductive Occurs (u : Tree) : Tree → List Event → List Event → Prop
  | here : Occurs u u [] []
  | inside {t v : Tree} {before after : List Portion} {pre post : List Event} :
      t.portions = before ++ .part v :: after → Occurs u v pre post →
      Occurs u t (before.flatMap Portion.events ++ pre) (post ++ after.flatMap Portion.events)

inductive OccursIn (u : Tree) : List Tree → List Event → List Event → Prop
  | mk {t : Tree} (before after : List Tree) {pre post : List Event} : Occurs u t pre post →
      OccursIn u (before ++ t :: after) (eventsAll .walk before ++ pre) (post ++ eventsAll .walk after)

variable {u t : Tree} {program : List Tree} {pre post : List Event}

theorem Occurs.events_eq (h : Occurs u t pre post) : t.events .walk = pre ++ (u.events .walk ++ post) := by
  induction h with
  | here => simp
  | @inside t v before after pre post split _ ih =>
    rw [← events_portions, split]
    simp [Portion.events, ih]

theorem eventsAll_append (o : Order) (ts us : List Tree) :
    eventsAll o (ts ++ us) = eventsAll o ts ++ eventsAll o us := by
  induction ts with
  | nil => rfl
  | cons t ts ih => simp [eventsAll, ih]

theorem OccursIn.events_eq (h : OccursIn u program pre post) :
    eventsAll .walk program = pre ++ (u.events .walk ++ post) := by
  obtain ⟨before, after, occurs⟩ := h
  simp [eventsAll_append, eventsAll, occurs.events_eq]

theorem wellFormed_of_mem {apt : Tree → Bool} {ts : List Tree} (formed : WellFormedAll apt ts) :
    ∀ t ∈ ts, t.WellFormed apt := by
  induction ts with
  | nil => exact nofun
  | cons t ts ih => exact List.forall_mem_cons.2 ⟨formed.1, ih formed.2⟩

theorem WellFormed.part {apt : Tree → Bool} (formed : t.WellFormed apt) (member : .part u ∈ t.portions) :
    u.WellFormed apt := by
  cases t with
  | literal | reference => simp [portions] at member
  | assign | unary | grouping | get | expression | print | declare | ret =>
    obtain rfl : u = _ := by simpa [portions] using member
    exact formed.2
  | binary | set | ifThen | whileLoop =>
    obtain rfl | rfl : u = _ ∨ u = _ := by simpa [portions] using member
    · exact formed.1.2
    · exact formed.2.2
  | ifElse =>
    obtain rfl | rfl | rfl : u = _ ∨ u = _ ∨ u = _ := by simpa [portions] using member
    · exact formed.2.2.2.2
    · exact formed.1.2
    · exact formed.2.1.2.2
  | call =>
    obtain rfl | listed : u = _ ∨ u ∈ _ := by simpa [portions] using member
    · exact formed.1.2
    · exact wellFormed_of_mem formed.2.2 u listed
  | lambda | function | classDef | block =>
    exact wellFormed_of_mem formed.2 u (by simpa [portions] using member)

theorem Occurs.wellFormed {apt : Tree → Bool} (h : Occurs u t pre post) (formed : t.WellFormed apt) :
    u.WellFormed apt := by
  induction h with
  | here => exact formed
  | inside split _ ih => exact ih (formed.part (by simp [split]))

theorem OccursIn.wellFormed {apt : Tree → Bool} (h : OccursIn u program pre post)
    (formed : WellFormedAll apt program) : u.WellFormed apt := by
  obtain ⟨before, after, occurs⟩ := h
  exact occurs.wellFormed (wellFormed_of_mem formed _ (by simp))

end Tree

namespace Event

def opened : Nat → List Event → Option Nat
  | n, [] => some n
  | n, .enter :: rest => opened (n + 1) rest
  | n, .leave :: rest => if n ≤ 1 then none else opened (n - 1) rest
  | n, .declares _ :: rest => opened n rest
  | n, .uses _ :: rest => opened n rest

theorem opened_append (n : Nat) (E E' : List Event) : opened n (E ++ E') = (opened n E).bind (opened · E') := by
  induction E generalizing n with
  | nil => rfl
  | cons e E ih =>
    cases e with
    | enter | declares | uses => exact ih _
    | leave =>
      simp only [List.cons_append, opened]
      split
      · rfl
      · exact ih _

def Balanced (E : List Event) : Prop := ∀ n, 0 < n → opened n E = some n

namespace Balanced

variable {E E' : List Event}

theorem nil : Balanced [] := fun _ _ => rfl

theorem append (h : Balanced E) (h' : Balanced E') : Balanced (E ++ E') := by
  intro n some
  rw [opened_append, h n some, Option.bind_some, h' n some]

theorem scope (h : Balanced E) : Balanced (.enter :: E ++ [.leave]) := by
  intro n some
  rw [List.cons_append, opened, opened_append, h (n + 1) (Nat.succ_pos n), Option.bind_some, opened,
    if_neg (by omega)]
  rfl

theorem uses (name : Ident) : Balanced [.uses name] := fun _ _ => rfl

theorem declares (names : List Ident) : Balanced (names.map .declares) := by
  induction names with
  | nil => exact nil
  | cons name names ih => exact fun n some => ih n some

theorem take (h : Balanced E) (place : Nat) : ∃ m, opened 1 (E.take place) = some m := by
  have whole := h 1 Nat.one_pos
  rw [← List.take_append_drop place E, opened_append, Option.bind_eq_some_iff] at whole
  obtain ⟨m, inside, -⟩ := whole
  exact ⟨m, inside⟩

end Balanced

end Event

namespace Tree

open Event (Balanced)

mutual

theorem balanced_events (t : Tree) : Balanced (t.events .walk) := by
  cases t with
  | literal => exact .nil
  | reference name => exact .uses name
  | assign target value => exact (balanced_events value).append (.uses target)
  | declare name initial => exact (balanced_events initial).append (.declares [name])
  | unary _ e | grouping e | get e _ | expression e | print e | ret e => exact balanced_events e
  | binary _ a b | set a _ b | ifThen a b | whileLoop a b =>
    exact (balanced_events a).append (balanced_events b)
  | ifElse cond body other =>
    exact (balanced_events other).append ((balanced_events cond).append (balanced_events body))
  | call callee arguments => exact (balanced_events callee).append (balanced_eventsAll arguments)
  | lambda params body => exact ((Balanced.declares params).append (balanced_eventsAll body)).scope
  | function name params body =>
    have inner := ((Balanced.declares params).append (balanced_eventsAll body)).scope
    exact (Balanced.declares [name]).append inner
  | classDef name methods => exact (Balanced.declares [name]).append (balanced_eventsAll methods).scope
  | block body => exact (balanced_eventsAll body).scope

theorem balanced_eventsAll (ts : List Tree) : Balanced (eventsAll .walk ts) := by
  cases ts with
  | nil => exact .nil
  | cons t ts => exact (balanced_events t).append (balanced_eventsAll ts)

end

end Tree

namespace Slots

open Event (scopes Binds Nearest Undeclared opened Balanced)

variable {globals f : StaticScope} {E out : List Event} {G H F₁ : List StaticScope} {key : Int} {lax : Bool}

theorem lookup_cons (f : StaticScope) (F : List StaticScope) (key : Int) :
    lookup (f :: F) key = (f.find? key).or (lookup F key) := by
  unfold lookup
  rw [List.findSome?_cons]
  cases f.find? key <;> rfl

theorem lookup_append (F F' : List StaticScope) (key : Int) :
    lookup (F ++ F') key = (lookup F key).or (lookup F' key) := List.findSome?_append

theorem Meets.opened_eq {F : List StaticScope} {e e' : Event} (h : Meets lax F e e' F₁) (E : List Event) :
    opened F.length (e :: E) = opened F₁.length E := by
  cases h with
  | enter | again | new | finds | misses => rfl
  | @leave f g F =>
    simp only [opened, List.length_cons]
    exact if_neg (by omega)

theorem Meets.above {e e' : Event} (h : Meets lax (G ++ H) e e' F₁) (some : G ≠ []) (stays : e = .leave → 1 < G.length) :
    ∃ G' e'', F₁ = G' ++ H ∧ G' ≠ [] ∧ Meets true G e e'' G' ∧ ∀ slot, e'' = .declares slot ↔ e' = .declares slot := by
  obtain ⟨g, G, rfl⟩ := List.exists_cons_of_ne_nil some
  rw [List.cons_append] at h
  generalize below : G ++ H = W at h
  cases h with
  | enter => exact ⟨[] :: g :: G, .enter, by simp [below], nofun, .enter, fun _ => Iff.rfl⟩
  | @leave _ g' W =>
    obtain ⟨g', G, rfl⟩ := List.exists_cons_of_length_pos (Nat.lt_of_succ_lt_succ (stays rfl))
    exact ⟨g' :: G, .leave, below.symm, nofun, .leave, fun _ => Iff.rfl⟩
  | again found => exact ⟨g :: G, _, by simp [below], nofun, .again found, fun _ => Iff.rfl⟩
  | new slot absent => exact ⟨_ :: G, _, by simp [below], nofun, .new slot absent, fun _ => Iff.rfl⟩
  | @finds _ name | @misses _ name =>
    -- A use may have found its slot in what is cut off, which is why it may miss here.
    cases found : lookup (g :: G) name.key with
    | none => exact ⟨g :: G, _, by simp [below], nofun, .misses rfl found, fun _ => iff_of_false nofun nofun⟩
    | some slot => exact ⟨g :: G, _, by simp [below], nofun, .finds found, fun _ => iff_of_false nofun nofun⟩

theorem Traces.above {m : Nat} (h : Traces lax (G ++ H) E out F₁) (some : G ≠ [])
    (inside : opened G.length E = .some m) :
    ∃ G' out', F₁ = G' ++ H ∧ G'.length = m ∧ Traces true G E out' G' ∧
      ∀ (i : Nat) (slot : Ident), out'[i]? = .some (.declares slot) ↔ out[i]? = .some (.declares slot) := by
  induction E generalizing G out with
  | nil =>
    cases h
    cases inside
    exact ⟨G, [], rfl, rfl, .nil, fun _ _ => Iff.rfl⟩
  | cons e E ih =>
    obtain _ | ⟨first, rest⟩ := h
    have stays : e = .leave → 1 < G.length := by
      rintro rfl
      rw [opened] at inside
      split at inside
      · cases inside
      · omega
    obtain ⟨G₁, e'', rfl, some', meets, same⟩ := first.above some stays
    rw [meets.opened_eq] at inside
    obtain ⟨G', out', rfl, length, traces, others⟩ := ih rest some' inside
    refine ⟨G', e'' :: out', rfl, length, .cons meets traces, fun i slot => ?_⟩
    cases i with
    | zero => simpa using same slot
    | succ i => simpa using others i slot

theorem Traces.free {place : Nat} (h : Traces lax (f :: H) (E.take place) out F₁) (balanced : Balanced E)
    (reached : place ≤ E.length) (free : Undeclared E key place) : lookup F₁ key = lookup (f :: H) key := by
  obtain ⟨m, inside⟩ := balanced.take place
  obtain ⟨G, out', rfl, -, traces, -⟩ := Traces.above (G := [f]) h nofun inside
  have fits := traces.fits reached
  have same : lookup G key = f.find? key := by
    cases found : lookup G key with
    | none => exact (fits.undeclared found).2.symm
    | some slot =>
      rcases fits.nearest found with ⟨scope, ⟨inner, outer, around, ⟨earlier, lt, binds⟩, -⟩, -⟩ | ⟨-, known⟩
      · exact absurd binds (free scope (by simp [around]) earlier lt)
      · exact known.symm
  rw [lookup_append, lookup_cons, same]

theorem Traces.own (h : Traces lax ([] :: H) E out F₁) (balanced : Balanced E) :
    ∃ f, F₁ = f :: H ∧
      (∀ {key earlier}, Binds E key 0 earlier → ∃ slot, out[earlier]? = some (.declares slot) ∧ f.find? key = some slot) ∧
      ∀ {key slot}, f.find? key = some slot → ∃ earlier, Binds E key 0 earlier := by
  obtain ⟨G, out', rfl, length, traces, same⟩ := Traces.above (G := [[]]) h nofun (balanced 1 Nat.one_pos)
  obtain ⟨f, rfl⟩ := List.length_eq_one_iff.1 length
  -- The run in the fresh scope alone is one of its own, so what holds at the end of every run holds of it.
  rw [← List.take_length (l := E)] at traces
  obtain ⟨held, bottom⟩ := traces.fits (Nat.le_refl _)
  generalize scopes E E.length = around at held bottom
  obtain _ | ⟨holds, ⟨⟩⟩ := held
  cases bottom
  refine ⟨f, rfl, ?_, ?_⟩
  · intro key earlier binds
    obtain ⟨-, name, there, -⟩ := id binds
    obtain ⟨slot, placed, found⟩ := holds.declared (List.getElem?_eq_some_iff.1 there).1 binds
    exact ⟨slot, (same earlier slot).1 placed, found⟩
  · intro key slot found
    rcases holds.source found with ⟨earlier, -, binds, -⟩ | ⟨-, known⟩
    · exact ⟨earlier, binds⟩
    · cases known

end Slots
end Lox
