import Lox.Proofs.Value.Related

set_option autoImplicit false

namespace Lox

def Machine.Has (m : Machine) : Identity → Prop
  | .tag tag => tag < m.nextTag
  | .place ref => ref < m.instances.size

structure Machine.Agree (K : Closure → Closure → Prop) (live : Value → Prop) (m n : Machine) : Prop where
  size : m.instances.size = n.instances.size
  known : ∀ x, live x → ∀ id, x.identity = some id → m.Has id
  single : ∀ x y, live x → live y → ∀ id, x.identity = some id → y.identity = some id → x = y
  fields : ∀ c r, live (.instanceOf c r) →
    Bindings.Related (Value.Related K live) (m.instances.getD r []) (n.instances.getD r [])
  nextTag : m.nextTag = n.nextTag
  printed : m.printed = n.printed
  clock : m.clock = n.clock
  readings : m.readings = n.readings

theorem getD_modify {α : Type} (xs : Array α) (f : α → α) (d : α) (i r : Nat)
    (bound : r < xs.size) : (xs.modify i f).getD r d = if r = i then f (xs.getD r d) else xs.getD r d := by
  simp only [Array.getD_eq_getD_getElem?, Array.getElem?_modify, Array.getElem?_eq_getElem bound]
  by_cases same : r = i
  · simp [same]
  · simp [same, Ne.symm same]

namespace Machine.Agree

variable {K K' : Closure → Closure → Prop} {live : Value → Prop} {m n : Machine}

theorem mono (h : Agree K live m n) (sub : ∀ f g, K f g → K' f g) : Agree K' live m n where
  size := h.size
  known := h.known
  single := h.single
  fields c r alive := (h.fields c r alive).mono fun _ _ both => both.mono sub fun _ known => known
  nextTag := h.nextTag
  printed := h.printed
  clock := h.clock
  readings := h.readings

theorem scopes (h : Agree K live m n) (s t : Scopes Int Value) :
    Agree K live { m with scopes := s } { n with scopes := t } :=
  ⟨h.size, h.known, h.single, h.fields, h.nextTag, h.printed, h.clock, h.readings⟩

theorem print (h : Agree K live m n) (line : String) :
    Agree K live { m with printed := m.printed.push line }
      { n with printed := n.printed.push line } :=
  ⟨h.size, h.known, h.single, h.fields, h.nextTag, by rw [h.printed], h.clock, h.readings⟩

theorem reset (h : Agree K live m n) :
    Agree K live { m with printed := #[] } { n with printed := #[] } :=
  ⟨h.size, h.known, h.single, h.fields, h.nextTag, rfl, h.clock, h.readings⟩

theorem tick (h : Agree K live m n) :
    Agree K live { m with readings := m.readings + 1 } { n with readings := n.readings + 1 } :=
  ⟨h.size, h.known, h.single, h.fields, h.nextTag, h.printed, h.clock, by rw [h.readings]⟩

structure Made (m : Machine) (x : Value) (m' : Machine) : Prop where
  new : ∀ id, x.identity = some id → ¬ m.Has id ∧ m'.Has id
  more : ∀ id, m.Has id → m'.Has id

theorem Made.single {x : Value} {m' : Machine} (made : Made m x m') (h : Agree K live m n) :
    ∀ y z, live y ∨ y = x → live z ∨ z = x → ∀ id, y.identity = some id → z.identity = some id →
      y = z := by
  rintro y z (old | rfl) (old' | rfl) id same same'
  · exact h.single y z old old' id same same'
  · exact absurd (h.known y old id same) (made.new id same').1
  · exact absurd (h.known z old' id same') (made.new id same).1
  · rfl

theorem Made.known {x : Value} {m' : Machine} (made : Made m x m') (h : Agree K live m n) :
    ∀ y, live y ∨ y = x → ∀ id, y.identity = some id → m'.Has id := by
  rintro y (old | rfl) id same
  · exact made.more id (h.known y old id same)
  · exact (made.new id same).2

theorem tag (h : Agree K live m n) {x : Value} (tagged : x.identity = some (.tag m.nextTag)) :
    Agree K (fun y => live y ∨ y = x) { m with nextTag := m.nextTag + 1 }
      { n with nextTag := n.nextTag + 1 } := by
  have made : Made m x { m with nextTag := m.nextTag + 1 } := by
    refine ⟨fun id same => ?_, fun id has => ?_⟩
    · cases tagged.symm.trans same
      exact ⟨Nat.lt_irrefl _, Nat.lt_succ_self _⟩
    · cases id with
      | tag tag => exact Nat.lt_succ_of_lt has
      | place ref => exact has
  refine ⟨h.size, made.known h, made.single h, fun c r alive => ?_, by rw [h.nextTag], h.printed, h.clock,
    h.readings⟩
  have alive : live (.instanceOf c r) := by
    refine alive.resolve_right ?_
    rintro rfl
    cases tagged
  exact (h.fields c r alive).mono fun _ _ both => both.mono (fun _ _ both => both) fun _ => .inl

theorem newInstance (h : Agree K live m n) (c : ClassValue) :
    Agree K (fun y => live y ∨ y = .instanceOf c m.instances.size)
      { m with instances := m.instances.push [] } { n with instances := n.instances.push [] } := by
  have made : Made m (.instanceOf c m.instances.size) { m with instances := m.instances.push [] } := by
    refine ⟨fun id same => ?_, fun id has => ?_⟩
    · cases same
      exact ⟨Nat.lt_irrefl _, by simp [Has]⟩
    · cases id with
      | tag tag => exact has
      | place ref =>
        simp only [Has, Array.size_push]
        exact Nat.lt_succ_of_lt has
  refine ⟨by simp [h.size], made.known h, made.single h, fun d r alive => ?_, h.nextTag, h.printed, h.clock,
    h.readings⟩
  simp only [Array.getD_eq_getD_getElem?, Array.getElem?_push, ← h.size]
  split
  next => exact .nil
  next other =>
    have alive : live (.instanceOf d r) := by
      refine alive.resolve_right ?_
      rintro ⟨⟩
      exact other rfl
    have fields := h.fields d r alive
    simp only [Array.getD_eq_getD_getElem?] at fields
    exact fields.mono fun _ _ both => both.mono (fun _ _ both => both) fun _ => .inl

theorem field? (h : Agree K live m n) {c : ClassValue} {r : Nat} (alive : live (.instanceOf c r))
    (name : String) :
    Option.Rel (Value.Related K live) ((m.instances.getD r []).get? name)
      ((n.instances.getD r []).get? name) :=
  (h.fields c r alive).get? name

theorem setField (h : Agree K live m n) {v v' : Value} (value : Value.Related K live v v') (r : Nat)
    (name : String) :
    Agree K live { m with instances := m.instances.modify r (·.put name v) }
      { n with instances := n.instances.modify r (·.put name v') } := by
  have has : ∀ id, Has { m with instances := m.instances.modify r (·.put name v) } id ↔ m.Has id := by
    rintro (tag | ref)
    · exact .rfl
    · simp [Has]
  refine ⟨by simp [h.size], fun x alive id same => (has id).2 (h.known x alive id same), h.single,
    fun c q alive => ?_, h.nextTag, h.printed, h.clock, h.readings⟩
  have bound : q < m.instances.size := h.known _ alive _ rfl
  rw [getD_modify _ _ _ _ _ bound, getD_modify _ _ _ _ _ (h.size ▸ bound)]
  by_cases same : q = r
  · rw [if_pos same, if_pos same]
    exact (h.fields c q alive).put name value
  · rw [if_neg same, if_neg same]
    exact h.fields c q alive

end Machine.Agree
end Lox
