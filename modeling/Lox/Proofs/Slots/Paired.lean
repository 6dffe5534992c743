import Mathlib.Data.List.Forall2
import Lox.Slots

set_option autoImplicit false

namespace Lox.Slots

structure Paired (F : StaticScope → StaticScope → Prop) (s t : Slots) : Prop where
  inner : List.Forall₂ F s.inner t.inner
  globals : F s.globals t.globals

namespace Paired

variable {F F' : StaticScope → StaticScope → Prop} {s t : Slots} {key key' : Int}

theorem leave (h : Paired F s t) : Paired F s.leave t.leave := by
  refine ⟨?_, h.globals⟩
  have inner := h.inner
  unfold Slots.leave
  generalize s.inner = fs at inner ⊢
  generalize t.inner = gs at inner ⊢
  cases inner with
  | nil => exact .nil
  | cons _ rest => exact rest

theorem current (h : Paired F s t) : F s.current t.current := by
  have inner := h.inner
  unfold Slots.current
  generalize s.inner = fs at inner ⊢
  generalize t.inner = gs at inner ⊢
  cases inner with
  | nil => exact h.globals
  | cons first _ => exact first

theorem find? {P : Ident → Ident → Prop} (h : Paired F s t)
    (each : ∀ f g, F f g → Option.Rel P (f.find? key) (g.find? key')) :
    Option.Rel P (s.find? key) (t.find? key') := by
  have inner := h.inner
  unfold Slots.find?
  generalize s.inner = fs at inner ⊢
  generalize t.inner = gs at inner ⊢
  induction inner with
  | nil => exact each _ _ h.globals
  | @cons f g fs gs first _ ih =>
    have found := each f g first
    simp only [List.findSome?_cons]
    generalize f.find? key = x at found ⊢
    generalize g.find? key' = y at found ⊢
    cases found with
    | some both => exact .some both
    | none => exact ih

theorem add (h : Paired F s t) {x y : Ident} (loosen : ∀ f g, F f g → F' f g)
    (placed : ∀ f g, F f g → F' (f ++ [(key, x)]) (g ++ [(key', y)])) :
    Paired F' (s.add key x) (t.add key' y) := by
  have inner := h.inner
  unfold Slots.add
  cases left : s.inner <;> cases right : t.inner <;> rw [left, right] at inner
  · exact ⟨.nil, placed _ _ h.globals⟩
  · cases inner
  · cases inner
  · cases inner with
    | cons first rest =>
      exact ⟨.cons (placed _ _ first) (rest.imp fun f g => loosen f g), loosen _ _ h.globals⟩

end Paired
end Lox.Slots
