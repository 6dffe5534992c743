import Mathlib.Order.Defs.PartialOrder
import Lox.Proofs.Run.Steps

set_option autoImplicit false

namespace Lox

variable {ε ε' σ τ α β γ δ : Type}

inductive Both (E : ε → ε' → Prop) (Q : α → β → Prop) : Except ε α → Except ε' β → Prop
  | ok {a : α} {b : β} : Q a b → Both E Q (.ok a) (.ok b)
  | error {e : ε} {e' : ε'} : E e e' → Both E Q (.error e) (.error e')

theorem Both.imp {E F : ε → ε' → Prop} {Q R : α → β → Prop} {x : Except ε α} {y : Except ε' β}
    (h : Both E Q x y) (errors : ∀ e e', E e e' → F e e') (results : ∀ a b, Q a b → R a b) :
    Both F R x y := by
  cases h with
  | ok both => exact .ok (results _ _ both)
  | error both => exact .error (errors _ _ both)

def Lockstep (S : σ → τ → Prop) (E : ε → ε' → Prop) (Q : α → β → Prop)
    (x : ExceptT ε (StateM σ) α) (y : ExceptT ε' (StateM τ) β) : Prop :=
  ∀ s t, S s t → S (x.run s).2 (y.run t).2 ∧ Both E Q (x.run s).1 (y.run t).1

namespace Lockstep

variable {S : σ → τ → Prop} {E : ε → ε' → Prop} {Q : α → β → Prop} {R : γ → δ → Prop}
  {x : ExceptT ε (StateM σ) α} {y : ExceptT ε' (StateM τ) β}

theorem pure {a : α} {b : β} (h : Q a b) : Lockstep S E Q (pure a) (pure b) :=
  fun _ _ related => ⟨related, .ok h⟩

theorem throw {e : ε} {e' : ε'} (h : E e e') : Lockstep S E Q (throw e) (throw e') :=
  fun _ _ related => ⟨related, .error h⟩

theorem get : Lockstep S E S get get := fun _ _ related => ⟨related, .ok related⟩

theorem set {s : σ} {t : τ} (h : S s t) : Lockstep S E (fun _ _ => True) (set s) (set t) :=
  fun _ _ _ => ⟨h, .ok trivial⟩

theorem modify {f : σ → σ} {g : τ → τ} (h : ∀ s t, S s t → S (f s) (g t)) :
    Lockstep S E (fun _ _ => True) (modify f) (modify g) :=
  fun s t related => ⟨h s t related, .ok trivial⟩

theorem modifyGet {f : σ → α × σ} {g : τ → β × τ}
    (h : ∀ s t, S s t → S (f s).2 (g t).2 ∧ Q (f s).1 (g t).1) :
    Lockstep S E Q (modifyGet f) (modifyGet g) :=
  fun s t related => ⟨(h s t related).1, .ok (h s t related).2⟩

theorem bind {f : α → ExceptT ε (StateM σ) γ} {g : β → ExceptT ε' (StateM τ) δ}
    (first : Lockstep S E Q x y) (next : ∀ a b, Q a b → Lockstep S E R (f a) (g b)) :
    Lockstep S E R (x >>= f) (y >>= g) := by
  intro s t related
  obtain ⟨related', both⟩ := first s t related
  rw [run_bind, run_bind]
  generalize x.run s = left at related' both ⊢
  generalize y.run t = right at related' both ⊢
  obtain ⟨a, s'⟩ := left
  obtain ⟨b, t'⟩ := right
  cases both with
  | ok both => exact next _ _ both s' t' related'
  | error both => exact ⟨related', .error both⟩

theorem imp {Q' : α → β → Prop} (h : Lockstep S E Q x y) (sub : ∀ a b, Q a b → Q' a b) :
    Lockstep S E Q' x y :=
  fun s t related => ⟨(h s t related).1, (h s t related).2.imp (fun _ _ both => both) sub⟩

end Lockstep

section Growing

variable {ω : Type} [Preorder ω] {S : ω → σ → τ → Prop} {E : ε → ε' → Prop} {w : ω}
  {Q : ω → α → β → Prop} {P : ω → γ → δ → Prop} {x : ExceptT ε (StateM σ) α}
  {y : ExceptT ε' (StateM τ) β}

def Unison (S : ω → σ → τ → Prop) (E : ε → ε' → Prop) (w : ω) (Q : ω → α → β → Prop)
    (x : ExceptT ε (StateM σ) α) (y : ExceptT ε' (StateM τ) β) : Prop :=
  ∀ s t, S w s t → ∃ w', w ≤ w' ∧ S w' (x.run s).2 (y.run t).2 ∧
    Both E (Q w') (x.run s).1 (y.run t).1

theorem Lockstep.unison (h : Lockstep (S w) E (Q w) x y) : Unison S E w Q x y :=
  fun s t related => ⟨w, le_refl w, h s t related⟩

namespace Unison

theorem pure {a : α} {b : β} (h : Q w a b) : Unison S E w Q (pure a) (pure b) :=
  Lockstep.unison (.pure h)

theorem throw {e : ε} {e' : ε'} (h : E e e') : Unison S E w Q (throw e) (throw e') :=
  Lockstep.unison (.throw h)

theorem bind {f : α → ExceptT ε (StateM σ) γ} {g : β → ExceptT ε' (StateM τ) δ}
    (first : Unison S E w Q x y)
    (next : ∀ w', w ≤ w' → ∀ a b, Q w' a b → Unison S E w' P (f a) (g b)) :
    Unison S E w P (x >>= f) (y >>= g) := by
  intro s t related
  obtain ⟨w₁, le₁, related₁, both⟩ := first s t related
  rw [run_bind, run_bind]
  generalize x.run s = left at related₁ both ⊢
  generalize y.run t = right at related₁ both ⊢
  obtain ⟨a, s₁⟩ := left
  obtain ⟨b, t₁⟩ := right
  cases both with
  | error both => exact ⟨w₁, le₁, related₁, .error both⟩
  | ok both =>
    obtain ⟨w₂, le₂, rest⟩ := next w₁ le₁ _ _ both s₁ t₁ related₁
    exact ⟨w₂, le_trans le₁ le₂, rest⟩

theorem thenPure {f : α → γ} {g : β → δ} (first : Unison S E w Q x y)
    (next : ∀ w', w ≤ w' → ∀ a b, Q w' a b → P w' (f a) (g b)) :
    Unison S E w P (do return f (← x)) (do return g (← y)) :=
  first.bind fun w' le a b both => .pure (next w' le a b both)

end Unison
end Growing
end Lox
