import Mathlib.Order.Defs.PartialOrder
import Lox.Proofs.Tree.Alike

set_option autoImplicit false

namespace Lox

structure Renaming where
  pairs : Int → Int → Prop
  unique : ∀ {a b a' b'}, pairs a b → pairs a' b' → (a = a' ↔ b = b')

namespace Renaming

instance : Preorder Renaming where
  le R R' := ∀ a b, R.pairs a b → R'.pairs a b
  le_refl _ _ _ known := known
  le_trans _ _ _ h h' a b known := h' a b (h a b known)

def none : Renaming := ⟨fun _ _ => False, nofun⟩

-- One more pair, of slots that are in none so far.
def extend (R : Renaming) (a b : Int) (left : ∀ c d, R.pairs c d → c ≠ a)
    (right : ∀ c d, R.pairs c d → d ≠ b) : Renaming where
  pairs c d := R.pairs c d ∨ c = a ∧ d = b
  unique := by
    rintro c d c' d' (known | ⟨rfl, rfl⟩) (known' | ⟨rfl, rfl⟩)
    · exact R.unique known known'
    · exact iff_of_false (left _ _ known) (right _ _ known)
    · exact iff_of_false (left _ _ known').symm (right _ _ known').symm
    · exact iff_of_true rfl rfl

end Renaming

structure Ident.Renamed (R : Renaming) (i j : Ident) : Prop where
  key : R.pairs i.key j.key
  shown : i.shown = j.shown
  text : i.text? = j.text?

theorem Ident.Renamed.mono {R R' : Renaming} {i j : Ident} (h : i.Renamed R j) (le : R ≤ R') :
    i.Renamed R' j :=
  ⟨le _ _ h.key, h.shown, h.text⟩

namespace Tree

variable {R R' : Renaming}

abbrev Renamed (R : Renaming) : Tree → Tree → Prop := Alike (Ident.Renamed R)

abbrev RenamedAll (R : Renaming) : List Tree → List Tree → Prop := AlikeAll (Ident.Renamed R)

theorem Renamed.mono {t t' : Tree} (h : t.Renamed R t') (le : R ≤ R') : t.Renamed R' t' :=
  h.imp fun _ _ same => same.mono le

theorem RenamedAll.mono {ts ts' : List Tree} (h : RenamedAll R ts ts') (le : R ≤ R') :
    RenamedAll R' ts ts' :=
  h.imp fun _ _ same => same.mono le

end Tree
end Lox
