import Lox.Proofs.Number.Shown
import Lox.Proofs.Tree.Layout

set_option autoImplicit false

namespace Lox

open Piece

def Ident.Legible (i : Ident) : Prop := ∃ text span, i = .name text span ∧ Unbroken text

def Literal.Legible : Literal → Prop
  | .nil | .bool _ => True
  | .number x => Number.Proper x
  | .text s => '"' ∉ s.toList

namespace Tree

mutual

@[simp] def Legible : Tree → Prop
  | assign target value => target.Legible ∧ value.Legible
  | binary _ lhs rhs => lhs.Legible ∧ rhs.Legible
  | unary _ operand => operand.Legible
  | call callee arguments => callee.Legible ∧ LegibleAll arguments
  | literal value => value.Legible
  | grouping inner => inner.Legible
  | lambda params body => (∀ p ∈ params, p.Legible) ∧ LegibleAll body
  | reference name => name.Legible
  | get object field => object.Legible ∧ Unbroken field
  | set object field value => object.Legible ∧ Unbroken field ∧ value.Legible
  | expression e => e.Legible
  | ifThen cond body => cond.Legible ∧ body.Legible
  | ifElse cond body other => cond.Legible ∧ body.Legible ∧ other.Legible
  | whileLoop cond body => cond.Legible ∧ body.Legible
  | print e => e.Legible
  | declare name initial => name.Legible ∧ initial.Legible
  | function name params body => name.Legible ∧ (∀ p ∈ params, p.Legible) ∧ LegibleAll body
  | ret value => value.Legible
  | classDef name methods => name.Legible ∧ LegibleAll methods
  | block statements => LegibleAll statements

@[simp] def LegibleAll : List Tree → Prop
  | [] => True
  | t :: ts => t.Legible ∧ LegibleAll ts

end

theorem legibleAll_iff {ts : List Tree} : LegibleAll ts ↔ ∀ t ∈ ts, t.Legible := by
  induction ts with
  | nil => simp
  | cons t ts ih => simp [ih]

end Tree

theorem Number.Proper.unbroken {x : Float} (proper : Number.Proper x) : Unbroken (Number.shown x) := by
  rcases Nat.lt_or_eq_of_le proper with finite | limit
  · obtain ⟨some, numeral⟩ := Number.numeral_shown finite
    refine ⟨some, fun c member breaks => ?_⟩
    have outside : ∀ d ∈ [' ', ',', '(', ')', '"'], ¬ Number.Numeral d := by simp [Number.Numeral]
    exact outside c breaks (numeral c member)
  · rw [Number.Proper.eq_infinity limit, Number.shown_infinite]
    decide

theorem Number.Proper.shown_ne {x : Float} (proper : Number.Proper x) {w : String}
    (word : w ∈ ["nil", "true", "false"]) : Number.shown x ≠ w := by
  rintro rfl
  rcases Nat.lt_or_eq_of_le proper with finite | limit
  · have letters : ∀ w ∈ ["nil", "true", "false"], ∃ c ∈ w.toList, ¬ Number.Numeral c := by
      simp [Number.Numeral]
    obtain ⟨c, member, outside⟩ := letters _ word
    exact outside ((Number.numeral_shown finite).2 c member)
  · rw [Number.Proper.eq_infinity limit, Number.shown_infinite] at word
    exact absurd word (by decide)

namespace Literal

theorem solid_pieces {a : Literal} (legible : a.Legible) : Solid a.pieces := by
  cases a with
  | nil => exact solid_chars (by decide)
  | bool b => cases b <;> exact solid_chars (by decide)
  | number x => exact solid_chars (Number.Proper.unbroken legible)
  | text s => exact solid_quoted legible

theorem flat_pieces (a : Literal) (inside : List Piece) : group inside ∉ a.pieces := by
  cases a <;> simp [pieces, chars]

theorem chars_ne_quoted (s : String) (text : List Char) : chars s ≠ [quoted text] := by
  simp [chars, List.map_eq_cons_iff]

theorem pieces_inj {a b : Literal} (legible : a.Legible) (legible' : b.Legible) :
    a.pieces = b.pieces ↔ a.same b = true := by
  cases a with
  | text s =>
    cases b with
    | text t => simp [pieces, same, String.toList_inj]
    | _ => exact iff_of_false (chars_ne_quoted _ _).symm Bool.false_ne_true
  | number x =>
    cases b with
    | text t => exact iff_of_false (chars_ne_quoted _ _) Bool.false_ne_true
    | number y =>
      rw [same, legible.beq_iff legible', ← Number.shown_inj legible legible']
      exact chars_inj
    | nil => exact iff_of_false (chars_inj.not.2 (legible.shown_ne (by decide))) Bool.false_ne_true
    | bool b =>
      refine iff_of_false (chars_inj.not.2 (legible.shown_ne ?_)) Bool.false_ne_true
      cases b <;> decide
  | nil =>
    cases b with
    | text t => exact iff_of_false (chars_ne_quoted _ _) Bool.false_ne_true
    | number y => exact iff_of_false (chars_inj.not.2 (legible'.shown_ne (by decide)).symm) Bool.false_ne_true
    | nil => exact iff_of_true rfl rfl
    | bool b => cases b <;> exact iff_of_false (chars_inj.not.2 (by decide)) Bool.false_ne_true
  | bool a =>
    cases b with
    | text t => exact iff_of_false (chars_ne_quoted _ _) Bool.false_ne_true
    | number y =>
      refine iff_of_false (chars_inj.not.2 (legible'.shown_ne ?_).symm) Bool.false_ne_true
      cases a <;> decide
    | nil => cases a <;> exact iff_of_false (chars_inj.not.2 (by decide)) Bool.false_ne_true
    | bool b => cases a <;> cases b <;> simp [pieces, render, same, chars_inj]

end Literal

namespace Ident

variable {i j : Ident}

theorem Legible.solid (legible : i.Legible) : Solid (chars i.shown) := by
  obtain ⟨text, span, rfl, unbroken⟩ := legible
  exact solid_chars unbroken

theorem Legible.chars_inj (legible : i.Legible) (legible' : j.Legible) :
    chars i.shown = chars j.shown ↔ i.same j = true := by
  obtain ⟨text, span, rfl, -⟩ := legible
  obtain ⟨text', span', rfl, -⟩ := legible'
  simp [Piece.chars_inj, shown, same]

end Ident

namespace Tree

theorem solid_params {params : List Ident} (legible : ∀ p ∈ params, p.Legible) :
    Solid (paramPieces params) := by
  refine solid_listed fun item member => ?_
  obtain ⟨p, listed, rfl⟩ := List.mem_map.1 member
  exact (legible p listed).solid

theorem sameIdents_iff {params params' : List Ident} (legible : ∀ p ∈ params, p.Legible)
    (legible' : ∀ p ∈ params', p.Legible) :
    params.map (fun p => chars p.shown) = params'.map (fun p => chars p.shown) ↔
      sameIdents params params' = true := by
  induction params generalizing params' with
  | nil => cases params' <;> simp [sameIdents]
  | cons p params ih =>
    cases params' with
    | nil => simp [sameIdents]
    | cons q params' =>
      rw [List.forall_mem_cons] at legible legible'
      simp [sameIdents, legible.1.chars_inj legible'.1, ih legible.2 legible'.2]

theorem paramPieces_inj {params params' : List Ident} (legible : ∀ p ∈ params, p.Legible)
    (legible' : ∀ p ∈ params', p.Legible) :
    paramPieces params = paramPieces params' ↔ sameIdents params params' = true := by
  rw [← sameIdents_iff legible legible']
  simp only [paramPieces, List.cons.injEq, and_true]
  refine listed_inj ?_ ?_
  · rw [List.forall_mem_map]
    exact fun p member => (legible p member).solid
  · rw [List.forall_mem_map]
    exact fun p member => (legible' p member).solid

theorem Layout.fits_form {l : Label} (form : l ∈ Label.forms) {parts : List (List Piece)}
    (arity : ∀ n ∈ l.arity, parts.length = n) (solid : ∀ part ∈ parts, Solid part) :
    Layout.Fits ⟨l, parts⟩ := by
  refine ⟨arity, solid, ?_, ?_⟩
  · rintro rfl
    exact absurd form (by decide)
  · rintro rfl
    exact absurd form (by decide)

mutual

theorem fits_layout {t : Tree} (legible : t.Legible) : t.layout.Fits := by
  cases t with
  | literal value =>
    exact ⟨by simp [layout, Label.arity], by simpa [layout] using Literal.solid_pieces legible, nofun,
      by simpa [layout] using value.flat_pieces⟩
  | call callee arguments =>
    refine ⟨nofun, ?_, by simp [layout], nofun⟩
    simpa [layout] using ⟨(fits_layout legible.1).solid_pieces, solid_piecesAll legible.2⟩
  | assign target value | declare target value =>
    exact Layout.fits_form (by decide) (by simp [Label.arity])
      (by simpa using ⟨legible.1.solid, (fits_layout legible.2).solid_pieces⟩)
  | binary op lhs rhs =>
    exact Layout.fits_form (by cases op <;> decide) (by simp [Label.arity])
      (by simpa using ⟨(fits_layout legible.1).solid_pieces, (fits_layout legible.2).solid_pieces⟩)
  | unary op operand =>
    exact Layout.fits_form (by cases op <;> decide) (by simp [Label.arity])
      (by simpa using (fits_layout (t := operand) legible).solid_pieces)
  | reference name =>
    exact Layout.fits_form (by decide) (by simp [Label.arity]) (by simpa using Ident.Legible.solid legible)
  | get object field =>
    exact Layout.fits_form (by decide) (by simp [Label.arity])
      (by simpa using ⟨(fits_layout legible.1).solid_pieces, solid_chars legible.2⟩)
  | set object field value =>
    exact Layout.fits_form (by decide) (by simp [Label.arity])
      (by simpa using ⟨(fits_layout legible.1).solid_pieces, solid_chars legible.2.1,
        (fits_layout legible.2.2).solid_pieces⟩)
  | grouping e | expression e | print e | ret e =>
    exact Layout.fits_form (by decide) (by simp [Label.arity])
      (by simpa using (fits_layout (t := e) legible).solid_pieces)
  | ifThen cond body | whileLoop cond body =>
    exact Layout.fits_form (by decide) (by simp [Label.arity])
      (by simpa using ⟨(fits_layout legible.1).solid_pieces, (fits_layout legible.2).solid_pieces⟩)
  | ifElse cond body other =>
    exact Layout.fits_form (by decide) (by simp [Label.arity])
      (by simpa using ⟨(fits_layout legible.1).solid_pieces, (fits_layout legible.2.1).solid_pieces,
        (fits_layout legible.2.2).solid_pieces⟩)
  | lambda params body =>
    have block := Layout.fits_form (l := .block) (by decide) nofun (solid_piecesAll legible.2)
    exact Layout.fits_form (by decide) (by simp [Label.arity])
      (by simpa using ⟨solid_params legible.1, block.solid_pieces⟩)
  | function name params body =>
    have block := Layout.fits_form (l := .block) (by decide) nofun (solid_piecesAll legible.2.2)
    exact Layout.fits_form (by decide) (by simp [Label.arity])
      (by simpa using ⟨legible.1.solid, solid_params legible.2.1, block.solid_pieces⟩)
  | classDef name methods =>
    exact Layout.fits_form (by decide) nofun (by simpa using ⟨legible.1.solid, solid_piecesAll legible.2⟩)
  | block statements => exact Layout.fits_form (by decide) nofun (solid_piecesAll legible)

theorem solid_piecesAll {ts : List Tree} (legible : LegibleAll ts) : ∀ part ∈ piecesAll ts, Solid part := by
  cases ts with
  | nil => simp [piecesAll]
  | cons t ts => simpa [piecesAll] using ⟨(fits_layout legible.1).solid_pieces, solid_piecesAll legible.2⟩

end

theorem label_of_same {t u : Tree} (h : same t u = true) : t.label = u.label := by
  unfold same at h
  split at h <;> simp_all [label]

theorem layout_inj {t u : Tree} (labels : t.label = u.label) :
    t.layout = u.layout ↔ t.layout.parts = u.layout.parts := by
  rw [← layout_label, ← layout_label] at labels
  generalize t.layout = a at *
  generalize u.layout = b at *
  cases a
  cases b
  simp_all

theorem body_inj {xs ys : List Tree} (legible : LegibleAll xs) (legible' : LegibleAll ys) :
    Layout.pieces ⟨.block, piecesAll xs⟩ = Layout.pieces ⟨.block, piecesAll ys⟩ ↔
      piecesAll xs = piecesAll ys := by
  have fits := Layout.fits_form (l := .block) (by decide) nofun (solid_piecesAll legible)
  have fits' := Layout.fits_form (l := .block) (by decide) nofun (solid_piecesAll legible')
  rw [Layout.pieces_inj fits fits', Layout.mk.injEq, eq_self_iff_true, true_and]

mutual

theorem pieces_inj {t u : Tree} (legible : t.Legible) (legible' : u.Legible) :
    t.layout.pieces = u.layout.pieces ↔ same t u = true := by
  rw [Layout.pieces_inj (fits_layout legible) (fits_layout legible')]
  by_cases labels : t.label = u.label
  · rw [layout_inj labels]
    cases t with
    | literal a =>
      cases u with
      | literal b =>
        simp only [layout, same, List.cons.injEq, and_true, Literal.pieces_inj legible legible']
      | _ => cases labels
    | call f xs =>
      cases u with
      | call g ys =>
        simp only [layout, same, List.cons.injEq, Bool.and_eq_true, pieces_inj legible.1 legible'.1,
          piecesAll_inj legible.2 legible'.2]
      | _ => cases labels
    | assign i x =>
      cases u with
      | assign j y =>
        simp only [layout, same, List.cons.injEq, and_true, Bool.and_eq_true, legible.1.chars_inj legible'.1,
          pieces_inj legible.2 legible'.2]
      | _ => cases labels
    | binary p a x =>
      cases u with
      | binary q b y =>
        cases labels
        simp only [layout, same, List.cons.injEq, beq_self_eq_true, Bool.true_and, and_true, Bool.and_eq_true,
          pieces_inj legible.1 legible'.1, pieces_inj legible.2 legible'.2]
      | _ => cases labels
    | unary p x =>
      cases u with
      | unary q y =>
        cases labels
        simp only [layout, same, List.cons.injEq, beq_self_eq_true, Bool.true_and, and_true,
          pieces_inj (t := x) (u := y) legible legible']
      | _ => cases labels
    | grouping x =>
      cases u with
      | grouping y =>
        simp only [layout, same, List.cons.injEq, and_true, pieces_inj (t := x) (u := y) legible legible']
      | _ => cases labels
    | lambda ps xs =>
      cases u with
      | lambda qs ys =>
        simp only [layout, same, List.cons.injEq, and_true, Bool.and_eq_true,
          paramPieces_inj legible.1 legible'.1, body_inj legible.2 legible'.2,
          piecesAll_inj legible.2 legible'.2]
      | _ => cases labels
    | reference i =>
      cases u with
      | reference j =>
        simp only [layout, same, List.cons.injEq, and_true, Ident.Legible.chars_inj legible legible']
      | _ => cases labels
    | get x f =>
      cases u with
      | get y g =>
        simp only [layout, same, List.cons.injEq, and_true, Bool.and_eq_true, beq_iff_eq,
          pieces_inj legible.1 legible'.1, chars_inj]
      | _ => cases labels
    | set x f z =>
      cases u with
      | set y g w =>
        simp only [layout, same, List.cons.injEq, and_true, Bool.and_eq_true, and_assoc, beq_iff_eq,
          pieces_inj legible.1 legible'.1, chars_inj, pieces_inj legible.2.2 legible'.2.2]
      | _ => cases labels
    | expression x =>
      cases u with
      | expression y =>
        simp only [layout, same, List.cons.injEq, and_true, pieces_inj (t := x) (u := y) legible legible']
      | _ => cases labels
    | ifThen c x =>
      cases u with
      | ifThen d y =>
        simp only [layout, same, List.cons.injEq, and_true, Bool.and_eq_true, pieces_inj legible.1 legible'.1,
          pieces_inj legible.2 legible'.2]
      | _ => cases labels
    | ifElse c x z =>
      cases u with
      | ifElse d y w =>
        simp only [layout, same, List.cons.injEq, and_true, Bool.and_eq_true, and_assoc,
          pieces_inj legible.1 legible'.1, pieces_inj legible.2.1 legible'.2.1,
          pieces_inj legible.2.2 legible'.2.2]
      | _ => cases labels
    | whileLoop c x =>
      cases u with
      | whileLoop d y =>
        simp only [layout, same, List.cons.injEq, and_true, Bool.and_eq_true, pieces_inj legible.1 legible'.1,
          pieces_inj legible.2 legible'.2]
      | _ => cases labels
    | print x =>
      cases u with
      | print y =>
        simp only [layout, same, List.cons.injEq, and_true, pieces_inj (t := x) (u := y) legible legible']
      | _ => cases labels
    | declare i x =>
      cases u with
      | declare j y =>
        simp only [layout, same, List.cons.injEq, and_true, Bool.and_eq_true, legible.1.chars_inj legible'.1,
          pieces_inj legible.2 legible'.2]
      | _ => cases labels
    | function i ps xs =>
      cases u with
      | function j qs ys =>
        simp only [layout, same, List.cons.injEq, and_true, Bool.and_eq_true, and_assoc,
          legible.1.chars_inj legible'.1, paramPieces_inj legible.2.1 legible'.2.1,
          body_inj legible.2.2 legible'.2.2, piecesAll_inj legible.2.2 legible'.2.2]
      | _ => cases labels
    | ret x =>
      cases u with
      | ret y =>
        simp only [layout, same, List.cons.injEq, and_true, pieces_inj (t := x) (u := y) legible legible']
      | _ => cases labels
    | classDef i xs =>
      cases u with
      | classDef j ys =>
        simp only [layout, same, List.cons.injEq, Bool.and_eq_true, legible.1.chars_inj legible'.1,
          piecesAll_inj legible.2 legible'.2]
      | _ => cases labels
    | block xs =>
      cases u with
      | block ys => exact @piecesAll_inj xs ys legible legible'
      | _ => cases labels
  · refine iff_of_false (fun same => labels ?_) (fun same => labels (label_of_same same))
    rw [← layout_label, ← layout_label, same]

theorem piecesAll_inj {ts us : List Tree} (legible : LegibleAll ts) (legible' : LegibleAll us) :
    piecesAll ts = piecesAll us ↔ sameAll ts us = true := by
  cases ts with
  | nil => cases us <;> simp [piecesAll, sameAll]
  | cons t ts =>
    cases us with
    | nil => simp [piecesAll, sameAll]
    | cons u us =>
      simp [piecesAll, sameAll, pieces_inj legible.1 legible'.1, piecesAll_inj legible.2 legible'.2]

end

theorem render_inj {t u : Tree} (legible : t.Legible) (legible' : u.Legible) :
    t.render = u.render ↔ same t u = true := by
  rw [← pieces_inj legible legible', ← String.toList_inj, ← writeAll_layout, ← writeAll_layout]
  exact ⟨eq_of_writeAll_eq (fits_layout legible).solid_pieces.clear (fits_layout legible').solid_pieces.clear,
    fun h => by rw [h]⟩

end Tree
end Lox
