import Lox.Proofs.Tree.Pieces
import Lox.Tree.Render

set_option autoImplicit false

namespace Lox

open Piece

namespace Tree

inductive Label where
  | literal | call
  | assign | binary (op : BinaryOp) | unary (op : UnaryOp) | grouping | lambda | reference | get | set
  | expression | ifThen | ifElse | whileLoop | print | declare | function | ret | classDef | block
  deriving DecidableEq

namespace Label

def forms : List Label :=
  BinaryOp.all.map binary ++
  [unary .not, unary .negate, assign, grouping, lambda, reference, get, set, expression, ifThen, ifElse,
   whileLoop, print, declare, function, ret, classDef, block]

theorem form_or (l : Label) : l = literal ∨ l = call ∨ l ∈ forms := by
  cases l with
  | binary op => cases op <;> decide
  | unary op => cases op <;> decide
  | _ => decide

def head : Label → String
  | literal | call => ""
  | assign => "="
  | binary op => op.glyph
  | unary op => op.glyph
  | grouping => "Grouping"
  | lambda => "Lambda"
  | reference => "Var"
  | get => "."
  | set => ".="
  | expression => "Expression"
  | ifThen | ifElse => "if"
  | whileLoop => "while"
  | print => "Print"
  | declare => "Declaration"
  | function => "Function"
  | ret => "Return"
  | classDef => "Class"
  | block => "Block"

def arity : Label → Option Nat
  | call | classDef | block => none
  | literal | unary _ | grouping | reference | expression | print | ret => some 1
  | assign | binary _ | lambda | get | ifThen | whileLoop | declare => some 2
  | set | ifElse | function => some 3

theorem unbroken_head : ∀ l ∈ forms, Unbroken l.head := by decide

theorem eq_or_arity_ne : ∀ l ∈ forms, ∀ m ∈ forms, l.head = m.head →
    l = m ∨ (l.arity ≠ m.arity ∧ l.arity.isSome ∧ m.arity.isSome) := by decide +kernel

end Label

structure Layout where
  label : Label
  parts : List (List Piece)

namespace Layout

def pieces : Layout → List Piece
  | ⟨.literal, parts⟩ => parts.flatten
  | ⟨.call, []⟩ => []
  | ⟨.call, callee :: arguments⟩ => callee ++ [listed arguments]
  | ⟨label, parts⟩ => [spaced (chars label.head :: parts)]

structure Fits (a : Layout) : Prop where
  arity : ∀ n ∈ a.label.arity, a.parts.length = n
  solid : ∀ part ∈ a.parts, Solid part
  called : a.label = .call → a.parts ≠ []
  flat : a.label = .literal → ∀ part ∈ a.parts, ∀ inside, group inside ∉ part

@[simp] theorem pieces_literal (part : List Piece) : pieces ⟨.literal, [part]⟩ = part := by simp [pieces]

@[simp] theorem pieces_call (callee : List Piece) (arguments : List (List Piece)) :
    pieces ⟨.call, callee :: arguments⟩ = callee ++ [listed arguments] := rfl

theorem pieces_form {l : Label} (form : l ∈ Label.forms) (parts : List (List Piece)) :
    pieces ⟨l, parts⟩ = [spaced (chars l.head :: parts)] := by
  cases l with
  | literal | call => exact absurd form (by decide)
  | _ => rfl

theorem solid_items {l : Label} (form : l ∈ Label.forms) {parts : List (List Piece)}
    (fits : Fits ⟨l, parts⟩) : ∀ item ∈ chars l.head :: parts, Solid item := by
  simpa using ⟨solid_chars (Label.unbroken_head l form), fits.solid⟩

theorem Fits.leaf {parts : List (List Piece)} (fits : Fits ⟨.literal, parts⟩) : ∃ part, parts = [part] :=
  List.length_eq_one_iff.1 (fits.arity 1 rfl)

theorem Fits.callee {parts : List (List Piece)} (fits : Fits ⟨.call, parts⟩) :
    ∃ callee arguments, parts = callee :: arguments :=
  List.exists_cons_of_ne_nil (fits.called rfl)

theorem Fits.solid_pieces {a : Layout} (fits : a.Fits) : Solid a.pieces := by
  obtain ⟨l, parts⟩ := a
  rcases l.form_or with rfl | rfl | form
  · obtain ⟨part, rfl⟩ := fits.leaf
    simpa using fits.solid
  · obtain ⟨callee, arguments, rfl⟩ := fits.callee
    have solid := fits.solid callee List.mem_cons_self
    have last : Solid [listed arguments] :=
      solid_listed fun item member => fits.solid item (List.mem_cons_of_mem _ member)
    refine ⟨by simp, clearAll_iff.2 fun p member => ?_, ?_, ?_⟩
    · rcases List.mem_append.1 member with here | here
      · exact clearAll_iff.1 solid.clear p here
      · exact clearAll_iff.1 last.clear p here
    · exact List.not_mem_append solid.space last.space
    · exact List.not_mem_append solid.comma last.comma
  · rw [pieces_form form]
    exact solid_spaced (solid_items form fits)

theorem Fits.literal_iff {a : Layout} (fits : a.Fits) :
    a.label = .literal ↔ ∀ inside, group inside ∉ a.pieces := by
  obtain ⟨l, parts⟩ := a
  rcases l.form_or with rfl | rfl | form
  · obtain ⟨part, rfl⟩ := fits.leaf
    simpa using fits.flat rfl
  · obtain ⟨callee, arguments, rfl⟩ := fits.callee
    exact iff_of_false nofun fun without => without _ (List.mem_append_right _ List.mem_cons_self)
  · have other : l ≠ .literal := by
      rintro rfl
      exact absurd form (by decide)
    simp [pieces_form form, spaced, row, other]

theorem Fits.form_iff {a : Layout} (fits : a.Fits) :
    a.label ∈ Label.forms ↔ ∃ inside, a.pieces = [group inside] := by
  obtain ⟨l, parts⟩ := a
  rcases l.form_or with rfl | rfl | form
  · obtain ⟨part, rfl⟩ := fits.leaf
    refine iff_of_false (by decide : Label.literal ∉ Label.forms) ?_
    rintro ⟨inside, single⟩
    exact fits.literal_iff.1 rfl inside (by simp [single])
  · obtain ⟨callee, arguments, rfl⟩ := fits.callee
    refine iff_of_false (by decide : Label.call ∉ Label.forms) ?_
    rintro ⟨inside, single⟩
    have some := (fits.solid callee List.mem_cons_self).ne_nil
    simp [List.append_eq_cons_iff, some] at single
  · exact iff_of_true form ⟨_, pieces_form form parts⟩

theorem pieces_inj {a b : Layout} (fits : a.Fits) (fits' : b.Fits) : a.pieces = b.pieces ↔ a = b := by
  refine ⟨fun h => ?_, fun h => by rw [h]⟩
  have literals : a.label = .literal ↔ b.label = .literal := by rw [fits.literal_iff, fits'.literal_iff, h]
  have forms : a.label ∈ Label.forms ↔ b.label ∈ Label.forms := by rw [fits.form_iff, fits'.form_iff, h]
  obtain ⟨l, parts⟩ := a
  obtain ⟨m, parts'⟩ := b
  rcases l.form_or with rfl | rfl | form
  · obtain rfl := literals.1 rfl
    obtain ⟨part, rfl⟩ := fits.leaf
    obtain ⟨part', rfl⟩ := fits'.leaf
    simpa using h
  · obtain rfl : m = .call := by
      rcases m.form_or with other | same | other
      · exact absurd (literals.2 other) nofun
      · exact same
      · exact absurd (forms.2 other) (by decide : Label.call ∉ Label.forms)
    obtain ⟨callee, arguments, rfl⟩ := fits.callee
    obtain ⟨callee', arguments', rfl⟩ := fits'.callee
    obtain ⟨rfl, rest⟩ := List.append_inj' h rfl
    have same := (listed_inj (fun item member => fits.solid item (List.mem_cons_of_mem _ member))
      (fun item member => fits'.solid item (List.mem_cons_of_mem _ member))).1 (List.cons.inj rest).1
    rw [same]
  · have form' := forms.1 form
    rw [pieces_form form, pieces_form form'] at h
    have items := (spaced_inj (solid_items form fits) (solid_items form' fits')).1 (List.cons.inj h).1
    obtain ⟨heads, rfl⟩ := List.cons.inj items
    rcases Label.eq_or_arity_ne l form m form' (chars_inj.1 heads) with rfl | ⟨differ, fixed, fixed'⟩
    · rfl
    · obtain ⟨n, arity⟩ := Option.isSome_iff_exists.1 fixed
      obtain ⟨n', arity'⟩ := Option.isSome_iff_exists.1 fixed'
      exact absurd (by rw [arity, arity', ← fits.arity n arity, ← fits'.arity n' arity']) differ

end Layout

end Tree

def Literal.pieces : Literal → List Piece
  | .text s => [quoted s.toList]
  | value => chars value.render

namespace Tree

def paramPieces (params : List Ident) : List Piece := [listed (params.map fun p => chars p.shown)]

mutual

def layout : Tree → Layout
  | assign target value => ⟨.assign, [chars target.shown, value.layout.pieces]⟩
  | binary op lhs rhs => ⟨.binary op, [lhs.layout.pieces, rhs.layout.pieces]⟩
  | unary op operand => ⟨.unary op, [operand.layout.pieces]⟩
  | call callee arguments => ⟨.call, callee.layout.pieces :: piecesAll arguments⟩
  | literal value => ⟨.literal, [value.pieces]⟩
  | grouping inner => ⟨.grouping, [inner.layout.pieces]⟩
  | lambda params body => ⟨.lambda, [paramPieces params, Layout.pieces ⟨.block, piecesAll body⟩]⟩
  | reference name => ⟨.reference, [chars name.shown]⟩
  | get object field => ⟨.get, [object.layout.pieces, chars field]⟩
  | set object field value => ⟨.set, [object.layout.pieces, chars field, value.layout.pieces]⟩
  | expression e => ⟨.expression, [e.layout.pieces]⟩
  | ifThen cond body => ⟨.ifThen, [cond.layout.pieces, body.layout.pieces]⟩
  | ifElse cond body other => ⟨.ifElse, [cond.layout.pieces, body.layout.pieces, other.layout.pieces]⟩
  | whileLoop cond body => ⟨.whileLoop, [cond.layout.pieces, body.layout.pieces]⟩
  | print e => ⟨.print, [e.layout.pieces]⟩
  | declare name initial => ⟨.declare, [chars name.shown, initial.layout.pieces]⟩
  | function name params body =>
    ⟨.function, [chars name.shown, paramPieces params, Layout.pieces ⟨.block, piecesAll body⟩]⟩
  | ret value => ⟨.ret, [value.layout.pieces]⟩
  | classDef name methods => ⟨.classDef, chars name.shown :: piecesAll methods⟩
  | block statements => ⟨.block, piecesAll statements⟩

def piecesAll : List Tree → List (List Piece)
  | [] => []
  | t :: ts => t.layout.pieces :: piecesAll ts

end

def label : Tree → Label
  | assign .. => .assign
  | binary op .. => .binary op
  | unary op .. => .unary op
  | call .. => .call
  | literal .. => .literal
  | grouping .. => .grouping
  | lambda .. => .lambda
  | reference .. => .reference
  | get .. => .get
  | set .. => .set
  | expression .. => .expression
  | ifThen .. => .ifThen
  | ifElse .. => .ifElse
  | whileLoop .. => .whileLoop
  | print .. => .print
  | declare .. => .declare
  | function .. => .function
  | ret .. => .ret
  | classDef .. => .classDef
  | block .. => .block

theorem layout_label (t : Tree) : t.layout.label = t.label := by
  cases t <;> rfl

theorem writeAll_literal (value : Literal) : writeAll value.pieces = value.render.toList := by
  cases value <;> simp [Literal.pieces, Literal.render]

theorem writeAll_form {l : Label} (form : l ∈ Label.forms) {parts : List (List Piece)} {texts : List String}
    (written : parts.map writeAll = texts.map String.toList) :
    writeAll (Layout.pieces ⟨l, parts⟩) = (Tree.form (l.head :: texts)).toList := by
  simp [Layout.pieces_form form, spaced, Tree.form, written]

theorem write_params (params : List Ident) : writeAll (paramPieces params) = (renderParams params).toList := by
  simp [paramPieces, renderParams, listed, Function.comp_def]

mutual

theorem writeAll_layout (t : Tree) : writeAll t.layout.pieces = t.render.toList := by
  cases t with
  | literal value => simpa [layout, render] using writeAll_literal value
  | call callee arguments => simp [layout, render, listed, writeAll_layout callee, map_piecesAll arguments]
  | assign _ value | declare _ value => exact writeAll_form (by decide) (by simp [writeAll_layout value])
  | binary op lhs rhs =>
    exact writeAll_form (by cases op <;> decide) (by simp [writeAll_layout lhs, writeAll_layout rhs])
  | unary op operand => exact writeAll_form (by cases op <;> decide) (by simp [writeAll_layout operand])
  | reference name => exact writeAll_form (by decide) (by simp)
  | get object field => exact writeAll_form (by decide) (by simp [writeAll_layout object])
  | set object field value =>
    exact writeAll_form (by decide) (by simp [writeAll_layout object, writeAll_layout value])
  | grouping e | expression e | print e | ret e => exact writeAll_form (by decide) (by simp [writeAll_layout e])
  | ifThen cond body | whileLoop cond body =>
    exact writeAll_form (by decide) (by simp [writeAll_layout cond, writeAll_layout body])
  | ifElse cond body other =>
    exact writeAll_form (by decide)
      (by simp [writeAll_layout cond, writeAll_layout body, writeAll_layout other])
  | lambda params body =>
    have block := writeAll_form (l := .block) (by decide) (map_piecesAll body)
    exact writeAll_form (by decide) (by simp [block, write_params, Label.head])
  | function name params body =>
    have block := writeAll_form (l := .block) (by decide) (map_piecesAll body)
    exact writeAll_form (by decide) (by simp [block, write_params, Label.head])
  | classDef name methods => exact writeAll_form (by decide) (by simp [map_piecesAll methods])
  | block statements => exact writeAll_form (by decide) (map_piecesAll statements)

theorem map_piecesAll (ts : List Tree) : (piecesAll ts).map writeAll = (renderAll ts).map String.toList := by
  cases ts with
  | nil => rfl
  | cons t ts => simp [piecesAll, renderAll, writeAll_layout t, map_piecesAll ts]

end

end Tree
end Lox
