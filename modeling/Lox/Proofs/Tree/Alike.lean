import Mathlib.Data.List.Forall2
import Lox.Tree.Render

set_option autoImplicit false

namespace Lox

namespace Ident

def named : Ident → Ident
  | .slot _ (some text) => .name text none
  | i => i

def unplaced : Ident → Ident
  | .name text _ => .name text none
  | i => i

theorem shown_named (i : Ident) : i.named.shown = i.shown := by
  unfold named
  split <;> rfl

theorem shown_unplaced (i : Ident) : i.unplaced.shown = i.shown := by
  cases i <;> rfl

end Ident

namespace Tree

mutual

inductive Alike (P : Ident → Ident → Prop) : Tree → Tree → Prop
  | assign {i j x y} : P i j → Alike P x y → Alike P (.assign i x) (.assign j y)
  | binary {op a b x y} : Alike P a b → Alike P x y → Alike P (.binary op a x) (.binary op b y)
  | unary {op x y} : Alike P x y → Alike P (.unary op x) (.unary op y)
  | call {f g xs ys} : Alike P f g → AlikeAll P xs ys → Alike P (.call f xs) (.call g ys)
  | literal {value} : Alike P (.literal value) (.literal value)
  | grouping {x y} : Alike P x y → Alike P (.grouping x) (.grouping y)
  | lambda {ps qs xs ys} : List.Forall₂ P ps qs → AlikeAll P xs ys →
      Alike P (.lambda ps xs) (.lambda qs ys)
  | reference {i j} : P i j → Alike P (.reference i) (.reference j)
  | get {x y field} : Alike P x y → Alike P (.get x field) (.get y field)
  | set {a b field x y} : Alike P a b → Alike P x y → Alike P (.set a field x) (.set b field y)
  | expression {x y} : Alike P x y → Alike P (.expression x) (.expression y)
  | ifThen {a b x y} : Alike P a b → Alike P x y → Alike P (.ifThen a x) (.ifThen b y)
  | ifElse {a b x y u v} : Alike P a b → Alike P x y → Alike P u v →
      Alike P (.ifElse a x u) (.ifElse b y v)
  | whileLoop {a b x y} : Alike P a b → Alike P x y → Alike P (.whileLoop a x) (.whileLoop b y)
  | print {x y} : Alike P x y → Alike P (.print x) (.print y)
  | declare {i j x y} : P i j → Alike P x y → Alike P (.declare i x) (.declare j y)
  | function {i j ps qs xs ys} : P i j → List.Forall₂ P ps qs → AlikeAll P xs ys →
      Alike P (.function i ps xs) (.function j qs ys)
  | ret {x y} : Alike P x y → Alike P (.ret x) (.ret y)
  | classDef {i j xs ys} : P i j → AlikeAll P xs ys → Alike P (.classDef i xs) (.classDef j ys)
  | block {xs ys} : AlikeAll P xs ys → Alike P (.block xs) (.block ys)

inductive AlikeAll (P : Ident → Ident → Prop) : List Tree → List Tree → Prop
  | nil : AlikeAll P [] []
  | cons {x y xs ys} : Alike P x y → AlikeAll P xs ys → AlikeAll P (x :: xs) (y :: ys)

end

mutual

def idents : Tree → List Ident
  | assign target value => target :: idents value
  | binary _ lhs rhs => idents lhs ++ idents rhs
  | unary _ e => idents e
  | call callee arguments => idents callee ++ identsAll arguments
  | literal _ => []
  | grouping e => idents e
  | lambda params body => params ++ identsAll body
  | reference name => [name]
  | get object _ => idents object
  | set object _ value => idents object ++ idents value
  | expression e => idents e
  | ifThen cond body => idents cond ++ idents body
  | ifElse cond body other => idents cond ++ (idents body ++ idents other)
  | whileLoop cond body => idents cond ++ idents body
  | print e => idents e
  | declare name initial => name :: idents initial
  | function name params body => name :: (params ++ identsAll body)
  | ret e => idents e
  | classDef name methods => name :: identsAll methods
  | block body => identsAll body

def identsAll : List Tree → List Ident
  | [] => []
  | t :: ts => idents t ++ identsAll ts

end

mutual

def mapIdents (f : Ident → Ident) : Tree → Tree
  | assign target value => assign (f target) (mapIdents f value)
  | binary op lhs rhs => binary op (mapIdents f lhs) (mapIdents f rhs)
  | unary op e => unary op (mapIdents f e)
  | call callee arguments => call (mapIdents f callee) (mapIdentsAll f arguments)
  | literal value => literal value
  | grouping e => grouping (mapIdents f e)
  | lambda params body => lambda (params.map f) (mapIdentsAll f body)
  | reference name => reference (f name)
  | get object field => get (mapIdents f object) field
  | set object field value => set (mapIdents f object) field (mapIdents f value)
  | expression e => expression (mapIdents f e)
  | ifThen cond body => ifThen (mapIdents f cond) (mapIdents f body)
  | ifElse cond body other => ifElse (mapIdents f cond) (mapIdents f body) (mapIdents f other)
  | whileLoop cond body => whileLoop (mapIdents f cond) (mapIdents f body)
  | print e => print (mapIdents f e)
  | declare name initial => declare (f name) (mapIdents f initial)
  | function name params body => function (f name) (params.map f) (mapIdentsAll f body)
  | ret e => ret (mapIdents f e)
  | classDef name methods => classDef (f name) (mapIdentsAll f methods)
  | block body => block (mapIdentsAll f body)

def mapIdentsAll (f : Ident → Ident) : List Tree → List Tree
  | [] => []
  | t :: ts => mapIdents f t :: mapIdentsAll f ts

end

section Mapped

variable {P : Ident → Ident → Prop} {f g : Ident → Ident}

theorem map_eq_of_forall₂ (agree : ∀ i j, P i j → f i = g j) {is js : List Ident}
    (h : List.Forall₂ P is js) : is.map f = js.map g := by
  induction h with
  | nil => rfl
  | cons first _ ih => rw [List.map_cons, List.map_cons, agree _ _ first, ih]

mutual

theorem Alike.mapIdents_eq (agree : ∀ i j, P i j → f i = g j) {t u : Tree} (h : t.Alike P u) :
    t.mapIdents f = u.mapIdents g := by
  cases h with
  | assign i x => rw [mapIdents, mapIdents, agree _ _ i, x.mapIdents_eq agree]
  | binary a x => rw [mapIdents, mapIdents, a.mapIdents_eq agree, x.mapIdents_eq agree]
  | unary x => rw [mapIdents, mapIdents, x.mapIdents_eq agree]
  | call f xs => rw [mapIdents, mapIdents, f.mapIdents_eq agree, xs.mapIdents_eq agree]
  | literal => rfl
  | grouping x => rw [mapIdents, mapIdents, x.mapIdents_eq agree]
  | lambda ps xs => rw [mapIdents, mapIdents, map_eq_of_forall₂ agree ps, xs.mapIdents_eq agree]
  | reference i => rw [mapIdents, mapIdents, agree _ _ i]
  | get x => rw [mapIdents, mapIdents, x.mapIdents_eq agree]
  | set a x => rw [mapIdents, mapIdents, a.mapIdents_eq agree, x.mapIdents_eq agree]
  | expression x => rw [mapIdents, mapIdents, x.mapIdents_eq agree]
  | ifThen a x => rw [mapIdents, mapIdents, a.mapIdents_eq agree, x.mapIdents_eq agree]
  | ifElse a x u =>
    rw [mapIdents, mapIdents, a.mapIdents_eq agree, x.mapIdents_eq agree, u.mapIdents_eq agree]
  | whileLoop a x => rw [mapIdents, mapIdents, a.mapIdents_eq agree, x.mapIdents_eq agree]
  | print x => rw [mapIdents, mapIdents, x.mapIdents_eq agree]
  | declare i x => rw [mapIdents, mapIdents, agree _ _ i, x.mapIdents_eq agree]
  | function i ps xs =>
    rw [mapIdents, mapIdents, agree _ _ i, map_eq_of_forall₂ agree ps, xs.mapIdents_eq agree]
  | ret x => rw [mapIdents, mapIdents, x.mapIdents_eq agree]
  | classDef i xs => rw [mapIdents, mapIdents, agree _ _ i, xs.mapIdents_eq agree]
  | block xs => rw [mapIdents, mapIdents, xs.mapIdents_eq agree]

theorem AlikeAll.mapIdents_eq (agree : ∀ i j, P i j → f i = g j) {ts us : List Tree}
    (h : AlikeAll P ts us) : mapIdentsAll f ts = mapIdentsAll g us := by
  cases h with
  | nil => rfl
  | cons x xs => rw [mapIdentsAll, mapIdentsAll, x.mapIdents_eq agree, xs.mapIdents_eq agree]

end

theorem forall₂_map {is : List Ident} (each : ∀ i ∈ is, P i (f i)) :
    List.Forall₂ P is (is.map f) := by
  rw [List.forall₂_map_right_iff, List.forall₂_same]
  exact each

mutual

theorem alike_mapIdents (t : Tree) (each : ∀ i ∈ t.idents, P i (f i)) : t.Alike P (t.mapIdents f) := by
  cases t with
  | literal value => exact .literal
  | assign target value =>
    rw [idents, List.forall_mem_cons] at each
    exact .assign each.1 (alike_mapIdents value each.2)
  | binary op lhs rhs =>
    rw [idents, List.forall_mem_append] at each
    exact .binary (alike_mapIdents lhs each.1) (alike_mapIdents rhs each.2)
  | unary op e => exact .unary (alike_mapIdents e each)
  | call callee arguments =>
    rw [idents, List.forall_mem_append] at each
    exact .call (alike_mapIdents callee each.1) (alikeAll_mapIdents arguments each.2)
  | grouping e => exact .grouping (alike_mapIdents e each)
  | lambda params body =>
    rw [idents, List.forall_mem_append] at each
    exact .lambda (forall₂_map each.1) (alikeAll_mapIdents body each.2)
  | reference name => exact .reference (each name List.mem_cons_self)
  | get object field => exact .get (alike_mapIdents object each)
  | set object field value =>
    rw [idents, List.forall_mem_append] at each
    exact .set (alike_mapIdents object each.1) (alike_mapIdents value each.2)
  | expression e => exact .expression (alike_mapIdents e each)
  | ifThen cond body =>
    rw [idents, List.forall_mem_append] at each
    exact .ifThen (alike_mapIdents cond each.1) (alike_mapIdents body each.2)
  | ifElse cond body other =>
    rw [idents, List.forall_mem_append, List.forall_mem_append] at each
    exact .ifElse (alike_mapIdents cond each.1) (alike_mapIdents body each.2.1)
      (alike_mapIdents other each.2.2)
  | whileLoop cond body =>
    rw [idents, List.forall_mem_append] at each
    exact .whileLoop (alike_mapIdents cond each.1) (alike_mapIdents body each.2)
  | print e => exact .print (alike_mapIdents e each)
  | declare name initial =>
    rw [idents, List.forall_mem_cons] at each
    exact .declare each.1 (alike_mapIdents initial each.2)
  | function name params body =>
    rw [idents, List.forall_mem_cons, List.forall_mem_append] at each
    exact .function each.1 (forall₂_map each.2.1) (alikeAll_mapIdents body each.2.2)
  | ret e => exact .ret (alike_mapIdents e each)
  | classDef name methods =>
    rw [idents, List.forall_mem_cons] at each
    exact .classDef each.1 (alikeAll_mapIdents methods each.2)
  | block body => exact .block (alikeAll_mapIdents body each)

theorem alikeAll_mapIdents (ts : List Tree) (each : ∀ i ∈ identsAll ts, P i (f i)) :
    AlikeAll P ts (mapIdentsAll f ts) := by
  cases ts with
  | nil => exact .nil
  | cons t ts =>
    rw [identsAll, List.forall_mem_append] at each
    exact .cons (alike_mapIdents t each.1) (alikeAll_mapIdents ts each.2)

end

mutual

theorem Alike.imp {Q : Ident → Ident → Prop} (sub : ∀ i j, P i j → Q i j) {t u : Tree}
    (h : t.Alike P u) : t.Alike Q u := by
  cases h with
  | assign i x => exact .assign (sub _ _ i) (x.imp sub)
  | binary a x => exact .binary (a.imp sub) (x.imp sub)
  | unary x => exact .unary (x.imp sub)
  | call f xs => exact .call (f.imp sub) (xs.imp sub)
  | literal => exact .literal
  | grouping x => exact .grouping (x.imp sub)
  | lambda ps xs => exact .lambda (ps.imp sub) (xs.imp sub)
  | reference i => exact .reference (sub _ _ i)
  | get x => exact .get (x.imp sub)
  | set a x => exact .set (a.imp sub) (x.imp sub)
  | expression x => exact .expression (x.imp sub)
  | ifThen a x => exact .ifThen (a.imp sub) (x.imp sub)
  | ifElse a x u => exact .ifElse (a.imp sub) (x.imp sub) (u.imp sub)
  | whileLoop a x => exact .whileLoop (a.imp sub) (x.imp sub)
  | print x => exact .print (x.imp sub)
  | declare i x => exact .declare (sub _ _ i) (x.imp sub)
  | function i ps xs => exact .function (sub _ _ i) (ps.imp sub) (xs.imp sub)
  | ret x => exact .ret (x.imp sub)
  | classDef i xs => exact .classDef (sub _ _ i) (xs.imp sub)
  | block xs => exact .block (xs.imp sub)

theorem AlikeAll.imp {Q : Ident → Ident → Prop} (sub : ∀ i j, P i j → Q i j) {ts us : List Tree}
    (h : AlikeAll P ts us) : AlikeAll Q ts us := by
  cases h with
  | nil => exact .nil
  | cons x xs => exact .cons (x.imp sub) (xs.imp sub)

end

mutual

theorem mapIdents_id (t : Tree) : t.mapIdents id = t := by
  cases t with
  | assign _ x => rw [mapIdents, mapIdents_id x, id]
  | binary _ a x => rw [mapIdents, mapIdents_id a, mapIdents_id x]
  | unary _ x => rw [mapIdents, mapIdents_id x]
  | call f xs => rw [mapIdents, mapIdents_id f, mapIdentsAll_id xs]
  | literal _ => rfl
  | grouping x => rw [mapIdents, mapIdents_id x]
  | lambda ps xs => rw [mapIdents, mapIdentsAll_id xs, List.map_id]
  | reference _ => rfl
  | get x _ => rw [mapIdents, mapIdents_id x]
  | set a _ x => rw [mapIdents, mapIdents_id a, mapIdents_id x]
  | expression x => rw [mapIdents, mapIdents_id x]
  | ifThen a x => rw [mapIdents, mapIdents_id a, mapIdents_id x]
  | ifElse a x u => rw [mapIdents, mapIdents_id a, mapIdents_id x, mapIdents_id u]
  | whileLoop a x => rw [mapIdents, mapIdents_id a, mapIdents_id x]
  | print x => rw [mapIdents, mapIdents_id x]
  | declare _ x => rw [mapIdents, mapIdents_id x, id]
  | function _ ps xs => rw [mapIdents, mapIdentsAll_id xs, List.map_id, id]
  | ret x => rw [mapIdents, mapIdents_id x]
  | classDef _ xs => rw [mapIdents, mapIdentsAll_id xs, id]
  | block xs => rw [mapIdents, mapIdentsAll_id xs]

theorem mapIdentsAll_id (ts : List Tree) : mapIdentsAll id ts = ts := by
  cases ts with
  | nil => rfl
  | cons t ts => rw [mapIdentsAll, mapIdents_id t, mapIdentsAll_id ts]

end

theorem alikeAll_iff {ts us : List Tree} : AlikeAll P ts us ↔ List.Forall₂ (Alike P) ts us := by
  constructor
  · intro h
    induction ts generalizing us with
    | nil =>
      cases h
      exact .nil
    | cons t ts ih =>
      cases h with
      | cons first rest => exact .cons first (ih rest)
  · intro h
    induction h with
    | nil => exact .nil
    | cons first _ ih => exact .cons first ih

theorem AlikeAll.length_eq {ts us : List Tree} (h : AlikeAll P ts us) : ts.length = us.length :=
  (alikeAll_iff.1 h).length_eq

theorem AlikeAll.eq_mapIdents {ts us : List Tree} (h : AlikeAll (fun i j => j = f i) ts us) :
    us = mapIdentsAll f ts := by
  have same : mapIdentsAll f ts = mapIdentsAll id us := h.mapIdents_eq fun _ _ own => own.symm
  rw [same, mapIdentsAll_id]

theorem renderParams_map (same : ∀ i, (f i).shown = i.shown) (params : List Ident) :
    renderParams (params.map f) = renderParams params := by
  have shown : Ident.shown ∘ f = Ident.shown := funext same
  rw [renderParams, renderParams, List.map_map, shown]

mutual

-- A rendering shows identifiers and nothing else of them.
theorem render_mapIdents (same : ∀ i, (f i).shown = i.shown) (t : Tree) :
    (t.mapIdents f).render = t.render := by
  cases t with
  | assign target value => rw [mapIdents, render, render, same, render_mapIdents same value]
  | binary op lhs rhs =>
    rw [mapIdents, render, render, render_mapIdents same lhs, render_mapIdents same rhs]
  | unary op e => rw [mapIdents, render, render, render_mapIdents same e]
  | call callee arguments =>
    rw [mapIdents, render, render, render_mapIdents same callee, renderAll_mapIdents same arguments]
  | literal value => rfl
  | grouping e => rw [mapIdents, render, render, render_mapIdents same e]
  | lambda params body =>
    rw [mapIdents, render, render, renderParams_map same, renderAll_mapIdents same body]
  | reference name => rw [mapIdents, render, render, same]
  | get object field => rw [mapIdents, render, render, render_mapIdents same object]
  | set object field value =>
    rw [mapIdents, render, render, render_mapIdents same object, render_mapIdents same value]
  | expression e => rw [mapIdents, render, render, render_mapIdents same e]
  | ifThen cond body =>
    rw [mapIdents, render, render, render_mapIdents same cond, render_mapIdents same body]
  | ifElse cond body other =>
    rw [mapIdents, render, render, render_mapIdents same cond, render_mapIdents same body,
      render_mapIdents same other]
  | whileLoop cond body =>
    rw [mapIdents, render, render, render_mapIdents same cond, render_mapIdents same body]
  | print e => rw [mapIdents, render, render, render_mapIdents same e]
  | declare name initial => rw [mapIdents, render, render, same, render_mapIdents same initial]
  | function name params body =>
    rw [mapIdents, render, render, same, renderParams_map same, renderAll_mapIdents same body]
  | ret e => rw [mapIdents, render, render, render_mapIdents same e]
  | classDef name methods => rw [mapIdents, render, render, same, renderAll_mapIdents same methods]
  | block body => rw [mapIdents, render, render, renderAll_mapIdents same body]

theorem renderAll_mapIdents (same : ∀ i, (f i).shown = i.shown) (ts : List Tree) :
    renderAll (mapIdentsAll f ts) = renderAll ts := by
  cases ts with
  | nil => rfl
  | cons t ts =>
    rw [mapIdentsAll, renderAll, renderAll, render_mapIdents same t, renderAll_mapIdents same ts]

end

end Mapped

end Tree
end Lox
