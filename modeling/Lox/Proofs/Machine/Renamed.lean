import Lox.Proofs.Scope.Renamed
import Lox.Proofs.Value.Related

set_option autoImplicit false

namespace Lox

structure Closure.Renamed (R : Renaming) (f g : Closure) : Prop where
  alike : f.Alike g
  params : List.Forall₂ (Ident.Renamed R) f.params g.params
  body : Tree.RenamedAll R f.body g.body
  scope : f.scope = g.scope

abbrev Value.Renamed (R : Renaming) : Value → Value → Prop :=
  Value.Related (Closure.Renamed R) fun _ => True

structure Machine.Renamed (R : Renaming) (m n : Machine) : Prop where
  scopes : m.scopes.Renamed R (Value.Renamed R) n.scopes
  instances : Paired (Bindings.Related (Value.Renamed R)) m.instances n.instances
  nextTag : m.nextTag = n.nextTag
  printed : m.printed = n.printed
  clock : m.clock = n.clock
  readings : m.readings = n.readings

inductive Stop.Renamed (R : Renaming) : Stop → Stop → Prop
  | returned {v v' : Value} : v.Renamed R v' → Renamed R (.returned v) (.returned v')
  | fault {f f' : Fault} : f.Alike f' → Renamed R (.fault f) (.fault f')
  | scope (e : ScopeError) : Renamed R (.scope e) (.scope e)
  | endless : Renamed R .endless .endless

variable {R R' : Renaming} {v v' : Value} {m n : Machine}

theorem Closure.Renamed.mono {f g : Closure} (h : f.Renamed R g) (le : R ≤ R') : f.Renamed R' g :=
  ⟨h.alike, h.params.imp fun _ _ both => both.mono le, h.body.mono le, h.scope⟩

theorem Value.Renamed.mono (h : v.Renamed R v') (le : R ≤ R') : v.Renamed R' v' :=
  Value.Related.mono h (fun _ _ both => both.mono le) fun _ _ => trivial

theorem Value.Renamed.alike (h : v.Renamed R v') : v.Alike v' :=
  Value.Related.alike h fun _ _ both => both.alike

theorem Machine.Renamed.mono (h : m.Renamed R n) (le : R ≤ R') : m.Renamed R' n where
  scopes := h.scopes.mono le fun _ _ both => both.mono le
  instances := h.instances.imp fun _ _ both => both.mono fun _ _ both => both.mono le
  nextTag := h.nextTag
  printed := h.printed
  clock := h.clock
  readings := h.readings

section Heap

inductive Captive.Renamed (R : Renaming) : Captive → Captive → Prop
  | frame (scope : ScopeId) : Renamed R (.frame scope) (.frame scope)
  | value {v v' : Value} : v.Renamed R v' → Renamed R (.value v) (.value v')

theorem Machine.Renamed.fields (h : m.Renamed R n) (ref : Nat) :
    Bindings.Related (Value.Renamed R) (m.instances.getD ref []) (n.instances.getD ref []) := by
  have entry := h.instances.entry ref
  simp only [Array.getD_eq_getD_getElem?]
  generalize m.instances[ref]? = x at entry ⊢
  generalize n.instances[ref]? = y at entry ⊢
  cases entry with
  | some both => exact both
  | none => exact .nil

theorem Bindings.Related.captives {κ μ : Type} {V : μ → μ → Prop} {b c : Bindings κ μ}
    (h : Bindings.Related V b c) (f : μ → Value) (values : ∀ x y, V x y → (f x).Renamed R (f y)) :
    List.Forall₂ (Captive.Renamed R) (b.map fun p => .value (f p.2)) (c.map fun p => .value (f p.2)) := by
  rw [List.forall₂_map_left_iff, List.forall₂_map_right_iff]
  exact h.imp fun _ _ both => .value (values _ _ both.2)

theorem Machine.Renamed.captures (h : m.Renamed R n) (both : v.Renamed R v') :
    List.Forall₂ (Captive.Renamed R) (m.captures v) (n.captures v') := by
  cases both with
  | function same =>
    simp only [Machine.captures, same.scope]
    exact .cons (.frame _) .nil
  | classValue same _ => exact same.methods.captives .function fun _ _ => .function
  | instanceOf same _ _ =>
    exact .cons (.value (.classValue same trivial)) ((h.fields _).captives id fun _ _ both => both)
  | _ => exact .nil

theorem Machine.Renamed.heap (h : m.Renamed R n) :
    m.heap.Same (Value.Renamed R) (Captive.Renamed R) n.heap where
  ofValue := .value
  objects := by
    simp only [Machine.heap, h.nextTag, h.instances.size]
  sight both := by
    cases both with
    | frame s => exact .frame s
    | @value v v' both =>
      have captures := h.captures both
      have identity : v.identity = v'.identity := by
        cases both with
        | function same => exact congrArg (fun tag => some (Identity.tag tag)) same.alike.1
        | classValue same _ => exact congrArg (fun tag => some (Identity.tag tag)) same.tag
        | _ => rfl
      simp only [Machine.heap, Machine.sight, identity, h.nextTag, h.instances.size]
      split
      · split
        · exact .object _ captures
        · exact .plain
      · split
        · exact .object _ captures
        · exact .plain
      · exact .plain

end Heap

namespace Run

variable {α : Type} {Q : α → α → Prop}

abbrev InStep (R : Renaming) {α : Type} (Q : α → α → Prop) : Run α → Run α → Prop :=
  Lockstep (Machine.Renamed R) (Stop.Renamed R) Q

theorem inStep_fail {f f' : Fault} (alike : f.Alike f') : InStep R Q (fail f) (fail f') :=
  .throw (.fault alike)

theorem inStep_onScopes {work work' : Scopes.Work Int Value α}
    (h : Scopes.InStep R (Value.Renamed R) Q work work') :
    InStep R Q (onScopes work) (onScopes work') := by
  intro m n related
  obtain ⟨scopes, both⟩ := h m.scopes n.scopes related.scopes
  refine ⟨⟨scopes, related.instances, related.nextTag, related.printed, related.clock,
    related.readings⟩, ?_⟩
  change Both _ _ ((work.run m.scopes).1.mapError Stop.scope)
    ((work'.run n.scopes).1.mapError Stop.scope)
  generalize (work.run m.scopes).1 = result at both ⊢
  generalize (work'.run n.scopes).1 = result' at both ⊢
  cases both with
  | ok both => exact .ok both
  | error same =>
    cases same
    exact .error (.scope _)

theorem inStep_print (line : String) : InStep R (fun _ _ => True) (print line) (print line) :=
  .modify fun _ _ h => ⟨h.scopes, h.instances, h.nextTag, by rw [h.printed], h.clock, h.readings⟩

theorem inStep_freshTag : InStep R Eq freshTag freshTag :=
  .modifyGet fun _ _ h =>
    ⟨⟨h.scopes, h.instances, by rw [h.nextTag], h.printed, h.clock, h.readings⟩, h.nextTag⟩

theorem inStep_readClock : InStep R Eq readClock readClock :=
  .modifyGet fun _ _ h =>
    ⟨⟨h.scopes, h.instances, h.nextTag, h.printed, h.clock, by rw [h.readings]⟩,
      by rw [h.clock, h.readings]⟩

theorem inStep_newInstance {c d : ClassValue} (same : c.Related (Closure.Renamed R) d) :
    InStep R (Value.Renamed R) (newInstance c) (newInstance d) := by
  refine .modifyGet fun m n h => ⟨⟨h.scopes, h.instances.push .nil, h.nextTag, h.printed, h.clock,
    h.readings⟩, ?_⟩
  rw [h.instances.size]
  exact .instanceOf same trivial trivial

theorem inStep_field? (ref : Nat) (name : String) :
    InStep R (Option.Rel (Value.Renamed R)) (field? ref name) (field? ref name) :=
  Lockstep.get.bind fun _ _ h => .pure ((h.fields ref).get? name)

theorem inStep_setField (ref : Nat) (name : String) (value : v.Renamed R v') :
    InStep R (fun _ _ => True) (setField ref name v) (setField ref name v') :=
  .modify fun _ _ h => ⟨h.scopes, h.instances.modify ref fun _ _ both => both.put name value,
    h.nextTag, h.printed, h.clock, h.readings⟩

theorem inStep_releasing (scope : ScopeId) {work work' : Run α} (h : InStep R Q work work') :
    InStep R Q (releasing scope work) (releasing scope work') := by
  intro m n related
  obtain ⟨related', both⟩ := h m n related
  obtain ⟨related'', released⟩ := inStep_onScopes (Scopes.inStep_release scope) _ _ related'
  simp only [releasing, ExceptT.run_mk]
  generalize work.run m = left at related' both related'' released ⊢
  generalize work'.run n = right at related' both related'' released ⊢
  obtain ⟨result, m'⟩ := left
  obtain ⟨result', n'⟩ := right
  dsimp only at related'' released ⊢
  generalize (onScopes (Scopes.release scope)).run m' = left at related'' released ⊢
  generalize (onScopes (Scopes.release scope)).run n' = right at related'' released ⊢
  obtain ⟨done, m''⟩ := left
  obtain ⟨done', n''⟩ := right
  cases released with
  | ok => exact ⟨related'', both⟩
  | error stop => exact ⟨related'', .error stop⟩

theorem inStep_catchReturn {work work' : Run Value} (h : InStep R (Value.Renamed R) work work') :
    InStep R (Value.Renamed R) (catchReturn work) (catchReturn work') := by
  intro m n related
  obtain ⟨related', both⟩ := h m n related
  rw [catchReturn_run, catchReturn_run]
  generalize work.run m = left at related' both ⊢
  generalize work'.run n = right at related' both ⊢
  obtain ⟨result, m'⟩ := left
  obtain ⟨result', n'⟩ := right
  cases both with
  | ok both => exact ⟨related', .ok both⟩
  | error stop =>
    cases stop with
    | returned both => exact ⟨related', .ok both⟩
    | fault alike => exact ⟨related', .error (.fault alike)⟩
    | scope e => exact ⟨related', .error (.scope e)⟩
    | endless => exact ⟨related', .error .endless⟩

end Run
end Lox
