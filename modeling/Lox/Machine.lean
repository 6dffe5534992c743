import Lox.Fault
import Lox.Scope

set_option autoImplicit false

namespace Lox

structure Machine where
  scopes : Scopes Int Value
  instances : Array (Bindings String Value)
  nextTag : Nat
  printed : Array String
  clock : Nat → Float
  readings : Nat

inductive Stop where
  | returned (value : Value)
  | fault (f : Fault)
  | scope (e : ScopeError)
  | endless

inductive Captive where
  | frame (scope : ScopeId)
  | value (v : Value)

abbrev Run := ExceptT Stop (StateM Machine)

namespace Machine

def onChain (clock : Nat → Float) : Machine :=
  ⟨.chain .new, #[], 0, #[], clock, 0⟩

def onArena (clock : Nat → Float) : Machine :=
  ⟨.arena .new, #[], 0, #[], clock, 0⟩

def captures (m : Machine) : Value → List Captive
  | .function f => [.frame f.scope]
  | .classValue c => c.methods.map fun b => .value (.function b.2)
  | .instanceOf c ref => .value (.classValue c) :: (m.instances.getD ref []).map fun b => .value b.2
  | _ => []

/-- Objects are numbered by their tags, and instances from there on. -/
def sight (m : Machine) : Captive → Sight Captive
  | .frame scope => .frame scope
  | .value v =>
    match v.identity with
    | some (.tag tag) => if tag < m.nextTag then .object tag (m.captures v) else .plain
    | some (.place ref) =>
      if ref < m.instances.size then .object (m.nextTag + ref) (m.captures v) else .plain
    | none => .plain

def heap (m : Machine) : Heap Value Captive where
  ofValue := .value
  sight := m.sight
  objects := m.nextTag + m.instances.size
  bounded := by
    intro t id captures seen
    cases t with
    | frame scope => cases seen
    | value v =>
      simp only [sight] at seen
      split at seen
      · split at seen <;> cases seen
        omega
      · split at seen <;> cases seen
        omega
      · cases seen

end Machine

namespace Run

def fail {α : Type} (f : Fault) : Run α := throw (.fault f)

/-- The scopes are taken out meanwhile, so that they are not shared. -/
def onScopes {α : Type} (work : Scopes.Work Int Value α) : Run α :=
  ExceptT.mk fun m =>
    let scopes := m.scopes
    let m := { m with scopes := .chain ⟨#[]⟩ }
    let (result, scopes) := work.run scopes
    (result.mapError .scope, { m with scopes })

def print (line : String) : Run Unit :=
  modify fun m => { m with printed := m.printed.push line }

def freshTag : Run Nat :=
  modifyGet fun m => (m.nextTag, { m with nextTag := m.nextTag + 1 })

def readClock : Run Float :=
  modifyGet fun m => (m.clock m.readings, { m with readings := m.readings + 1 })

def newInstance (c : ClassValue) : Run Value :=
  modifyGet fun m => (.instanceOf c m.instances.size, { m with instances := m.instances.push [] })

def field? (ref : Nat) (name : String) : Run (Option Value) :=
  return ((← get).instances.getD ref []).get? name

def setField (ref : Nat) (name : String) (value : Value) : Run Unit :=
  modify fun m => { m with instances := m.instances.modify ref (·.put name value) }

def releasing {α : Type} (scope : ScopeId) (work : Run α) : Run α :=
  ExceptT.mk fun m =>
    let (result, m) := work.run m
    match (onScopes (Scopes.release scope)).run m with
    | (.ok (), m) => (result, m)
    | (.error e, m) => (.error e, m)

def catchReturn {σ : Type} (work : ExceptT Stop (StateM σ) Value) : ExceptT Stop (StateM σ) Value :=
  ExceptT.mk fun s =>
    match work.run s with
    | (.error (.returned value), s) => (.ok value, s)
    | other => other

end Run
end Lox
