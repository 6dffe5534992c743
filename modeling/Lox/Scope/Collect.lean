import Lox.Scope.Arena

set_option autoImplicit false

namespace Lox

/-- What a collection makes of a thing that it comes upon. Frames of other arenas are plain. -/
inductive Sight (τ : Type) where
  | plain
  | frame (scope : ScopeId)
  | object (id : Nat) (captures : List τ)

structure Heap (ν τ : Type) where
  ofValue : ν → τ
  sight : τ → Sight τ
  objects : Nat
  bounded : ∀ {t id captures}, sight t = .object id captures → id < objects

structure Marking (τ : Type) where
  marked : List ScopeId
  seen : List Nat
  pending : List ScopeId
  values : List τ

namespace Marking

variable {ν τ : Type}

def waiting (m : Marking τ) : Nat := m.pending.length + m.values.length

def take (h : Heap ν τ) (m : Marking τ) (item : τ) : Marking τ :=
  match h.sight item with
  | .frame scope => { m with pending := scope :: m.pending }
  | _ => { m with values := item :: m.values }

def mark (h : Heap ν τ) (m : Marking τ) (scope : ScopeId) (values : List ν) : Marking τ :=
  { m with marked := scope :: m.marked, values := (values.map h.ofValue).reverse ++ m.values }

end Marking

namespace Arena

variable {κ ν τ : Type}

/-- Marks a scope and those around it, up to one that is marked or gone. -/
def climb (a : Arena κ ν) (h : Heap ν τ) : Nat → ScopeId → Marking τ → Marking τ
  | 0, _, m => m
  | steps + 1, scope, m =>
    match a.frame? scope with
    | none => m
    | some e =>
      if m.marked.contains scope then m
      else
        let m := m.mark h scope (e.bindings.map (·.2))
        match e.parent with
        | some p => a.climb h steps p m
        | none => m

/-- Attends to one thing that waits, to a scope if there is one. A climb that marks as many scopes as
there are entries comes to one that is marked. -/
def turn (a : Arena κ ν) (h : Heap ν τ) (m : Marking τ) : Marking τ :=
  match m.pending, m.values with
  | scope :: pending, _ => a.climb h (a.table.size + 1) scope { m with pending }
  | [], value :: values =>
    let m := { m with values }
    match h.sight value with
    | .object id captures =>
      if m.seen.contains id then m
      else captures.foldl (·.take h) { m with seen := id :: m.seen }
    | _ => m
  | [], [] => m

def turns (a : Arena κ ν) (h : Heap ν τ) : Nat → Marking τ → Marking τ
  | 0, m => m
  | n + 1, m => a.turns h n (a.turn h m)

/-- Takes turns until nothing waits. A round has as many turns as things waited when it began, and each
but the last marks a scope or sees an object. -/
def sweep (a : Arena κ ν) (h : Heap ν τ) : Nat → Marking τ → Marking τ
  | 0, m => m
  | rounds + 1, m => if m.waiting = 0 then m else a.sweep h rounds (a.turns h m.waiting m)

def seeds (a : Arena κ ν) (roots : List τ) : Marking τ where
  marked := []
  seen := []
  pending := (a.activeScopes.filter fun s => !a.exited.contains s).reverse
  values := roots.reverse

def marked (a : Arena κ ν) (h : Heap ν τ) (roots : List τ) : List ScopeId :=
  (a.sweep h (a.table.size + h.objects + 1) (a.seeds roots)).marked

def insertDown (x : ScopeId) : List ScopeId → List ScopeId
  | [] => [x]
  | y :: ys => if y ≤ x then x :: y :: ys else y :: insertDown x ys

def sortDown (xs : List ScopeId) : List ScopeId := xs.foldr insertDown []

def dropAll : List ScopeId → Work κ ν Unit
  | [] => return
  | s :: rest => do
    drop s
    dropAll rest

def collect (h : Heap ν τ) (roots : List τ) : Work κ ν Nat := do
  let a ← get
  let marked := a.marked h roots
  let doomed := sortDown (a.exited.filter fun s => !marked.contains s)
  dropAll doomed
  return doomed.length

end Arena
end Lox
