set_option autoImplicit false

namespace Lox

abbrev Bindings (κ ν : Type) := List (κ × ν)

namespace Bindings

variable {κ ν : Type} [DecidableEq κ]

def get? : Bindings κ ν → κ → Option ν
  | [], _ => none
  | (k', v) :: rest, k => if k' = k then some v else get? rest k

def put : Bindings κ ν → κ → ν → Bindings κ ν
  | [], k, v => [(k, v)]
  | (k', v') :: rest, k, v => if k' = k then (k, v) :: rest else (k', v') :: put rest k v

def holds (b : Bindings κ ν) (k : κ) : Bool := (get? b k).isSome

@[simp] theorem get?_put_same (b : Bindings κ ν) (k : κ) (v : ν) : get? (put b k v) k = some v := by
  induction b with
  | nil => simp [put, get?]
  | cons p rest ih => by_cases h : p.1 = k <;> simp [put, get?, h, ih]

theorem get?_put_other (b : Bindings κ ν) {k k' : κ} (v : ν) (h : k' ≠ k) :
    get? (put b k v) k' = get? b k' := by
  induction b with
  | nil => simp [put, get?, h.symm]
  | cons p rest ih =>
    by_cases hp : p.1 = k
    · simp [put, get?, hp, h.symm]
    · simp only [put, hp, if_false, get?, ih]

end Bindings
end Lox
