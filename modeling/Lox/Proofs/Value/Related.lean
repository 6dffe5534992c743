import Mathlib.Data.List.Forall2
import Lox.Eval

set_option autoImplicit false

namespace Lox

namespace Bindings

variable {κ μ ν : Type}

def Related (R : μ → ν → Prop) : Bindings κ μ → Bindings κ ν → Prop :=
  List.Forall₂ fun p q => p.1 = q.1 ∧ R p.2 q.2

theorem Related.mono {R S : μ → ν → Prop} {b : Bindings κ μ} {c : Bindings κ ν}
    (h : Related R b c) (sub : ∀ x y, R x y → S x y) : Related S b c :=
  List.Forall₂.imp (fun _ _ both => ⟨both.1, sub _ _ both.2⟩) h

theorem Related.strengthen {R S : μ → ν → Prop} {b : Bindings κ μ} {c : Bindings κ ν}
    (h : Related R b c) (sub : ∀ p ∈ b, ∀ y, R p.2 y → S p.2 y) : Related S b c := by
  induction h with
  | nil => exact .nil
  | cons both _ ih =>
    refine .cons ⟨both.1, sub _ List.mem_cons_self _ both.2⟩ (ih ?_)
    exact fun p member => sub p (List.mem_cons_of_mem _ member)

theorem Related.partner {R : μ → ν → Prop} {b : Bindings κ μ} {c : Bindings κ ν} (h : Related R b c)
    {p : κ × μ} (member : p ∈ b) : ∃ y, R p.2 y := by
  induction h with
  | nil => cases member
  | cons both _ ih =>
    rcases List.mem_cons.1 member with rfl | later
    · exact ⟨_, both.2⟩
    · exact ih later

theorem Related.trans {R : ν → ν → Prop} (through : ∀ x y z, R x y → R y z → R x z)
    {b c d : Bindings κ ν} (h : Related R b c) (h' : Related R c d) : Related R b d := by
  induction h generalizing d with
  | nil => exact h'
  | cons both _ ih =>
    cases h' with
    | cons both' rest' =>
      exact .cons ⟨both.1.trans both'.1, through _ _ _ both.2 both'.2⟩ (ih rest')

variable [DecidableEq κ] {R : μ → ν → Prop} {b : Bindings κ μ} {c : Bindings κ ν}

theorem Related.get? (h : Related R b c) (k : κ) : Option.Rel R (b.get? k) (c.get? k) := by
  induction h with
  | nil => exact .none
  | @cons p q b c both _ ih =>
    simp only [Bindings.get?, both.1]
    split
    · exact .some both.2
    · exact ih

theorem Related.put (h : Related R b c) (k : κ) {x : μ} {y : ν} (value : R x y) :
    Related R (b.put k x) (c.put k y) := by
  induction h with
  | nil => exact .cons ⟨rfl, value⟩ .nil
  | @cons p q b c both rest ih =>
    simp only [Bindings.put, both.1]
    split
    · exact .cons ⟨rfl, value⟩ rest
    · exact .cons ⟨rfl, both.2⟩ ih

theorem Related.holds (h : Related R b c) (k : κ) : b.holds k = c.holds k := by
  have found := h.get? k
  unfold Bindings.holds
  generalize b.get? k = x at found ⊢
  generalize c.get? k = y at found ⊢
  cases found <;> rfl

end Bindings

structure ClassValue.Related (K : Closure → Closure → Prop) (c d : ClassValue) : Prop where
  tag : c.tag = d.tag
  name : c.name = d.name
  methods : Bindings.Related K c.methods d.methods

/-- The same value but for its closures, which are partners under `K`; the classes and instances on the
left are those that satisfy `live`. -/
inductive Value.Related (K : Closure → Closure → Prop) (live : Value → Prop) : Value → Value → Prop
  | nil : Related K live .nil .nil
  | bool (b : Bool) : Related K live (.bool b) (.bool b)
  | text (s : String) : Related K live (.text s) (.text s)
  | number (x : Float) : Related K live (.number x) (.number x)
  | native (f : Native) : Related K live (.native f) (.native f)
  | function {f g : Closure} : K f g → Related K live (.function f) (.function g)
  | classValue {c d : ClassValue} :
      c.Related K d → live (.classValue c) → Related K live (.classValue c) (.classValue d)
  | instanceOf {c d : ClassValue} {ref : Nat} : c.Related K d → live (.classValue c) →
      live (.instanceOf c ref) → Related K live (.instanceOf c ref) (.instanceOf d ref)

theorem ClassValue.Related.mono {K K' : Closure → Closure → Prop} {c d : ClassValue}
    (h : c.Related K d) (sub : ∀ f g, K f g → K' f g) : c.Related K' d :=
  ⟨h.tag, h.name, h.methods.mono sub⟩

theorem Value.Related.mono {K K' : Closure → Closure → Prop} {live live' : Value → Prop} {v v' : Value}
    (h : Related K live v v') (sub : ∀ f g, K f g → K' f g) (more : ∀ x, live x → live' x) :
    Related K' live' v v' := by
  cases h with
  | function both => exact .function (sub _ _ both)
  | classValue both known => exact .classValue (both.mono sub) (more _ known)
  | instanceOf both known here => exact .instanceOf (both.mono sub) (more _ known) (more _ here)
  | _ => constructor

theorem Value.Related.ofLiteral (K : Closure → Closure → Prop) (live : Value → Prop) (l : Literal) :
    Related K live (.ofLiteral l) (.ofLiteral l) := by
  cases l <;> constructor

def Closure.Alike (f g : Closure) : Prop := f.tag = g.tag ∧ f.name = g.name

def Value.Alike : Value → Value → Prop := Value.Related Closure.Alike fun _ => True

theorem Value.Related.alike {K : Closure → Closure → Prop} {live : Value → Prop} {v v' : Value}
    (h : Related K live v v') (sub : ∀ f g, K f g → f.Alike g) : v.Alike v' :=
  h.mono sub fun _ _ => trivial

theorem Closure.Alike.trans {f g k : Closure} (h : f.Alike g) (h' : g.Alike k) : f.Alike k :=
  ⟨h.1.trans h'.1, h.2.trans h'.2⟩

theorem ClassValue.Related.trans {c d e : ClassValue} (h : c.Related Closure.Alike d)
    (h' : d.Related Closure.Alike e) : c.Related Closure.Alike e where
  tag := h.tag.trans h'.tag
  name := h.name.trans h'.name
  methods := h.methods.trans (fun _ _ _ => .trans) h'.methods

namespace Value.Alike

variable {v v' w w' : Value}

theorem trans (h : v.Alike v') (h' : v'.Alike w) : v.Alike w := by
  cases h with
  | function both =>
    cases h' with
    | function both' => exact .function (both.trans both')
  | classValue both _ =>
    cases h' with
    | classValue both' => exact .classValue (both.trans both') trivial
  | instanceOf both _ _ =>
    cases h' with
    | instanceOf both' => exact .instanceOf (both.trans both') trivial trivial
  | _ => exact h'

theorem isTruthy (h : v.Alike v') : v.isTruthy = v'.isTruthy := by
  cases h <;> rfl

theorem display (h : v.Alike v') : v.display = v'.display := by
  cases h with
  | function both => simp only [Value.display, both.2]
  | classValue both _ => simp only [Value.display, nameOfClass, both.name]
  | instanceOf both _ _ => simp only [Value.display, nameOfClass, both.name]
  | _ => rfl

theorem quoted (h : v.Alike v') : v.quoted = v'.quoted := by
  cases h with
  | text s => rfl
  | function both => exact display (.function both)
  | classValue both known => exact display (.classValue both known)
  | instanceOf both known here =>
    simp only [Value.quoted]
    exact display (.instanceOf both known here)
  | _ => rfl

theorem equal? (h : v.Alike v') (h' : w.Alike w') : v.equal? w = v'.equal? w' := by
  cases h with
  | function both =>
    cases h' with
    | function both' => simp only [Value.equal?, both.1, both'.1]
    | _ => rfl
  | classValue both _ =>
    cases h' with
    | classValue both' _ => simp only [Value.equal?, both.tag, both'.tag]
    | _ => rfl
  | instanceOf both _ _ => cases h' <;> rfl
  | _ => cases h' <;> rfl

end Value.Alike

inductive Fault.Alike : Fault → Fault → Prop
  | operands (op : BinaryOp) {v v' w w' : Value} :
      v.Alike v' → w.Alike w' → Alike (.operands op v w) (.operands op v' w')
  | operand (op : UnaryOp) {v v' : Value} : v.Alike v' → Alike (.operand op v) (.operand op v')
  | undefinedVariable {i j : Ident} :
      i.shown = j.shown → Alike (.undefinedVariable i) (.undefinedVariable j)
  | undefinedProperty {v v' : Value} (field : String) :
      v.Alike v' → Alike (.undefinedProperty v field) (.undefinedProperty v' field)
  | notAnInstance {v v' : Value} (field : String) :
      v.Alike v' → Alike (.notAnInstance v field) (.notAnInstance v' field)
  | notCallable {v v' : Value} : v.Alike v' → Alike (.notCallable v) (.notCallable v')
  | arity {v v' : Value} (expected given : Nat) :
      v.Alike v' → Alike (.arity v expected given) (.arity v' expected given)
  | stackOverflow : Alike .stackOverflow .stackOverflow

theorem Fault.Alike.trans {f f' f'' : Fault} (h : f.Alike f') (h' : f'.Alike f'') : f.Alike f'' := by
  cases h with
  | operands op left right =>
    cases h' with
    | operands _ left' right' => exact .operands op (left.trans left') (right.trans right')
  | operand op value =>
    cases h' with
    | operand _ value' => exact .operand op (value.trans value')
  | undefinedVariable same =>
    cases h' with
    | undefinedVariable same' => exact .undefinedVariable (same.trans same')
  | undefinedProperty field value =>
    cases h' with
    | undefinedProperty _ value' => exact .undefinedProperty field (value.trans value')
  | notAnInstance field value =>
    cases h' with
    | notAnInstance _ value' => exact .notAnInstance field (value.trans value')
  | notCallable value =>
    cases h' with
    | notCallable value' => exact .notCallable (value.trans value')
  | arity expected given value =>
    cases h' with
    | arity _ _ value' => exact .arity expected given (value.trans value')
  | stackOverflow => exact h'

def Fault.isUnbound : Fault → Bool
  | .undefinedVariable _ => true
  | _ => false

theorem Fault.Alike.isUnbound {f f' : Fault} (h : f.Alike f') : f.isUnbound = f'.isUnbound := by
  cases h <;> rfl

theorem Fault.Alike.message {f f' : Fault} (h : f.Alike f') : f.message = f'.message := by
  cases h with
  | operands op h h' =>
    dsimp only [Fault.message]
    rw [h.quoted, h'.quoted]
  | operand op h | notAnInstance field h | notCallable h =>
    dsimp only [Fault.message]
    rw [h.quoted]
  | undefinedVariable same =>
    dsimp only [Fault.message]
    rw [same]
  | undefinedProperty field h | arity expected given h =>
    dsimp only [Fault.message]
    rw [h.display]
  | stackOverflow => rfl

inductive Applied (refusal refusal' : Fault) : Except Fault Value → Except Fault Value → Prop
  | bool (b : Bool) : Applied refusal refusal' (.ok (.bool b)) (.ok (.bool b))
  | number (x : Float) : Applied refusal refusal' (.ok (.number x)) (.ok (.number x))
  | text (s : String) : Applied refusal refusal' (.ok (.text s)) (.ok (.text s))
  | refused : Applied refusal refusal' (.error refusal) (.error refusal')

theorem BinaryOp.apply_agree (op : BinaryOp) {v v' w w' : Value} (h : v.Alike v') (h' : w.Alike w') :
    Applied (.operands op v w) (.operands op v' w') (op.apply v w) (op.apply v' w') := by
  have same := h.equal? h'
  cases op with
  | equal =>
    simp only [BinaryOp.apply, same]
    cases v'.equal? w' <;> constructor
  | notEqual =>
    simp only [BinaryOp.apply, same]
    cases v'.equal? w' <;> constructor
  | or | and => cases h <;> exact .refused
  | add =>
    cases h with
    | number x => cases h' <;> constructor
    | text s => cases h' <;> constructor
    | _ => exact .refused
  | _ =>
    cases h with
    | number x => cases h' <;> constructor
    | _ => exact .refused

theorem UnaryOp.apply_agree (op : UnaryOp) {v v' : Value} (h : v.Alike v') :
    Applied (.operand op v) (.operand op v') (op.apply v) (op.apply v') := by
  cases op with
  | not =>
    simp only [UnaryOp.apply, h.isTruthy]
    exact .bool _
  | negate => cases h <;> constructor

end Lox
