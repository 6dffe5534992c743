import Lox.Parser

set_option autoImplicit false

namespace Lox

namespace Reply

def andThen {α β : Type} (r : Reply α) (f : α → Cursor → Reply β) : Reply β :=
  match r with
  | found value next => f value next
  | noMatch here => noMatch here
  | failed e => failed e
  | tooDeep => tooDeep

def orTry {α : Type} (r : Reply α) (f : Cursor → Reply α) : Reply α :=
  match r with
  | noMatch here => f here
  | r => r

def map {α β : Type} (f : α → β) (r : Reply α) : Reply β :=
  r.andThen fun value next => found (f value) next

end Reply

namespace Parser

def one (c : Cursor) (test : Kind → Bool) : Reply Token :=
  match c.take? test with
  | some (t, next) => .found t next
  | none => .noMatch c

/-- Repeats `step` as long as it finds something and moves on. A round that moves on takes at least one
of the tokens `left`. -/
def repeated {α : Type} (step : Cursor → Reply α) : List Token → Cursor → Reply (List α)
  | left, c =>
    match step c with
    | .found value next =>
      if next.place = c.place then .found [] c
      else
        match left with
        | [] => .found [] c
        | _ :: left => (repeated step left next).map (value :: ·)
    | .noMatch _ => .found [] c
    | .failed e => .failed e
    | .tooDeep => .tooDeep

def many {α : Type} (step : Cursor → Reply α) (c : Cursor) : Reply (List α) :=
  repeated step c.rest c

def both {α β : Type} (p : Cursor → Reply α) (q : Cursor → Reply β) (c : Cursor) : Reply (α × β) :=
  match p c with
  | .noMatch _ => .noMatch c
  | reply => reply.andThen fun a next =>
    match q next with
    | .noMatch _ => .noMatch c
    | reply => reply.map fun b => (a, b)

def run {R : Type → Type} (look : {β : Type} → R β → Cursor → Reply β) :
    {α : Type} → Parser R α → Cursor → Reply α
  | _, kind k, c => one c (· == k)
  | _, oneOf ks, c => one c ks.contains
  | _, endOfInput, c => if c.isAtEnd then .found () c else .noMatch c
  | _, done, c => .found () c
  | _, pair p q, c => both (p.run look) (q.run look) c
  | _, never, c => .noMatch c
  | _, orElse p q, c => (p.run look c).orTry fun _ => q.run look c
  | _, zeroOrMore p, c => many (p.run look) c
  | _, oneOrMore p, c =>
    (many (p.run look) c).andThen fun values next =>
      if values.isEmpty then .noMatch c else .found values next
  | _, optional p default, c => (p.run look c).orTry fun _ => .found default c
  | _, map p f, c => (p.run look c).map f
  | _, separated p s, c =>
    match p.run look c with
    | .noMatch _ => .found [] c
    | reply => reply.andThen fun first next =>
      (many (both (s.run look) (p.run look)) next).map fun more => first :: more.map Prod.snd
  | _, commit p expected, c => (p.run look c).orTry fun here => .failed ⟨expected, here⟩
  | _, update target sign accepts expected value, c =>
    (target.run look c).andThen fun found next =>
      match next.take? (· == sign) with
      | none => .found found next
      | some (_, afterSign) =>
        match accepts found with
        | none => .failed ⟨expected, c⟩
        | some build =>
          match value.run look afterSign with
          | .noMatch _ => .noMatch c
          | reply => reply.map build
  | _, ref r _, c => look r c

end Parser

def Rules (R : Type → Type) := {α : Type} → R α → Parser R α

namespace Rules

variable {R : Type → Type}

def look (rules : Rules R) : Nat → {α : Type} → R α → Cursor → Reply α
  | 0, _, _, _ => .tooDeep
  | depth + 1, _, r, c => (rules r).run (look rules depth) c

def parse (rules : Rules R) (depth : Nat) {α : Type} (p : Parser R α) (c : Cursor) : Reply α :=
  p.run (rules.look depth) c

end Rules
end Lox
