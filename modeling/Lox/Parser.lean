import Lox.Token

set_option autoImplicit false

namespace Lox

structure Cursor where
  place : Nat
  rest : List Token
  size : Nat
  deriving Repr

namespace Cursor

def start (tokens : List Token) (place : Nat) : Cursor :=
  ⟨place, tokens.drop place, tokens.length⟩

def isAtEnd (c : Cursor) : Bool := c.place == c.size

def take? (c : Cursor) (test : Kind → Bool) : Option (Token × Cursor) :=
  match c.rest with
  | [] => none
  | t :: rest => if test t.kind then some (t, ⟨c.place + 1, rest, c.size⟩) else none

end Cursor

structure ParseError where
  expected : String
  here : Cursor
  deriving Repr

namespace ParseError

def token? (e : ParseError) : Option Token := e.here.rest.head?

def message (e : ParseError) : String :=
  match e.token? with
  | none => "expected " ++ e.expected ++ " but ran out of input"
  | some t => "expected " ++ e.expected ++ " but found " ++ t.shown

end ParseError

inductive Reply (α : Type) where
  | found (value : α) (next : Cursor)
  | noMatch (here : Cursor)
  | failed (e : ParseError)
  | tooDeep
  deriving Repr

inductive Parser (R : Type → Type) : Type → Type 1 where
  | kind (k : Kind) : Parser R Token
  | oneOf (ks : List Kind) : Parser R Token
  | endOfInput : Parser R Unit
  | done : Parser R Unit
  | pair {α β : Type} (p : Parser R α) (q : Parser R β) : Parser R (α × β)
  | never {α : Type} : Parser R α
  | orElse {α : Type} (p q : Parser R α) : Parser R α
  | zeroOrMore {α : Type} (p : Parser R α) : Parser R (List α)
  | oneOrMore {α : Type} (p : Parser R α) : Parser R (List α)
  | optional {α : Type} (p : Parser R α) (default : α) : Parser R α
  | map {α β : Type} (p : Parser R α) (f : α → β) : Parser R β
  | separated {α β : Type} (p : Parser R α) (separator : Parser R β) : Parser R (List α)
  | commit {α : Type} (p : Parser R α) (expected : String) : Parser R α
  /-- Reads a target. If `sign` follows, the target has to be one that `accepts` knows how to
  update, or the parse fails where the target began. -/
  | update {α β : Type} (target : Parser R α) (sign : Kind) (accepts : α → Option (β → α))
      (expected : String) (value : Parser R β) : Parser R α
  | ref {α : Type} (r : R α) (label : String) : Parser R α

namespace Parser

variable {R : Type → Type}

def left {α β : Type} (p : Parser R α) (q : Parser R β) : Parser R α :=
  (pair p q).map Prod.fst

def right {α β : Type} (p : Parser R α) (q : Parser R β) : Parser R β :=
  (pair p q).map Prod.snd

def sequence {α : Type} : List (Parser R α) → Parser R (List α)
  | [] => done.map fun _ => []
  | p :: ps => (pair p (sequence ps)).map fun (x, xs) => x :: xs

def choice {α : Type} : List (Parser R α) → Parser R α
  | [] => never
  | p :: ps => orElse p (choice ps)

def name : {α : Type} → Parser R α → String
  | _, kind k => "kind(" ++ k.label ++ ")"
  | _, oneOf _ => "one_of"
  | _, endOfInput => "end_of_input"
  | _, done => "sequence"
  | _, pair _ _ => "sequence"
  | _, never => "alternative"
  | _, orElse _ _ => "alternative"
  | _, zeroOrMore p => "zero_or_more(" ++ p.name ++ ")"
  | _, oneOrMore p => "one_or_more(" ++ p.name ++ ")"
  | _, optional p _ => "optional(" ++ p.name ++ ")"
  | _, map p _ => p.name
  | _, separated p _ => "separated(" ++ p.name ++ ")"
  | _, commit _ expected => if expected = "" then "parse_committed" else expected
  | _, update .. => "assignment"
  | _, ref _ label => if label = "" then "lazy" else label

def mapRefs {S : Type → Type} (f : {β : Type} → R β → S β) : {α : Type} → Parser R α → Parser S α
  | _, kind k => kind k
  | _, oneOf ks => oneOf ks
  | _, endOfInput => endOfInput
  | _, done => done
  | _, pair p q => pair (p.mapRefs f) (q.mapRefs f)
  | _, never => never
  | _, orElse p q => orElse (p.mapRefs f) (q.mapRefs f)
  | _, zeroOrMore p => zeroOrMore (p.mapRefs f)
  | _, oneOrMore p => oneOrMore (p.mapRefs f)
  | _, optional p default => optional (p.mapRefs f) default
  | _, map p g => map (p.mapRefs f) g
  | _, separated p s => separated (p.mapRefs f) (s.mapRefs f)
  | _, commit p expected => commit (p.mapRefs f) expected
  | _, update target sign accepts expected value =>
    update (target.mapRefs f) sign accepts expected (value.mapRefs f)
  | _, ref r label => ref (f r) label

end Parser
end Lox
