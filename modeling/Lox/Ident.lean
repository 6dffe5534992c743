import Lox.Text.Digest

set_option autoImplicit false

namespace Lox

structure Span where
  start : Nat
  stop : Nat
  deriving DecidableEq, Repr

inductive Ident where
  | name (text : String) (span : Option Span)
  | hash (digest : Nat)
  | slot (index : Int) (text : Option String)
  deriving DecidableEq, Repr

namespace Ident

def hexOf (n : Nat) : String :=
  .ofList (Nat.toDigits 16 n)

def key : Ident → Int
  | .name text _ => Digest.ofText text
  | .hash digest => digest
  | .slot index _ => index

def isResolved : Ident → Bool
  | .slot .. => true
  | _ => false

def span? : Ident → Option Span
  | .name _ span => span
  | _ => none

def ofText (text : String) : Ident :=
  .hash (Digest.ofText text)

def shown : Ident → String
  | .name text _ => text
  | .hash digest => "#" ++ hexOf digest
  | .slot _ (some text) => text
  | .slot index none => "$" ++ toString index

def described : Ident → String
  | .name text _ => "<Name " ++ text ++ ">"
  | .hash digest => "<Hash " ++ hexOf digest ++ ">"
  | .slot index _ => "<Slot " ++ toString index ++ ">"

def text? : Ident → Option String
  | .name text _ => some text
  | .hash _ => none
  | .slot _ text => text

def same : Ident → Ident → Bool
  | .name a _, .name b _ => a == b
  | .hash a, .hash b => a == b
  | .slot a _, .slot b _ => a == b
  | _, _ => false

end Ident
end Lox
