import Lox.Text.Decimal

set_option autoImplicit false

namespace Lox.Number

def layout : Decimal.Layout := ⟨-4, 16, 2⟩

def written (x : Float) : String :=
  if x.isNaN then "nan"
  else
    let sign := if Decimal.isNegative x then "-" else ""
    if x.isInf then sign ++ "inf"
    else sign ++ layout.write (Decimal.Dyadic.ofFloat x).shortest

def shown (x : Float) : String :=
  if x.isFinite then
    match (Decimal.Dyadic.ofFloat x).toNat? with
    | some n => (if Decimal.isNegative x && n != 0 then "-" else "") ++ .ofList (Nat.toDigits 10 n)
    | none => written x
  else written x

def epsilon : Float := 2.220446049250313e-16

def same (x y : Float) : Bool :=
  x == y || (x - y).abs < epsilon

end Lox.Number
