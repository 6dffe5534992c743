set_option autoImplicit false

namespace Lox.Decimal

abbrev twoTo (n : Nat) : Nat := Nat.pow 2 n

abbrev tenTo (n : Nat) : Nat := Nat.pow 10 n

structure Dyadic where
  mantissa : Nat
  exponent : Int
  deriving DecidableEq, Repr

def Dyadic.ofFields (biased fraction : Nat) : Dyadic :=
  if biased = 0 then ⟨fraction, -1074⟩ else ⟨fraction + twoTo 52, (biased : Int) - 1075⟩

def Dyadic.ofFloat (x : Float) : Dyadic :=
  let bits := x.toBits.toNat
  .ofFields (bits / twoTo 52 % twoTo 11) (bits % twoTo 52)

def isNegative (x : Float) : Bool :=
  x.toBits.toNat / twoTo 63 == 1

def Dyadic.toNat? (d : Dyadic) : Option Nat :=
  match d.exponent with
  | .ofNat e => some (d.mantissa * twoTo e)
  | .negSucc e =>
    if d.mantissa % twoTo (e + 1) = 0 then some (d.mantissa / twoTo (e + 1)) else none

/-- The reals that round to a magnitude lie between `low / scale` and `high / scale`;
`closed` says that the two ends round to it as well. -/
structure Interval where
  low : Nat
  value : Nat
  high : Nat
  scale : Nat
  closed : Bool

def Dyadic.interval (d : Dyadic) : Interval :=
  let below := if d.mantissa = twoTo 52 ∧ -1074 < d.exponent then 1 else 2
  let unit := twoTo (d.exponent - 2).toNat
  { low := (4 * d.mantissa - below) * unit
    value := 4 * d.mantissa * unit
    high := (4 * d.mantissa + 2) * unit
    scale := twoTo (2 - d.exponent).toNat
    closed := d.mantissa % 2 == 0 }

def Interval.onGrid (i : Interval) (power : Int) : Interval :=
  let up := tenTo (-power).toNat
  { i with
    low := i.low * up
    value := i.value * up
    high := i.high * up
    scale := i.scale * tenTo power.toNat }

def Interval.contains (i : Interval) (n : Nat) : Bool :=
  let p := n * i.scale
  if i.closed then i.low ≤ p && p ≤ i.high else i.low < p && p < i.high

def Interval.pick? (i : Interval) : Option Nat :=
  let floor := i.value / i.scale
  let rest := 2 * (i.value % i.scale)
  match i.contains floor, i.contains (floor + 1) with
  | false, false => none
  | true, false => some floor
  | false, true => some (floor + 1)
  | true, true =>
    if rest < i.scale ∨ (rest = i.scale ∧ floor % 2 = 0) then some floor else some (floor + 1)

def magnitude (value scale : Nat) : Int :=
  if scale ≤ value then ((Nat.toDigits 10 (value / scale)).length : Int) - 1
  else
    let places := (Nat.toDigits 10 (scale / value)).length
    if scale ≤ value * tenTo (places - 1) then -((places : Int) - 1) else -(places : Int)

def Interval.search (i : Interval) : Nat → Int → Nat × Int
  | 0, power => ((i.onGrid power).value / (i.onGrid power).scale, power)
  | tries + 1, power =>
    match (i.onGrid power).pick? with
    | some n => (n, power)
    | none => i.search tries (power - 1)

structure Digits where
  digits : List Char
  power : Int
  deriving DecidableEq, Repr

def Dyadic.shortest (d : Dyadic) : Digits :=
  if d.mantissa = 0 then ⟨['0'], 0⟩
  else
    let i := d.interval
    let (n, power) := i.search 17 (magnitude i.value i.scale)
    let all := Nat.toDigits 10 n
    ⟨(all.reverse.dropWhile (· == '0')).reverse, power + (all.length : Int) - 1⟩

structure Layout where
  positionalFrom : Int
  positionalBelow : Int
  exponentWidth : Nat

def Layout.positional (d : Digits) : List Char :=
  match d.power with
  | .ofNat p =>
    let whole := d.digits.take (p + 1)
    let fraction := d.digits.drop (p + 1)
    whole ++ List.replicate (p + 1 - whole.length) '0' ++ '.' ::
      (if fraction.isEmpty then ['0'] else fraction)
  | .negSucc p => '0' :: '.' :: List.replicate p '0' ++ d.digits

def Layout.scientific (l : Layout) (d : Digits) : List Char :=
  let size := Nat.toDigits 10 d.power.natAbs
  let mantissa :=
    match d.digits with
    | [] => []
    | [c] => [c]
    | c :: rest => c :: '.' :: rest
  mantissa ++ 'e' :: (if d.power < 0 then '-' else '+') ::
    List.replicate (l.exponentWidth - size.length) '0' ++ size

def Layout.write (l : Layout) (d : Digits) : String :=
  .ofList <|
    if l.positionalFrom ≤ d.power ∧ d.power < l.positionalBelow then Layout.positional d
    else l.scientific d

def natOfDigits (cs : List Char) : Nat :=
  cs.foldl (fun n c => 10 * n + (c.toNat - '0'.toNat)) 0

def roundDiv (num den : Nat) : Nat :=
  let floor := num / den
  let rest := 2 * (num % den)
  if rest < den ∨ (rest = den ∧ floor % 2 = 0) then floor else floor + 1

def lastPlace (num den : Nat) : Int :=
  let guess : Int := (num.log2 : Int) - (den.log2 : Int) - 52
  let quotient := num * twoTo (-guess).toNat / (den * twoTo guess.toNat)
  max (-1074) (if quotient < twoTo 52 then guess - 1 else guess)

/-- The bits of the double nearest to `num / den`. A significand that rounds up to the next power of
two carries into the exponent, and past the largest exponent lies infinity. -/
def nearestBits (num den : Nat) : Nat :=
  if num = 0 then 0
  else
    let q := lastPlace num den
    let significand := roundDiv (num * twoTo (-q).toNat) (den * twoTo q.toNat)
    min (2047 * twoTo 52) ((q + 1074).toNat * twoTo 52 + significand)

def nearest (num den : Nat) : Float :=
  .ofBits (nearestBits num den).toUInt64

def ofDigits (whole fraction : List Char) : Float :=
  nearest (natOfDigits (whole ++ fraction)) (tenTo fraction.length)

/-- The double nearest to `whole.fraction * 10 ^ power`. Above `10 ^ 310` lies only infinity and below
`10 ^ -330` only zero. -/
def ofScientificDigits (whole fraction : List Char) (power : Int) : Float :=
  let digits := (whole ++ fraction).dropWhile (· == '0')
  let ceiling := (digits.length : Int) - fraction.length + power
  if digits.isEmpty || ceiling < -330 then .ofBits 0
  else if 311 < ceiling then 1.0 / 0.0
  else
    nearest (natOfDigits digits * tenTo power.toNat) (tenTo (fraction.length + (-power).toNat))

private def exponent? (cs : List Char) : Option Int :=
  match cs with
  | [] => some 0
  | mark :: rest =>
    if mark = 'e' ∨ mark = 'E' then
      let (sign, digits) :=
        match rest with
        | '-' :: ds => (-1, ds)
        | '+' :: ds => (1, ds)
        | ds => ((1 : Int), ds)
      if digits.isEmpty || !digits.all Char.isDigit then none
      else some (sign * (natOfDigits digits : Int))
    else none

private def unsigned? (cs : List Char) : Option Float :=
  let word := cs.map Char.toLower
  if word = "inf".toList ∨ word = "infinity".toList then some (1.0 / 0.0)
  else if word = "nan".toList then some (0.0 / 0.0)
  else
    let whole := cs.takeWhile Char.isDigit
    let afterWhole := cs.dropWhile Char.isDigit
    let (fraction, tail) :=
      match afterWhole with
      | '.' :: rest => (rest.takeWhile Char.isDigit, rest.dropWhile Char.isDigit)
      | rest => ([], rest)
    if whole.isEmpty && fraction.isEmpty then none
    else (exponent? tail).map (ofScientificDigits whole fraction)

def read? (s : String) : Option Float :=
  match s.toList with
  | '-' :: cs => (unsigned? cs).map (fun x => -x)
  | '+' :: cs => unsigned? cs
  | cs => unsigned? cs

end Lox.Decimal
