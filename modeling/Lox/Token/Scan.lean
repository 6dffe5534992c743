import Lox.Text.Blank
import Lox.Token

set_option autoImplicit false

namespace Lox.Scan

def isDigit (c : Char) : Bool := '0' ≤ c && c ≤ '9'

def isWordStart (c : Char) : Bool :=
  ('A' ≤ c && c ≤ 'Z') || ('a' ≤ c && c ≤ 'z') || c == '_'

def isWordPart (c : Char) : Bool := isWordStart c || isDigit c

inductive Rule where
  | gap | comment | number | string | word | punctuation
  deriving DecidableEq, Repr

namespace Rule

def all : List Rule := [gap, comment, number, string, word, punctuation]

def takesEqual (c : Char) : Bool := c == '!' || c == '=' || c == '<' || c == '>'

def isSingle (c : Char) : Bool :=
  ['(', ')', '\x7b', '\x7d', ',', '.', ';', '-', '+', '*', '/'].contains c

def reach : Rule → List Char → Nat
  | gap, cs => (cs.takeWhile Text.isGap).length
  | comment, '/' :: '/' :: cs => 2 + (cs.takeWhile (· != '\n')).length
  | comment, _ => 0
  | number, cs =>
    let whole := (cs.takeWhile isDigit).length
    match cs.drop whole with
    | '.' :: rest =>
      let fraction := (rest.takeWhile isDigit).length
      if whole = 0 ∨ fraction = 0 then whole else whole + 1 + fraction
    | _ => whole
  | string, '"' :: cs =>
    let inside := (cs.takeWhile (· != '"')).length
    if inside < cs.length then inside + 2 else 0
  | string, _ => 0
  | word, c :: cs => if isWordStart c then 1 + (cs.takeWhile isWordPart).length else 0
  | word, [] => 0
  | punctuation, c :: '=' :: _ => if takesEqual c then 2 else if isSingle c then 1 else 0
  | punctuation, c :: _ => if takesEqual c || isSingle c then 1 else 0
  | punctuation, [] => 0

def lexeme? : Rule → List Char → Option Lexeme
  | gap, _ => none
  | comment, _ => none
  | number, cs => some (.number (Decimal.ofDigits (cs.takeWhile isDigit) ((cs.dropWhile isDigit).drop 1)))
  | string, cs => some (.string (.ofList (cs.drop 1).dropLast))
  | word, cs =>
    let text := String.ofList cs
    match Mark.keywords.find? (·.glyph == text) with
    | some m => some (.mark m)
    | none => some (.identifier text)
  | punctuation, cs =>
    let text := String.ofList cs
    (Mark.punctuation.find? (·.glyph == text)).map .mark

end Rule

def munch (cs : List Char) : Rule × Nat :=
  Rule.all.foldl (fun best r => if best.2 < r.reach cs then (r, r.reach cs) else best) (.gap, 0)

/-- Scans from offset `place` on; the first `skip` characters belong to the match before. -/
def scanFrom : Nat → Nat → List Char → Except Nat (List Token)
  | _, _, [] => .ok []
  | place, skip + 1, _ :: cs => scanFrom (place + 1) skip cs
  | place, 0, c :: cs =>
    let (rule, length) := munch (c :: cs)
    if length = 0 then .error place
    else
      match scanFrom (place + 1) (length - 1) cs with
      | .error e => .error e
      | .ok rest =>
        match rule.lexeme? ((c :: cs).take length) with
        | none => .ok rest
        | some lexeme => .ok (⟨lexeme, some ⟨place, place + length⟩⟩ :: rest)

end Lox.Scan

namespace Lox

def scan (text : String) : Except Nat (List Token) :=
  Scan.scanFrom 0 0 text.toList

end Lox
