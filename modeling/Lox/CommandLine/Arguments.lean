import Lox.Text.Digit
import Lox.Text.Quoted

set_option autoImplicit false

namespace Lox.CommandLine

inductive Switch where
  | help | check | dump | arena | verbose
  deriving DecidableEq, Repr

namespace Switch

def all : List Switch := [help, check, dump, arena, verbose]

def letter : Switch → Char
  | help => 'h'
  | check => 'c'
  | dump => 'd'
  | arena => 'a'
  | verbose => 'v'

def word : Switch → String
  | help => "help"
  | check => "check"
  | dump => "dump"
  | arena => "arena"
  | verbose => "verbose"

def ofLetter? (c : Char) : Option Switch := all.find? (·.letter == c)

def label (s : Switch) : String :=
  .ofList ['-', s.letter] ++ "/--" ++ s.word

end Switch

structure Options where
  check : Bool
  dump : Bool
  arena : Bool
  verbose : Nat
  program : Option String
  deriving DecidableEq, Repr

def Options.none : Options := ⟨false, false, false, 0, Option.none⟩

inductive Request where
  | run (options : Options)
  | help
  | misuse (message : String)
  deriving DecidableEq, Repr

inductive Word where
  | plain
  | unknown
  | switches (ss : List Switch)
  | valued (s : Switch) (value : List Char)
  deriving DecidableEq, Repr

def ambiguous (arg : List Char) (candidates : List Switch) : String :=
  "ambiguous option: " ++ .ofList arg ++ " could match "
    ++ ", ".intercalate (candidates.map fun s => "--" ++ s.word)

def dropNewline (cs : List Char) : List Char :=
  if cs.getLast? = some '\n' then cs.dropLast else cs

def isNegativeNumber (arg : List Char) : Bool :=
  match dropNewline arg with
  | '-' :: cs =>
    let whole := cs.takeWhile Text.isDecimalDigit
    match cs.dropWhile Text.isDecimalDigit with
    | [] => !whole.isEmpty
    | '.' :: fraction => !fraction.isEmpty && fraction.all Text.isDecimalDigit
    | _ => false
  | _ => false

def unmatched (arg : List Char) : Word :=
  if isNegativeNumber arg || arg.contains ' ' then .plain else .unknown

/-- A short switch and the text after it, each letter a switch of its own. From the first that is
none the text is a value of the switch before it. -/
def cluster (before : List Switch) (s : Switch) : List Char → Word
  | [] => .switches (before ++ [s])
  | c :: rest =>
    match Switch.ofLetter? c with
    | some next => cluster (before ++ [s]) next rest
    | none => .valued s (c :: rest)

def longWord (s : Switch) : Option (List Char) → Word
  | none => .switches [s]
  | some value => .valued s value

def classify (arg : List Char) : Except String Word :=
  match arg with
  | '-' :: '-' :: cs =>
    let name := cs.takeWhile (· != '=')
    let value := if cs.contains '=' then some ((cs.dropWhile (· != '=')).drop 1) else none
    match Switch.all.find? (·.word.toList == name) with
    | some s => .ok (longWord s value)
    | none =>
      match Switch.all.filter fun s => name.isPrefixOf s.word.toList with
      | [] => .ok (unmatched arg)
      | [s] => .ok (longWord s value)
      | candidates => .error (ambiguous arg candidates)
  | '-' :: c :: cs =>
    match Switch.ofLetter? c, cs with
    | none, _ => .ok (unmatched arg)
    -- One `=` may stand between the first letter and the others, but not at the end.
    | some s, ['='] => .ok (.valued s [])
    | some s, '=' :: letters => .ok (cluster [] s letters)
    | some s, letters => .ok (cluster [] s letters)
  | _ => .ok .plain

structure Reading where
  options : Options
  leftover : List String
  helpAsked : Bool

namespace Reading

def flip (r : Reading) : Switch → Reading
  | .help => { r with helpAsked := true }
  | .check => { r with options := { r.options with check := true } }
  | .dump => { r with options := { r.options with dump := true } }
  | .arena => { r with options := { r.options with arena := true } }
  | .verbose => { r with options := { r.options with verbose := r.options.verbose + 1 } }

def takePlain (r : Reading) (arg : String) : Reading :=
  match r.options.program with
  | none => { r with options := { r.options with program := some arg } }
  | some _ => { r with leftover := r.leftover ++ [arg] }

end Reading

def ignoredValue (s : Switch) (value : List Char) : String :=
  "argument " ++ s.label ++ ": ignored explicit argument " ++ Text.quoted (.ofList value)

def splitAtDashes : List String → List String × Option (List String)
  | [] => ([], none)
  | "--" :: rest => ([], some rest)
  | arg :: rest =>
    let (before, after) := splitAtDashes rest
    (arg :: before, after)

def classifyAll : List String → Except String (List (String × Word))
  | [] => .ok []
  | arg :: rest =>
    match classify arg.toList with
    | .error e => .error e
    | .ok w => (classifyAll rest).map ((arg, w) :: ·)

def takeAll (r : Reading) : List (String × Word) → Except String Reading
  | [] => .ok r
  | (arg, w) :: rest =>
    if r.helpAsked then .ok r
    else
      match w with
      | .plain => takeAll (r.takePlain arg) rest
      | .unknown => takeAll { r with leftover := r.leftover ++ [arg] } rest
      | .switches ss => takeAll (ss.foldl Reading.flip r) rest
      | .valued s value => .error (ignoredValue s value)

def justGiven (before : List (String × Word)) : Bool :=
  match before.reverse with
  | (_, .plain) :: earlier => earlier.all fun | (_, .plain) => false | _ => true
  | _ => false

def takeDashes (r : Reading) (before : List (String × Word)) : Reading :=
  if r.options.program.isNone || justGiven before then r
  else { r with leftover := r.leftover ++ ["--"] }

def parse (args : List String) : Request :=
  let (before, after) := splitAtDashes args
  match classifyAll before with
  | .error e => .misuse e
  | .ok words =>
    match takeAll ⟨.none, [], false⟩ words with
    | .error e => .misuse e
    -- Help wins over anything that comes after it and over what is left over before it.
    | .ok r =>
      if r.helpAsked then .help
      else
        let r :=
          match after with
          | none => r
          | some rest => rest.foldl Reading.takePlain (takeDashes r words)
        if r.leftover.isEmpty then .run r.options
        else .misuse ("unrecognized arguments: " ++ " ".intercalate r.leftover)

end Lox.CommandLine
