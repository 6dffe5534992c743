import Lox.Fault
import Lox.Parser
import Lox.Scope.Arena
import Lox.Slots
import Lox.Source

set_option autoImplicit false

namespace Lox

inductive Output where
  | line (text : String)
  | out (text : String)
  | err (text : String)
  deriving DecidableEq, Repr

inductive Phase where
  | load | lex | parse | resolve | run
  deriving DecidableEq, Repr

def Phase.name : Phase → String
  | load => "load"
  | lex => "lex"
  | parse => "parse"
  | resolve => "resolve"
  | run => "run"

inductive Trouble where
  | failed (phase : Phase)
  | tooManyIssues
  | issuesLeft (message : String)
  | scope (e : ScopeError)
  | notText
  | nulInPath
  | endless

structure Annotation where
  source : Option Source
  span : Option Span
  caption : String

def Annotation.text (a : Annotation) : String :=
  match a.source, a.span with
  | some source, some span => source.pointAt span a.caption
  | _, _ => "    (position unknown)"

structure Issue where
  intro : String
  annotations : List Annotation
  footer : List String

def Issue.text (i : Issue) : String :=
  "\n".intercalate (i.intro :: i.annotations.map Annotation.text ++ i.footer)

structure Report where
  verbose : Bool
  maxIssues : Int
  issues : List Issue
  source : Option Source
  written : Array Output

namespace Report

def new (verbose : Bool) (maxIssues : Int) : Report := ⟨verbose, maxIssues, [], none, #[]⟩

def isOk (r : Report) : Bool := r.issues.isEmpty

def printed (r : Report) : List String :=
  r.written.toList.filterMap fun
    | .line text => some text
    | _ => none

def stdout (r : Report) : String :=
  r.written.foldl (fun s o =>
    match o with
    | .out text => s ++ text
    | _ => s) ""

def stdoutWithLines (r : Report) : String :=
  r.written.foldl (fun s o =>
    match o with
    | .out text => s ++ text
    | .line text => s ++ text ++ "\n"
    | .err _ => s) ""

def stderr (r : Report) : String :=
  r.written.foldl (fun s o =>
    match o with
    | .err text => s ++ text
    | _ => s) ""

abbrev Work := ExceptT Trouble (StateM Report)

def write (o : Output) : Work Unit := modify fun r => { r with written := r.written.push o }

def errLine (text : String) : Work Unit := write (.err (text ++ "\n"))

/-- The issue is kept even if it is one too many. -/
def issue (i : Issue) : Work Unit := do
  modify fun r => { r with issues := r.issues ++ [i] }
  let r ← get
  if (r.issues.length : Int) = r.maxIssues then throw .tooManyIssues

def reset : Work Unit := modify fun r => { r with issues := [] }

def info (words : List String) : Work Unit := do
  if (← get).verbose then errLine (" ".intercalate words)

def setSource (text : String) (path : Option String) : Work Unit :=
  modify fun r => { r with source := some ⟨text, path⟩ }

def pointing (span : Option Span) (caption : String) : Work Annotation :=
  return ⟨(← get).source, span, caption⟩

def complainAll : List Issue → Work Unit
  | [] => return
  | i :: rest => do
    errLine ("".intercalate (List.replicate 20 "  -"))
    errLine i.text
    complainAll rest

def complain : Work Unit := do
  let r ← get
  if !r.isOk then errLine ("".intercalate (List.replicate 60 "*"))
  complainAll r.issues

def assertNoIssues (message : String) : Work Unit := do
  if !(← get).isOk then
    complain
    throw (.issuesLeft message)

def noSuchFile (path : String) : Work Unit :=
  issue ⟨"I see no file called " ++ path, [], []⟩

def brokenFile (path why : String) : Work Unit :=
  issue ⟨"Something went pear-shaped while trying to read " ++ path, [], [why]⟩

def lexicalError (place : Nat) : Work Unit := do
  let here ← pointing (some ⟨place, place + 1⟩) "near here"
  issue ⟨"This character does not belong to any token.", [here], []⟩

def parseError (e : ParseError) : Work Unit := do
  match e.token? with
  | none => issue ⟨"Ran out of input: expected " ++ e.expected ++ ".", [], []⟩
  | some t =>
    let here ← pointing t.span "got confused here"
    issue ⟨"Expected " ++ e.expected ++ ".", [here], []⟩

def undefinedName (name : Ident) : Work Unit := do
  let here ← pointing name.span? ("'" ++ name.shown ++ "' is not declared in any enclosing scope")
  issue ⟨"I don't see what this refers to.", [here], []⟩

def cannotResolve (message : String) : Work Unit :=
  issue ⟨"The resolver was handed something it cannot resolve.", [], [message]⟩

def resolveError : ResolveError → Work Unit
  | .undefined name => undefinedName name
  | e => cannotResolve e.message

def runtimeError (message : String) : Work Unit :=
  issue ⟨"Run-time error: " ++ message, [], []⟩

end Report
end Lox
