import Lox.Eval
import Lox.Grammar
import Lox.Report
import Lox.Slots
import Lox.Text.Blank
import Lox.Token.Scan

set_option autoImplicit false

namespace Lox

structure Session where
  report : Report
  slots : Slots
  machine : Machine
  limits : Limits

namespace Session

abbrev Work := ExceptT Trouble (StateM Session)

def nativeSlots : Slots := Slots.ofNames (Native.all.map Native.name)

def install (slots : Slots) : List Native → Machine → Machine
  | [], machine => machine
  | f :: rest, machine =>
    match slots.globalSlot f.name with
    | .ok slot => install slots rest ((Eval.define root slot (.native f)).run machine).2
    | .error _ => install slots rest machine

def withNatives (machine : Machine) : Slots × Machine :=
  (nativeSlots, install nativeSlots Native.all machine)

def start (report : Report) (machine : Machine) (limits : Limits) : Session :=
  let (slots, machine) := withNatives machine
  ⟨report, slots, machine, limits⟩

def reporting {α : Type} (work : Report.Work α) : Work α :=
  ExceptT.mk fun s =>
    let (result, report) := work.run s.report
    (result, { s with report })

theorem reporting_run {α : Type} (work : Report.Work α) (s : Session) :
    (reporting work).run s = ((work.run s.report).1, { s with report := (work.run s.report).2 }) := rfl

def failIn {α : Type} (phase : Phase) (record : Report.Work Unit) : Work α := do
  reporting record
  throw (.failed phase)

def parseText (text : String) (path : Option String) : Work (List Tree) := do
  reporting (Report.setSource text path)
  match scan text with
  | .error place => failIn .lex (Report.lexicalError place)
  | .ok tokens =>
    reporting (Report.info ["Scanned " ++ toString tokens.length ++ " tokens"])
    match Grammar.parseProgram tokens with
    | .error e => failIn .parse (Report.parseError e)
    | .ok program => return program

def resolve (program : List Tree) : Work (List Tree) := do
  let result ← modifyGet fun s =>
    let (result, slots) := s.slots.resolveProgram program
    (result, { s with slots })
  match result with
  | .error e => failIn .resolve (Report.resolveError e)
  | .ok resolved =>
    reporting (Report.info ["Resolved " ++ toString resolved.length ++ " statement(s)"])
    return resolved

def checkText (text : String) (path : Option String) : Work (List Tree) := do
  resolve (← parseText text path)

def execute (program : List Tree) : Work Value := do
  let result ← modifyGet fun s =>
    let machine := { s.machine with printed := #[] }
    let (result, machine) := (interpret s.limits program).run machine
    let written := s.report.written ++ machine.printed.map Output.line
    (result, { s with machine, report := { s.report with written } })
  match result with
  | .ok value => return value
  | .error (.fault f) => failIn .run (Report.runtimeError f.message)
  | .error (.scope e) => throw (.scope e)
  | .error .endless => throw .endless
  | .error (.returned value) => return value

def tidy (result : Value) : Work Unit := do
  let s ← get
  match s.machine.scopes with
  | .chain _ => return
  | .arena a =>
    reporting (Report.info ["Arena: " ++ toString a.table.size ++ " entries, "
      ++ toString a.activeScopes.length ++ " active"])
    let work : Arena.Work Int Value Bool := do
      let _ ← Arena.collect s.machine.heap [.value result]
      Arena.compact
    let (outcome, a) := work.run a
    modify fun s => { s with machine := { s.machine with scopes := .arena a } }
    match outcome with
    | .ok _ => return
    | .error e => throw (.scope e)

def runProgram (program : List Tree) : Work Value := do
  let result ← execute (← resolve program)
  tidy result
  return result

def runText (text : String) (path : Option String) : Work Value := do
  runProgram (← parseText text path)

def writeAll : List Output → Work Unit
  | [] => return
  | o :: rest => do
    reporting (Report.write o)
    writeAll rest

def dump (text : String) (path : Option String) : Work Unit := do
  let program ← parseText text path
  writeAll (program.map fun t => .out (t.render ++ "\n"))

def replLine (line : String) : Work Unit :=
  if line.toList.all Text.isBlank then return
  else
    tryCatch (do let _ ← runText line none) fun
      | .failed _ => reporting do
        Report.complain
        Report.reset
      | other => throw other

def repl (prompt : String) : List String → Work Unit
  | [] => writeAll [.out prompt, .out "\n"]
  | line :: rest => do
    writeAll [.out prompt]
    replLine line
    repl prompt rest

def linesOf (input : String) : List String :=
  let rec go : List Char → List Char → List String
    | [], [] => []
    | current, [] => [.ofList current.reverse]
    | current, '\n' :: cs => .ofList ('\n' :: current).reverse :: go [] cs
    | current, c :: cs => go (c :: current) cs
  go [] input.toList

end Session
end Lox
