import Lox.CommandLine.Arguments
import Lox.CommandLine.Files
import Lox.Session

set_option autoImplicit false

namespace Lox.CommandLine

def usage : String := "usage: loxley [-h] [-c] [-d] [-a] [-v] [program]\n"

def helpText : String :=
  usage ++ "\n" ++ "\n".intercalate [
    "This is an interpreter for the Loxley dialect of Lox.",
    "",
    "For example:",
    "",
    "    loxley program.lox",
    "",
    "will run program.lox if possible, or else try to explain why not.",
    "",
    "    loxley",
    "",
    "with no program starts an interactive prompt. End it with end-of-file.",
    "",
    "    loxley -h",
    "",
    "will explain all the arguments.",
    "",
    "positional arguments:",
    "  program        try examples/closures.lox for example.",
    "",
    "options:",
    "  -h, --help     show this help message and exit",
    "  -c, --check    Parse and resolve the program but do not actually execute it.",
    "  -d, --dump     Print each parsed statement in prefix form, then stop.",
    "  -a, --arena    Keep run-time scopes in an arena rather than a chain.",
    "  -v, --verbose  Chatter about progress on stderr.",
    ""]

def misuseText (message : String) : String := usage ++ "loxley: error: " ++ message ++ "\n"

def newSession (options : Options) (clock : Nat → Float) : Session :=
  let machine := if options.arena then Machine.onArena clock else Machine.onChain clock
  .start (.new (options.verbose != 0) 3) machine .standard

def load (path : String) (contents : Contents) : Session.Work String := do
  Session.reporting (Report.info ["Loading", path])
  match contents with
  | .text s => return s
  | .missing => Session.failIn .load (Report.noSuchFile path)
  | .broken why => Session.failIn .load (Report.brokenFile path why)
  | .notText => throw .notText
  | .nulInPath => throw .nulInPath

def perform (options : Options) (path : String) (contents : Contents) : Session.Work Unit := do
  let text ← load path contents
  if options.dump then Session.dump text (some path)
  else if options.check then
    let _ ← Session.checkText text (some path)
    Session.reporting (Report.errLine "Looks plausible to me.")
  else
    let _ ← Session.runText text (some path)

def runProgram (options : Options) (path : String) (contents : Contents) : Session.Work Nat :=
  tryCatch (do perform options path contents; return 0) fun
    | .failed phase => Session.reporting do
      Report.info ["Failed in phase", phase.name]
      Report.complain
      return 1
    | .tooManyIssues => Session.reporting do
      Report.complain
      Report.errLine "Giving up after a few issues."
      return 1
    | other => throw other

structure Outcome where
  status : Except Trouble Nat
  stdout : String
  stderr : String

def Outcome.ofSession (result : Except Trouble Nat × Session) : Outcome :=
  ⟨result.1, result.2.report.stdoutWithLines, result.2.report.stderr⟩

def run (args : List String) (input : String) (files : Files) (cwd : String)
    (clock : Nat → Float) : Outcome :=
  match parse args with
  | .help => ⟨.ok 0, helpText, ""⟩
  | .misuse message => ⟨.ok 2, "", misuseText message⟩
  | .run options =>
    let session := newSession options clock
    match options.program with
    | none =>
      .ofSession (ExceptT.run (do Session.repl "> " (Session.linesOf input); return 0) session)
    | some path =>
      .ofSession ((runProgram options (fullPath cwd path) (files.read cwd path)).run session)

end Lox.CommandLine
