import Lox.CommandLine

set_option autoImplicit false

namespace Lox.Main

def put (o : Output) : IO Unit := do
  match o with
  | .line text => (← IO.getStdout).putStrLn text
  | .out text => (← IO.getStdout).putStr text
  | .err text => (← IO.getStderr).putStr text

def flush (s : Session) : IO Session := do
  s.report.written.forM put
  (← IO.getStdout).flush
  return { s with report := { s.report with written := #[] } }

def describe : Trouble → String
  | .failed phase => "failed in phase " ++ phase.name
  | .tooManyIssues => "too many issues"
  | .issuesLeft message => message
  | .scope e => e.message
  | .notText => "the file is not UTF-8"
  | .nulInPath => "no file name holds a NUL"
  | .endless => "a loop does not end"

def finish (result : Except Trouble Nat) : IO UInt32 := do
  match result with
  | .ok status => return status.toUInt32
  | .error e =>
    (← IO.getStderr).putStrLn (describe e)
    return 1

def read (path : String) : IO CommandLine.Contents := do
  if path.toList.contains '\x00' then return .nulInPath
  try
    return .ofBytes (← IO.FS.readBinFile path)
  catch
    | .noFileOrDirectory .. => return .missing
    | .permissionDenied .. => return .broken (CommandLine.permissionDenied path)
    | .invalidArgument .. => return .broken (CommandLine.nameTooLong path)
    | .inappropriateType _ 21 _ => return .broken (CommandLine.isADirectory path)
    | .inappropriateType _ _ _ => return .broken (CommandLine.notADirectory path)
    | e => return .broken (toString e)

partial def prompt (s : Session) : IO UInt32 := do
  put (.out "> ")
  (← IO.getStdout).flush
  let line ← (← IO.getStdin).getLine
  if line.isEmpty then
    put (.out "\n")
    return 0
  let (result, s) := (Session.replLine line).run s
  let s ← flush s
  match result with
  | .ok () => prompt s
  | .error e => finish (.error e)

def start (args : List String) : IO UInt32 := do
  match CommandLine.parse args with
  | .help =>
    put (.out CommandLine.helpText)
    return 0
  | .misuse message =>
    put (.err (CommandLine.misuseText message))
    return 2
  | .run options =>
    let now ← IO.monoMsNow
    let session := CommandLine.newSession options fun reading => (now + reading).toFloat
    match options.program with
    | none => prompt session
    | some program =>
      let path := CommandLine.fullPath (← IO.currentDir).toString program
      let (result, session) := (CommandLine.runProgram options path (← read path)).run session
      let _ ← flush session
      finish result

end Lox.Main

def main (args : List String) : IO UInt32 := Lox.Main.start args
