import Lox.Text.Quoted

set_option autoImplicit false

namespace Lox.CommandLine

inductive Contents where
  | text (s : String)
  | missing
  | broken (why : String)
  | notText
  | nulInPath

def plainNewlines : List Char → List Char
  | '\r' :: '\n' :: cs => '\n' :: plainNewlines cs
  | '\r' :: cs => '\n' :: plainNewlines cs
  | c :: cs => c :: plainNewlines cs
  | [] => []

def Contents.ofBytes (bytes : ByteArray) : Contents :=
  match String.fromUTF8? bytes with
  | some s => .text (.ofList (plainNewlines s.toList))
  | none => .notText

def namesOf (path : String) : List String :=
  (path.splitOn "/").filter fun name => name != "" && name != "."

/-- A path against the current directory, as it is shown. Two slashes at the start of an absolute
path are kept; one, or three and more, come to one. -/
def fullPath (cwd path : String) : String :=
  match path.toList with
  | '/' :: '/' :: '/' :: _ => "/" ++ "/".intercalate (namesOf path)
  | '/' :: '/' :: _ => "//" ++ "/".intercalate (namesOf path)
  | '/' :: _ => "/" ++ "/".intercalate (namesOf path)
  | _ => "/".intercalate (cwd :: namesOf path)

def isADirectory (path : String) : String := "[Errno 21] Is a directory: " ++ Text.quoted path

def notADirectory (path : String) : String := "[Errno 20] Not a directory: " ++ Text.quoted path

def nameTooLong (path : String) : String := "[Errno 36] File name too long: " ++ Text.quoted path

def permissionDenied (path : String) : String :=
  "[Errno 13] Permission denied: " ++ Text.quoted path

def longestName : Nat := 255

def longestPath : Nat := 4095

structure Files where
  files : List (List String × ByteArray)
  dirs : List (List String)

namespace Files

def file? (f : Files) (names : List String) : Option ByteArray := f.files.lookup names

def isDir (f : Files) (names : List String) : Bool :=
  names.isEmpty || f.dirs.any (names.isPrefixOf ·) || f.files.any fun (file, _) =>
    names.isPrefixOf file && names.length < file.length

def readOutside (shown : String) (names : List String) : Contents :=
  match names.dropWhile (· == "..") with
  | [] => .broken (isADirectory shown)
  | name :: _ => if longestName < name.utf8ByteSize then .broken (nameTooLong shown) else .missing

def readFrom (f : Files) (shown : String) : List String → List String → Contents
  | here, [] =>
    let names := here.reverse
    match f.file? names with
    | some bytes => .ofBytes bytes
    | none => if f.isDir names then .broken (isADirectory shown) else .missing
  | here, name :: rest =>
    let names := here.reverse
    if (f.file? names).isSome then .broken (notADirectory shown)
    else if !f.isDir names then .missing
    else if longestName < name.utf8ByteSize then .broken (nameTooLong shown)
    else if name = ".." then
      match here with
      | [] => readOutside shown rest
      | _ :: outer => readFrom f shown outer rest
    else readFrom f shown (name :: here) rest

def read (f : Files) (cwd path : String) : Contents :=
  let shown := fullPath cwd path
  if path.toList.contains '\x00' then .nulInPath
  else if longestPath < shown.utf8ByteSize then .broken (nameTooLong shown)
  else if path.toList.head? = some '/' then readOutside shown (namesOf path)
  else f.readFrom shown [] (namesOf path)

end Files
end Lox.CommandLine
