import Lox.Ident
import Lox.Text.Blank

set_option autoImplicit false

namespace Lox

structure Source where
  text : String
  path : Option String

namespace Source

def breaks : Nat → List Char → List Nat
  | _, [] => []
  | n, '\r' :: '\n' :: cs => (n + 2) :: breaks (n + 2) cs
  | n, '\r' :: cs => (n + 1) :: breaks (n + 1) cs
  | n, '\n' :: cs => (n + 1) :: breaks (n + 1) cs
  | n, _ :: cs => breaks (n + 1) cs

structure Row where
  index : Nat
  start : Nat
  text : List Char

def rowOf (s : Source) (offset : Nat) : Row :=
  let cs := s.text.toList
  let starts := 0 :: breaks 0 cs
  let index := (starts.takeWhile (· ≤ offset)).length - 1
  let start := starts.getD index 0
  let stop := starts.getD (index + 1) cs.length
  ⟨index, start, (cs.drop start).take (stop - start)⟩

def blankOut (cs : List Char) : List Char :=
  cs.map fun c => if c = '\t' then '\t' else ' '

def illustrate (line : List Char) (column width : Nat) (caption : String) : String :=
  let margin := List.replicate 4 ' '
  let carets := max 1 (min width (line.length - column))
  .ofList (margin ++ Text.trimRight line ++ '\n' ::
    margin ++ blankOut (line.take column) ++ List.replicate carets '^' ++ ' ' :: caption.toList)

def pointAt (s : Source) (span : Span) (caption : String) : String :=
  let row := s.rowOf span.start
  let column := span.start - row.start
  let place := "line " ++ toString (row.index + 1) ++ ", column " ++ toString (column + 1)
  let place :=
    match s.path with
    | none | some "" => place
    | some path => path ++ ", " ++ place
  place ++ "\n" ++ illustrate row.text column (span.stop - span.start) caption

end Source
end Lox
