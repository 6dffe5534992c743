import Lox.Main
import Lox.Proofs.Grammar.Plain
import Lox.Proofs.Scope.Discipline
import Lox.Proofs.Session.Closing
import Lox.Proofs.Scope.Stale
import Lox.Proofs.Slots.Events
import Lox.Proofs.Slots.Traces
import Lox.Proofs.Slots.Ordering
import Lox.Proofs.Slots.Calls
import Lox.Proofs.Run.Lockstep
import Lox.Proofs.Tree.Renamed
import Lox.Proofs.Scope.Renamed
import Lox.Proofs.Machine.Renamed
import Lox.Proofs.Eval.Renamed
import Lox.Proofs.Slots.Renamed
import Lox.Proofs.Session.Renamed
import Lox.Proofs.Session.Rejected
import Lox.Proofs.Slots.Shape
import Lox.Proofs.Slots.Keys
import Lox.Proofs.Scope.Contract
import Lox.Proofs.Session.Prompt
import Lox.Proofs.Scan.Tokens
import Lox.Proofs.Scope.Collection
import Lox.Proofs.Grammar.Exact
import Lox.Proofs.Grammar.Legible
import Lox.Proofs.Parser.Nesting
import Lox.Proofs.Grammar.Productions
import Lox.Proofs.Grammar.Context
import Lox.Proofs.Session.Culprit
import Lox.Proofs.Slots.Loops
import Lox.Proofs.Parser.Repetition
import Lox.Proofs.Grammar.Choices
