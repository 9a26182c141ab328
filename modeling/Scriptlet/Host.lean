import Scriptlet.Evaluation.Run
import Scriptlet.Source.Position
import Scriptlet.Value

/-!
# Hosts

A host takes the lines and assertion reports that a program makes and hands out
the lines that it reads.  Programs reach it only through native functions.
-/

namespace Scriptlet

structure Report where
  passed : Bool
  pos : Pos
  message : String
deriving DecidableEq, Repr

structure Host where
  /-- Lines that are still to be read. -/
  input : List String
  lines : Array String
  reports : Array Report
deriving DecidableEq, Repr

namespace Host

def ofInput (input : List String) : Host :=
  { input := input, lines := #[], reports := #[] }

instance : Inhabited Host :=
  ⟨ofInput []⟩

def writeLine (h : Host) (text : String) : Host :=
  { h with lines := h.lines.push text }

def readLine (h : Host) : Option String × Host :=
  match h.input with
  | [] => (none, h)
  | line :: rest => (some line, { h with input := rest })

def report (h : Host) (r : Report) : Host :=
  { h with reports := h.reports.push r }

def failures (h : Host) : List Report :=
  h.reports.toList.filter (!·.passed)

end Host

/-!
# Native functions
-/

/-- A call of a native function: its place in the program and its arguments. -/
structure NativeCall where
  pos : Pos
  args : List Value

/-- A function that the host provides.  It works on the state of the host alone;
its errors are messages. -/
abbrev Native (host : Type) : Type :=
  NativeCall -> Run String host (Option Value)

class HasHost (state : Type) where
  host : state -> Host
  withHost : Host -> state -> state

instance : HasHost Host where
  host h := h
  withHost h _ := h

namespace Native

def lift {σ : Type} [HasHost σ] (f : Native Host) : Native σ :=
  fun call s => (f call (HasHost.host s)).mapState (HasHost.withHost · s)

end Native
end Scriptlet
