import Scriptlet.Source.Position

/-!
# Diagnostics

A diagnostic is a message about a source, with labels at positions and with
further remarks.
-/

namespace Scriptlet

inductive Severity where
  | error | warning | note
deriving DecidableEq, Repr

namespace Severity

def text : Severity -> String
  | error => "error"
  | warning => "warning"
  | note => "note"

end Severity

/-- A primary label shows where the problem is, a secondary one what it is
related to. -/
inductive LabelRole where
  | primary | secondary
deriving DecidableEq, Repr

namespace LabelRole

def text : LabelRole -> String
  | primary => "primary"
  | secondary => "secondary"

end LabelRole

structure Label where
  pos : Pos
  role : LabelRole
  message : Option String
deriving DecidableEq, Repr

structure Diagnostic where
  severity : Severity
  code : Option String
  message : String
  labels : List Label
  notes : List String
  help : Option String
deriving DecidableEq, Repr

namespace Diagnostic

def plain (severity : Severity) (message : String) : Diagnostic :=
  { severity := severity, code := none, message := message, labels := [], notes := [], help := none }

def error (code message : String) : Diagnostic :=
  { plain .error message with code := some code }

def warning (code message : String) : Diagnostic :=
  { plain .warning message with code := some code }

def label (d : Diagnostic) (role : LabelRole) (pos : Pos) (message : String) : Diagnostic :=
  { d with labels := d.labels ++ [{ pos := pos, role := role, message := some message }] }

def labelAt (d : Diagnostic) (pos : Pos) (message : String) : Diagnostic :=
  d.label .primary pos message

def note (d : Diagnostic) (text : String) : Diagnostic :=
  { d with notes := d.notes ++ [text] }

def withHelp (d : Diagnostic) (text : String) : Diagnostic :=
  { d with help := some text }

/-- The label that gives the place: the first primary one, or else the first. -/
def mainLabel? (d : Diagnostic) : Option Label :=
  (d.labels.find? (·.role == .primary)).or d.labels.head?

def pos? (d : Diagnostic) : Option Pos :=
  d.mainLabel?.map (·.pos)

def isError (d : Diagnostic) : Bool :=
  d.severity == .error

end Diagnostic
end Scriptlet
