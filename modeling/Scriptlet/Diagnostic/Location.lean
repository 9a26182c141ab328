import Scriptlet.Diagnostic
import Scriptlet.Source.LineMap

/-!
# Locations in a source

A position is shown with the text of its line.  The end of the input is shown
behind the last character of the last line.
-/

namespace Scriptlet

structure Location where
  line : Nat
  column : Nat
  text : String
deriving DecidableEq, Repr

namespace LineMap

def endLocation? (map : LineMap) : Option Location :=
  (map.lineText map.lineCount).map fun text =>
    { line := map.lineCount, column := text.utf8ByteSize + 1, text := text }

def locate? (map : LineMap) (pos : Pos) : Option Location :=
  if pos.isEndOfInput then
    map.endLocation?
  else
    (map.lineText pos.line).map fun text =>
      { line := pos.line, column := max pos.column 1, text := text }

/-- Where a report says that a position is; a line that the source lacks has no
text. -/
def reportedLocation (map : LineMap) (pos : Pos) : Location :=
  if pos.isEndOfInput then
    map.endLocation?.getD { line := map.lineCount, column := 1, text := "" }
  else
    { line := pos.line, column := pos.column, text := (map.lineText pos.line).getD "" }

end LineMap
end Scriptlet
