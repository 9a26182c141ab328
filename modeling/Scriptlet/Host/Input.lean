import Scriptlet.Host
import Scriptlet.Source.LineMap

/-!
# Lines of input

A text is cut into the lines that a host hands out.  What stands behind the last
newline is a line of its own unless it is empty.
-/

namespace Scriptlet
namespace Host

/-- The lines of a text, where `closed` ends a line before its newline and `last`
ends the one that has none. -/
def cutLines (closed last : List Char -> List Char) : List (List Char) -> List (List Char)
  | [] => []
  | [line] => if line.isEmpty then [] else [last line]
  | line :: next :: rest => closed line :: cutLines closed last (next :: rest)

def dropReturn (line : List Char) : List Char :=
  if line.getLast? = some '\r' then line.dropLast else line

def trimmedLines (text : String) : List String :=
  (cutLines (dropTrailing '\r') (dropTrailing '\r') (splitLines text.toList)).map String.ofList

/-- Lines without their newlines, which may be preceded by one carriage return. -/
def plainLines (text : String) : List String :=
  (cutLines dropReturn id (splitLines text.toList)).map String.ofList

end Host
end Scriptlet
