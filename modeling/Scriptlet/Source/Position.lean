/-!
# Source positions

A position names a line and a byte column, both counted from one.  The pair
`0:0` stands for the end of the input, which lies on no line.
-/

namespace Scriptlet

structure Pos where
  line : Nat
  column : Nat
deriving DecidableEq, Repr, Inhabited

namespace Pos

def start : Pos :=
  { line := 1, column := 1 }

def endOfInput : Pos :=
  { line := 0, column := 0 }

def isEndOfInput (pos : Pos) : Bool :=
  pos.line == 0

def text (pos : Pos) : String :=
  toString pos.line ++ ":" ++ toString pos.column

/-!
# Order

Positions are read by line first.
-/

def before (a b : Pos) : Bool :=
  a.line < b.line || (a.line == b.line && a.column < b.column)

end Pos
end Scriptlet
