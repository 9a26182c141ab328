/-!
# Painted text

Terminal styles are written as escape sequences around a text.  A sequence that
ends styles inside the text is followed by the start of the style again, so that
the style covers all of it.
-/

namespace Scriptlet
namespace Text

inductive Color where
  | red | green | yellow | blue | cyan
deriving DecidableEq, Repr

structure Style where
  bold : Bool
  dimmed : Bool
  underlined : Bool
  color : Option Color
deriving DecidableEq, Repr

namespace Color

def code : Color -> String
  | red => "31"
  | green => "32"
  | yellow => "33"
  | blue => "34"
  | cyan => "36"

end Color

namespace Style

def plain : Style :=
  { bold := false, dimmed := false, underlined := false, color := none }

def ofColor (color : Color) : Style :=
  { plain with color := some color }

def bolded (s : Style) : Style :=
  { s with bold := true }

def red : Style := ofColor .red
def green : Style := ofColor .green
def yellow : Style := ofColor .yellow
def blue : Style := ofColor .blue
def cyan : Style := ofColor .cyan
def strong : Style := plain.bolded
def faint : Style := { plain with dimmed := true }
def underline : Style := { plain with underlined := true }

def codes (s : Style) : List String :=
  (if s.bold then ["1"] else []) ++ (if s.dimmed then ["2"] else []) ++
    (if s.underlined then ["4"] else []) ++ (s.color.map Color.code).toList

def isPlain (s : Style) : Bool :=
  s.codes.isEmpty

def opening (s : Style) : String :=
  "\x1b[" ++ ";".intercalate s.codes ++ "m"

def closing : String := "\x1b[0m"

def paint (enabled : Bool) (s : Style) (text : String) : String :=
  if enabled && !s.isPlain then
    s.opening ++ text.replace closing (closing ++ s.opening) ++ closing
  else
    text

theorem paint_off (s : Style) (text : String) : s.paint false text = text := by
  simp [paint]

end Style

/-!
# Padding
-/

def spaces (n : Nat) : String :=
  String.ofList (List.replicate n ' ')

def padLeft (width : Nat) (text : String) : String :=
  spaces (width - text.length) ++ text

def padRight (width : Nat) (text : String) : String :=
  text ++ spaces (width - text.length)

end Text
end Scriptlet
