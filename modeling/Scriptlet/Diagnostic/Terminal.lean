import Scriptlet.Diagnostic.Location
import Scriptlet.Text.Alphanumeric
import Scriptlet.Text.Blank
import Scriptlet.Text.Paint

/-!
# Diagnostics on a terminal

A header, the lines that carry labels with marks below them, and the remarks.
-/

namespace Scriptlet
namespace Terminal

open Text (Style padLeft spaces)

structure PlacedLabel where
  column : Nat
  width : Nat
  role : LabelRole
  message : Option String
deriving DecidableEq, Repr

structure LabeledLine where
  line : Nat
  text : String
  labels : List PlacedLabel
deriving DecidableEq, Repr

/-!
# Widths
-/

def isWordChar (c : Char) : Bool :=
  Text.isAlphanumeric c || c == '_' || c == '.'

def isOperatorChar (c : Char) : Bool :=
  !Text.isBlank c && !isWordChar c

/-- The characters behind the first `bytes` bytes.  There are none if these bytes
end inside a character or behind the text. -/
def dropBytes : Nat -> List Char -> List Char
  | 0, cs => cs
  | _ + 1, [] => []
  | bytes + 1, c :: cs =>
      if c.utf8Size ≤ bytes + 1 then dropBytes (bytes + 1 - c.utf8Size) cs else []

/-- How many characters the word or operator run at the front has; at least one. -/
def runWidth (cs : List Char) : Nat :=
  match cs with
  | [] => 1
  | c :: _ =>
      if isWordChar c then (cs.takeWhile isWordChar).length
      else if isOperatorChar c then (cs.takeWhile isOperatorChar).length
      else 1

def markWidth (text : String) (column : Nat) : Nat :=
  runWidth (dropBytes (column - 1) text.toList)

/-!
# Lines with labels
-/

def addLabel (l : Location) (a : PlacedLabel) : List LabeledLine -> List LabeledLine
  | [] => [{ line := l.line, text := l.text, labels := [a] }]
  | first :: rest =>
      if l.line < first.line then
        { line := l.line, text := l.text, labels := [a] } :: first :: rest
      else if l.line = first.line then
        { first with labels := first.labels ++ [a] } :: rest
      else
        first :: addLabel l a rest

def labeledLines (map : LineMap) (labels : List Label) : List LabeledLine :=
  let add (lines : List LabeledLine) (label : Label) : List LabeledLine :=
    match map.locate? label.pos with
    | none => lines
    | some l =>
        let a : PlacedLabel :=
          { column := l.column
            width := markWidth l.text l.column
            role := label.role
            message := label.message }
        addLabel l a lines
  labels.foldl add []

/-!
# Marks
-/

def rolePriority : LabelRole -> Nat
  | .primary => 0
  | .secondary => 1

def inPaintOrder (a b : PlacedLabel) : Bool :=
  rolePriority a.role < rolePriority b.role ||
    (a.role == b.role && a.column ≤ b.column)

def markOf : LabelRole -> Char
  | .primary => '^'
  | .secondary => '-'

def covers (place : Nat) (a : PlacedLabel) : Bool :=
  a.column ≤ place + 1 && place + 1 < a.column + a.width

/-- The mark below a place of the line; the first label that covers it wins. -/
def markAt (labels : List PlacedLabel) (place : Nat) : Char :=
  match labels.find? (covers place) with
  | some a => markOf a.role
  | none => ' '

def underline (labels : List PlacedLabel) : List Char :=
  let sorted := labels.mergeSort inPaintOrder
  let width := (labels.map fun a => a.column + a.width - 1).foldl max 0
  (List.range width).map (markAt sorted)

def roleStyle : LabelRole -> Style
  | .primary => Style.red.bolded
  | .secondary => .blue

def markStyle (mark : Char) : Style :=
  if mark == '^' then roleStyle .primary
  else if mark == '-' then roleStyle .secondary
  else .plain

def paintMarks (color : Bool) (marks : List Char) : String :=
  let runs := marks.splitBy (· == ·)
  String.join (runs.map fun run =>
    (markStyle (run.headD ' ')).paint color (String.ofList run))

/-!
# Text
-/

def bar (color : Bool) : String :=
  Style.blue.paint color "|"

/-- The messages of a line, by column; of equal columns the one painted first. -/
def messages (labels : List PlacedLabel) : List (PlacedLabel × String) :=
  let sorted := labels.mergeSort inPaintOrder
  let withText := sorted.filterMap fun a => a.message.map fun text => (a, text)
  withText.mergeSort fun a b => a.1.column ≤ b.1.column

def messageLine (color : Bool) (margin : String) (entry : PlacedLabel × String) : String :=
  let style := roleStyle entry.1.role
  margin ++ " " ++ bar color ++ " " ++ spaces (entry.1.column - 1) ++ style.paint color "|" ++ " " ++
    style.paint color entry.2 ++ "\n"

/-- The marks below a line with their messages: one message beside the marks,
several below them, the rightmost first. -/
def labelText (color : Bool) (margin : String) (labels : List PlacedLabel) : String :=
  let marks := margin ++ " " ++ bar color ++ " " ++ paintMarks color (underline labels)
  match messages labels with
  | [] => marks ++ "\n"
  | [(a, text)] => marks ++ " " ++ (roleStyle a.role).paint color text ++ "\n"
  | entries => marks ++ "\n" ++ String.join (entries.reverse.map (messageLine color margin))

def lineText (color : Bool) (gutter : Nat) (l : LabeledLine) : String :=
  Style.blue.bolded.paint color (padLeft (gutter + 1) (toString l.line)) ++ " " ++ bar color ++ " " ++
    l.text ++ "\n" ++ labelText color (spaces (gutter + 1)) l.labels

def linesText (color : Bool) (gutter : Nat) : Option Nat -> List LabeledLine -> String
  | _, [] => ""
  | previous, l :: rest =>
      let gap :=
        match previous with
        | none => spaces (gutter + 1) ++ " " ++ bar color ++ "\n"
        | some line =>
            if line + 1 < l.line then
              spaces gutter ++ " " ++ Style.blue.paint color "..." ++ "\n"
            else
              ""
      gap ++ lineText color gutter l ++ linesText color gutter (some l.line) rest

def severityStyle : Severity -> Style
  | .error => Style.red.bolded
  | .warning => Style.yellow.bolded
  | .note => Style.blue.bolded

def header (color : Bool) (d : Diagnostic) : String :=
  let severity := (severityStyle d.severity).paint color d.severity.text
  let code :=
    match d.code with
    | some code => "[" ++ Style.red.bolded.paint color code ++ "]"
    | none => ""
  severity ++ code ++ ": " ++ Style.strong.paint color d.message ++ "\n"

def remark (color : Bool) (gutter : Nat) (kind text : String) : String :=
  spaces (gutter + 1) ++ " " ++ Style.cyan.paint color "=" ++ " " ++
    Style.cyan.bolded.paint color kind ++ ": " ++ text ++ "\n"

def remarks (color : Bool) (gutter : Nat) (d : Diagnostic) : String :=
  String.join (d.notes.map (remark color gutter "note")) ++
    String.join (d.help.toList.map (remark color gutter "help"))

def gutterWidth (lines : List LabeledLine) : Nat :=
  max (toString ((lines.getLast?.map (·.line)).getD 0)).length 2

def unnamedSource : String := "<source>"

def format (color : Bool) (source : String) (file : Option String) (d : Diagnostic) : String :=
  let map := LineMap.ofSource source
  let lines := labeledLines map d.labels
  match d.pos?.bind map.locate?, lines with
  | some l, _ :: _ =>
      let gutter := gutterWidth lines
      let arrow := "  " ++ Style.blue.paint color "-->" ++ " " ++ file.getD unnamedSource ++ ":" ++
        toString l.line ++ ":" ++ toString l.column ++ "\n"
      let divider :=
        if d.notes.isEmpty && d.help.isNone then ""
        else spaces (gutter + 1) ++ " " ++ bar color ++ "\n"
      header color d ++ arrow ++ linesText color gutter none lines ++ divider ++
        remarks color gutter d
  | _, _ => header color d ++ remarks color 2 d

end Terminal
end Scriptlet
