import Scriptlet.Diagnostic.Code
import Scriptlet.Diagnostic.Location
import Scriptlet.Text.Document

/-!
# Machine-readable reports

All diagnostics of one phase as a single document.
-/

namespace Scriptlet

/-- The part of the work that diagnostics belong to. -/
inductive Phase where
  | lex | parse | optimize | run
deriving DecidableEq, Repr

namespace Phase

def text : Phase -> String
  | lex => "lex"
  | parse => "parse"
  | optimize => "optimize"
  | run => "run"

end Phase

open Text (Document)

namespace Location

def document (l : Location) : Document :=
  .record [("line", .number l.line), ("column", .number l.column), ("source_line", .text l.text)]

end Location

namespace Label

def document (map : LineMap) (l : Label) : Document :=
  .record
    ([("role", .text l.role.text)] ++ Document.optional "message" .text l.message ++
      [("location", (map.reportedLocation l.pos).document)])

end Label

namespace Diagnostic

def category? (d : Diagnostic) : Option ErrorCategory :=
  (d.code.bind ErrorCode.find?).map (·.category)

def document (map : LineMap) (d : Diagnostic) : Document :=
  .record
    ([("severity", .text d.severity.text)] ++ Document.optional "code" .text d.code ++
      Document.optional "category" (fun c => .text c.text) d.category? ++
      [("message", .text d.message)] ++
      Document.optional "location" (fun pos => (map.reportedLocation pos).document) d.pos? ++
      [("labels", .list (d.labels.map (Label.document map)))] ++
      (if d.notes.isEmpty then [] else [("notes", .list (d.notes.map .text))]) ++
      Document.optional "help" .text d.help)

def report (diagnostics : List Diagnostic) (source file : String) (phase : Phase) : Document :=
  let map := LineMap.ofSource source
  let errors := diagnostics.countP (·.severity == .error)
  .record
    [("version", .number 1), ("file", .text file), ("success", .truth (errors == 0)),
      ("phase", .text phase.text),
      ("diagnostics", .list (diagnostics.map (document map))),
      ("error_count", .number errors),
      ("warning_count", .number (diagnostics.countP (·.severity == .warning)))]

end Diagnostic
end Scriptlet
