import Scriptlet.CommandLine.Arguments
import Scriptlet.CommandLine.Transcript
import Scriptlet.Diagnostic.Findings
import Scriptlet.Program.Dump

/-!
# Conclusions

What there is to say at the end of a command on a source, and how it is written
for people or as a report.
-/

namespace Scriptlet
namespace CommandLine

open Text (Style padLeft padRight)

/-- What people are shown of a source that is not run. -/
inductive Listing where
  | nothing
  | tokens (tokens : List Token)
  | tree (program : Program)
  | folded (result : Optimized)

/-- What people are shown after all diagnostics. -/
inductive Closing where
  | nothing
  | failed (title : String) (errors : Nat)
  | assertions (passed failed : Nat)
deriving DecidableEq, Repr

structure Conclusion where
  /-- The lines that the program wrote. -/
  lines : List String
  listing : Listing
  findings : Findings
  closing : Closing
  status : ExitStatus

/-!
# Listings
-/

namespace Listing

def tokenLine (color : Bool) (t : Token) : String :=
  padLeft 4 (toString t.pos.line) ++ ":" ++ padRight 3 (toString t.pos.column) ++ " " ++
    padRight 12 t.kind.label ++ " " ++ Style.faint.paint color t.text

def nodes (stmts : List Stmt) : String :=
  ofLines (stmts.map Stmt.dump)

def title (color : Bool) (name : String) (count : Nat) : String :=
  banner color (name ++ " (" ++ toString count ++ " nodes)") ++ "\n\n"

def functionTree (color : Bool) (f : Function) : String :=
  match f.body with
  | none => ""
  | some b => "\n" ++ title color ("fun " ++ f.name) b.body.length ++ nodes b.body

def programTree (color : Bool) (p : Program) : String :=
  title color "Program" p.root.length ++ nodes p.root ++
    String.join (p.functions.map (functionTree color))

def statsText (s : FoldStats) : String :=
  toString s.foldedExprs ++ " folded, " ++ toString s.elidedCalls ++ " calls elided, " ++
    toString s.removedBlocks ++ " blocks removed"

def success (color : Bool) (text : String) : String :=
  "\n" ++ successBanner color text ++ "\n"

def text (color : Bool) : Listing -> String
  | nothing => ""
  | tokens ts =>
      banner color ("Tokens (" ++ toString ts.length ++ ")") ++ "\n\n" ++
        ofLines (ts.map (tokenLine color)) ++
        success color ("Lex: " ++ toString ts.length ++ " tokens")
  | tree p => programTree color p ++ success color "Parse"
  | folded r =>
      programTree color r.program ++ success color ("Optimize: " ++ statsText r.stats)

end Listing

namespace Closing

def failuresStyle (count : Nat) : Style :=
  if count = 0 then .plain else .red

def text (color : Bool) : Closing -> String
  | nothing => ""
  | failed title errors => "\n" ++ failureBanner color title errors ++ "\n"
  | assertions passes failures =>
      if passes + failures = 0 then
        ""
      else
        banner color
          ("Assertions: " ++ Style.green.paint color (toString passes ++ " passed") ++ ", " ++
            (failuresStyle failures).paint color (toString failures ++ " failed")) ++ "\n"

end Closing

/-!
# Endings
-/

namespace Conclusion

def phaseTitle : Phase -> String
  | .lex => "Lex"
  | .parse => "Parse"
  | .optimize => "Optimize"
  | .run => "Run"

def ofFailure (lines : List String) (f : Findings) : Conclusion :=
  { lines := lines
    listing := .nothing
    findings := f
    closing := .failed (phaseTitle f.phase) f.errorCount
    status := .failure }

def ofListing (listing : Listing) (f : Findings) : Conclusion :=
  { lines := [], listing := listing, findings := f, closing := .nothing, status := .success }

/-- The transcript.  People read diagnostics beside the output, while a report
follows it. -/
def transcript (color : Bool) (format : Format) (source path : String) (c : Conclusion) :
    Transcript :=
  match format with
  | .human =>
      { stdout := ofLines c.lines ++ c.listing.text color
        stderr := ofLines (c.findings.texts color source (some path)) ++ c.closing.text color
        status := c.status }
  | .json =>
      { stdout := ofLines c.lines ++ c.findings.report source (some path) ++ "\n"
        stderr := ""
        status := c.status }

end Conclusion
end CommandLine
end Scriptlet
