import Scriptlet.Text.Paint

/-!
# Transcripts

What a command leaves behind: a text on each of the two output streams and an exit
status.
-/

namespace Scriptlet
namespace CommandLine

open Text (Style)

inductive ExitStatus where
  | success
  | failure
  /-- The program ran to its end and an assertion failed. -/
  | assertionFailed
deriving DecidableEq, Repr

namespace ExitStatus

def code : ExitStatus -> Nat
  | success => 0
  | failure => 1
  | assertionFailed => 2

end ExitStatus

structure Transcript where
  stdout : String
  stderr : String
  status : ExitStatus
deriving DecidableEq, Repr

def ofLines (lines : List String) : String :=
  String.join (lines.map (· ++ "\n"))

/-!
# Banners
-/

def banner (color : Bool) (title : String) : String :=
  let rule := Style.faint.paint color "==="
  rule ++ " " ++ title ++ " " ++ rule

def successBanner (color : Bool) (title : String) : String :=
  banner color ((Style.green.bolded).paint color (title ++ " OK"))

def failureBanner (color : Bool) (title : String) (errors : Nat) : String :=
  let count := if errors = 1 then "1 error" else toString errors ++ " errors"
  banner color (Style.red.bolded.paint color (title ++ " FAILED: " ++ count))

end CommandLine
end Scriptlet
