import Scriptlet.CommandLine.Arguments
import Scriptlet.CommandLine.Transcript

/-!
# Help

The usage of the program and the answers to arguments that are refused.
-/

namespace Scriptlet
namespace CommandLine

open Text (Style)

namespace Help

def programName : String := "tl"

def versionNumber : String := "0.1.0"

abbrev Line : Type := List (Style × String)

def plain (text : String) : Style × String := (.plain, text)

def word (text : String) : Style × String := (.green, text)

def argument (text : String) : Style × String := (.cyan, text)

def heading (text : String) : Line := [(Style.yellow.bolded, text)]

def usageLabel : Style × String := (.yellow, "Usage")

def Line.text (color : Bool) (line : Line) : String :=
  String.join (line.map fun (style, text) => style.paint color text)

def lines (color : Bool) (ls : List Line) : String :=
  ofLines (ls.map (Line.text color))

def versionLine : Line :=
  [(Style.strong, programName), plain " ", (Style.faint, versionNumber)]

def usageLines : List Line :=
  [versionLine ++ [plain " - a small scripting language with scoped declarations"],
    [],
    [usageLabel, plain ": ", word programName, plain " ", argument "<command>", plain " ",
      argument "[args]"],
    [],
    heading "Running:",
    [plain "  ", word "run", plain " ", argument "<file>",
      plain "         Optimize and run a program"],
    [plain "      ", argument "--no-optimize", plain "      Run without constant folding"],
    [plain "      ", argument "--compare",
      plain "          Run both ways and check they agree"],
    [plain "  ", argument "<file.tl>", plain "                  Same as ", word "run"],
    [],
    heading "Compilation Phases:",
    [plain "  ", word "lex", plain " ", argument "<file>",
      plain "         Tokenize a file and print tokens"],
    [plain "  ", word "parse", plain " ", argument "<file>",
      plain "       Parse a file and print the tree"],
    [plain "  ", word "optimize", plain " ", argument "<file>",
      plain "    Fold constants and print the result"],
    [],
    heading "Options:",
    [plain "  ", argument "--format human|json", plain "  Diagnostic format (default: human)"],
    [plain "  ", argument "-v, --verbose",
      plain "            More log output (repeat for trace)"],
    [plain "  ", argument "-q, --quiet", plain "              Errors only"],
    [],
    heading "Environment:",
    [plain "  ", argument "TL_LOG",
      plain "       Log level filter (error, warn, info, debug, trace, off)"],
    [plain "  ", argument "NO_COLOR", plain "     Disable colors"],
    [plain "  ", argument "FORCE_COLOR", plain "  Force colors"]]

def runUsageLine : Line :=
  [usageLabel, plain ": ", word (programName ++ " run"), plain " ",
    argument "[--no-optimize | --compare]", plain " ", argument "<file.tl>"]

def stageUsageLine (stage : Stage) : Line :=
  [plain "Usage: ", word (programName ++ " " ++ stage.word), plain " ", argument "<file.tl>"]

def usage (color : Bool) : String := lines color usageLines

def runUsage (color : Bool) : String := lines color [runUsageLine]

def version (color : Bool) : String := lines color [versionLine]

def errorLabel : Style × String := (Style.red.bolded, "error")

def error (color : Bool) (message : Line) : String :=
  lines color [errorLabel :: plain ": " :: message]

end Help

namespace Refusal

def transcript (color : Bool) : Refusal -> Transcript
  | formatMissing =>
      { stdout := ""
        stderr := Help.error color [Help.plain "`--format` needs a value: human or json"]
        status := .failure }
  | formatUnknown value =>
      { stdout := ""
        stderr := Help.error color
          [Help.plain ("unknown format `" ++ value ++ "`, expected human or json")]
        status := .failure }
  | pathMissing stage =>
      { stdout := ""
        stderr := Help.lines color [Help.stageUsageLine stage]
        status := .failure }
  | runPathMissing =>
      { stdout := Help.runUsage color, stderr := "", status := .failure }
  | runFlagUnknown flag =>
      { stdout := Help.runUsage color
        stderr := Help.error color [Help.plain ("unknown flag for `run`: " ++ flag)]
        status := .failure }
  | commandUnknown word =>
      { stdout := Help.usage color
        stderr := Help.error color [Help.plain ("unknown command: " ++ word)]
        status := .failure }

end Refusal
end CommandLine
end Scriptlet
