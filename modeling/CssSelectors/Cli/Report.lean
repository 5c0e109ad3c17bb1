import CssSelectors.Cli.Command
import CssSelectors.Cli.Listing
import CssSelectors.Json.Selector
import CssSelectors.Parse
import CssSelectors.Text.Terminal
import CssSelectors.Warning

/-!
# Reports

What the program writes, and the exit code it leaves, for a command.
-/

namespace CssSelectors

structure Report where
  exitCode : Nat
  out : String
  err : String
deriving DecidableEq, Repr

namespace Report

def versionText : String := "sift 0.1.0\n"

def helpText : String :=
  "\n".intercalate [
    "Command-line inspector for the sift selector parser",
    "",
    "Usage: sift [OPTIONS] <SELECTOR>",
    "",
    "Arguments:",
    "  <SELECTOR>  Selector list to parse",
    "",
    "Options:",
    "  -x, --extended       Accept the extended path-style dialect",
    "      --json           Print the syntax tree as JSON",
    "      --tokens         Print the token stream instead of parsing",
    "      --max-depth <N>  Maximum nesting of functional pseudo-class arguments [default: " ++
      toString ({} : Options).maxDepth ++ "]",
    "  -q, --quiet          Do not print parser warnings",
    "  -h, --help           Print help",
    "  -V, --version        Print version",
    "",
    "EXAMPLES:",
    "    # Print the syntax tree of a selector list",
    "    sift 'ul > li:nth-child(2n+1), a[href$=\".pdf\" i]'",
    "",
    "    # Parse the extended dialect (// and / combinators, @attr, [n], text())",
    "    sift --extended 'div//a/@href'",
    "",
    "    # Emit the tree as JSON",
    "    sift --json ':is(h1, h2)::before'",
    "",
    "    # Show the tokens the parser sees",
    "    sift --tokens 'a:not(.b)'",
    ""]

def marker (first last : Nat) : String :=
  String.ofList (List.replicate (first - 1) ' ' ++ List.replicate (last - first + 1) '^')

/-- The selector and, below it in bold red, the marker of what an error points at. -/
def underline (selector : String) (error : SelectorError) : String :=
  match error.range? with
  | none => ""
  | some (first, last) =>
    "  " ++ selector ++ "\n" ++
      "  " ++ Terminal.bold (Terminal.red (marker first last)) ++ "\n"

def indentLines (text : String) : String :=
  "\n".intercalate ((text.splitOn "\n").map ("    " ++ ·))

def failure (error : SelectorError) : String :=
  "Error: could not parse selector\n\nCaused by:\n" ++ indentLines error.message ++ "\n"

def warnings (request : Request) (parsed : Parsed) : String :=
  (WarningLog.recordAll (({} : WarningLog).setEnabled !request.quiet)
    (parsed.keptRaw.map .keptRaw)).shown

def json (list : List Selector) : String :=
  Json.pretty 0 (.arr (Selector.listToJson list)) ++ "\n"

/-- The report on a selector that is read: its list in the given form, or what is wrong with
it, after the warnings. -/
def ofReading (request : Request) (form : List Selector → String) : Report :=
  let parsed := readTokens request.options (tokenize request.selector)
  let warned := warnings request parsed
  match parsed.result with
  | .ok list => ⟨0, form list, warned⟩
  | .error error => ⟨1, "", warned ++ underline request.selector error ++ failure error⟩

def ofRequest (request : Request) : Report :=
  match request.view with
  | .tree => ofReading request Listing.tree
  | .json => ofReading request json
  | .tokens => ⟨0, Listing.tokens (tokenize request.selector), ""⟩

def ofCommand : Command → Report
  | .help => ⟨0, helpText, ""⟩
  | .version => ⟨0, versionText, ""⟩
  | .inspect request => ofRequest request

def ofArguments (arguments : List String) : Report :=
  match Command.ofArguments arguments with
  | .ok command => ofCommand command
  | .error error => ⟨2, "", "error: " ++ error.message ++ "\n"⟩

end Report

end CssSelectors
