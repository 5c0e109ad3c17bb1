import CssSelectors.Grammar.Options
import CssSelectors.Text.CodePoint

/-!
# Command lines

What the arguments of the program ask for. Arguments are read from left to right and
the first fault counts, except that asking for the help or the version counts at once and
that what is missing or does not go together shows only at the end.
-/

namespace CssSelectors

inductive View
  | tree
  | json
  | tokens
deriving DecidableEq, Repr

structure Request where
  selector : String
  options : Options
  view : View
  quiet : Bool
deriving DecidableEq, Repr

inductive Command
  | help
  | version
  | inspect (request : Request)
deriving DecidableEq, Repr

inductive UsageError
  | unknownOption (option : String)
  | repeatedOption (option : String)
  | valueForFlag (option : String)
  | missingDepth
  | invalidDepth (value : String)
  | unexpectedArgument (argument : String)
  | missingSelector
  | jsonWithTokens
deriving DecidableEq, Repr

def UsageError.message : UsageError → String
  | .unknownOption option => "unexpected argument '" ++ option ++ "' found"
  | .repeatedOption option => "the argument '" ++ option ++ "' cannot be used multiple times"
  | .valueForFlag option => "unexpected value for '" ++ option ++ "'"
  | .missingDepth => "a value is required for '--max-depth <N>'"
  | .invalidDepth value => "invalid value '" ++ value ++ "' for '--max-depth <N>'"
  | .unexpectedArgument argument => "unexpected argument '" ++ argument ++ "' found"
  | .missingSelector => "the argument <SELECTOR> was not provided"
  | .jsonWithTokens => "the argument '--json' cannot be used with '--tokens'"

structure Settings where
  selector : Option String := none
  extended : Bool := false
  json : Bool := false
  tokens : Bool := false
  quiet : Bool := false
  maxDepth : Option Nat := none
deriving DecidableEq, Repr

inductive Settings.Progress
  | more (settings : Settings)
  | asks (command : Command)

namespace Settings

def setExtended (settings : Settings) : Except UsageError Settings :=
  if settings.extended then .error (.repeatedOption "--extended")
  else .ok { settings with extended := true }

def setJson (settings : Settings) : Except UsageError Settings :=
  if settings.json then .error (.repeatedOption "--json")
  else .ok { settings with json := true }

def setTokens (settings : Settings) : Except UsageError Settings :=
  if settings.tokens then .error (.repeatedOption "--tokens")
  else .ok { settings with tokens := true }

def setQuiet (settings : Settings) : Except UsageError Settings :=
  if settings.quiet then .error (.repeatedOption "--quiet")
  else .ok { settings with quiet := true }

/-- A number of 64 bits in decimal digits, behind a plus sign if there is one. -/
def depth? (text : String) : Option Nat :=
  let digits := match text.toList with
    | '+' :: digits => digits
    | digits => digits
  if !digits.isEmpty && digits.all Char.isDigit && CodePoint.decimalValue digits < Nat.pow 2 64 then
    some (CodePoint.decimalValue digits)
  else none

def setMaxDepth (settings : Settings) (value : String) : Except UsageError Settings :=
  match depth? value with
  | none => .error (.invalidDepth value)
  | some depth =>
    if settings.maxDepth.isSome then .error (.repeatedOption "--max-depth")
    else .ok { settings with maxDepth := some depth }

def setSelector (settings : Settings) (argument : String) : Except UsageError Settings :=
  if settings.selector.isSome then .error (.unexpectedArgument argument)
  else .ok { settings with selector := some argument }

def finish (settings : Settings) : Except UsageError Command :=
  if settings.json && settings.tokens then .error .jsonWithTokens
  else
    match settings.selector with
    | none => .error .missingSelector
    | some selector =>
      .ok (.inspect
        { selector := selector
          options :=
            { dialect := if settings.extended then .extended else .standard
              maxDepth := settings.maxDepth.getD ({} : Options).maxDepth }
          view := if settings.tokens then .tokens else if settings.json then .json else .tree
          quiet := settings.quiet })

def readLetters (settings : Settings) : List Char → Except UsageError Progress
  | [] => .ok (.more settings)
  | letter :: letters =>
    match letter with
    | 'x' => settings.setExtended.bind (readLetters · letters)
    | 'q' => settings.setQuiet.bind (readLetters · letters)
    | 'h' => .ok (.asks .help)
    | 'V' => .ok (.asks .version)
    | _ => .error (.unknownOption ("-" ++ letter.toString))

def readOption (settings : Settings) (option : String) : Except UsageError Progress :=
  match option with
  | "--extended" => settings.setExtended.map .more
  | "--json" => settings.setJson.map .more
  | "--tokens" => settings.setTokens.map .more
  | "--quiet" => settings.setQuiet.map .more
  | "--help" => .ok (.asks .help)
  | "--version" => .ok (.asks .version)
  | _ =>
    let name := option.toList.takeWhile (· ≠ '=')
    let value := String.ofList ((option.toList.dropWhile (· ≠ '=')).drop 1)
    match String.ofList name with
    | "--max-depth" => (settings.setMaxDepth value).map .more
    | name =>
      if name ∈ ["--extended", "--json", "--tokens", "--quiet", "--help", "--version"] then
        .error (.valueForFlag name)
      else .error (.unknownOption name)

/-- Whether an argument is an option and no value: it begins with a hyphen and has more. -/
def isOption (argument : String) : Bool :=
  match argument.toList with
  | '-' :: _ :: _ => true
  | _ => false

def readArgument (settings : Settings) (argument : String) : Except UsageError Progress :=
  match argument.toList with
  | '-' :: '-' :: _ => settings.readOption argument
  | '-' :: letter :: letters => settings.readLetters (letter :: letters)
  | _ => (settings.setSelector argument).map .more

/-- Reads all arguments that follow. Behind two hyphens alone every argument is a selector. -/
def read (settings : Settings) : List String → Except UsageError Command
  | [] => settings.finish
  | "--" :: selectors =>
    (selectors.foldlM setSelector settings).bind finish
  | "--max-depth" :: [] => .error .missingDepth
  | "--max-depth" :: value :: arguments =>
    if isOption value then .error .missingDepth
    else (settings.setMaxDepth value).bind (read · arguments)
  | argument :: arguments =>
    match settings.readArgument argument with
    | .error error => .error error
    | .ok (.asks command) => .ok command
    | .ok (.more settings) => settings.read arguments

end Settings

def Command.ofArguments (arguments : List String) : Except UsageError Command :=
  Settings.read {} arguments

end CssSelectors
