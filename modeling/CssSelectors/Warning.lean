import CssSelectors.Text.Terminal

/-!
# Warnings

Warnings that are given once. A warning is recognised by the line that shows its
component and message, and is recorded whether or not output is wanted.
-/

namespace CssSelectors

structure Warning where
  component : String
  message : String
deriving DecidableEq, Repr

namespace Warning

def key (warning : Warning) : String :=
  "[" ++ warning.component ++ "] " ++ warning.message

def line (warning : Warning) : String :=
  Terminal.yellow ("[sift " ++ warning.component ++ "] ⚠ " ++ warning.message) ++ "\n"

def keptRaw (name : String) : Warning :=
  { component := "Selectors"
    message := "arguments to :" ++ name ++
      "() are neither An+B nor selectors; kept as raw tokens" }

end Warning

/-- The warnings given since the record was last cleared, whether new ones are shown, and
what has been shown. -/
structure WarningLog where
  recorded : List String := []
  enabled : Bool := true
  shown : String := ""
deriving DecidableEq, Repr

namespace WarningLog

/-- Records a warning, shows it if it is new and wanted, and tells whether it is new. -/
def record (log : WarningLog) (warning : Warning) : Bool × WarningLog :=
  if log.recorded.contains warning.key then (false, log)
  else
    (true,
      { log with
        recorded := warning.key :: log.recorded
        shown := if log.enabled then log.shown ++ warning.line else log.shown })

def recordAll (log : WarningLog) (warnings : List Warning) : WarningLog :=
  warnings.foldl (fun log warning => (log.record warning).2) log

def clear (log : WarningLog) : WarningLog :=
  { log with recorded := [] }

def setEnabled (log : WarningLog) (enabled : Bool) : WarningLog :=
  { log with enabled := enabled }

end WarningLog

end CssSelectors
