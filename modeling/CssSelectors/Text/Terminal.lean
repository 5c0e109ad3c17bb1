/-!
# Terminal styles

Text between the codes that switch a style of the terminal on and off again.
-/

namespace CssSelectors

namespace Terminal

def yellow (text : String) : String :=
  "\x1b[33m" ++ text ++ "\x1b[39m"

def red (text : String) : String :=
  "\x1b[31m" ++ text ++ "\x1b[39m"

def bold (text : String) : String :=
  "\x1b[1m" ++ text ++ "\x1b[0m"

end Terminal

end CssSelectors
