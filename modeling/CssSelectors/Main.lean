import CssSelectors.Cli.Report

/-!
# The program

Writes the report on its arguments.
-/

def main (arguments : List String) : IO UInt32 := do
  let report := CssSelectors.Report.ofArguments arguments
  (← IO.getStdout).putStr report.out
  (← IO.getStderr).putStr report.err
  return UInt32.ofNat report.exitCode
