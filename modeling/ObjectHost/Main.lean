-- SUMMARY: The inspection tool as a program.
import ObjectHost.CommandLine.Arguments

/-!
# The inspection tool
-/

open ObjectHost.CommandLine

def usageText : String :=
  "Usage: pyhost [--qualifier <QUALIFIER>] [--cycles <reenter|fail-fast>] <COMMAND>\n\n" ++
    "Commands:\n" ++
    "  taxonomy [--root <CLASS>]\n" ++
    "  ancestry <CLASS>\n" ++
    "  resolve <NAME> [--from <CALLER>] [--module <FQ>]...\n" ++
    "  module-name <PATH> [--base <DIR>]\n"

def main (args : List String) : IO UInt32 := do
  let outcome := run args
  match outcome with
  | .answered output => IO.print output
  | .failed e => IO.eprintln e.report
  | .refused .displayVersion => IO.print versionText
  | .refused .displayHelp => IO.print usageText
  | .refused e => IO.eprint ("error: " ++ e.label ++ "\n\n" ++ usageText)
  return UInt32.ofNat outcome.exitCode
